import Lookout.Control
import Lookout.Fwctl
import Lookout.Loader
import Lookout.Polls

/-!
When the arithmetic of the token bucket is that of the integers.

The refill multiplies, divides and adds in 64 bits. `fwctl` and the controller keep the rate far
from overflow; `fwload` takes any rate and both take any burst. For the settings in use, whatever
their order and whatever the clock says, no operation wraps exactly when the largest rate fits the
product and every burst leaves room for a second's refill.
-/

namespace Lookout.Overflow

open Lookout.Effects Lookout.Effects.Prog Lookout.Common Lookout.Packet Lookout.Limiter
open Lookout.Kernel Lookout.Firewall Lookout.Fwctl Lookout.Policy Lookout.Polls

/-! ### The operations -/

/-- The tokens a refill adds. -/
def added (p : Pending) (st : SrcState) : U64 := (refill p.now p.rate st.last_refill_ns).1

/-- Every operation of the bucket has the value it has over the integers. -/
structure Unwrapped (p : Pending) (st : SrcState) : Prop where
  product : elapsed p.now st.last_refill_ns < NSEC_PER_SEC →
    (elapsed p.now st.last_refill_ns * p.rate).toNat =
      (elapsed p.now st.last_refill_ns).toNat * p.rate.toNat
  time : elapsed p.now st.last_refill_ns < NSEC_PER_SEC →
    (added p st * NSEC_PER_SEC).toNat = (added p st).toNat * NSEC_PER_SEC.toNat
  refilled : elapsed p.now st.last_refill_ns < NSEC_PER_SEC → 0 < added p st →
    (st.last_refill_ns + added p st * NSEC_PER_SEC / p.rate).toNat =
      st.last_refill_ns.toNat + (added p st * NSEC_PER_SEC / p.rate).toNat
  sum : (st.tokens + added p st).toNat = st.tokens.toNat + (added p st).toNat

/-- The largest rate whose product with less than a second fits 64 bits. -/
def MAX_RATE : ℕ := 18446744092

lemma product_lt {e rate : ℕ} (he : e < 1000000000) (hr : rate ≤ MAX_RATE) : e * rate < 2 ^ 64 := by
  have h : e * rate ≤ 999999999 * MAX_RATE := Nat.mul_le_mul (by omega) hr
  unfold MAX_RATE at h
  omega

lemma added_within {p : Pending} {st : SrcState}
    (h : elapsed p.now st.last_refill_ns < NSEC_PER_SEC) :
    added p st = elapsed p.now st.last_refill_ns * p.rate / NSEC_PER_SEC := by
  have hnot : ¬ elapsed p.now st.last_refill_ns ≥ NSEC_PER_SEC := BitVec.not_le.mpr h
  unfold added refill
  dsimp only
  rw [if_neg hnot]

lemma added_after {p : Pending} {st : SrcState}
    (h : ¬ elapsed p.now st.last_refill_ns < NSEC_PER_SEC) : added p st = p.rate := by
  have hge : elapsed p.now st.last_refill_ns ≥ NSEC_PER_SEC := BitVec.not_lt.mp h
  unfold added refill
  dsimp only
  rw [if_pos hge]

/-- With a rate that fits, a refill adds at most the rate. -/
lemma added_le {p : Pending} {st : SrcState} (hr : p.rate.toNat ≤ MAX_RATE) :
    (added p st).toNat ≤ p.rate.toNat := by
  by_cases h : elapsed p.now st.last_refill_ns < NSEC_PER_SEC
  · have he : (elapsed p.now st.last_refill_ns).toNat < 1000000000 := h
    rw [added_within h, BitVec.toNat_udiv, BitVec.toNat_mul, nsec_toNat,
      Nat.mod_eq_of_lt (product_lt he hr)]
    refine Nat.div_le_of_le_mul ?_
    exact Nat.mul_le_mul_right _ he.le
  · rw [added_after h]

/-- **Settings that fit do not wrap**, on any entry that holds no more tokens than fit. -/
lemma unwrapped_of_le {p : Pending} {st : SrcState} (hr : p.rate.toNat ≤ MAX_RATE)
    (hw : st.tokens.toNat + p.rate.toNat < 2 ^ 64) : Unwrapped p st := by
  have hproduct : elapsed p.now st.last_refill_ns < NSEC_PER_SEC →
      (elapsed p.now st.last_refill_ns * p.rate).toNat =
        (elapsed p.now st.last_refill_ns).toNat * p.rate.toNat := by
    intro h
    have he : (elapsed p.now st.last_refill_ns).toNat < 1000000000 := h
    rw [BitVec.toNat_mul, Nat.mod_eq_of_lt (product_lt he hr)]
  have htime : elapsed p.now st.last_refill_ns < NSEC_PER_SEC →
      (added p st * NSEC_PER_SEC).toNat = (added p st).toNat * NSEC_PER_SEC.toNat := by
    intro h
    have he : (elapsed p.now st.last_refill_ns).toNat < 1000000000 := h
    rw [BitVec.toNat_mul, added_within h, BitVec.toNat_udiv, hproduct h, nsec_toNat]
    exact Nat.mod_eq_of_lt ((Nat.div_mul_le_self _ _).trans_lt (product_lt he hr))
  refine ⟨hproduct, htime, fun h hpos => ?_, ?_⟩
  · have he := elapsed_toNat p.now st.last_refill_ns
    have hnow := p.now.isLt
    have hadded : (added p st).toNat =
        (elapsed p.now st.last_refill_ns).toNat * p.rate.toNat / 1000000000 := by
      rw [added_within h, BitVec.toNat_udiv, hproduct h, nsec_toNat]
    have hmove : (added p st * NSEC_PER_SEC / p.rate).toNat ≤
        (elapsed p.now st.last_refill_ns).toNat := by
      rw [BitVec.toNat_udiv, htime h, nsec_toNat, hadded]
      refine Nat.div_le_of_le_mul ((Nat.div_mul_le_self _ _).trans ?_)
      rw [Nat.mul_comm]
    have hlast := st.last_refill_ns.isLt
    rw [BitVec.toNat_add]
    apply Nat.mod_eq_of_lt
    omega
  · have hle : (added p st).toNat ≤ p.rate.toNat := added_le hr
    rw [BitVec.toNat_add]
    apply Nat.mod_eq_of_lt
    omega

/-! ### Settings and entries -/

/-- The packet has read its settings from one of the configurations, and is tracked. -/
def Under (C : Set FwConfig) (p : Pending) : Prop :=
  ∃ c ∈ C, p.rate = c.rate_pps ∧ p.burst = c.burst_pkts ∧ p.feat = c.features ∧
    has c.features FEAT_TRACK_STATE = true

/-- All packets of a life have. -/
def AllUnder (C : Set FwConfig) (h : List Ev) : Prop :=
  ∀ p, (.create p ∈ h ∨ .count p ∈ h) → Under C p

/-- The bucket decides packets under this configuration. -/
def Limits (c : FwConfig) : Prop :=
  has c.features FEAT_TRACK_STATE = true ∧ has c.features FEAT_RATELIMIT = true ∧
    0 < c.rate_pps.toNat

/-- Each rate in use fits the product, and a second of it fits beside every burst. -/
def Fit (C : Set FwConfig) : Prop :=
  ∀ c ∈ C, Limits c → c.rate_pps.toNat ≤ MAX_RATE ∧
    ∀ c' ∈ C, has c'.features FEAT_TRACK_STATE = true →
      c'.burst_pkts.toNat + c.rate_pps.toNat < 2 ^ 64

/-- The tokens are within one of the bursts. -/
def Bounded (C : Set FwConfig) (e : Option SrcState) : Prop :=
  ∀ st, e = some st → ∃ c ∈ C, has c.features FEAT_TRACK_STATE = true ∧
    st.tokens.toNat ≤ c.burst_pkts.toNat

/-- A packet leaves at most its burst, or the tokens as they were. -/
lemma tokens_locked (p : Pending) (st : SrcState) :
    (locked p st).1.tokens.toNat ≤ p.burst.toNat ∨ (locked p st).1.tokens = st.tokens := by
  by_cases hl : limited p = true
  · refine Or.inl ?_
    have hbucket := congrArg TokenBucket.Bucket.tokens (locked_limited st hl).1
    exact hbucket.trans_le ((token_bucket_room p _).1.trans (Nat.sub_le _ _))
  · have hl' : limited p = false := by simpa using hl
    have hbucket := congrArg TokenBucket.Bucket.tokens (locked_decided st hl').1
    exact Or.inr (BitVec.eq_of_toNat_eq hbucket)

lemma bounded_step {C : Set FwConfig} {t : Life} (h : Bounded C t.entry) {ev : Ev}
    (hev : ∀ p, (ev = .create p ∨ ev = .count p) → Under C p) : Bounded C (t.step ev).entry := by
  obtain ⟨entry, renewed, seen⟩ := t
  cases ev with
  | create p =>
    cases entry with
    | none =>
      rintro st ⟨⟩
      obtain ⟨c, hc, -, hburst, -, htrack⟩ := hev p (Or.inl rfl)
      refine ⟨c, hc, htrack, ?_⟩
      rw [← hburst]
      exact le_rfl
    | some st => exact h
  | count p =>
    cases entry with
    | none => exact h
    | some old =>
      rintro st ⟨⟩
      rcases tokens_locked p old with hle | hsame
      · obtain ⟨c, hc, -, hburst, -, htrack⟩ := hev p (Or.inr rfl)
        refine ⟨c, hc, htrack, ?_⟩
        rw [← hburst]
        exact hle
      · obtain ⟨c, hc, htrack, hle⟩ := h old rfl
        refine ⟨c, hc, htrack, ?_⟩
        rw [hsame]
        exact hle
  | delete => nofun

/-- The tokens stay within the bursts, all along the life of an entry. -/
lemma bounded_live {C : Set FwConfig} {h : List Ev} (hall : AllUnder C h) :
    Bounded C (live none h).entry := by
  induction h using List.reverseRecOn with
  | nil => nofun
  | append_singleton h ev ih =>
    rw [live, List.foldl_append]
    refine bounded_step (ih fun p hp => hall p ?_) fun p hp => hall p ?_
    · exact hp.imp (List.mem_append_left _) (List.mem_append_left _)
    · rcases hp with rfl | rfl
      · exact Or.inl (List.mem_append_right _ List.mem_cons_self)
      · exact Or.inr (List.mem_append_right _ List.mem_cons_self)

/-- Nothing wraps, for any packets under these configurations and whatever their clocks say. -/
def NeverWraps (C : Set FwConfig) : Prop :=
  ∀ h st, AllUnder C h → (live none h).entry = some st →
    ∀ p, Under C p → limited p = true → Unwrapped p st

lemma limits_of_limited {C : Set FwConfig} {p : Pending} (h : Under C p) (hl : limited p = true) :
    ∃ c ∈ C, p.rate = c.rate_pps ∧ Limits c := by
  obtain ⟨c, hc, hrate, -, hfeat, htrack⟩ := h
  unfold limited at hl
  rw [Bool.and_eq_true, Bool.and_eq_true, decide_eq_true_iff, hfeat, hrate] at hl
  exact ⟨c, hc, hrate, htrack, hl.1.2, hl.2⟩

lemma never_wraps_of_fit {C : Set FwConfig} (h : Fit C) : NeverWraps C := by
  intro l st hall hst p hp hl
  obtain ⟨c, hc, hrate, hlim⟩ := limits_of_limited hp hl
  obtain ⟨hmax, hroom⟩ := h c hc hlim
  obtain ⟨c', hc', htrack, htokens⟩ := bounded_live hall st hst
  have hsum := hroom c' hc' htrack
  refine unwrapped_of_le (by rwa [hrate]) ?_
  rw [hrate]
  omega

/-- A packet at a time, with the settings of a configuration. -/
def at_time (now : U64) (c : FwConfig) : Pending :=
  ⟨now, c.rate_pps, c.burst_pkts, c.features, 7, 17, 0, 53, 60, .pass, .pass_default⟩

lemma limited_at_time (now : U64) {c : FwConfig} (h : Limits c) :
    limited (at_time now c) = true := by
  obtain ⟨-, hlimit, hpos⟩ := h
  unfold limited at_time
  rw [Bool.and_eq_true, Bool.and_eq_true]
  exact ⟨⟨rfl, hlimit⟩, decide_eq_true hpos⟩

lemma under_at_time {C : Set FwConfig} (now : U64) {c : FwConfig} (hc : c ∈ C)
    (h : has c.features FEAT_TRACK_STATE = true) : Under C (at_time now c) :=
  ⟨c, hc, rfl, rfl, rfl, h⟩

/-- A new entry, which is full. -/
lemma unwrapped_new {C : Set FwConfig} (h : NeverWraps C) {c c' : FwConfig} (hc : c ∈ C)
    (hc' : c' ∈ C) (hlim : Limits c) (htrack : has c'.features FEAT_TRACK_STATE = true)
    (now : U64) : Unwrapped (at_time now c) (init (at_time 0 c')) := by
  refine h [.create (at_time 0 c')] _ ?_ rfl _ (under_at_time now hc hlim.1)
    (limited_at_time now hlim)
  rintro p (hp | hp)
  · cases List.mem_singleton.mp hp
    exact under_at_time 0 hc' htrack
  · cases List.mem_singleton.mp hp

lemma fit_of_never_wraps {C : Set FwConfig} (h : NeverWraps C) : Fit C := by
  intro c hc hlim
  constructor
  · -- one nanosecond less than a second after the entry is made
    have hless : elapsed 999999999 0 < NSEC_PER_SEC := by decide
    have hproduct := (unwrapped_new h hc hc hlim hlim.1 999999999).product hless
    have hwide := (elapsed 999999999 0 * c.rate_pps).isLt
    have hsecond : (elapsed 999999999 0).toNat = 999999999 := by decide
    have heq : (elapsed 999999999 0 * c.rate_pps).toNat = 999999999 * c.rate_pps.toNat := by
      rw [← hsecond]
      exact hproduct
    unfold MAX_RATE
    omega
  · -- a whole second after it
    intro c' hc' htrack
    have hsum := (unwrapped_new h hc hc' hlim htrack 1000000000).sum
    have hover : ¬ elapsed 1000000000 0 < NSEC_PER_SEC := by decide
    have hadded : added (at_time 1000000000 c) (init (at_time 0 c')) = c.rate_pps :=
      added_after hover
    rw [hadded] at hsum
    have hwide := ((init (at_time 0 c')).tokens + c.rate_pps).isLt
    rw [hsum] at hwide
    exact hwide

/-- **The bucket never wraps** exactly when the settings fit. -/
theorem never_wraps_iff_fit (C : Set FwConfig) : NeverWraps C ↔ Fit C :=
  ⟨fit_of_never_wraps, never_wraps_of_fit⟩

/-! ### Who writes the settings -/

/-- The configurations that come to be stored when `fwload` is given these. -/
inductive Stored (given : Set FwConfig) : FwConfig → Prop
  | fwload {c : FwConfig} (h : c ∈ given) : Stored given c
  | config_set {n : ℕ} {cpu : Fin n} {args : ConfigArgs} {w w' : World n}
    {r : Except PyError Unit} (hw : Stored given w.config)
    (h : run (exec cpu) (cmd_config_set args) w = (r, w')) : Stored given w'.config
  | policy {n : ℕ} {cpu : Fin n} {policy : Policy} {w w' : World n} {r : Except PyError Unit}
    (hw : Stored given w.config) (h : run (exec cpu) (cmd_policy policy) w = (r, w')) :
    Stored given w'.config
  | tier {n : ℕ} {cpu : Fin n} {a : Aggressiveness} {w w' : World n} {r : Except PyError Config}
    (hw : Stored given w.config)
    (h : run (exec cpu) (update_config (Control.tier_changes a)) w = (r, w')) :
    Stored given w'.config

/-- A rate of `fwload`'s, or one that `fwctl` and the controller may write. -/
def RateKept (given : Set FwConfig) (c : FwConfig) : Prop :=
  (∃ g ∈ given, c.rate_pps = g.rate_pps) ∨ c.rate_pps.toNat ≤ 100000000

variable {n : ℕ} {cpu : Fin n} {w w' : World n}

/-- What a call of `update_config` stores. -/
lemma config_of_update {changes : Changes} {r : Except PyError Config}
    (h : run (exec cpu) (update_config changes) w = (r, w')) :
    w'.config = w.config ∨ w'.config = packed ((unpack_config w.config).update changes) := by
  rw [run_update_config] at h
  split_ifs at h
  · exact Or.inr (congrArg World.config (Prod.mk.inj h).2).symm
  · exact Or.inl (congrArg World.config (Prod.mk.inj h).2).symm

/-- What a command stores that ends with such a call. -/
lemma config_of_command {changes : Changes} {r : Except PyError Unit}
    (h : run (exec cpu) (do
      let _ ← update_config changes
      return () : Py Unit) w = (r, w')) :
    w'.config = w.config ∨ w'.config = packed ((unpack_config w.config).update changes) := by
  rcases hu : run (exec cpu) (update_config changes) w with ⟨⟨e⟩ | ⟨cfg⟩, w1⟩
  · have hall := Exc.run_bind_error (g := fun _ : Config => (pure () : Py Unit)) hu
    have hw : w1 = w' := (Prod.mk.inj (hall.symm.trans h)).2
    exact hw ▸ config_of_update hu
  · have hall := Exc.run_bind_ok (g := fun _ : Config => (pure () : Py Unit)) hu
    have hw : w1 = w' := (Prod.mk.inj (hall.symm.trans h)).2
    exact hw ▸ config_of_update hu

/-- `config set` checks the rate it is given. -/
lemma config_of_config_set {args : ConfigArgs} {r : Except PyError Unit}
    (h : run (exec cpu) (cmd_config_set args) w = (r, w')) :
    w'.config = w.config ∨ (0 ≤ args.rate.getD 0 ∧ args.rate.getD 0 ≤ 100000000) ∧
      ∃ changes : Changes, changes.rate_pps = args.rate ∧
        w'.config = packed ((unpack_config w.config).update changes) := by
  have hread : run (exec cpu) read_config w = (.ok (unpack_config w.config), w) := rfl
  unfold cmd_config_set at h
  have h1 := (Exc.run_bind_ok hread).symm.trans h
  split_ifs at h1 with hrate hburst
  · exact Or.inl (congrArg World.config (Prod.mk.inj h1).2).symm
  · exact (config_of_command h1).imp id fun hpacked => ⟨hrate, _, rfl, hpacked⟩
  · exact Or.inl (congrArg World.config (Prod.mk.inj h1).2).symm

lemma rate_packed (c : FwConfig) (changes : Changes) :
    (packed ((unpack_config c).update changes)).rate_pps =
      match changes.rate_pps with
      | none => c.rate_pps
      | some rate => BitVec.ofInt 64 rate := by
  unfold packed unpack_config Config.update
  cases changes.rate_pps with
  | none =>
    apply BitVec.eq_of_toNat_eq
    simp
  | some rate => rfl

/-- A small rate is stored as it is. -/
lemma rate_small {rate : ℤ} (h0 : 0 ≤ rate) (h : rate ≤ 100000000) :
    (BitVec.ofInt 64 rate).toNat ≤ 100000000 := by
  obtain ⟨r, rfl⟩ := Int.eq_ofNat_of_zero_le h0
  rw [BitVec.ofInt_natCast, BitVec.toNat_ofNat]
  exact (Nat.mod_le _ _).trans (by exact_mod_cast h)

/-- **Only `fwload` stores a rate above 100 million.** -/
theorem rate_stored {given : Set FwConfig} {c : FwConfig} (h : Stored given c) :
    RateKept given c := by
  induction h with
  | fwload h => exact Or.inl ⟨_, h, rfl⟩
  | @config_set n cpu args w w' r hw h ih =>
    rcases config_of_config_set h with hsame | ⟨⟨h0, hmax⟩, changes, hchanges, hpacked⟩
    · rwa [hsame]
    · rw [hpacked]
      unfold RateKept
      rw [rate_packed, hchanges]
      cases hr : args.rate with
      | none => exact ih
      | some rate =>
        rw [hr] at h0 hmax
        exact Or.inr (rate_small h0 hmax)
  | @policy n cpu policy w w' r hw h ih =>
    rcases config_of_command h with hsame | hpacked
    · rwa [hsame]
    · rw [hpacked]
      unfold RateKept
      rw [rate_packed]
      exact ih
  | @tier n cpu a w w' r hw h ih =>
    rcases config_of_update h with hsame | hpacked
    · rwa [hsame]
    · rw [hpacked]
      unfold RateKept
      rw [rate_packed]
      have htiers : ∀ l : Fin 4, (TIERS.get l).1 ≤ 100000000 := by decide
      exact Or.inr (rate_small (Int.natCast_nonneg _) (by exact_mod_cast htiers a.level))

/-- `fwload -i veth-fw -r 20000000000`. -/
def fast : List Loader.Opt := [.i "veth-fw", .r "20000000000"]

/-- The configuration it stores. -/
def fast_config : FwConfig := { default_config with rate_pps := 20000000000 }

/-- The loader stores the rate, and the product wraps one nanosecond short of a second. -/
theorem fast_rate_wraps :
    (∃ st, Loader.getopts fast = .ok st ∧ st.cfg = fast_config) ∧
      ¬ NeverWraps {fast_config} := by
  refine ⟨⟨_, rfl, by decide +kernel⟩, fun h => ?_⟩
  have hmax := (fit_of_never_wraps h fast_config rfl ⟨by decide, by decide, by decide⟩).1
  exact absurd hmax (by decide)

end Lookout.Overflow

import Lookout.Ladder
import Lookout.Load
import Lookout.Pacing
import Lookout.Tier
import Lookout.Tightening
import Mathlib.Tactic.Linarith
import Mathlib.Tactic.Positivity

/-!
The loop between the limiter and the tier.

The tier follows the load and the share of it that the limiter drops, and the limiter drops what
the tier tells it to. Under a constant load that tier 0 passes in full, the question is whether
the drops of a tight tier keep the tier tight.
-/

namespace Lookout.Feedback

open Lookout.Effects (Exc)
open Lookout.Effects.Prog (Exec run_bind run_call op_eq call_bind ret_bind)
open Lookout.Dicts (Dict)
open Lookout.Handles (RefMap)
open Lookout.Common Lookout.Packet
open Lookout.TokenBucket Lookout.Limiter Lookout.Firewall Lookout.Policy Lookout.Tightening
open Lookout.Kernel (World Quiet kernel exec)
open Lookout.Xdp (update_state locked_stage)
open Lookout.Accounting (exec_total)
open Lookout.Control (Controller act measure_keeps)
open Lookout.Pacing (Paced Near step_empty period_passed first_passed)
open Lookout.Traffic (limiter_input run_found exec_locked)
open Lookout.Load (Accepts SameLoad accepts_iff measure_accepts exec_tune_load
  exec_clean_up_load)
open Lookout.Tier (Live Agree exec_act exec_tune exec_clean_up)
open Lookout.Ladder (move_cases lower_val)

/-! ### The limiter -/

/-- The packet comes to the token bucket. -/
structure Reaches (p : Pending) : Prop where
  verdict : p.verdict = .pass
  feat : has p.feat FEAT_RATELIMIT = true
  reason : p.reason = .pass_rule ∨ p.reason = .pass_default

/-- The packets of a source, one after another under the limits of a tier: its entry after them,
and what they are counted under. -/
def decided (tier : ℕ × ℕ) (st : SrcState) : List Pending → SrcState × List Stat
  | [] => (st, [])
  | p :: ps =>
    let r := locked (with_tier tier p) st
    let rest := decided tier r.1 ps
    (rest.1, r.2.2 :: rest.2)

/-- How many of them were dropped. -/
def drops (tier : ℕ × ℕ) (st : SrcState) (ps : List Pending) : ℕ :=
  (decided tier st ps).2.count .drop_ratelimit

variable {p : Pending} {ps : List Pending} {st : SrcState}

lemma drops_cons (tier : ℕ × ℕ) (st : SrcState) (p : Pending) (ps : List Pending) :
    drops tier st (p :: ps) = drops tier (locked (with_tier tier p) st).1 ps +
      if (locked (with_tier tier p) st).2.2 = .drop_ratelimit then 1 else 0 := by
  unfold drops
  simp only [decided, List.count_cons, beq_iff_eq]

lemma limited_of_reaches (i : Fin 4) (hp : Reaches p) :
    limited (with_tier (TIERS.get i) p) = true := by
  rw [limited_with_tier, hp.verdict, hp.feat]
  rfl

/-- A packet is counted as passed or as dropped by the limiter. -/
lemma reason_of_reaches (i : Fin 4) (hp : Reaches p) (st : SrcState) :
    (locked (with_tier (TIERS.get i) p) st).2 = (.pass, p.reason) ∨
      (locked (with_tier (TIERS.get i) p) st).2 = (.drop, .drop_ratelimit) := by
  rcases locked_verdict (with_tier (TIERS.get i) p) st with h | h
  · left
    rw [h, ← hp.verdict]
    rfl
  · exact Or.inr h.2

/-- Every packet adds one to the limiter's counters. -/
lemma limiter_input_decided (i : Fin 4) (hps : ∀ p ∈ ps, Reaches p) (st : SrcState) :
    limiter_input (fun s => (decided (TIERS.get i) st ps).2.count s) = ps.length := by
  induction ps generalizing st with
  | nil => rfl
  | cons p ps ih =>
    have hrest := ih (fun q hq => hps q (List.mem_cons_of_mem _ hq))
      (locked (with_tier (TIERS.get i) p) st).1
    have hreason : (locked (with_tier (TIERS.get i) p) st).2.2 ∈ LIMITER_INPUT := by
      have hp := hps p List.mem_cons_self
      rcases reason_of_reaches i hp st with h | h <;> rw [h]
      · rcases hp.reason with hr | hr <;> rw [hr] <;> decide
      · decide
    unfold limiter_input at hrest ⊢
    simp only [decided, List.count_cons, LIMITER_INPUT, List.map_cons, List.map_nil, List.sum_cons,
      List.sum_nil, List.length_cons, List.mem_cons, List.not_mem_nil, or_false] at hrest hreason ⊢
    rcases hreason with h | h | h <;> rw [h] <;> simp <;> omega

/-- One packet, on an entry with no more tokens than the burst. -/
lemma locked_tier (i : Fin 4) (hp : Reaches p) (htok : st.tokens.toNat ≤ (TIERS.get i).2) :
    (bucket (locked (with_tier (TIERS.get i) p) st).1,
        decide ((locked (with_tier (TIERS.get i) p) st).2.1 = .pass)) =
      step 1000000000 (TIERS.get i).1 (TIERS.get i).2 (bucket st) p.now.toNat := by
  obtain ⟨hrate, hburst⟩ := tier_toNat i
  obtain ⟨hpos, hr, hb⟩ := tier_pos i
  have hl := limited_of_reaches i hp
  obtain ⟨hbk, hvd⟩ := locked_limited st hl
  have hr' : (with_tier (TIERS.get i) p).rate.toNat = (TIERS.get i).1 := hrate
  have hb' : (with_tier (TIERS.get i) p).burst.toNat = (TIERS.get i).2 := hburst
  have hwrap : (count_packet (with_tier (TIERS.get i) p) st).tokens.toNat +
      (with_tier (TIERS.get i) p).rate.toNat < 2 ^ 64 := by
    change st.tokens.toNat + _ < _
    omega
  have hstep := token_bucket_eq (count_packet (with_tier (TIERS.get i) p) st) (by omega) hwrap
    (limited_pass hl)
  rw [← hbk, ← hvd, bucket_count_packet, hr', hb'] at hstep
  exact hstep

lemma step_tokens_le (N rate burst : ℕ) (b : Bucket) (now : ℕ) :
    (step N rate burst b now).1.tokens ≤ burst := by
  change min (b.tokens + earned N rate b.last now) burst - 1 ≤ burst
  omega

/-- **The packets of a source are a run of its bucket.** -/
theorem decided_run (i : Fin 4) (hps : ∀ p ∈ ps, Reaches p)
    (htok : st.tokens.toNat ≤ (TIERS.get i).2) :
    bucket (decided (TIERS.get i) st ps).1 =
        (run 1000000000 (TIERS.get i).1 (TIERS.get i).2 (bucket st)
          (ps.map fun p => p.now.toNat)).1 ∧
      drops (TIERS.get i) st ps + (run 1000000000 (TIERS.get i).1 (TIERS.get i).2 (bucket st)
          (ps.map fun p => p.now.toNat)).2 = ps.length := by
  induction ps generalizing st with
  | nil => exact ⟨rfl, rfl⟩
  | cons p ps ih =>
    have hp := hps p List.mem_cons_self
    obtain ⟨hbk, hpass⟩ := Prod.ext_iff.mp (locked_tier i hp htok)
    dsimp only at hbk hpass
    have htok' : (locked (with_tier (TIERS.get i) p) st).1.tokens.toNat ≤ (TIERS.get i).2 := by
      have hle := step_tokens_le 1000000000 (TIERS.get i).1 (TIERS.get i).2 (bucket st) p.now.toNat
      rw [← hbk] at hle
      exact hle
    obtain ⟨hrest, hcount⟩ := ih (fun q hq => hps q (List.mem_cons_of_mem _ hq)) htok'
    rw [hbk] at hrest hcount
    refine ⟨hrest, ?_⟩
    have hone : (if (locked (with_tier (TIERS.get i) p) st).2.2 = .drop_ratelimit then 1 else 0) +
        (decide ((locked (with_tier (TIERS.get i) p) st).2.1 = .pass)).toNat = 1 := by
      rcases reason_of_reaches i hp st with h | h <;> rw [h]
      · rcases hp.reason with hr | hr <;> rw [hr] <;> rfl
      · rfl
    unfold drops at hcount ⊢
    simp only [decided, List.count_cons, List.map_cons, run, List.length_cons,
      beq_iff_eq] at hcount ⊢
    rw [← hpass]
    omega

/-- A packet whose clock reading is not behind settles the bucket, whatever it held. -/
lemma locked_near (i : Fin 4) (hp : Reaches p) (hlast : st.last_refill_ns.toNat ≤ p.now.toNat) :
    Near (1000000000 / (TIERS.get i).1) (TIERS.get i).2
      (bucket (locked (with_tier (TIERS.get i) p) st).1) p.now.toNat := by
  obtain ⟨hrate, hburst⟩ := tier_toNat i
  obtain ⟨hpos, hr, -⟩ := tier_pos i
  have hr' : (with_tier (TIERS.get i) p).rate.toNat = (TIERS.get i).1 := hrate
  have hb' : (with_tier (TIERS.get i) p).burst.toNat = (TIERS.get i).2 := hburst
  obtain ⟨hroom, hrefill⟩ := token_bucket_room (with_tier (TIERS.get i) p)
    (count_packet (with_tier (TIERS.get i) p) st)
  rw [hb'] at hroom
  have hrate10 : (with_tier (TIERS.get i) p).rate.toNat ≤ 10000000000 := by omega
  have hmoved := (refill_toNat p.now st.last_refill_ns hrate10).2
  rw [hr'] at hmoved
  obtain ⟨hle, hleft⟩ := sub_moved_lt (tier_mul i) (tier_tick_pos i) hpos hlast
  have hmoved' : (token_bucket (with_tier (TIERS.get i) p)
      (count_packet (with_tier (TIERS.get i) p) st)).1.last_refill_ns.toNat =
        moved 1000000000 (TIERS.get i).1 st.last_refill_ns.toNat p.now.toNat := by
    rw [hrefill]
    exact hmoved
  rw [(locked_limited st (limited_of_reaches i hp)).1]
  generalize (token_bucket (with_tier (TIERS.get i) p)
    (count_packet (with_tier (TIERS.get i) p) st)).1 = st' at hroom hmoved' ⊢
  refine ⟨?_, ?_, ?_⟩
  · exact hmoved'.trans_le hle
  · change p.now.toNat - st'.last_refill_ns.toNat < _
    rw [hmoved']
    exact hleft
  · exact hroom.trans_lt (Nat.sub_lt (tier_burst_pos i) Nat.one_pos)

/-! ### The kernel's packets -/

section Machine

variable {n : ℕ} {w : World n} {a : Aggressiveness}

/-- The packet was read under the limits in the map. -/
def HasLimits (cfg : FwConfig) (p : Pending) : Prop :=
  p.rate = cfg.rate_pps ∧ p.burst = cfg.burst_pkts

/-- The limits of the level are the ones in the map. -/
lemma with_tier_limits {cfg : FwConfig} (hagree : Agree cfg a) (hp : HasLimits cfg p) :
    with_tier a.limits p = p := by
  obtain ⟨hrate, hburst, -⟩ := hagree
  obtain ⟨hr, hb⟩ := hp
  unfold with_tier
  rw [← hrate, ← hburst, BitVec.ofNat_toNat, BitVec.ofNat_toNat, BitVec.setWidth_eq,
    BitVec.setWidth_eq, ← hr, ← hb]

/-- The packets of a source from `update_state` on, one after another on one cpu. -/
def kernel_packets (cpu : Fin n) (w : World n) : List Pending → World n
  | [] => w
  | p :: ps => kernel_packets cpu (Effects.Prog.run (exec cpu) (update_state p) w).2 ps

lemma run_known (cpu : Fin n) (htrack : has p.feat FEAT_TRACK_STATE = true)
    (hst : w.srcstate.get p.saddr = some st) :
    let w' := (Effects.Prog.run (exec cpu) (update_state p) w).2
    w'.srcstate.get p.saddr = some (locked p st).1 ∧ w'.config = w.config ∧
      ∀ s, w'.total s = w.total s + if s = (locked p st).2.2 then 1 else 0 := by
  intro w'
  cases hf : w.srcstate.find p.saddr with
  | none =>
    rw [RefMap.get_eq_none.mpr hf] at hst
    cases hst
  | some r =>
    have hw' : w' = (exec cpu { w with srcstate := w.srcstate.set r (locked p st).1 }
        (.stat_add (locked p st).2.2 1)).2 := by
      change (Effects.Prog.run (exec cpu) (update_state p) w).2 = _
      rw [run_found htrack hf]
      unfold locked_stage
      simp only [op_eq, call_bind, ret_bind, run_call]
      rw [exec_locked hf hst]
      rfl
    rw [hw']
    exact ⟨RefMap.get_set _ _ hf, rfl, fun s => exec_total rfl s⟩

/-- **The kernel decides the packets of a source as `decided` says**, when the map holds the limits
of the level. -/
theorem kernel_decides (cpu : Fin n) {ps : List Pending} {w : World n} {st : SrcState} {addr : Addr}
    (hagree : Agree w.config a) (hst : w.srcstate.get addr = some st)
    (hps : ∀ p ∈ ps, p.saddr = addr ∧ has p.feat FEAT_TRACK_STATE = true ∧ HasLimits w.config p) :
    (kernel_packets cpu w ps).srcstate.get addr = some (decided a.limits st ps).1 ∧
      ∀ s, (kernel_packets cpu w ps).total s =
        w.total s + (decided a.limits st ps).2.count s := by
  induction ps generalizing w st with
  | nil => exact ⟨hst, fun s => rfl⟩
  | cons p ps ih =>
    obtain ⟨rfl, htrack, hlimits⟩ := hps p List.mem_cons_self
    obtain ⟨hget, hcfg, htotal⟩ := run_known cpu htrack hst
    have htier := with_tier_limits hagree hlimits
    rw [← hcfg] at hagree
    obtain ⟨hget', htotal'⟩ := ih hagree hget fun q hq => by
      rw [hcfg]
      exact hps q (List.mem_cons_of_mem _ hq)
    simp only [kernel_packets, decided, htier, List.count_cons, beq_iff_eq]
    refine ⟨hget', fun s => ?_⟩
    rw [htotal' s, htotal s]
    simp only [eq_comm (a := s)]
    omega

end Machine

/-! ### A source at a constant pace -/

/-- A source that sends `x` packets a second, evenly spaced, and all of them come to the token
bucket. -/
structure Source where
  x : ℕ
  reading : ℕ → ℕ
  packet : ℕ → Pending
  paced : Paced 1000000000 x reading
  now : ∀ j < 6 * x, (packet j).now.toNat = reading j
  reaches : ∀ j, Reaches (packet j)

namespace Source

/-- The packets of the `k`th second. -/
def window (s : Source) (k : ℕ) : List Pending := (List.range' (k * s.x) s.x).map s.packet

/-- A bucket state to start from, and one that the packets of `k` seconds have left. -/
def Settled (s : Source) (tier : ℕ × ℕ) : ℕ → SrcState → Prop
  | 0, st => st.last_refill_ns.toNat ≤ s.reading 0
  | k + 1, st => Near (1000000000 / tier.1) tier.2 (bucket st) (s.reading ((k + 1) * s.x - 1))

/-- The bucket was empty at the first packet, and that of a fast source has stayed so. -/
def Drained (s : Source) (tier : ℕ × ℕ) : ℕ → SrcState → Prop
  | 0, st => bucket st = ⟨0, s.reading 0⟩
  | _ + 1, st => tier.1 < s.x → (bucket st).tokens = 0

/-- The most that the limiter drops of the source in the `k`th second. -/
def excess (s : Source) (rate k : ℕ) : ℕ := s.x - rate + if k = 0 ∧ 0 < s.x then 1 else 0

lemma length_window (s : Source) (k : ℕ) : (s.window k).length = s.x := by simp [window]

lemma reaches_window (s : Source) (k : ℕ) : ∀ p ∈ s.window k, Reaches p := by
  intro p hp
  obtain ⟨j, -, rfl⟩ := List.mem_map.mp hp
  exact s.reaches j

/-- The readings of `m` packets within the six seconds. -/
lemma now_range (s : Source) (j m : ℕ) (h : j + m ≤ 6 * s.x) :
    ((List.range' j m).map s.packet).map (fun p => p.now.toNat) =
      Pacing.readings s.reading j m := by
  rw [List.map_map, Pacing.readings]
  refine List.map_congr_left fun i hi => s.now i ?_
  rw [List.mem_range'_1] at hi
  omega

/-- **A second after the first.** -/
lemma next_window (s : Source) (i : Fin 4) (hx : 0 < s.x) {k : ℕ} (hk : k + 1 < 6) {st : SrcState}
    (h : s.Settled (TIERS.get i) (k + 1) st) :
    s.Settled (TIERS.get i) (k + 2) (decided (TIERS.get i) st (s.window (k + 1))).1 ∧
      drops (TIERS.get i) st (s.window (k + 1)) ≤ s.x - (TIERS.get i).1 ∧
      (s.Drained (TIERS.get i) (k + 1) st →
        s.Drained (TIERS.get i) (k + 2) (decided (TIERS.get i) st (s.window (k + 1))).1 ∧
          drops (TIERS.get i) st (s.window (k + 1)) = s.x - (TIERS.get i).1) := by
  have hmul : (k + 1) * s.x + s.x ≤ 6 * s.x := by
    rw [← Nat.succ_mul]
    exact Nat.mul_le_mul_right _ (by omega)
  have hge : s.x ≤ (k + 1) * s.x := Nat.le_mul_of_pos_left _ (by omega)
  have hsucc : (k + 2) * s.x = (k + 1) * s.x + s.x := Nat.succ_mul _ _
  have hprev : (k + 1) * s.x - 1 + 1 = (k + 1) * s.x := by omega
  have hend : (k + 1) * s.x - 1 + s.x = (k + 2) * s.x - 1 := by omega
  obtain ⟨hbk, hsum⟩ := decided_run i (s.reaches_window (k + 1)) h.room.le
  have hnow : (s.window (k + 1)).map (fun p => p.now.toNat) =
      Pacing.readings s.reading ((k + 1) * s.x - 1 + 1) s.x := by
    rw [hprev]
    exact s.now_range _ _ hmul
  obtain ⟨hnear, hpass, hempty⟩ := period_passed s.paced (tier_mul i) (tier_tick_pos i)
    (tier_two_le i) (tier_burst_pos i) hx _ h
  rw [← hnow, ← hbk] at hnear hempty
  rw [← hnow] at hpass
  rw [hend] at hnear
  rw [s.length_window] at hsum
  refine ⟨hnear, by omega, fun hdrained => ?_⟩
  obtain ⟨hzero, hle⟩ := hempty hdrained
  exact ⟨hzero, by omega⟩

/-- The packets of the first second after the first one. -/
def rest (s : Source) : List Pending := (List.range' 1 (s.x - 1)).map s.packet

lemma window_zero (s : Source) (hx : 0 < s.x) : s.window 0 = s.packet 0 :: s.rest := by
  obtain ⟨m, hm⟩ : ∃ m, s.x = m + 1 := ⟨s.x - 1, by omega⟩
  rw [window, rest, Nat.zero_mul, hm]
  rfl

lemma reaches_rest (s : Source) : ∀ p ∈ s.rest, Reaches p := by
  intro p hp
  obtain ⟨j, -, rfl⟩ := List.mem_map.mp hp
  exact s.reaches j

/-- The first packet finds an empty bucket. -/
lemma first_drained (s : Source) (i : Fin 4) (hx : 0 < s.x) {st : SrcState}
    (h : s.Drained (TIERS.get i) 0 st) :
    bucket (locked (with_tier (TIERS.get i) (s.packet 0)) st).1 = ⟨0, s.reading 0⟩ ∧
      (locked (with_tier (TIERS.get i) (s.packet 0)) st).2.2 = .drop_ratelimit := by
  have hb0 : bucket st = ⟨0, s.reading 0⟩ := h
  have hzero : st.tokens.toNat = 0 := congrArg Bucket.tokens hb0
  have htok : st.tokens.toNat ≤ (TIERS.get i).2 := by omega
  have hstep := locked_tier i (s.reaches 0) htok
  rw [hb0, s.now 0 (by omega), step_empty (by omega)] at hstep
  obtain ⟨hbk, hpass⟩ := Prod.ext_iff.mp hstep
  refine ⟨hbk, ?_⟩
  rcases reason_of_reaches i (s.reaches 0) st with h | h
  · rw [h] at hpass
    cases hpass
  · rw [h]

/-- **The first second**: one packet more may be dropped. -/
lemma first_window (s : Source) (i : Fin 4) (hx : 0 < s.x) (hxN : s.x ≤ 1000000000)
    {st : SrcState} (h : s.Settled (TIERS.get i) 0 st) :
    s.Settled (TIERS.get i) 1 (decided (TIERS.get i) st (s.window 0)).1 ∧
      drops (TIERS.get i) st (s.window 0) ≤ s.x - (TIERS.get i).1 + 1 ∧
      (s.Drained (TIERS.get i) 0 st →
        s.Drained (TIERS.get i) 1 (decided (TIERS.get i) st (s.window 0)).1 ∧
          drops (TIERS.get i) st (s.window 0) = s.x - (TIERS.get i).1 + 1) := by
  have hfirst : (s.packet 0).now.toNat = s.reading 0 := s.now 0 (by omega)
  have hbehind : st.last_refill_ns.toNat ≤ (s.packet 0).now.toNat := by
    rw [hfirst]
    exact h
  have hnear0 := locked_near i (s.reaches 0) hbehind
  rw [hfirst] at hnear0
  obtain ⟨hbk, hsum⟩ := decided_run i s.reaches_rest hnear0.room.le
  have hnow : s.rest.map (fun p => p.now.toNat) = Pacing.readings s.reading 1 (s.x - 1) :=
    s.now_range 1 (s.x - 1) (by omega)
  have hlength : s.rest.length = s.x - 1 := by simp [rest]
  rw [hnow] at hbk hsum
  rw [hlength] at hsum
  obtain ⟨hnear, hpass, hempty⟩ := first_passed s.paced (tier_mul i) (tier_tick_pos i)
    (tier_two_le i) (tier_burst_pos i) hx hxN hnear0
  rw [← hbk] at hnear hempty
  have hdrops := drops_cons (TIERS.get i) st (s.packet 0) s.rest
  rw [s.window_zero hx]
  have hlast : s.reading (s.x - 1) = s.reading ((0 + 1) * s.x - 1) := by
    rw [Nat.zero_add, Nat.one_mul]
  rw [hlast] at hnear
  refine ⟨hnear, ?_, fun hdrained => ?_⟩
  · split_ifs at hdrops <;> omega
  · obtain ⟨hbk0, hdrop⟩ := s.first_drained i hx hdrained
    obtain ⟨hempty', hle⟩ := hempty hbk0
    rw [if_pos hdrop] at hdrops
    exact ⟨hempty', by omega⟩

/-- **One second of a source**, under the limits of a tier. -/
theorem window_drops (s : Source) (i : Fin 4) (hx : 0 < s.x) (hxN : s.x ≤ 1000000000) {k : ℕ}
    (hk : k < 6) {st : SrcState} (h : s.Settled (TIERS.get i) k st) :
    s.Settled (TIERS.get i) (k + 1) (decided (TIERS.get i) st (s.window k)).1 ∧
      drops (TIERS.get i) st (s.window k) ≤ s.excess (TIERS.get i).1 k ∧
      (s.Drained (TIERS.get i) k st →
        s.Drained (TIERS.get i) (k + 1) (decided (TIERS.get i) st (s.window k)).1 ∧
          drops (TIERS.get i) st (s.window k) = s.excess (TIERS.get i).1 k) := by
  unfold excess
  cases k with
  | zero =>
    rw [if_pos ⟨rfl, hx⟩]
    exact s.first_window i hx hxN h
  | succ k =>
    rw [if_neg (by omega)]
    exact s.next_window i hx hk h

/-- A source that sends nothing. -/
lemma window_silent (s : Source) (hx : s.x = 0) (tier : ℕ × ℕ) (k : ℕ) (st : SrcState) :
    drops tier st (s.window k) = s.excess tier.1 k := by
  unfold window excess
  rw [hx]
  simp [drops, decided]

end Source

/-! ### The loop -/

/-- What `read_stats` makes of the counters. -/
def stats_of (count : Stat → ℕ) : Stats where
  count := count
  drops_total := ((STAT_NAMES.filter Stat.is_drop).map count).sum
  passes_total := ((STAT_NAMES.filter Stat.is_pass).map count).sum

lemma read_stats_eq {n : ℕ} (cpu : Fin n) (w : World n) :
    Load.stats_of cpu w = stats_of w.total := by
  have hmap : ∀ p : Stat → Bool,
      ((STAT_NAMES.map fun s => (s, w.total s)).filter fun e => p e.1).map Prod.snd =
        (STAT_NAMES.filter p).map w.total := by
    intro p
    rw [List.filter_map, List.map_map]
    rfl
  have hcount : (fun s => ((STAT_NAMES.map fun s => (s, w.total s)).lookup s).getD 0) = w.total :=
    funext fun s => congrArg (Option.getD · 0) (Load.lookup_names w.total s)
  unfold Load.stats_of read_stats stats_of
  rw [run_bind, Load.run_sum_percpu]
  dsimp only [Effects.Prog.pure_eq, Effects.Prog.run_ret]
  rw [hcount, hmap, hmap]

variable {ι : Type}

/-- The entries of the sources, the counters, the time and the controller. -/
structure Loop (ι : Type) where
  entries : ι → SrcState
  count : Stat → ℕ
  time : ℚ
  controller : Controller

namespace Loop

variable [Fintype ι]

/-- The counters after the packets of a second. -/
def counted (l : Loop ι) (packets : ι → List Pending) (s : Stat) : ℕ :=
  l.count s + ∑ i, ((decided l.controller.aggr.limits (l.entries i) (packets i)).2.count s +
    if s = .rx_packets then (packets i).length else 0)

/-- One second: the limiter decides the packets under the limits of the tier, the controller
measures the load, and the tier follows. -/
def second (l : Loop ι) (packets : ι → List Pending) : Except PyError (Loop ι) :=
  let c := l.controller.measure (stats_of (l.counted packets)) (l.time + 1)
  (c.aggr.update c.pps c.drop_ratio).map fun r =>
    { entries := fun i => (decided l.controller.aggr.limits (l.entries i) (packets i)).1
      count := l.counted packets
      time := l.time + 1
      controller := { c with aggr := r.2 } }

/-- `k` seconds of the sources. -/
def after (l : Loop ι) (sources : ι → Source) : ℕ → Except PyError (Loop ι)
  | 0 => .ok l
  | k + 1 => (l.after sources k).bind fun l' => l'.second fun i => (sources i).window k

end Loop

/-! ### What the controller makes of a second -/

/-- A load below the first limit. -/
lemma load_level_low {pps : ℚ} (h0 : 0 ≤ pps) (h : pps < 20000) :
    Aggressiveness.load_level pps = .ok 0 := by
  have hfilter : ((List.finRange 4).filter fun lvl : Fin 4 =>
      decide (ESCALATE_PPS.get lvl ≤ pps)) = [0] := by
    have h1 : ¬ (20000 : ℚ) ≤ pps := not_le.mpr h
    have h2 : ¬ (80000 : ℚ) ≤ pps := fun h2 => h1 (le_trans (by norm_num) h2)
    have h3 : ¬ (200000 : ℚ) ≤ pps := fun h3 => h1 (le_trans (by norm_num) h3)
    simp [List.finRange, ESCALATE_PPS, h0, h1, h2, h3]
  have hmax : ((List.finRange 4).filter fun lvl : Fin 4 =>
      decide (ESCALATE_PPS.get lvl ≤ pps)).max? = some 0 := by
    rw [hfilter]
    rfl
  unfold Aggressiveness.load_level
  split
  · next lvl hsome => exact congrArg Except.ok (Option.some.inj (hsome.symm.trans hmax))
  · next hnone => cases hnone.symm.trans hmax

/-- The tier that a second calls for, when the load alone calls for none. -/
def called (dropped load : ℕ) : Fin 4 := if 0 < load ∧ load ≤ 2 * dropped then 2 else 0

lemma target_low (dropped : ℕ) {load : ℕ} (h : load < 20000) :
    Aggressiveness.target (((load : ℤ) : ℚ) / 1)
      (if (load : ℤ) ≠ 0 then ((dropped : ℤ) : ℚ) / ((load : ℤ) : ℚ) else 0) =
        .ok (called dropped load) := by
  have hpps : ((load : ℤ) : ℚ) / 1 < 20000 := by
    rw [div_one]
    exact_mod_cast h
  have hpos : 0 ≤ ((load : ℤ) : ℚ) / 1 := by positivity
  have hratio : (if (load : ℤ) ≠ 0 then ((dropped : ℤ) : ℚ) / ((load : ℤ) : ℚ) else 0) ≥
      ESCALATE_DROP_RATIO ↔ 0 < load ∧ load ≤ 2 * dropped := by
    unfold ESCALATE_DROP_RATIO
    rcases Nat.eq_zero_or_pos load with h0 | h0
    · subst h0
      norm_num
    · have hne : (load : ℤ) ≠ 0 := by omega
      have hq : (0 : ℚ) < load := by exact_mod_cast h0
      rw [if_pos hne, ge_iff_le]
      push_cast
      rw [div_le_div_iff₀ (by norm_num) hq]
      constructor
      · intro hle
        refine ⟨h0, ?_⟩
        have hle' : (load : ℚ) ≤ 2 * dropped := by linarith
        exact_mod_cast hle'
      · rintro ⟨-, hle⟩
        have hle' : (load : ℚ) ≤ 2 * dropped := by exact_mod_cast hle
        linarith
  unfold Aggressiveness.target called
  rw [load_level_low hpos hpps]
  change Except.ok (if _ then _ else _) = _
  by_cases hc : 0 < load ∧ load ≤ 2 * dropped
  · rw [if_pos (hratio.mpr hc), if_pos hc]
    rfl
  · rw [if_neg (fun hr => hc (hratio.mp hr)), if_neg hc]

namespace Loop

variable [Fintype ι] {l : Loop ι} {packets : ι → List Pending}

/-- The limiter's counters have gone up by the load. -/
lemma limiter_input_counted (l : Loop ι) (hps : ∀ i, ∀ p ∈ packets i, Reaches p) :
    limiter_input (l.counted packets) = limiter_input l.count + ∑ i, (packets i).length := by
  have hone : ∀ i, limiter_input (fun s =>
      (decided l.controller.aggr.limits (l.entries i) (packets i)).2.count s) =
        (packets i).length :=
    fun i => limiter_input_decided l.controller.aggr.level (hps i) (l.entries i)
  have hsum : ∑ i, (packets i).length = ∑ i, limiter_input (fun s =>
      (decided l.controller.aggr.limits (l.entries i) (packets i)).2.count s) :=
    Finset.sum_congr rfl fun i _ => (hone i).symm
  rw [hsum]
  unfold limiter_input
  simp only [LIMITER_INPUT, List.map_cons, List.map_nil, List.sum_cons, List.sum_nil, counted,
    Finset.sum_add_distrib, reduceCtorEq, if_false, Nat.add_zero]
  omega

/-- No counter has fallen. -/
lemma le_counted (l : Loop ι) (packets : ι → List Pending) (s : Stat) :
    l.count s ≤ l.counted packets s :=
  Nat.le_add_right _ _

lemma counted_drops (l : Loop ι) (packets : ι → List Pending) :
    l.counted packets .drop_ratelimit =
      l.count .drop_ratelimit +
        ∑ i, drops l.controller.aggr.limits (l.entries i) (packets i) := by
  unfold counted drops
  simp

/-- What the controller measures. -/
lemma measured (hps : ∀ i, ∀ p ∈ packets i, Reaches p)
    (hprev : l.controller.prev = some (stats_of l.count, l.time)) :
    let c := l.controller.measure (stats_of (l.counted packets)) (l.time + 1)
    let load := ∑ i, (packets i).length
    let dropped := ∑ i, drops l.controller.aggr.limits (l.entries i) (packets i)
    c.prev = some (stats_of (l.counted packets), l.time + 1) ∧
      c.pps = ((load : ℤ) : ℚ) / 1 ∧
      c.drop_ratio = if (load : ℤ) ≠ 0 then ((dropped : ℤ) : ℚ) / ((load : ℤ) : ℚ) else 0 := by
  intro c load dropped
  have hinput := limiter_input_counted l hps
  have haccepts :
      Accepts (stats_of l.count) (stats_of (l.counted packets)) l.time (l.time + 1) := by
    refine accepts_iff.mpr ⟨le_counted _ _ _, ?_, by linarith⟩
    change limiter_input l.count ≤ limiter_input (l.counted packets)
    omega
  obtain ⟨hpps, hratio⟩ := measure_accepts hprev haccepts
  have hsame : SameLoad l.controller l.controller := ⟨rfl, rfl, rfl⟩
  have hload : ((limiter_input (l.counted packets) : ℕ) : ℤ) - (limiter_input l.count : ℕ) =
      (load : ℤ) := by omega
  have hdrops : ((l.counted packets .drop_ratelimit : ℕ) : ℤ) - (l.count .drop_ratelimit : ℕ) =
      (dropped : ℤ) := by
    have := counted_drops l packets
    omega
  have htime : l.time + 1 - l.time = 1 := by ring
  refine ⟨(hsame.measures _ _).1, ?_, ?_⟩
  · rw [← hload, ← htime]
    exact hpps
  · rw [← hload, ← hdrops]
    exact hratio

/-- **A second below the first limit**: the tier moves by what the drops call for. -/
theorem second_eq (hps : ∀ i, ∀ p ∈ packets i, Reaches p)
    (hload : ∑ i, (packets i).length < 20000)
    (hprev : l.controller.prev = some (stats_of l.count, l.time)) :
    ∃ l', l.second packets = .ok l' ∧
      l'.entries = (fun i =>
        (decided l.controller.aggr.limits (l.entries i) (packets i)).1) ∧
      l'.controller.aggr = (l.controller.aggr.move
        (called (∑ i, drops l.controller.aggr.limits (l.entries i) (packets i))
          (∑ i, (packets i).length))).2 ∧
      l'.controller.prev = some (stats_of l'.count, l'.time) := by
  obtain ⟨hprev', hpps, hratio⟩ := measured hps hprev
  have haggr := (measure_keeps l.controller (stats_of (l.counted packets)) (l.time + 1)).2.1
  have htarget := target_low
    (∑ i, drops l.controller.aggr.limits (l.entries i) (packets i)) hload
  unfold second Aggressiveness.update
  dsimp only
  rw [hpps, hratio, htarget, haggr]
  exact ⟨_, rfl, rfl, rfl, hprev'⟩

/-- Whatever was measured, a second that is judged moves the tier. -/
lemma aggr_second {l' : Loop ι} (h : l.second packets = .ok l') :
    ∃ target, l'.controller.aggr = (l.controller.aggr.move target).2 := by
  have haggr := (measure_keeps l.controller (stats_of (l.counted packets)) (l.time + 1)).2.1
  unfold second Aggressiveness.update at h
  dsimp only at h
  rw [haggr] at h
  cases htarget : Aggressiveness.target
      (l.controller.measure (stats_of (l.counted packets)) (l.time + 1)).pps
      (l.controller.measure (stats_of (l.counted packets)) (l.time + 1)).drop_ratio with
  | error e =>
    rw [htarget] at h
    cases h
  | ok target =>
    rw [htarget] at h
    cases h
    exact ⟨target, rfl⟩

/-- **A second of the loop is what the controller does in a step** that reads these counters:
the level and the load are the same, and the limits of the level are enforced again. -/
theorem second_of_act {n : ℕ} {cpu : Fin n} {w w' : World n} {l' : Loop ι} {c' : Controller}
    {verdicts : Dict Addr (Option String)} (hlive : Live l.controller.args)
    (hread : w.total = l.counted packets)
    (hx : Exec (kernel Quiet cpu) w
      (act l.controller verdicts (Load.stats_of cpu w) (l.time + 1)) (.ok c') w')
    (hagree : Agree w.config l.controller.aggr) (hok : l.second packets = .ok l') :
    c'.aggr = l'.controller.aggr ∧ SameLoad l'.controller c' ∧ Agree w'.config c'.aggr := by
  rw [read_stats_eq, hread] at hx
  have hstep := exec_act hlive hx
  unfold act at hx
  obtain ⟨blocker, w1, -, hx⟩ := Exc.bind_ok hx
  obtain ⟨c1, w2, hx2, hx⟩ := Exc.bind_ok hx
  obtain ⟨c2, hr, hx3⟩ := Exc.lift_inv hx
  cases hr
  obtain ⟨hargs, haggr, -⟩ :=
    measure_keeps { l.controller with blocker } (stats_of (l.counted packets)) (l.time + 1)
  obtain ⟨⟨changed, hup, -, -⟩, -⟩ := exec_tune (by rw [hargs]; exact hlive) hx2
  have hsame : SameLoad l.controller { l.controller with blocker } := ⟨rfl, rfl, rfl⟩
  have hblocker := hsame.measures (stats_of (l.counted packets)) (l.time + 1)
  have hself : SameLoad l.controller l.controller := ⟨rfl, rfl, rfl⟩
  have hplain := hself.measures (stats_of (l.counted packets)) (l.time + 1)
  have hmeasured := (hblocker.keep (exec_tune_load hx2)).keep (exec_clean_up_load hx3)
  have haggr' := (measure_keeps l.controller (stats_of (l.counted packets)) (l.time + 1)).2.1
  unfold second at hok
  dsimp only at hok
  rw [haggr, hblocker.2.1, hblocker.2.2] at hup
  rw [haggr', hup] at hok
  cases hok
  refine ⟨(exec_clean_up hx3).1, ⟨?_, ?_, ?_⟩, hstep.agree hagree⟩
  · exact hmeasured.1.trans hplain.1.symm
  · exact hmeasured.2.1
  · exact hmeasured.2.2

end Loop

/-! ### A constant load -/

variable [Fintype ι]

/-- A load that tier 0 passes in full. -/
def Harmless (sources : ι → Source) : Prop :=
  (∀ i, (sources i).x ≤ (TIERS.get (0 : Fin 4)).1) ∧
    ((∑ i, (sources i).x : ℕ) : ℚ) < ESCALATE_PPS.get (1 : Fin 4)

/-- Less than half of the load is above the limits of the tier, where tier 1 counts one packet more
of each source; tier 3 does not hold itself. -/
def Relaxes (L : Fin 4) (sources : ι → Source) : Prop :=
  L = 3 ∨ ∑ i, (sources i).x = 0 ∨
    2 * ∑ i, ((sources i).x - (TIERS.get L).1 + if L = 1 ∧ 0 < (sources i).x then 1 else 0) <
      ∑ i, (sources i).x

/-- Every source's bucket is one that `k` seconds can have left. -/
structure Steady (sources : ι → Source) (L : Fin 4) (k : ℕ) (l : Loop ι) : Prop where
  prev : l.controller.prev = some (stats_of l.count, l.time)
  settled : ∀ i, 0 < (sources i).x → (sources i).Settled (TIERS.get L) k (l.entries i)

/-- The buckets were empty at first. -/
def Empty (sources : ι → Source) (L : Fin 4) (k : ℕ) (l : Loop ι) : Prop :=
  ∀ i, 0 < (sources i).x → (sources i).Drained (TIERS.get L) k (l.entries i)

variable {sources : ι → Source} {L : Fin 4} {k : ℕ} {l : Loop ι}

omit [Fintype ι] in
/-- One second of one source, sending or not. -/
lemma source_second (hx : ∀ i, (sources i).x ≤ 20000) (hk : k < 6)
    (hs : ∀ i, 0 < (sources i).x → (sources i).Settled (TIERS.get L) k (l.entries i)) (i : ι) :
    drops (TIERS.get L) (l.entries i) ((sources i).window k) ≤
        (sources i).excess (TIERS.get L).1 k ∧
      (Empty sources L k l → drops (TIERS.get L) (l.entries i) ((sources i).window k) =
        (sources i).excess (TIERS.get L).1 k) := by
  rcases Nat.eq_zero_or_pos (sources i).x with hzero | hpos
  · have hsilent := (sources i).window_silent hzero (TIERS.get L) k (l.entries i)
    exact ⟨hsilent.le, fun _ => hsilent⟩
  · have hle := hx i
    obtain ⟨-, hdrops, hdrained⟩ := (sources i).window_drops L hpos (by omega) hk (hs i hpos)
    exact ⟨hdrops, fun hempty => (hdrained (hempty i hpos)).2⟩

/-- **One second of the loop** at the level `L`. -/
theorem steady_second (hh : Harmless sources) (hk : k < 6) (hs : Steady sources L k l)
    (hL : l.controller.aggr.level = L) :
    ∃ l' dropped, l.second (fun i => (sources i).window k) = .ok l' ∧
      Steady sources L (k + 1) l' ∧
      l'.controller.aggr =
        (l.controller.aggr.move (called dropped (∑ i, (sources i).x))).2 ∧
      dropped ≤ ∑ i, (sources i).excess (TIERS.get L).1 k ∧
      (Empty sources L k l → Empty sources L (k + 1) l' ∧
        dropped = ∑ i, (sources i).excess (TIERS.get L).1 k) := by
  obtain ⟨hx, hsum⟩ := hh
  have hlimits : l.controller.aggr.limits = TIERS.get L := by rw [← hL]; rfl
  have hlen : ∑ i, ((sources i).window k).length = ∑ i, (sources i).x :=
    Finset.sum_congr rfl fun i _ => (sources i).length_window k
  have hload : ∑ i, ((sources i).window k).length < 20000 := by
    have h20000 : ((∑ i, (sources i).x : ℕ) : ℚ) < (20000 : ℕ) := hsum
    rw [hlen]
    exact_mod_cast h20000
  obtain ⟨l', hok, hentries, haggr, hprev⟩ := Loop.second_eq
    (fun i => (sources i).reaches_window k) hload hs.prev
  rw [hlimits] at hentries haggr
  rw [hlen] at haggr
  have hone := source_second hx hk hs.settled
  refine ⟨l', _, hok, ⟨hprev, fun i hpos => ?_⟩, haggr, Finset.sum_le_sum fun i _ => (hone i).1,
    fun hempty => ⟨fun i hpos => ?_, Finset.sum_congr rfl fun i _ => (hone i).2 hempty⟩⟩
  · have hle := hx i
    rw [hentries]
    exact ((sources i).window_drops L hpos (hle.trans (by decide)) hk (hs.settled i hpos)).1
  · have hle := hx i
    rw [hentries]
    exact (((sources i).window_drops L hpos (hle.trans (by decide)) hk
      (hs.settled i hpos)).2.2 (hempty i hpos)).1

/-! ### The level falls -/

lemma called_zero {dropped load : ℕ} (h : load = 0 ∨ 2 * dropped < load) :
    called dropped load = 0 :=
  if_neg (by omega)

lemma called_two {dropped load : ℕ} (h0 : load ≠ 0) (h : load ≤ 2 * dropped) :
    called dropped load = 2 :=
  if_pos (by omega)

lemma called_le (dropped load : ℕ) : called dropped load ≤ 2 := by
  unfold called
  split_ifs <;> decide

/-- No second calls for more than the level, and only the first may call for as much. -/
lemma called_lt (hL : 0 < L) (hrel : Relaxes L sources) {dropped : ℕ}
    (hd : dropped ≤ ∑ i, (sources i).excess (TIERS.get L).1 k) :
    called dropped (∑ i, (sources i).x) ≤ L ∧
      (0 < k → called dropped (∑ i, (sources i).x) < L) := by
  have hle := called_le dropped (∑ i, (sources i).x)
  have hzero : called dropped (∑ i, (sources i).x) = 0 → called dropped (∑ i, (sources i).x) ≤ L ∧
      (0 < k → called dropped (∑ i, (sources i).x) < L) := by
    intro h
    rw [h]
    exact ⟨Fin.zero_le _, fun _ => hL⟩
  rcases hrel with rfl | hsilent | hless
  · exact ⟨hle.trans (by decide), fun _ => lt_of_le_of_lt hle (by decide)⟩
  · exact hzero (called_zero (Or.inl hsilent))
  by_cases hfirst : k = 0 ∧ L = 2
  · obtain ⟨rfl, rfl⟩ := hfirst
    exact ⟨hle, fun hk => absurd hk (lt_irrefl _)⟩
  by_cases hthree : L = 3
  · subst hthree
    exact ⟨hle.trans (by decide), fun _ => lt_of_le_of_lt hle (by decide)⟩
  -- the excess of this second is no more than the one the condition counts
  have hexcess : ∑ i, (sources i).excess (TIERS.get L).1 k ≤
      ∑ i, ((sources i).x - (TIERS.get L).1 + if L = 1 ∧ 0 < (sources i).x then 1 else 0) := by
    refine Finset.sum_le_sum fun i _ => Nat.add_le_add_left ?_ _
    have hone : k = 0 → L = 1 := by omega
    split_ifs with h1 h2
    · exact le_rfl
    · exact absurd ⟨hone h1.1, h1.2⟩ h2
    · exact Nat.zero_le _
    · exact le_rfl
  exact hzero (called_zero (Or.inr (by omega)))

omit [Fintype ι] in
lemma after_succ [Fintype ι] {l' : Loop ι} (h : l.after sources k = .ok l') :
    l.after sources (k + 1) = l'.second fun i => (sources i).window k := by
  rw [Loop.after, h]
  rfl

/-- The level has fallen, or every second but the first was calm. -/
lemma fallen_or_calm (hh : Harmless sources) (hL : 0 < L) (hrel : Relaxes L sources)
    (haggr : l.controller.aggr = ⟨L, 0⟩) (hs : Steady sources L 0 l) (hk : k ≤ 6) :
    (∃ k' ≤ k, ∃ l', l.after sources k' = .ok l' ∧ l'.controller.aggr.level < L) ∨
      ∃ l' calm, l.after sources k = .ok l' ∧ l'.controller.aggr = ⟨L, calm⟩ ∧
        calm < CALM_WINDOWS ∧ k ≤ calm + 1 ∧ Steady sources L k l' := by
  induction k with
  | zero => exact Or.inr ⟨l, 0, rfl, haggr, by decide, Nat.zero_le _, hs⟩
  | succ k ih =>
    rcases ih (by omega) with ⟨k', hk', hfall⟩ | ⟨l', calm, hafter, hcalm, hlt, hcount, hsteady⟩
    · exact Or.inl ⟨k', by omega, hfall⟩
    obtain ⟨l'', dropped, hok, hsteady', haggr', hd, -⟩ :=
      steady_second hh (by omega) hsteady (by rw [hcalm])
    have hafter' : l.after sources (k + 1) = .ok l'' := (after_succ hafter).trans hok
    obtain ⟨hle, hless⟩ := called_lt hL hrel hd
    rw [hcalm] at haggr'
    rcases move_cases ⟨L, calm⟩ (called dropped (∑ i, (sources i).x)) with
      ⟨h, -⟩ | ⟨h, hm⟩ | ⟨h, -, hm⟩ | ⟨h, hc, hm⟩
    · exact absurd hle (not_le.mpr h)
    · -- only the first second may call for the level itself
      have hzero : k = 0 := by
        by_contra hk0
        exact absurd (hless (by omega)) (by rw [h]; exact lt_irrefl _)
      rw [hm] at haggr'
      exact Or.inr ⟨l'', 0, hafter', haggr', by decide, by omega, hsteady'⟩
    · rw [hm] at haggr'
      refine Or.inl ⟨k + 1, le_rfl, l'', hafter', ?_⟩
      have hlow := lower_val h
      rw [haggr', Fin.lt_def]
      dsimp only at hlow ⊢
      omega
    · rw [hm] at haggr'
      exact Or.inr ⟨l'', calm + 1, hafter', haggr', hc, by omega, hsteady'⟩

/-! ### The level does not fall -/

/-- Entries without a token, brought up to date at the first packet. -/
def drained (sources : ι → Source) (i : ι) : SrcState :=
  { init ((sources i).packet 0) with tokens := 0 }

omit [Fintype ι] in
lemma bucket_drained (sources : ι → Source) (i : ι) (h : 0 < (sources i).x) :
    bucket (drained sources i) = ⟨0, (sources i).reading 0⟩ := by
  rw [← (sources i).now 0 (by omega)]
  rfl

/-- From empty buckets, a load that does not relax keeps level 2. -/
lemma stays_two (hh : Harmless sources) (hrel : ¬ Relaxes 2 sources)
    (haggr : l.controller.aggr = ⟨2, 0⟩) (hs : Steady sources 2 0 l) (he : Empty sources 2 0 l)
    (hk : k ≤ 6) :
    ∃ l', l.after sources k = .ok l' ∧ l'.controller.aggr = ⟨2, 0⟩ ∧ Steady sources 2 k l' ∧
      Empty sources 2 k l' := by
  induction k with
  | zero => exact ⟨l, rfl, haggr, hs, he⟩
  | succ k ih =>
    obtain ⟨l', hafter, hcalm, hsteady, hempty⟩ := ih (by omega)
    obtain ⟨l'', dropped, hok, hsteady', haggr', -, hdrained⟩ :=
      steady_second hh (by omega) hsteady (by rw [hcalm])
    obtain ⟨hempty', rfl⟩ := hdrained hempty
    refine ⟨l'', (after_succ hafter).trans hok, ?_, hsteady', hempty'⟩
    have hmore : ∑ i, ((sources i).x - (TIERS.get (2 : Fin 4)).1 +
        if (2 : Fin 4) = 1 ∧ 0 < (sources i).x then 1 else 0) ≤
          ∑ i, (sources i).excess (TIERS.get (2 : Fin 4)).1 k := by
      refine Finset.sum_le_sum fun i _ => Nat.add_le_add_left ?_ _
      rw [if_neg (by simp)]
      exact Nat.zero_le _
    unfold Relaxes at hrel
    rw [not_or, not_or, not_lt] at hrel
    rw [haggr', hcalm, called_two hrel.2.1 (by omega)]
    decide

/-- From empty buckets, a load that does not relax takes level 1 to level 2. -/
lemma rises_to_two (hh : Harmless sources) (hrel : ¬ Relaxes 1 sources)
    (haggr : l.controller.aggr = ⟨1, 0⟩) (hs : Steady sources 1 0 l) (he : Empty sources 1 0 l) :
    ∃ l', l.after sources 1 = .ok l' ∧ l'.controller.aggr = ⟨2, 0⟩ := by
  obtain ⟨l', dropped, hok, -, haggr', -, hdrained⟩ :=
    steady_second hh (by omega) hs (by rw [haggr])
  obtain ⟨-, rfl⟩ := hdrained he
  refine ⟨l', (after_succ (k := 0) rfl).trans hok, ?_⟩
  have hsame : ∑ i, ((sources i).x - (TIERS.get (1 : Fin 4)).1 +
      if (1 : Fin 4) = 1 ∧ 0 < (sources i).x then 1 else 0) =
        ∑ i, (sources i).excess (TIERS.get (1 : Fin 4)).1 0 :=
    Finset.sum_congr rfl fun i _ => by simp [Source.excess]
  unfold Relaxes at hrel
  rw [not_or, not_or, not_lt] at hrel
  rw [haggr', haggr, called_two hrel.2.1 (by omega)]
  decide

/-- A move takes no more than one calm second off the level. -/
lemma move_slow (a : Aggressiveness) (target : Fin 4) {m : ℕ}
    (h : a.calm + m ≤ 5 * a.level.val) :
    (a.move target).2.calm + m ≤ 5 * (a.move target).2.level.val + 1 := by
  rcases move_cases a target with ⟨hlt, hm⟩ | ⟨-, hm⟩ | ⟨hlt, hc, hm⟩ | ⟨-, -, hm⟩ <;> rw [hm]
  · have hlt' := Fin.lt_def.mp hlt
    dsimp only
    omega
  · dsimp only
    omega
  · have hlow := lower_val hlt
    unfold CALM_WINDOWS at hc
    dsimp only
    omega
  · dsimp only
    omega

/-- Six seconds are too short for two levels. -/
lemma above_zero {l1 : Loop ι} (h1 : l.after sources 1 = .ok l1)
    (haggr : l1.controller.aggr = ⟨2, 0⟩) (k : ℕ) {l' : Loop ι}
    (h : l.after sources (k + 1) = .ok l') (hk : k ≤ 5) :
    l'.controller.aggr.calm + (10 - k) ≤ 5 * l'.controller.aggr.level.val := by
  induction k generalizing l' with
  | zero =>
    rw [h1] at h
    cases h
    rw [haggr]
    decide
  | succ k ih =>
    cases hafter : l.after sources (k + 1) with
    | error e =>
      rw [Loop.after, hafter] at h
      cases h
    | ok l2 =>
      rw [after_succ hafter] at h
      obtain ⟨target, hmove⟩ := Loop.aggr_second h
      have hslow := move_slow _ target (ih hafter (by omega))
      rw [hmove]
      omega

/-- **A load that does not relax**, from empty buckets. -/
theorem not_relaxing (hh : Harmless sources) (hL : 0 < L) (hrel : ¬ Relaxes L sources)
    (haggr : l.controller.aggr = ⟨L, 0⟩)
    (hprev : l.controller.prev = some (stats_of l.count, l.time))
    (hentries : l.entries = drained sources) (hk : k ≤ 6) {l' : Loop ι}
    (h : l.after sources k = .ok l') : L ≤ l'.controller.aggr.level := by
  have hs : Steady sources L 0 l := by
    refine ⟨hprev, fun i hpos => ?_⟩
    rw [hentries]
    exact (congrArg Bucket.last (bucket_drained sources i hpos)).le
  have he : Empty sources L 0 l := by
    intro i hpos
    rw [hentries]
    exact bucket_drained sources i hpos
  have hcases : L = 1 ∨ L = 2 := by
    have hthree : L ≠ 3 := fun h3 => hrel (Or.inl h3)
    omega
  rcases hcases with rfl | rfl
  · obtain ⟨l1, h1, haggr1⟩ := rises_to_two hh hrel haggr hs he
    cases k with
    | zero =>
      cases h
      rw [haggr]
    | succ k =>
      have habove := above_zero h1 haggr1 k h (by omega)
      rw [Fin.le_def]
      change 1 ≤ _
      omega
  · obtain ⟨l2, h2, haggr2, -, -⟩ := stays_two hh hrel haggr hs he hk
    rw [h2] at h
    cases h
    rw [haggr2]

/-- **When a harmless load lets go of a tier.** Under a constant load that tier 0 passes in full,
the level falls below `L` within six seconds from all bucket states, exactly when the limits of
the tier leave less than half of the load to drop. -/
theorem relaxes_iff (L : Fin 4) (hL : 0 < L) (sources : ι → Source) (hh : Harmless sources)
    (count : Stat → ℕ) (time : ℚ) (c : Controller) (hprev : c.prev = some (stats_of count, time))
    (haggr : c.aggr = ⟨L, 0⟩) :
    (∀ entries : ι → SrcState,
      (∀ i, 0 < (sources i).x → (entries i).last_refill_ns.toNat ≤ (sources i).reading 0) →
      ∃ k ≤ 6, ∃ l', Loop.after ⟨entries, count, time, c⟩ sources k = .ok l' ∧
        l'.controller.aggr.level < L) ↔
    Relaxes L sources := by
  constructor
  · intro hall
    by_contra hrel
    have hstart : ∀ i, 0 < (sources i).x →
        (drained sources i).last_refill_ns.toNat ≤ (sources i).reading 0 := fun i hpos =>
      (congrArg Bucket.last (bucket_drained sources i hpos)).le
    obtain ⟨k, hk, l', hafter, hlt⟩ := hall (drained sources) hstart
    exact absurd (not_relaxing hh hL hrel haggr hprev rfl hk hafter) (not_le.mpr hlt)
  · intro hrel entries hentries
    have hs : Steady sources L 0 (⟨entries, count, time, c⟩ : Loop ι) := ⟨hprev, hentries⟩
    rcases fallen_or_calm hh hL hrel haggr hs (le_refl 6) with
      hfall | ⟨l', calm, -, -, hcalm, hcount, -⟩
    · exact hfall
    · -- six seconds cannot all have passed with the counter below its limit
      unfold CALM_WINDOWS at hcalm
      omega

/-! ### One source -/

/-- A source that sends a packet every `gap` nanoseconds from time 0 on. -/
def constant (x gap : ℕ) (h : x * gap = 1000000000) : Source where
  x := x
  reading j := j * gap
  packet j :=
    { now := BitVec.ofNat 64 (j * gap), rate := 20000, burst := 40000, feat := FEAT_DEFAULT,
      saddr := 7, proto := IPPROTO_UDP, tcp_flags := 0, dport := 53, pkt_len := 60,
      verdict := .pass, reason := .pass_default }
  paced := by
    have hx : 0 < x := Nat.pos_of_ne_zero fun h0 => by rw [h0] at h; omega
    have hgap : 1000000000 / x = gap := by rw [← h, Nat.mul_div_cancel_left _ hx]
    have hup : gap ≤ (1000000000 + x - 1) / x := by
      rw [Nat.le_div_iff_mul_le hx, Nat.mul_comm, h]
      omega
    refine ⟨fun j => ⟨?_, ?_⟩, fun _ j => ?_⟩
    · rw [hgap, Nat.add_mul, Nat.one_mul]
    · rw [Nat.add_mul, Nat.one_mul]
      exact Nat.add_le_add_left hup _
    · rw [Nat.add_mul, h]
  now := by
    intro j hj
    have hlt : j * gap ≤ 6 * x * gap := Nat.mul_le_mul_right _ hj.le
    rw [Nat.mul_assoc, h] at hlt
    exact Nat.mod_eq_of_lt (by omega)
  reaches _ := ⟨rfl, show has FEAT_DEFAULT FEAT_RATELIMIT = true by decide, Or.inr rfl⟩

/-- A controller at level 2. -/
def at_two : Controller :=
  { Controller.init ⟨false, false, []⟩ with
    aggr := ⟨2, 0⟩
    prev := some (stats_of fun _ => 0, 0) }

/-- A thousand packets a second. -/
theorem relaxes_thousand : ∃ k ≤ 6, ∃ l',
    Loop.after ⟨fun _ => init (with_tier (1000, 2000) ((constant 1000 1000000 rfl).packet 0)),
      fun _ => 0, 0, at_two⟩ (fun _ : Unit => constant 1000 1000000 rfl) k = .ok l' ∧
      l'.controller.aggr.level < 2 := by
  refine (relaxes_iff 2 (by decide) _ ⟨?_, ?_⟩ _ 0 at_two rfl rfl).mpr
    (Or.inr (Or.inr ?_)) _ ?_
  · decide
  · decide +kernel
  · decide
  · decide

/-- Ten thousand packets a second, which tier 0 passes in full. -/
theorem held_by_ten_thousand :
    Harmless (fun _ : Unit => constant 10000 100000 rfl) ∧
    ¬ ∀ entries : Unit → SrcState,
      (∀ i, 0 < (constant 10000 100000 rfl).x →
        (entries i).last_refill_ns.toNat ≤ (constant 10000 100000 rfl).reading 0) →
      ∃ k ≤ 6, ∃ l', Loop.after ⟨entries, fun _ => 0, 0, at_two⟩
        (fun _ : Unit => constant 10000 100000 rfl) k = .ok l' ∧
        l'.controller.aggr.level < 2 := by
  have hh : Harmless (fun _ : Unit => constant 10000 100000 rfl) :=
    ⟨by decide, by decide +kernel⟩
  have hrel : ¬ Relaxes 2 (fun _ : Unit => constant 10000 100000 rfl) := by
    unfold Relaxes
    decide
  refine ⟨hh, fun hall => ?_⟩
  obtain ⟨k, hk, l', hafter, hlt⟩ := hall (drained fun _ : Unit => constant 10000 100000 rfl)
    (by decide)
  exact absurd (not_relaxing hh (by decide) hrel rfl rfl rfl hk hafter) (not_le.mpr hlt)

end Lookout.Feedback

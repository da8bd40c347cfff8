import Lookout.Detect
import Lookout.Limiter
import Mathlib.Tactic.Linarith

/-!
Two polls and what happens to a source's entry between them.

`Window.update` sees cumulative counters only. It takes an entry for a new one when its packet
count has fallen; an entry that was deleted and created again, and has caught up with the old
count, passes for the old one.
-/

namespace Lookout.Polls

open Lookout.Effects.Prog Lookout.Common Lookout.Packet Lookout.Dicts Lookout.Lpm
open Lookout.Handles Lookout.Limiter
open Lookout.Kernel Lookout.Firewall Lookout.Detect

/-! ### Totals -/

/-- A packet that was counted, and the verdict it got. -/
abbrev Counted := Pending × Verdict

def tcp_flag (p : Pending) (bit : Byte) : ℕ :=
  if p.proto = IPPROTO_TCP then flag p.tcp_flags bit else 0

/-- What one packet adds to the counters. -/
def amount (c : Counted) : Delta where
  packets := 1
  bytes := c.1.pkt_len
  dropped := if c.2 = .drop then 1 else 0
  syn := tcp_flag c.1 TCP_SYN
  fin := tcp_flag c.1 TCP_FIN
  rst := tcp_flag c.1 TCP_RST
  icmp := if c.1.proto = IPPROTO_ICMP then 1 else 0

/-- The totals over the packets. -/
def totals (l : List Counted) : Delta := l.foldl (fun d c => Delta.add d (amount c)) .zero

lemma totals_snoc (l : List Counted) (c : Counted) :
    totals (l ++ [c]) = Delta.add (totals l) (amount c) := by
  simp [totals]

lemma add_assoc (a b c : Delta) : Delta.add (Delta.add a b) c = Delta.add a (Delta.add b c) := by
  simp only [Delta.add, Int.add_assoc]

lemma add_zero (a : Delta) : Delta.add a .zero = a := by
  simp [Delta.add, Delta.zero]

lemma add_sub (a b : Delta) : Delta.sub (Delta.add a b) a = b := by
  simp [Delta.add, Delta.sub]

lemma sub_zero (a : Delta) : Delta.sub a .zero = a := by
  simp [Delta.sub, Delta.zero]

lemma totals_packets (l : List Counted) : (totals l).packets = l.length := by
  induction l using List.reverseRecOn with
  | nil => rfl
  | append_singleton l c ih => simp [totals_snoc, Delta.add, amount, ih]

/-- No field of the totals is negative. -/
def Delta.Nonneg (d : Delta) : Prop :=
  0 ≤ d.packets ∧ 0 ≤ d.bytes ∧ 0 ≤ d.dropped ∧ 0 ≤ d.syn ∧ 0 ≤ d.fin ∧ 0 ≤ d.rst ∧ 0 ≤ d.icmp

lemma totals_nonneg (l : List Counted) : Delta.Nonneg (totals l) := by
  induction l using List.reverseRecOn with
  | nil => exact ⟨le_rfl, le_rfl, le_rfl, le_rfl, le_rfl, le_rfl, le_rfl⟩
  | append_singleton l c ih =>
    obtain ⟨h1, h2, h3, h4, h5, h6, h7⟩ := ih
    have hd : (0 : ℤ) ≤ if c.2 = .drop then 1 else 0 := by split_ifs <;> decide
    have hi : (0 : ℤ) ≤ if c.1.proto = IPPROTO_ICMP then 1 else 0 := by split_ifs <;> decide
    rw [totals_snoc]
    refine ⟨?_, ?_, ?_, ?_, ?_, ?_, ?_⟩ <;> simp only [Delta.add, amount] <;> omega

@[simp] lemma counters_charge (p : Pending) (st : SrcState) :
    counters (charge p st).1 = counters st := by
  unfold charge token_bucket
  split_ifs
  · dsimp only
    split_ifs <;> rfl
  · rfl

lemma counters_count_drop (v : Verdict) (st : SrcState) :
    counters (count_drop v st) =
      Delta.add (counters st) ⟨0, 0, if v = .drop then 1 else 0, 0, 0, 0, 0⟩ := by
  unfold count_drop
  split_ifs <;> simp [counters, Delta.add]

lemma counters_count_packet (p : Pending) (st : SrcState) :
    counters (count_packet p st) = Delta.add (counters st) (amount (p, .pass)) := by
  simp only [counters, count_packet, Delta.add, amount, tcp_flag, Delta.mk.injEq]
  refine ⟨by simp, by simp, by simp, ?_, ?_, ?_, ?_⟩ <;> split_ifs <;> simp

/-- **The locked section counts its packet.** -/
theorem counters_locked (p : Pending) (st : SrcState) :
    counters (locked p st).1 = Delta.add (counters st) (amount (p, (locked p st).2.1)) := by
  simp only [locked, counters_count_drop, counters_charge, counters_count_packet, add_assoc]
  simp [Delta.add, amount]

/-! ### The life of an entry -/

/-- What can happen to a source's entry. -/
inductive Ev
  | create (p : Pending)
  | count (p : Pending)
  | delete

/-- The entry; whether it is another one than at the start; and the packets it has counted
since the start or, if it is another one, since its creation. -/
structure Life where
  entry : Option SrcState
  renewed : Bool
  seen : List Counted

def Life.step (t : Life) : Ev → Life
  | .create p =>
    match t.entry with
    | none => ⟨some (init p), true, []⟩
    | some _ => t
  | .count p =>
    match t.entry with
    | none => t
    | some st => ⟨some (locked p st).1, t.renewed, t.seen ++ [(p, (locked p st).2.1)]⟩
  | .delete => ⟨none, true, []⟩

def live (e : Option SrcState) (h : List Ev) : Life := h.foldl Life.step ⟨e, false, []⟩

/-- The counters are what the life says. -/
structure Sound (e : Option SrcState) (t : Life) : Prop where
  gone : t.entry = none → t.seen = []
  renewed : ∀ st, t.entry = some st → t.renewed = true → counters st = totals t.seen
  same : ∀ st, t.entry = some st → t.renewed = false →
    ∃ old, e = some old ∧ counters st = Delta.add (counters old) (totals t.seen)

lemma sound_step {e : Option SrcState} {t : Life} (h : Sound e t) (ev : Ev) :
    Sound e (t.step ev) := by
  obtain ⟨entry, renewed, seen⟩ := t
  cases ev with
  | create p =>
    cases entry with
    | none =>
      refine ⟨fun h => (by cases h), fun st hst _ => ?_, fun st hst hr => (by cases hr)⟩
      cases hst
      rfl
    | some st => exact h
  | count p =>
    cases entry with
    | none => exact h
    | some st =>
      refine ⟨fun h => (by cases h), fun st' hst hr => ?_, fun st' hst hr => ?_⟩
      · cases hst
        change counters (locked p st).1 = totals (seen ++ [(p, (locked p st).2.1)])
        rw [counters_locked, totals_snoc, h.renewed st rfl hr]
      · cases hst
        obtain ⟨old, he, hst⟩ := h.same st rfl hr
        refine ⟨old, he, ?_⟩
        change counters (locked p st).1 = Delta.add _ (totals (seen ++ [(p, (locked p st).2.1)]))
        rw [counters_locked, totals_snoc, hst, add_assoc]
  | delete => exact ⟨fun _ => rfl, fun st hst => (by cases hst), fun st hst => (by cases hst)⟩

theorem sound_live (e : Option SrcState) (h : List Ev) : Sound e (live e h) := by
  induction h using List.reverseRecOn with
  | nil =>
    refine ⟨fun _ => rfl, fun st _ hr => (by cases hr), fun st hst _ => ⟨st, hst, ?_⟩⟩
    exact (add_zero _).symm
  | append_singleton h ev ih =>
    rw [live, List.foldl_append]
    exact sound_step ih ev

/-- **An operation of the kernel is at most one event** in the life of a source's entry; it counts
a packet when it holds the lock of that very entry. -/
theorem exec_entry {n : ℕ} (cpu : Fin n) (w : World n) (a : Addr) (o : Op) (t : Life)
    (ht : t.entry = w.srcstate.get a) (ho : ∀ b st, o = .state_insert b st → ∃ p, st = init p) :
    ∃ ev : Option Ev, (ev.elim t t.step).entry = (exec cpu w o).2.srcstate.get a ∧
      ∀ p, ev = some (.count p) ↔ ∃ r, o = .state_locked r p ∧ w.srcstate.find a = some r := by
  obtain ⟨entry, renewed, seen⟩ := t
  cases o with
  | state_insert b st =>
    obtain ⟨p, rfl⟩ := ho b st rfl
    simp only [exec, insert_noexist]
    split_ifs with hfull
    · exact ⟨none, ht, by simp⟩
    · by_cases hb : a = b
      · subst hb
        have hnone : entry = none := by
          rw [not_or, Option.not_isSome_iff_eq_none] at hfull
          exact ht.trans (RefMap.get_eq_none.mpr hfull.1)
        subst hnone
        exact ⟨some (.create p), by simp [Life.step], by simp⟩
      · exact ⟨none, ht.trans (RefMap.get_insert_ne _ _ hb).symm, by simp⟩
  | state_locked r p =>
    simp only [exec, update_locked]
    by_cases hr : w.srcstate.find a = some r
    · obtain ⟨st, hst⟩ := RefMap.deref_of_find hr
      have hentry : entry = some st := ht.trans ((RefMap.get_eq hr).trans hst)
      subst hentry
      refine ⟨some (.count p), ?_, ?_⟩
      · rw [hst]
        exact (RefMap.get_set _ _ hr).symm
      · intro q
        simp [hr]
    · refine ⟨none, ?_, fun q => ⟨fun h => (by cases h), ?_⟩⟩
      · cases hst : w.srcstate.deref r with
        | none => exact ht
        | some st => exact ht.trans (RefMap.get_set_ne _ _ hr).symm
      · rintro ⟨r', heq, hf⟩
        cases heq
        exact absurd hf hr
  | state_delete b =>
    by_cases hb : a = b
    · subst hb
      exact ⟨some .delete, (RefMap.get_erase _ _).symm, by simp⟩
    · exact ⟨none, ht.trans (RefMap.get_erase_ne _ hb).symm, by simp⟩
  | _ => exact ⟨none, ht, by simp⟩

/-- What a poll reads of a source is its entry. -/
theorem lookup_read_states {n : ℕ} (cpu : Fin n) (w : World n) (a : Addr) :
    (run (exec cpu) read_states w).1.lookup a = w.srcstate.get a :=
  lookup_states w.srcstate a

/-- An entry of a life that began without one has counted every packet its counters show. -/
lemma counters_of_live {h : List Ev} {st : SrcState} (hst : (live none h).entry = some st) :
    counters st = totals (live none h).seen := by
  have hs := sound_live none h
  cases hr : (live none h).renewed with
  | true => exact hs.renewed st hst hr
  | false =>
    obtain ⟨old, ho, -⟩ := hs.same st hst hr
    cases ho

lemma counters_zero {h : List Ev} {st : SrcState} (hst : (live none h).entry = some st)
    (h0 : st.packets = 0) : counters st = .zero := by
  have hc := counters_of_live hst
  have hp : ((live none h).seen.length : ℤ) = 0 := by
    rw [← totals_packets, ← hc]
    simp [counters, h0]
  have hnil : (live none h).seen = [] := by
    rw [← List.length_eq_zero_iff]
    exact_mod_cast hp
  rw [hc, hnil]
  rfl

/-! ### The second poll -/

/-- The rows of the second poll have the source exactly when its entry has counted a packet
since the first poll and its creation, with the totals over those packets. -/
def Exact (rows : Dict Addr Row) (ip : Addr) (old : Option SrcState) (t : Life) (secs : ℚ) :
    Prop :=
  (rows.lookup ip = none ↔ t.seen = []) ∧
  ∀ row, rows.lookup ip = some row → ∃ cur, t.entry = some cur ∧ delta old cur = totals t.seen ∧
    Delta.Nonneg (delta old cur) ∧ row = .of (totals t.seen) cur.port_bitmap secs

/-- Another entry than at the first poll has caught up with the old one's count. -/
def Mistaken (old : Option SrcState) (t : Life) : Prop :=
  t.renewed = true ∧ ∃ st cur, old = some st ∧ t.entry = some cur ∧
    st.packets ≠ 0 ∧ st.packets ≤ cur.packets

/-- The time between two polls, in seconds. -/
def seconds (t0 t1 : ℕ) : ℚ := ((t1 : ℚ) - t0) / 1000000000

lemma seconds_ge {t0 t1 : ℕ} (ht : t0 + 1000000 ≤ t1) : ¬ seconds t0 t1 < 1 / 1000 := by
  have h : (t0 : ℚ) + 1000000 ≤ t1 := by exact_mod_cast ht
  unfold seconds
  rw [not_lt, le_div_iff₀ (by norm_num)]
  linarith

lemma lookup_rows (s0 s1 : Dict Addr SrcState) {t0 t1 : ℕ} (ht : t0 + 1000000 ≤ t1) (ip : Addr) :
    (Window.update ⟨some (s0, t0)⟩ s1 t1).1.lookup ip =
      (s1.lookup ip).bind fun cur => measurements (s0.lookup ip) cur (seconds t0 t1) := by
  have hsecs := seconds_ge ht
  unfold seconds at hsecs ⊢
  simp only [Window.update, if_neg hsecs]
  exact Dict.lookup_filterMap _ _ _

/-- The difference is right unless the poll mistakes a new entry for the old one. -/
lemma delta_eq {h0 h1 : List Ev} {old : Option SrcState} {cur : SrcState}
    (hold : old = (live none h0).entry) (hcur : (live old h1).entry = some cur)
    (hm : ¬ Mistaken old (live old h1)) : delta old cur = totals (live old h1).seen := by
  have hs := sound_live old h1
  cases hr : (live old h1).renewed with
  | false =>
    obtain ⟨st, rfl, hc⟩ := hs.same cur hcur hr
    have hp : ¬ cur.packets < st.packets := by
      have h := congrArg Delta.packets hc
      simp only [Delta.add, totals_packets, counters] at h
      omega
    unfold delta baseline
    simp only [if_neg hp, hc, add_sub]
  | true =>
    have hc := hs.renewed cur hcur hr
    unfold delta baseline
    rw [hc]
    cases old with
    | none => exact sub_zero _
    | some st =>
      by_cases hp : cur.packets < st.packets
      · simp only [if_pos hp, sub_zero]
      · have h0 : st.packets = 0 := by
          by_contra hne
          exact hm ⟨hr, st, cur, rfl, hcur, hne, Nat.le_of_not_lt hp⟩
        simp only [if_neg hp, counters_zero hold.symm h0, sub_zero]

lemma mistaken_delta {h1 : List Ev} {st cur : SrcState} (hr : (live (some st) h1).renewed = true)
    (hcur : (live (some st) h1).entry = some cur) (hne : st.packets ≠ 0)
    (hle : st.packets ≤ cur.packets) :
    (delta (some st) cur).packets < (totals (live (some st) h1).seen).packets := by
  have hc := (sound_live (some st) h1).renewed cur hcur hr
  have hp : ¬ cur.packets < st.packets := by omega
  rw [← hc]
  unfold delta baseline
  simp only [if_neg hp, Delta.sub, counters]
  omega

/-- **A poll measures a source exactly**, unless the entry is another one than at the poll
before and has caught up with the count of the old one. -/
theorem exact_iff (ip : Addr) (h0 h1 : List Ev) (s0 s1 : Dict Addr SrcState) (t0 t1 : ℕ)
    (hs0 : s0.lookup ip = (live none h0).entry)
    (hs1 : s1.lookup ip = (live (s0.lookup ip) h1).entry) (ht : t0 + 1000000 ≤ t1) :
    Exact (Window.update ⟨some (s0, t0)⟩ s1 t1).1 ip (s0.lookup ip) (live (s0.lookup ip) h1)
        (seconds t0 t1) ↔
      ¬ Mistaken (s0.lookup ip) (live (s0.lookup ip) h1) := by
  unfold Exact
  rw [lookup_rows s0 s1 ht, hs1]
  constructor
  · rintro ⟨hnone, hrow⟩ ⟨hr, st, cur, hold, hcur, hne, hle⟩
    rw [hold] at hnone hrow hr hcur
    have hlt := mistaken_delta hr hcur hne hle
    rw [hcur, Option.bind_some] at hnone hrow
    cases hm : measurements (some st) cur (seconds t0 t1) with
    | none =>
      have hseen := hnone.mp hm
      have hc := (sound_live (some st) h1).renewed cur hcur hr
      have hp := congrArg Delta.packets hc
      rw [hseen] at hp
      simp only [counters, totals, List.foldl_nil, Delta.zero] at hp
      omega
    | some row =>
      obtain ⟨cur', hcur', hd, -⟩ := hrow row hm
      cases hcur'
      rw [hd] at hlt
      exact absurd hlt (lt_irrefl _)
  · intro hm
    cases hcur : (live (s0.lookup ip) h1).entry with
    | none =>
      have hseen := (sound_live (s0.lookup ip) h1).gone hcur
      exact ⟨⟨fun _ => hseen, fun _ => rfl⟩, fun row h => by cases h⟩
    | some cur =>
      have hd := delta_eq hs0 hcur hm
      rw [Option.bind_some]
      unfold measurements
      simp only [hd, totals_packets]
      by_cases hseen : (live (s0.lookup ip) h1).seen = []
      · simp [hseen]
      · have hpos : ¬ ((live (s0.lookup ip) h1).seen.length : ℤ) ≤ 0 := by
          have := List.length_pos_of_ne_nil hseen
          omega
        rw [if_neg hpos]
        refine ⟨by simp [hseen], fun row hrow => ?_⟩
        cases hrow
        exact ⟨cur, rfl, hd, hd ▸ totals_nonneg _, rfl⟩

/-! ### Two histories -/

def one_packet : Pending :=
  ⟨0, 20000, 40000, FEAT_DEFAULT, 7, 17, 0, 53, 60, .pass, .pass_default⟩

/-- The source's entry before the first poll. -/
def first_packet : List Ev := [.create one_packet, .count one_packet]

/-- A snapshot with one source. -/
def snapshot (e : Option SrcState) : Dict Addr SrcState :=
  match e with
  | none => ∅
  | some st => AList.insert 7 st ∅

lemma lookup_snapshot (e : Option SrcState) : (snapshot e).lookup 7 = e := by
  cases e <;> rfl

theorem surviving_entry_exact :
    Exact (Window.update ⟨some (snapshot (live none first_packet).entry, 0)⟩
        (snapshot (live none (first_packet ++ [.count one_packet])).entry) 1000000000).1 7
      (live none first_packet).entry (live (live none first_packet).entry [.count one_packet])
      (seconds 0 1000000000) := by
  have h0 := lookup_snapshot (live none first_packet).entry
  have h1 : (snapshot (live none (first_packet ++ [.count one_packet])).entry).lookup 7 =
      (live ((snapshot (live none first_packet).entry).lookup 7) [.count one_packet]).entry := by
    rw [lookup_snapshot, h0]
    rfl
  have hexact := (exact_iff 7 first_packet [.count one_packet] _ _ 0 1000000000 h0 h1
    (by norm_num)).mpr fun h => absurd h.1 (by rw [h0]; decide)
  rwa [h0] at hexact

/-- The entry is deleted after the first poll, and one packet makes it anew. -/
theorem recreated_entry_missed :
    ∃ s0 s1 : Dict Addr SrcState,
      s0.lookup 7 = (live none first_packet).entry ∧
      s1.lookup 7 = (live (s0.lookup 7) (.delete :: first_packet)).entry ∧
      ¬ Exact (Window.update ⟨some (s0, 0)⟩ s1 1000000000).1 7 (s0.lookup 7)
        (live (s0.lookup 7) (.delete :: first_packet)) (seconds 0 1000000000) := by
  refine ⟨snapshot (live none first_packet).entry, snapshot (live none first_packet).entry,
    rfl, rfl, fun h => ?_⟩
  have hseen := h.1.mp (by decide +kernel)
  exact absurd hseen (by decide +kernel)

end Lookout.Polls

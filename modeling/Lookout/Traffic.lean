import Lookout.Accounting

/-!
Packets handled one after another.

An execution that nothing else interrupts writes to the counters what its books say, and is
counted among the limiter's packets when it comes to `update_state` still passing.
-/

namespace Lookout.Traffic

open Lookout.Effects Lookout.Effects.Prog Lookout.Handles Lookout.Common Lookout.Packet
open Lookout.Limiter Lookout.Kernel Lookout.Xdp Lookout.Accounting

variable {n : ℕ}

/-- The packet of `f` on `cpu`: its verdict, and the maps after it. -/
def handle (cpu : Fin n) (f : Frame) (w : World n) : Verdict × World n :=
  run (exec cpu) (xdp_firewall f) w

/-- The operations of its execution. -/
def log (cpu : Fin n) (f : Frame) (w : World n) : List (Event calls) :=
  events (exec cpu) (xdp_firewall f) w

/-- The packet reaches the rate limiter. -/
def reaches (cpu : Fin n) (f : Frame) (w : World n) : Bool := is_passing (log cpu f w)

/-- What the packets that reached the limiter are counted under. -/
def limiter_input (g : Stat → ℕ) : ℕ := (LIMITER_INPUT.map g).sum

lemma events_allowed {α : Type} (cpu : Fin n) (p : Call α) (w : World n) :
    ∀ e ∈ events (exec cpu) p w, Allowed e := by
  intro e he
  obtain ⟨w1, hw1⟩ := mem_events he
  exact exec_allowed (Prod.ext hw1 rfl : exec cpu w1 e.1 = (e.2, (exec cpu w1 e.1).2))

lemma written_cons (e : Event calls) (l : List (Event calls)) (s : Stat) :
    (written (e :: l)).stats s = amount s e + (written l).stats s := by
  induction l using List.reverseRecOn with
  | nil =>
    rw [← List.nil_append [e], written_snoc, write_stats]
    exact Nat.add_comm _ _
  | append_singleton l e' ih =>
    rw [← List.cons_append, written_snoc, written_snoc, write_stats, write_stats, ih,
      Nat.add_assoc]

/-- A program alone adds to the counters of its CPU what it has written. -/
lemma stats_run {α : Type} (cpu : Fin n) (p : Call α) (w : World n) (c : Fin n) (s : Stat) :
    (run (exec cpu) p w).2.stats c s =
      w.stats c s + if c = cpu then (written (events (exec cpu) p w)).stats s else 0 := by
  induction p generalizing w with
  | ret a => simp [events, written, Books.zero]
  | call o k ih =>
    have hstep : (exec cpu w o).2.stats c s =
        w.stats c s + if c = cpu then amount s ⟨o, (exec cpu w o).1⟩ else 0 :=
      exec_stats rfl c s
    rw [run_call, ih, hstep, events, written_cons]
    split_ifs
    · exact Nat.add_assoc _ _ _
    · rfl

lemma total_handle (cpu : Fin n) (f : Frame) (w : World n) (s : Stat) :
    (handle cpu f w).2.total s = w.total s + (written (log cpu f w)).stats s := by
  unfold World.total handle
  simp only [stats_run, Finset.sum_add_distrib, Finset.sum_ite_eq', Finset.mem_univ, if_true]
  rfl

lemma closed_log (cpu : Fin n) (f : Frame) (w : World n) :
    Closed STAT_NAMES ((Books.zero.add .rx_packets 1).add .rx_bytes f.pkt_len)
      (handle cpu f w).1 (written (log cpu f w)) := by
  have htr : Trace (xdp_firewall f) (log cpu f w) (.ret (handle cpu f w).1) := trace_events _ _
  exact htr.wp (events_allowed cpu _ w) (wp_xdp_firewall f .zero)

/-- Every packet is received once. -/
lemma rx_handle (cpu : Fin n) (f : Frame) (w : World n) :
    (handle cpu f w).2.total .rx_packets = w.total .rx_packets + 1 := by
  rw [total_handle, (counted_of_closed (closed_log cpu f w)).rx_packets]

/-- **The limiter's counters** go up by one for a packet that reaches it. -/
theorem limiter_input_handle (cpu : Fin n) (f : Frame) (w : World n) :
    limiter_input (handle cpu f w).2.total =
      limiter_input w.total + (reaches cpu f w).toNat := by
  obtain ⟨hsum, hle⟩ := limiter_of_closed (closed_log cpu f w)
  have hpass : (reaches cpu f w).toNat = (written (log cpu f w)).passing := by
    have hiff := written_passing (log cpu f w)
    unfold reaches
    cases hp : is_passing (log cpu f w) with
    | true =>
      have := hiff.mp hp
      rw [Bool.toNat_true]
      omega
    | false =>
      rw [hp] at hiff
      rw [Bool.toNat_false]
      by_contra h0
      exact absurd (hiff.mpr (by omega)) Bool.false_ne_true
  rw [hpass, hsum, limiter_input, funext (total_handle cpu f w), List.sum_map_add]
  rfl

/-- No counter falls. -/
lemma total_le_handle (cpu : Fin n) (f : Frame) (w : World n) (s : Stat) :
    w.total s ≤ (handle cpu f w).2.total s := by
  rw [total_handle]
  exact Nat.le_add_right _ _

/-! ### From `update_state` on

A packet comes to the locked section with the entry of its source, or with a new one if there
is room for it. -/

variable {cpu : Fin n} {w : World n} {p : Pending}

lemma run_untracked (h : has p.feat FEAT_TRACK_STATE = false) :
    run (exec cpu) (update_state p) w = run (exec cpu) (finish p.reason p.verdict) w := by
  unfold update_state
  simp only [op_eq, call_bind, ret_bind, run_call, h, Bool.false_eq_true, if_false]
  rfl

lemma run_found (h : has p.feat FEAT_TRACK_STATE = true) {r : ℕ}
    (hf : w.srcstate.find p.saddr = some r) :
    run (exec cpu) (update_state p) w = run (exec cpu) (locked_stage r p) w := by
  have hlabel : exec cpu w (.update_state_label p.verdict p.reason) = ((), w) := rfl
  have hlookup : exec cpu w (.state_lookup p.saddr) = (some r, w) := by rw [← hf]; rfl
  unfold update_state
  simp only [op_eq, call_bind, ret_bind, run_call, h, if_true, hlabel, hlookup]

lemma run_created (h : has p.feat FEAT_TRACK_STATE = true)
    (hf : w.srcstate.find p.saddr = none) (hroom : w.srcstate.size < MAX_TRACKED) :
    run (exec cpu) (update_state p) w =
      run (exec cpu) (locked_stage w.srcstate.heap.length p)
        { w with srcstate := w.srcstate.insert p.saddr (init p) } := by
  obtain ⟨w1, hw1⟩ : ∃ w1 : World n,
      w1 = { w with srcstate := w.srcstate.insert p.saddr (init p) } := ⟨_, rfl⟩
  have hlabel : exec cpu w (.update_state_label p.verdict p.reason) = ((), w) := rfl
  have hlookup : exec cpu w (.state_lookup p.saddr) = (none, w) := by rw [← hf]; rfl
  have hinsert : exec cpu w (.state_insert p.saddr (init p)) = (false, w1) := by
    have hno : ¬ ((w.srcstate.find p.saddr).isSome = true ∨ MAX_TRACKED ≤ w.srcstate.size) := by
      rw [hf]
      simpa using hroom
    rw [hw1]
    simp only [exec, insert_noexist, if_neg hno]
  have hagain : exec cpu w1 (.state_lookup p.saddr) = (some w.srcstate.heap.length, w1) := by
    have hfind : w1.srcstate.find p.saddr = some w.srcstate.heap.length := by
      rw [hw1]
      exact RefMap.find_insert w.srcstate p.saddr (init p)
    rw [← hfind]
    rfl
  rw [← hw1]
  unfold update_state
  simp only [op_eq, call_bind, ret_bind, run_call, h, if_true, hlabel, hlookup, hinsert,
    Bool.false_eq_true, if_false, hagain]

lemma run_full (h : has p.feat FEAT_TRACK_STATE = true)
    (hf : w.srcstate.find p.saddr = none) (hroom : ¬ w.srcstate.size < MAX_TRACKED) :
    run (exec cpu) (update_state p) w = run (exec cpu) (state_full p) w := by
  have hlabel : exec cpu w (.update_state_label p.verdict p.reason) = ((), w) := rfl
  have hlookup : exec cpu w (.state_lookup p.saddr) = (none, w) := by rw [← hf]; rfl
  have hinsert : exec cpu w (.state_insert p.saddr (init p)) = (true, w) := by
    have hfull : (w.srcstate.find p.saddr).isSome = true ∨ MAX_TRACKED ≤ w.srcstate.size :=
      Or.inr (not_lt.mp hroom)
    simp only [exec, insert_noexist, if_pos hfull]
  unfold update_state
  simp only [op_eq, call_bind, ret_bind, run_call, h, if_true, hlabel, hlookup, hinsert]

lemma exec_locked {r : ℕ} {st : SrcState} (hf : w.srcstate.find p.saddr = some r)
    (hst : w.srcstate.get p.saddr = some st) :
    exec cpu w (.state_locked r p) =
      ((locked p st).2, { w with srcstate := w.srcstate.set r (locked p st).1 }) := by
  have hderef : w.srcstate.deref r = some st := by rw [← RefMap.get_eq hf, hst]
  simp only [exec, update_locked, hderef]

/-- The entry the packet finds, or the new one. -/
def entry_for (w : World n) (p : Pending) : SrcState := (w.srcstate.get p.saddr).getD (init p)

/-- **A tracked packet** gets the verdict of the locked section, and leaves its entry behind. -/
theorem run_tracked (cpu : Fin n) (h : has p.feat FEAT_TRACK_STATE = true)
    (hroom : (w.srcstate.find p.saddr).isSome = true ∨ w.srcstate.size < MAX_TRACKED) :
    (run (exec cpu) (update_state p) w).1 = (locked p (entry_for w p)).2.1 ∧
      (run (exec cpu) (update_state p) w).2.srcstate.get p.saddr =
        some (locked p (entry_for w p)).1 := by
  have hlocked : ∀ {w : World n} {r : ℕ} {st : SrcState}, w.srcstate.find p.saddr = some r →
      w.srcstate.get p.saddr = some st →
        (run (exec cpu) (locked_stage r p) w).1 = (locked p st).2.1 ∧
          (run (exec cpu) (locked_stage r p) w).2.srcstate.get p.saddr =
            some (locked p st).1 := by
    intro w r st hf hst
    unfold locked_stage
    simp only [op_eq, call_bind, ret_bind, run_call]
    rw [exec_locked hf hst]
    exact ⟨rfl, RefMap.get_set _ _ hf⟩
  unfold entry_for
  cases hf : w.srcstate.find p.saddr with
  | some r =>
    obtain ⟨st, hst⟩ := RefMap.deref_of_find hf
    rw [← RefMap.get_eq hf] at hst
    rw [run_found h hf, hst]
    exact hlocked hf hst
  | none =>
    have hsize : w.srcstate.size < MAX_TRACKED := by simpa [hf] using hroom
    rw [run_created h hf hsize, RefMap.get_eq_none.mpr hf]
    exact hlocked (RefMap.find_insert _ _ _) (RefMap.get_insert _ _ _)

end Lookout.Traffic

import Lookout.Accounting
import Mathlib.Algebra.BigOperators.Pi

/-!
Packets of a new source on several CPUs at once.

Each CPU that has not found the source inserts an entry of its own; the map takes the first.
The program gives up on a packet whose insert is refused, although the source now has an entry.
-/

namespace Lookout.Tracking

open Lookout.Effects Lookout.Effects.Prog Lookout.Runs Lookout.Common Lookout.Packet
open Lookout.Handles Lookout.Limiter Lookout.Kernel Lookout.Xdp Lookout.Accounting

variable {n : ℕ}

/-! ### The program, point by point -/

/-- Where an execution of `update_state` is. In the last two, the flag says whether it has
given up on the entry. -/
inductive Point
  | label
  | lookup
  | insert
  | again
  | lock (st : ℕ)
  | full
  | reason (verdict : Verdict) (reason : Stat) (gave_up : Bool)
  | done (verdict : Verdict) (gave_up : Bool)

namespace Point

/-- After the second lookup. -/
def found_again (p : Pending) : Option ℕ → Call Verdict
  | some st => locked_stage st p
  | none => state_full p

/-- After the insert. -/
def inserted (p : Pending) (failed : Bool) : Call Verdict :=
  if failed then state_full p else .call (.state_lookup p.saddr) (found_again p)

/-- After the first lookup. -/
def found (p : Pending) : Option ℕ → Call Verdict
  | some st => locked_stage st p
  | none => .call (.state_insert p.saddr (init p)) (inserted p)

/-- The rest of the program. -/
def prog (p : Pending) : Point → Call Verdict
  | label =>
    .call (.update_state_label p.verdict p.reason) fun _ =>
      .call (.state_lookup p.saddr) (found p)
  | lookup => .call (.state_lookup p.saddr) (found p)
  | insert => .call (.state_insert p.saddr (init p)) (inserted p)
  | again => .call (.state_lookup p.saddr) (found_again p)
  | lock st => locked_stage st p
  | full => state_full p
  | reason v s _ => finish s v
  | done v _ => .ret v

/-- What an execution knows there. -/
def Knows (w : World n) (p : Pending) : Point → Prop
  | again => ∃ st, w.srcstate.find p.saddr = some st
  | lock st => w.srcstate.find p.saddr = some st
  | reason _ s _ => s ≠ .state_full
  | _ => True

/-- The packets counted so far, what was added to `STAT_STATE_FULL`, and the inserts that were
refused. -/
def tally : Point → ℕ × ℕ × ℕ
  | full => (0, 0, 1)
  | reason _ _ gave_up | done _ gave_up => if gave_up then (0, 1, 1) else (1, 0, 0)
  | _ => (0, 0, 0)

end Point

lemma update_state_eq {p : Pending} (h : has p.feat FEAT_TRACK_STATE = true) :
    update_state p = Point.label.prog p := by
  unfold update_state
  rw [if_pos h]
  refine congrArg _ (funext fun _ => congrArg _ (funext fun st => ?_))
  cases st with
  | some st => rfl
  | none =>
    refine congrArg (Prog.call (S := calls) (.state_insert p.saddr (init p))) (funext fun b => ?_)
    cases b with
    | true => rfl
    | false =>
      refine congrArg (Prog.call (S := calls) (.state_lookup p.saddr)) (funext fun st => ?_)
      cases st <;> rfl

/-- What an event adds to the tally. -/
def mark (e : Event calls) : ℕ × ℕ × ℕ :=
  match e with
  | ⟨.state_locked .., _⟩ => (1, 0, 0)
  | ⟨.stat_add idx x, _⟩ => (0, if idx = .state_full then x else 0, 0)
  | ⟨.state_insert .., b⟩ => (0, 0, if b = true then 1 else 0)
  | _ => 0

def tally (l : List (Event calls)) : ℕ × ℕ × ℕ := (l.map mark).sum

lemma tally_snoc (l : List (Event calls)) (e : Event calls) :
    tally (l ++ [e]) = tally l + mark e := by
  simp [tally]

/-- The entries stay where they are. -/
def Keeps (w w' : World n) : Prop :=
  ∀ a st, w.srcstate.find a = some st → w'.srcstate.find a = some st

lemma exec_keeps (cpu : Fin n) (w : World n) {o : Op} (ho : ∀ a, o ≠ .state_delete a) :
    Keeps w (exec cpu w o).2 := by
  intro a st h
  cases o with
  | state_insert b s =>
    simp only [exec, insert_noexist]
    split_ifs with hfull
    · exact h
    · have hb : a ≠ b := by
        rintro rfl
        simp [h] at hfull
      rw [RefMap.find_insert_ne _ _ hb]
      exact h
  | state_locked r q =>
    simp only [exec, update_locked]
    split <;> exact h
  | state_delete b => exact absurd rfl (ho b)
  | _ => exact h

lemma Point.Knows.keep {w w' : World n} {p : Pending} {pt : Point} (h : pt.Knows w p)
    (hw : Keeps w w') : pt.Knows w' p := by
  cases pt with
  | again => obtain ⟨st, hst⟩ := h; exact ⟨st, hw _ _ hst⟩
  | lock st => exact hw _ _ h
  | _ => exact h

/-- The packets and bytes of a source, none for a source without an entry. -/
def counts (w : World n) (a : Addr) : ℕ × ℕ :=
  (w.srcstate.get a).elim 0 fun st => (st.packets, st.bytes)

lemma locked_counts (p : Pending) (st : SrcState) :
    ((locked p st).1.packets, (locked p st).1.bytes) =
      (st.packets, st.bytes) + (1, p.pkt_len) := by
  have hdrop : ∀ v (s : SrcState), (count_drop v s).packets = s.packets ∧
      (count_drop v s).bytes = s.bytes := by
    intro v s
    unfold count_drop
    split_ifs <;> exact ⟨rfl, rfl⟩
  have hcharge : ∀ s : SrcState, (charge p s).1.packets = s.packets ∧
      (charge p s).1.bytes = s.bytes := by
    intro s
    unfold charge token_bucket
    split_ifs
    · dsimp only
      split_ifs <;> exact ⟨rfl, rfl⟩
    · exact ⟨rfl, rfl⟩
  simp only [locked, hdrop, hcharge]
  rfl

/-- **One operation at a point** leads to a point that is right about the state. -/
theorem point_step {cpu : Fin n} {w w' : World n} {p : Pending} {pt : Point} {o : Op} {b : Ans o}
    {k : Ans o → Call Verdict} (hp : p.reason ≠ .state_full) (hk : pt.prog p = .call o k)
    (hw : pt.Knows w p) (hx : exec cpu w o = (b, w')) :
    ∃ pt' : Point, k b = pt'.prog p ∧ pt'.Knows w' p ∧ pt'.tally = pt.tally + mark ⟨o, b⟩ := by
  cases pt with
  | label =>
    cases hk
    exact ⟨.lookup, rfl, trivial, rfl⟩
  | lookup =>
    cases hk
    cases hx
    cases hf : w.srcstate.find p.saddr with
    | none => exact ⟨.insert, rfl, trivial, rfl⟩
    | some st => exact ⟨.lock st, rfl, hf, rfl⟩
  | insert =>
    cases hk
    cases b with
    | true => exact ⟨.full, rfl, trivial, rfl⟩
    | false =>
      refine ⟨.again, rfl, ?_, rfl⟩
      simp only [exec, insert_noexist] at hx
      split_ifs at hx
      · cases hx
      · cases hx
        exact ⟨_, RefMap.find_insert w.srcstate _ _⟩
  | again =>
    cases hk
    cases hx
    obtain ⟨st, hst⟩ := hw
    refine ⟨.lock st, ?_, hst, rfl⟩
    have hagain : Point.found_again p (w.srcstate.find p.saddr) = locked_stage st p := by
      rw [hst]; rfl
    exact hagain
  | lock st =>
    cases hk
    refine ⟨.reason b.1 b.2 false, rfl, ?_, rfl⟩
    cases hx
    simp only [update_locked]
    split
    · exact hp
    · next s _ =>
      change (locked p s).2.2 ≠ .state_full
      rcases locked_verdict p s with h | ⟨-, h⟩ <;> rw [h]
      · exact hp
      · decide
  | full =>
    cases hk
    exact ⟨.reason p.verdict p.reason true, rfl, hp, rfl⟩
  | reason v s gave_up =>
    cases hk
    have hs : s ≠ .state_full := hw
    refine ⟨.done v gave_up, rfl, trivial, ?_⟩
    simp [mark, hs, Point.tally]
  | done v gave_up => cases hk

/-- What `k` packets like `p` add to the counts. -/
def grow (k : ℕ) (p : Pending) : ℕ × ℕ := (k, k * p.pkt_len)

lemma grow_add (k l : ℕ) (p : Pending) : grow (k + l) p = grow k p + grow l p :=
  Prod.ext rfl (Nat.add_mul k l p.pkt_len)

lemma grow_zero (p : Pending) : grow 0 p = 0 := Prod.ext rfl (Nat.zero_mul _)

/-- A source's counts grow by its packet, when the packet holds the lock. -/
lemma point_counts {cpu : Fin n} {w w' : World n} {p : Pending} {pt : Point} {o : Op}
    {b : Ans o} {k : Ans o → Call Verdict} (hk : pt.prog p = .call o k) (hw : pt.Knows w p)
    (hx : exec cpu w o = (b, w')) (a : Addr) :
    counts w' a =
      counts w a + if p.saddr = a then grow (mark ⟨o, b⟩).1 p else 0 := by
  cases pt with
  | insert =>
    cases hk
    have hmark : (mark ⟨.state_insert p.saddr (init p), b⟩).1 = 0 := rfl
    rw [hmark, grow_zero, ite_self, add_zero]
    simp only [exec, insert_noexist] at hx
    split_ifs at hx with hfull
    · cases hx; rfl
    · cases hx
      unfold counts
      by_cases ha : a = p.saddr
      · subst ha
        rw [not_or, Option.not_isSome_iff_eq_none] at hfull
        rw [RefMap.get_insert, RefMap.get_eq_none.mpr hfull.1]
        rfl
      · rw [RefMap.get_insert_ne _ _ ha]
  | lock st =>
    cases hk
    cases hx
    have hst : w.srcstate.find p.saddr = some st := hw
    obtain ⟨s, hs⟩ := RefMap.deref_of_find hst
    simp only [update_locked, hs, counts]
    by_cases ha : p.saddr = a
    · subst ha
      rw [if_pos rfl, RefMap.get_set _ _ hst, RefMap.get_eq hst, hs]
      have hone : grow (mark ⟨.state_locked st p, (locked p s).2⟩).1 p = (1, p.pkt_len) :=
        Prod.ext rfl (Nat.one_mul _)
      rw [hone]
      exact locked_counts p s
    · have hne : w.srcstate.find a ≠ some st := fun h => ha (w.srcstate.inj hst h)
      rw [if_neg ha, add_zero, RefMap.get_set_ne _ _ hne]
  | done v gave_up => cases hk
  | _ =>
    cases hk
    cases hx
    simp [counts, mark, grow_zero]

/-! ### Runs -/

variable {ι : Type} [DecidableEq ι] {cpu : ι → Fin n}

/-- Only the packets of the pool touch `srcstate` and the counters. -/
def Alone (w w' : World n) : Prop := w'.srcstate = w.srcstate ∧ w'.stats = w.stats

/-- Every execution is at a point that is right about the state, with the tally of its own
events. -/
def Placed (p : ι → Pending) (tr : Turns calls (World n) Verdict ι)
    (m : Pool calls (World n) Verdict ι) : Prop :=
  ∀ i, ∃ pt : Point, m.2 i = pt.prog (p i) ∧ pt.Knows m.1 (p i) ∧ tally (own i tr) = pt.tally

lemma Point.knows_congr {w w' : World n} {p : Pending} {pt : Point}
    (hw : w'.srcstate = w.srcstate) (h : pt.Knows w p) : pt.Knows w' p :=
  h.keep fun a st hst => by rw [hw]; exact hst

lemma Point.not_delete {p : Pending} {pt : Point} {o : Op} {k : Ans o → Call Verdict}
    (hk : pt.prog p = .call o k) : ∀ a, o ≠ .state_delete a := by
  rintro a rfl
  cases pt <;> cases hk

/-- A turn, seen from the machine the program finds. -/
lemma turn_inv {c c' : Pool calls (World n) Verdict ι} {i : ι} {o : Op} {b : Ans o}
    (h : turn (fun i => kernel Alone (cpu i)) c (i, ⟨o, b⟩) c') :
    ∃ k w, c.2 i = .call o k ∧ w.srcstate = c.1.srcstate ∧ exec (cpu i) w o = (b, c'.1) ∧
      c'.2 = Function.update c.2 i (k b) := by
  obtain ⟨k, hk, ⟨w, hw, hx⟩, hu⟩ := h
  exact ⟨k, w, hk, hw.1, hx, hu⟩

lemma own_turn (i j : ι) (tr : Turns calls (World n) Verdict ι) (e : Event calls)
    (m m' : Pool calls (World n) Verdict ι) :
    tally (own j (tr ++ [⟨m, (i, e), m'⟩])) =
      tally (own j tr) + if i = j then mark e else 0 := by
  rw [own_snoc]
  by_cases hij : i = j
  · simp [hij, tally_snoc]
  · simp [hij]

lemma turn_keeps {p : ι → Pending} {tr : Turns calls (World n) Verdict ι}
    {m m' : Pool calls (World n) Verdict ι} {e : ι × Event calls} (hm : Placed p tr m)
    (h : turn (fun i => kernel Alone (cpu i)) m e m') : Keeps m.1 m'.1 := by
  obtain ⟨i, o, b⟩ := e
  obtain ⟨k, w, hk, hw, hx, -⟩ := turn_inv h
  obtain ⟨pt, hpt, -⟩ := hm i
  rw [hk] at hpt
  have hkeep := exec_keeps (cpu i) w (Point.not_delete hpt.symm)
  rw [hx] at hkeep
  exact fun a st hst => hkeep a st (by rw [hw]; exact hst)

/-- **One turn keeps every execution at a point that is right**: the entries stay where they
are, so nobody's knowledge is lost. -/
theorem placed_step {p : ι → Pending} (hp : ∀ i, (p i).reason ≠ .state_full)
    {tr : Turns calls (World n) Verdict ι} {m m' : Pool calls (World n) Verdict ι}
    {e : ι × Event calls} (hm : Placed p tr m)
    (h : turn (fun i => kernel Alone (cpu i)) m e m') : Placed p (tr ++ [⟨m, e, m'⟩]) m' := by
  have hkeep := turn_keeps hm h
  obtain ⟨i, o, b⟩ := e
  obtain ⟨k, w, hk, hw, hx, hu⟩ := turn_inv h
  obtain ⟨pt, hpt, hknows, htally⟩ := hm i
  rw [hk] at hpt
  intro j
  rw [own_turn]
  by_cases hij : i = j
  · subst hij
    obtain ⟨pt', hk', hknows', htally'⟩ :=
      point_step (hp i) hpt.symm (Point.knows_congr hw hknows) hx
    exact ⟨pt', by rw [hu, Function.update_self, hk'], hknows', by simp [htally, htally']⟩
  · obtain ⟨pt', hpt', hknows', htally'⟩ := hm j
    refine ⟨pt', ?_, hknows'.keep hkeep, by simp [htally', hij]⟩
    rw [hu, Function.update_of_ne (Ne.symm hij), hpt']

lemma placed_start {p : ι → Pending} (hf : ∀ i, has (p i).feat FEAT_TRACK_STATE = true)
    (w : World n) : Placed p [] (w, fun i => update_state (p i)) := fun i =>
  ⟨.label, update_state_eq (hf i), trivial, rfl⟩

/-- A finished packet was counted, or given up after a refused insert. -/
lemma tally_done {p : ι → Pending} {v : Verdict} {tr : Turns calls (World n) Verdict ι}
    {q : Pool calls (World n) Verdict ι} (hm : Placed p tr q) {i : ι}
    (hv : q.2 i = .ret v) :
    tally (own i tr) = (1, 0, 0) ∨ tally (own i tr) = (0, 1, 1) := by
  obtain ⟨pt, hpt, -, htally⟩ := hm i
  rw [hv] at hpt
  rw [htally]
  cases pt with
  | done v gave_up => cases gave_up <;> simp [Point.tally]
  | _ => cases hpt

/-- A component of the tally is zero when no event marks it. -/
lemma tally_eq_zero (g : ℕ × ℕ × ℕ →+ ℕ) (l : List (Event calls)) :
    g (tally l) = 0 ↔ ∀ e ∈ l, g (mark e) = 0 := by
  rw [tally, map_list_sum, List.sum_eq_zero_iff_forall_eq_nat, List.forall_mem_map,
    List.forall_mem_map]

/-- An insert finds no entry of its source. -/
def Fresh (w : World n) (o : Op) : Prop :=
  match o with
  | .state_insert a _ => w.srcstate.find a = none
  | _ => True

/-- Nobody is turned away when every insert finds no entry. -/
lemma refusals_eq_zero {tr : Turns calls (World n) Verdict ι}
    (hsize : ∀ x ∈ tr, x.pre.1.srcstate.size < MAX_TRACKED)
    {c c' : Pool calls (World n) Verdict ι}
    (h : Path (turn fun i => kernel Alone (cpu i)) c tr c')
    (hfresh : ∀ x ∈ tr, Fresh x.pre.1 x.ev.2.1) (i : ι) : (tally (own i tr)).2.2 = 0 := by
  refine (tally_eq_zero ((AddMonoidHom.snd ℕ ℕ).comp (AddMonoidHom.snd ℕ (ℕ × ℕ))) _).mpr ?_
  rintro ⟨o, b⟩ he
  obtain ⟨⟨pre, ev, post⟩, hx, hxe⟩ := mem_own.mp he
  cases hxe
  obtain ⟨k, w1, -, hw, hx1, -⟩ := turn_inv (h.step_of_mem hx)
  cases o with
  | state_insert a st =>
    have hnone : w1.srcstate.find a = none := by rw [hw]; exact hfresh _ hx
    have hroom : w1.srcstate.size < MAX_TRACKED := by rw [hw]; exact hsize _ hx
    have hb : b = false := by
      simp only [exec, insert_noexist, hnone, Option.isSome_none, Bool.false_eq_true,
        false_or, if_neg (not_le.mpr hroom)] at hx1
      exact (Prod.mk.inj hx1).1.symm
    subst hb
    rfl
  | _ => rfl

/-- An insert that finds an entry is refused. -/
lemma fresh_of_refusals {tr : Turns calls (World n) Verdict ι}
    {c c' : Pool calls (World n) Verdict ι} (h : Path (turn fun i => kernel Alone (cpu i)) c tr c')
    (hzero : ∀ i, (tally (own i tr)).2.2 = 0) : ∀ x ∈ tr, Fresh x.pre.1 x.ev.2.1 := by
  rintro ⟨pre, ⟨i, o, b⟩, post⟩ hx
  obtain ⟨k, w1, -, hw, hx1, -⟩ := turn_inv (h.step_of_mem hx)
  cases o with
  | state_insert a st =>
    have hmark := (tally_eq_zero ((AddMonoidHom.snd ℕ ℕ).comp (AddMonoidHom.snd ℕ (ℕ × ℕ)))
      (own i tr)).mp (hzero i) _ (mem_own.mpr ⟨_, hx, rfl⟩)
    by_contra hsome
    have hfind : (w1.srcstate.find a).isSome = true := by
      rw [hw]
      exact Option.isSome_iff_ne_none.mpr hsome
    have hb : b = true := by
      simp only [exec, insert_noexist, hfind, true_or, if_true] at hx1
      exact (Prod.mk.inj hx1).1.symm
    subst hb
    exact absurd hmark one_ne_zero
  | _ => trivial

/-- The entry has counted `k` packets with `l` bytes in all, and is there if there was one. -/
def Grown (e e' : Option SrcState) (k l : ℕ) : Prop :=
  (e' = none → e = none ∧ k = 0) ∧
    ∀ st', e' = some st' → st'.packets = (e.elim 0 SrcState.packets) + k ∧
      st'.bytes = (e.elim 0 SrcState.bytes) + l

lemma grown_of_counts {e e' : Option SrcState} {k l : ℕ} (hkeep : e' = none → e = none)
    (h : e'.elim (0 : ℕ × ℕ) (fun st => (st.packets, st.bytes)) =
      e.elim (0 : ℕ × ℕ) (fun st => (st.packets, st.bytes)) + (k, l)) : Grown e e' k l := by
  refine ⟨fun he' => ⟨hkeep he', ?_⟩, ?_⟩
  · have he := hkeep he'
    subst he he'
    have hk := congrArg Prod.fst h
    simpa using hk.symm
  · rintro st' rfl
    have hk := congrArg Prod.fst h
    have hl := congrArg Prod.snd h
    cases e <;> exact ⟨hk, hl⟩

variable [Fintype ι]

/-- What the packets counted so far add to a source's counts. -/
def grown (p : ι → Pending) (tr : Turns calls (World n) Verdict ι) (a : Addr) : ℕ × ℕ :=
  ∑ i with (p i).saddr = a, grow (tally (own i tr)).1 (p i)

lemma grown_step {p : ι → Pending} {tr : Turns calls (World n) Verdict ι}
    {m m' : Pool calls (World n) Verdict ι} {e : ι × Event calls} (hm : Placed p tr m)
    (h : turn (fun i => kernel Alone (cpu i)) m e m') {w0 : World n} {a : Addr}
    (hc : counts m.1 a = counts w0 a + grown p tr a) :
    counts m'.1 a = counts w0 a + grown p (tr ++ [⟨m, e, m'⟩]) a := by
  obtain ⟨i, o, b⟩ := e
  obtain ⟨k, w, hk, hw, hx, -⟩ := turn_inv h
  obtain ⟨pt, hpt, hknows, -⟩ := hm i
  rw [hk] at hpt
  have hcw : counts w a = counts m.1 a := by unfold counts; rw [hw]
  rw [point_counts hpt.symm (Point.knows_congr hw hknows) hx a, hcw, hc, add_assoc]
  refine congrArg _ ?_
  have hone : ∀ j, grow (tally (own j (tr ++ [⟨m, (i, ⟨o, b⟩), m'⟩]))).1 (p j) =
      grow (tally (own j tr)).1 (p j) + if i = j then grow (mark ⟨o, b⟩).1 (p j) else 0 := by
    intro j
    rw [own_turn, Prod.fst_add, grow_add]
    split_ifs
    · rfl
    · rw [Prod.fst_zero, grow_zero]
  simp only [grown, hone, Finset.sum_add_distrib, Finset.sum_ite_eq, Finset.mem_filter,
    Finset.mem_univ, true_and]

/-- What the packets have done so far, from the start `w0`. -/
structure Correct (p : ι → Pending) (w0 : World n) (tr : Turns calls (World n) Verdict ι)
    (m : Pool calls (World n) Verdict ι) : Prop where
  placed : Placed p tr m
  keeps : Keeps w0 m.1
  grown : ∀ a, counts m.1 a = counts w0 a + grown p tr a

/-- **At every point of a run** the counts are the old ones and the packets counted so far. -/
theorem correct_throughout {p : ι → Pending} (hp : ∀ i, (p i).reason ≠ .state_full)
    (hf : ∀ i, has (p i).feat FEAT_TRACK_STATE = true) {w : World n}
    (c' : Pool calls (World n) Verdict ι) {tr : Turns calls (World n) Verdict ι} :
    Throughout (turn fun i => kernel Alone (cpu i)) (w, fun i => update_state (p i)) tr c'
      (Correct p w) := by
  refine throughout_of_step ⟨placed_start hf w, fun _ _ h => h, fun a => ?_⟩ ?_
  · have hzero : grown p ([] : Turns calls (World n) Verdict ι) a = 0 :=
      Finset.sum_eq_zero fun i _ => grow_zero (p i)
    rw [hzero, add_zero]
  · intro tr1 m e m' hm hstep _
    refine ⟨placed_step hp hm.placed hstep, ?_, fun a => grown_step hm.placed hstep (hm.grown a)⟩
    exact fun a st h => turn_keeps hm.placed hstep a st (hm.keeps a st h)

/-! ### The whole run -/

/-- Packet `i` took its turn under the lock of its source's entry. -/
def Charged (tr : Turns calls (World n) Verdict ι) (i : ι) (p : Pending) : Prop :=
  ∃ x ∈ tr, x.ev.1 = i ∧ ∃ st, x.pre.1.srcstate.get p.saddr = some st ∧
    x.post.1.srcstate.get p.saddr = some (locked p st).1

/-- Nothing is lost, nothing passes the limiter by, nobody is turned away. -/
structure Tracked (p : ι → Pending) (w w' : World n) (tr : Turns calls (World n) Verdict ι) :
    Prop where
  grown : ∀ a, Grown (w.srcstate.get a) (w'.srcstate.get a)
    (Finset.card {i | (p i).saddr = a}) (∑ i with (p i).saddr = a, (p i).pkt_len)
  charged : ∀ i, limited (p i) = true → Charged tr i (p i)
  full : w'.total .state_full = w.total .state_full

/-- The program's writes to `STAT_STATE_FULL` are in the tally. -/
lemma written_full (l : List (Event calls)) : (written l).stats .state_full = (tally l).2.1 := by
  induction l using List.reverseRecOn with
  | nil => rfl
  | append_singleton l e ih =>
    have hmark : amount .state_full e = (mark e).2.1 := by
      obtain ⟨o, b⟩ := e
      cases o <;> simp [amount, mark, eq_comm]
    rw [written_snoc, write_stats, ih, tally_snoc, hmark]
    rfl

section Complete

variable {p : ι → Pending} {v : ι → Verdict} {w w' : World n}
  {tr : Turns calls (World n) Verdict ι}

/-- A packet that was counted held the lock of its source's entry. -/
lemma charged_of_tally (hp : ∀ i, (p i).reason ≠ .state_full)
    (hf : ∀ i, has (p i).feat FEAT_TRACK_STATE = true) {c' : Pool calls (World n) Verdict ι}
    (h : Path (turn fun i => kernel Alone (cpu i)) (w, fun i => update_state (p i)) tr c')
    {i : ι} (hi : (tally (own i tr)).1 ≠ 0) : Charged tr i (p i) := by
  have hex : ∃ e ∈ own i tr, (mark e).1 ≠ 0 := by
    by_contra hnone
    push Not at hnone
    exact hi ((tally_eq_zero (AddMonoidHom.fst ℕ (ℕ × ℕ)) _).mpr hnone)
  obtain ⟨e, he, hmark⟩ := hex
  obtain ⟨x, hx, hxe⟩ := mem_own.mp he
  obtain ⟨tr1, tr2, htr, h1, hstep, h2⟩ := h.split hx
  obtain ⟨pt, hpt, hknows, -⟩ :=
    (correct_throughout hp hf c' tr1 (x :: tr2) x.pre htr h1 (.cons hstep h2)).placed i
  obtain ⟨pre, ev, ⟨w2, q2⟩⟩ := x
  obtain ⟨o, b⟩ := e
  cases hxe
  obtain ⟨k, w1, hk, hw, hx1, -⟩ := turn_inv hstep
  dsimp only at hk hw hx1 hpt hknows
  rw [hk] at hpt
  cases pt with
  | lock r =>
    cases hpt
    cases hx1
    have hr : pre.1.srcstate.find (p i).saddr = some r := hknows
    obtain ⟨st, hst⟩ := RefMap.deref_of_find hr
    refine ⟨_, hx, rfl, st, by rw [RefMap.get_eq hr, hst], ?_⟩
    simp only [update_locked, hw, hst]
    exact RefMap.get_set _ _ hr
  | reason v s g => cases hpt; exact absurd rfl hmark
  | done v g => cases hpt
  | full => cases hpt; exact absurd rfl hmark
  | _ => cases hpt; exact absurd rfl hmark

/-- **Every packet is tracked exactly in the runs in which no insert finds an entry** that
another CPU has made since the lookup. -/
theorem tracked_iff (p : ι → Pending) (v : ι → Verdict) (w w' : World n)
    (tr : Turns calls (World n) Verdict ι)
    (hp : ∀ i, Pair ((p i).verdict, (p i).reason))
    (hf : ∀ i, has (p i).feat FEAT_TRACK_STATE = true)
    (h : Path (turn fun i => kernel Alone (cpu i)) (w, fun i => update_state (p i)) tr
      (w', fun i => .ret (v i)))
    (hsize : ∀ x ∈ tr, x.pre.1.srcstate.size < MAX_TRACKED) :
    Tracked p w w' tr ↔ ∀ x ∈ tr, Fresh x.pre.1 x.ev.2.1 := by
  have hr : ∀ i, (p i).reason ≠ .state_full := fun i => (agrees_reason (hp i).1).2.2.1
  have hend := (correct_throughout hr hf (w', fun i => .ret (v i))).last h
  have htotal : w'.total .state_full = w.total .state_full + ∑ i, (tally (own i tr)).2.1 := by
    have hothers : Path (turn fun i => kernel Others (cpu i)) (w, fun i => update_state (p i)) tr
        (w', fun i => .ret (v i)) :=
      h.mono fun s e t ⟨k, hk, ⟨w1, hw, hx⟩, hu⟩ => ⟨k, hk, ⟨w1, hw.2, hx⟩, hu⟩
    simp only [← written_full]
    exact total_eq_written hothers .state_full
  constructor
  · intro ht
    refine fresh_of_refusals h fun i => ?_
    have hsum : ∑ i, (tally (own i tr)).2.1 = 0 := by
      have hfull := ht.full
      omega
    have hi := Finset.sum_eq_zero_iff.mp hsum i (Finset.mem_univ i)
    rcases tally_done hend.placed (i := i) rfl with hd | hd <;> rw [hd] at hi ⊢
    cases hi
  · intro hfresh
    have hdone : ∀ i, tally (own i tr) = (1, 0, 0) := by
      intro i
      have hi := refusals_eq_zero hsize h hfresh i
      rcases tally_done hend.placed (i := i) rfl with hd | hd
      · exact hd
      · rw [hd] at hi; cases hi
    refine ⟨fun a => grown_of_counts ?_ ?_, fun i _ => ?_, ?_⟩
    · intro hnone
      rw [RefMap.get_eq_none] at hnone ⊢
      cases hfind : w.srcstate.find a with
      | none => rfl
      | some st => rw [hend.keeps a st hfind] at hnone; cases hnone
    · have hg : grown p tr a =
          (Finset.card {i | (p i).saddr = a}, ∑ i with (p i).saddr = a, (p i).pkt_len) := by
        unfold grown
        simp only [hdone, grow, one_mul]
        refine Prod.ext ?_ ?_
        · rw [Prod.fst_sum, Finset.card_eq_sum_ones]
        · rw [Prod.snd_sum]
      rw [← hg]
      exact hend.grown a
    · exact charged_of_tally hr hf h (by rw [hdone]; exact one_ne_zero)
    · simp [htotal, hdone]

end Complete

/-! ### Two packets of a new source -/

def packet : Pending :=
  ⟨0, 20000, 40000, FEAT_DEFAULT, 7, 17, 0, 53, 60, .pass, .pass_default⟩

/-- The packet, once on each of two CPUs that take turns in the order of `is`. -/
def pair (is : List (Fin 2)) :
    Turns calls (World 2) Verdict (Fin 2) × Pool calls (World 2) Verdict (Fin 2) :=
  play (fun i => exec i) is (World.loaded 2, fun _ => update_state packet)

lemma path_pair (is : List (Fin 2)) (h : ∀ i, ((pair is).2.2 i).result = some .pass) :
    Path (turn fun i => kernel Alone i) (World.loaded 2, fun _ : Fin 2 => update_state packet)
      (pair is).1 ((pair is).2.1, fun _ => .ret .pass) := by
  have hE : ∀ w : World 2, Alone w w := fun _ => ⟨rfl, rfl⟩
  have hend : (pair is).2 = ((pair is).2.1, fun _ => .ret .pass) :=
    Prod.ext rfl (funext fun i => result_eq_some.mp (h i))
  rw [← hend]
  exact path_play hE _ _ _

instance (w : World n) (o : Op) : Decidable (Fresh w o) := by
  unfold Fresh
  cases o <;> infer_instance

def one_by_one : List (Fin 2) := [0, 0, 0, 0, 0, 0, 1, 1, 1, 1]

theorem tracked_one_by_one :
    Tracked (fun _ : Fin 2 => packet) (World.loaded 2) (pair one_by_one).2.1
      (pair one_by_one).1 :=
  (tracked_iff (fun _ => packet) _ _ _ _ (fun _ => ⟨rfl, by decide, by decide⟩) (fun _ => by decide)
    (path_pair one_by_one (by decide +kernel)) (by decide +kernel)).mpr (by decide +kernel)

/-- Both look the source up before either inserts it. -/
def at_once : List (Fin 2) := [0, 1, 0, 1, 0, 1, 0, 0, 0, 1, 1]

theorem second_packet_untracked : ∃ tr w',
    Path (turn fun i => kernel Alone i) (World.loaded 2, fun _ : Fin 2 => update_state packet) tr
      (w', fun _ => .ret .pass) ∧
    (∀ x ∈ tr, x.pre.1.srcstate.size < MAX_TRACKED) ∧
    (w'.srcstate.get 7).map SrcState.packets = some 1 ∧ w'.total .state_full = 1 ∧
    ¬ Tracked (fun _ : Fin 2 => packet) (World.loaded 2) w' tr := by
  have hfull : (pair at_once).2.1.total .state_full = 1 := by decide +kernel
  refine ⟨_, _, path_pair at_once (by decide +kernel), by decide +kernel, by decide +kernel,
    hfull, fun h => ?_⟩
  have h0 : (World.loaded 2).total .state_full = 0 := by decide +kernel
  have heq := h.full
  rw [hfull, h0] at heq
  cases heq

end Lookout.Tracking

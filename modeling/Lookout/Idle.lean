import Lookout.Firewall
import Lookout.Renewal
import Lookout.Runs
import Lookout.Traffic

/-!
The cleanup of `srcstate`, while a source's packets come.

`remove_idle_states` decides on a snapshot which sources have been idle for a minute, and deletes
them one after another by key. A source that has come back meanwhile loses its entry all the
same, and with it the account of the tokens it has spent.
-/

namespace Lookout.Idle

open Lookout.Effects Lookout.Effects.Prog Lookout.Runs Lookout.Dicts Lookout.Handles
open Lookout.Common Lookout.Packet Lookout.Limiter Lookout.Kernel Lookout.Xdp Lookout.Firewall
open Lookout.Traffic Lookout.TokenBucket Lookout.Renewal

/-- A source, and the settings its limiter runs with. -/
structure Limit where
  saddr : Addr
  rate : U64
  burst : U64
  divides : rate.toNat ∣ 1000000000
  twice : burst.toNat = 2 * rate.toNat

namespace Limit

lemma rate_pos (l : Limit) : 0 < l.rate.toNat := Nat.pos_of_dvd_of_pos l.divides (by omega)

lemma rate_le (l : Limit) : l.rate.toNat ≤ 1000000000 := Nat.le_of_dvd (by omega) l.divides

/-- An empty bucket fills up in two seconds. -/
lemma fills (l : Limit) : l.burst.toNat * (1000000000 / l.rate.toNat) = 2000000000 := by
  have hdiv := Nat.mul_div_cancel' l.divides
  rw [l.twice, Nat.mul_assoc, hdiv]

end Limit

variable {n : ℕ} {ι : Type} [DecidableEq ι] {l : Limit}

/-- A packet of the source that comes to the locked section. -/
structure Comes (l : Limit) (w : World n) (p : Pending) : Prop where
  saddr : p.saddr = l.saddr
  rate : p.rate = l.rate
  burst : p.burst = l.burst
  tracked : has p.feat FEAT_TRACK_STATE = true
  room : (w.srcstate.find l.saddr).isSome = true ∨ w.srcstate.size < MAX_TRACKED

/-- The maps, and the cleanups. -/
abbrev State (n : ℕ) (ι : Type) := World n × (ι → Call ℕ)

inductive Ev (ι : Type)
  | packet (p : Pending) (v : Verdict)
  | clean (i : ι) (e : Event calls)
  | again (i : ι)
  | other

/-- A packet of the source from `update_state` on, the next operation of a cleanup, the start of
another one, or anything that leaves the source's entry alone: time passing, the packets of other
sources, those of the source that are decided earlier or cannot be tracked. -/
inductive Step (l : Limit) : State n ι → Ev ι → State n ι → Prop
  | packet {w w' : World n} {p : Pending} {v : Verdict} (ps : ι → Call ℕ) (c : Fin n)
    (hp : Comes l w p) (h : run (exec c) (update_state p) w = (v, w')) :
    Step l (w, ps) (.packet p v) (w', ps)
  | clean {w w' : World n} {ps : ι → Call ℕ} {i : ι} {o : Op} {b : Ans o} {k : Ans o → Call ℕ}
    (c : Fin n) (hi : ps i = .call o k) (h : exec c w o = (b, w')) :
    Step l (w, ps) (.clean i ⟨o, b⟩) (w', Function.update ps i (k b))
  | again {ps : ι → Call ℕ} {i : ι} {r : ℕ} (w : World n) (hi : ps i = .ret r) :
    Step l (w, ps) (.again i) (w, Function.update ps i remove_idle_states)
  | other {w w' : World n} (ps : ι → Call ℕ)
    (h : w'.srcstate.get l.saddr = w.srcstate.get l.saddr) : Step l (w, ps) .other (w', ps)

abbrev Turn (n : ℕ) (ι : Type) := Trans (State n ι) (Ev ι)

/-- The packet is one of the limiter's with a reading in `[s, t]`, and passed. -/
def passes (s t : ℕ) (x : Turn n ι) : Bool :=
  match x.ev with
  | .packet p v => limited p && v == .pass && decide (s ≤ p.now.toNat ∧ p.now.toNat ≤ t)
  | _ => false

/-! ### What an observer notes -/

structure Watch (ι : Type) where
  /-- The reading of the source's last packet. -/
  last : Option ℕ
  /-- The clock reading of each cleanup, and whether a packet has come since its snapshot. -/
  clock : ι → ℕ
  seen : ι → Bool
  /-- The clock reading of the cleanup that deleted the entry last, if no packet had come between
  its snapshot and the delete. -/
  idle : Option ℕ

namespace Watch

def start : Watch ι := ⟨none, fun _ => 0, fun _ => false, none⟩

/-- A delete of the source's entry, or of nothing. -/
def delete (l : Limit) (m : Watch ι) (i : ι) (a : Addr) (existed : Bool) : Watch ι :=
  if a = l.saddr ∧ existed = true then
    { m with idle := if m.seen i then none else some (m.clock i) }
  else m

def see (l : Limit) (m : Watch ι) (x : Turn n ι) : Watch ι :=
  match x.ev with
  | .packet p _ => { m with last := some p.now.toNat, seen := fun _ => true }
  | .clean i ⟨.ktime_get_ns, now⟩ => { m with clock := Function.update m.clock i now.toNat }
  | .clean i ⟨.state_items, _⟩ => { m with seen := Function.update m.seen i false }
  | .clean i ⟨.state_delete a, existed⟩ => m.delete l i a existed
  | _ => m

end Watch

/-- `P` at every packet of the run, with the watch up to there. -/
def AtPackets (l : Limit) (P : Watch ι → World n → Pending → Prop) : Watch ι → List (Turn n ι) → Prop
  | _, [] => True
  | m, x :: tr =>
    (match x.ev with
      | .packet p _ => P m x.pre.1 p
      | _ => True) ∧ AtPackets l P (m.see l x) tr

/-- The packet's reading is not behind that of the packet before. -/
def InOrder (m : Watch ι) (_ : World n) (p : Pending) : Prop := ∀ t ∈ m.last, t ≤ p.now.toNat

/-- When the source's entry is gone, then no packet had come between the snapshot and the delete,
and this one has not been under way since 58 seconds before that cleanup; or the last packet was
two seconds ago. -/
def Spared (l : Limit) (m : Watch ι) (w : World n) (p : Pending) : Prop :=
  w.srcstate.find l.saddr = none → ∀ t ∈ m.last,
    (∃ c ∈ m.idle, c ≤ p.now.toNat + 58000000000) ∨ t + 2000000000 ≤ p.now.toNat

/-! ### The limiter and its bucket -/

/-- A packet, as the bucket sees it. -/
def arrival (l : Limit) (w : World n) (p : Pending) : Arrival :=
  ⟨p.now.toNat, (w.srcstate.find l.saddr).isNone, limited p⟩

/-- The packets of a run. -/
def arrivals (l : Limit) (tr : List (Turn n ι)) : List Arrival :=
  tr.filterMap fun x =>
    match x.ev with
    | .packet p _ => some (arrival l x.pre.1 p)
    | _ => none

/-- The source's entry, if it has one, holds the bucket `b`. -/
def Holds (l : Limit) (b : Bucket) (w : World n) : Prop :=
  ∀ st, w.srcstate.get l.saddr = some st → bucket st = b ∧ st.tokens.toNat ≤ l.burst.toNat

/-- The limiter on one packet. -/
lemma locked_step {p : Pending} {st : SrcState} (hrate : p.rate = l.rate)
    (hburst : p.burst = l.burst) (htok : st.tokens.toNat ≤ l.burst.toNat) :
    (bucket (locked p st).1, limited p && decide ((locked p st).2.1 = .pass)) =
        (if limited p then step 1000000000 l.rate.toNat l.burst.toNat (bucket st) p.now.toNat
          else (bucket st, false)) ∧
      (locked p st).1.tokens.toNat ≤ l.burst.toNat := by
  have hle := l.rate_le
  have htwice := l.twice
  cases hl : limited p with
  | true =>
    obtain ⟨hbk, hvd⟩ := locked_limited st hl
    have hstep := token_bucket_eq (p := p) (count_packet p st) (by rw [hrate]; omega)
      (by rw [hrate]; change st.tokens.toNat + _ < _; omega) (limited_pass hl)
    rw [← hbk, ← hvd, bucket_count_packet, hrate, hburst] at hstep
    refine ⟨hstep, ?_⟩
    have htokens := congrArg (fun r => r.1.tokens) hstep
    simp only [bucket, step] at htokens
    omega
  | false =>
    obtain ⟨hbk, -⟩ := locked_decided st hl
    refine ⟨Prod.ext hbk rfl, ?_⟩
    have htokens : (locked p st).1.tokens.toNat = st.tokens.toNat := congrArg Bucket.tokens hbk
    omega

/-- The packet comes to the bucket that its entry holds. -/
lemma bucket_entry_for {w : World n} {p : Pending} {b : Bucket} (hp : Comes l w p)
    (hb : Holds l b w) :
    bucket (entry_for w p) = found l.burst.toNat b (arrival l w p) ∧
      (entry_for w p).tokens.toNat ≤ l.burst.toNat := by
  unfold entry_for found arrival
  rw [hp.saddr]
  cases hget : w.srcstate.get l.saddr with
  | none =>
    have hnone : (w.srcstate.find l.saddr).isNone = true := by
      rw [RefMap.get_eq_none.mp hget]
      rfl
    rw [hnone, ← hp.burst]
    exact ⟨rfl, le_rfl⟩
  | some st =>
    have hsome : (w.srcstate.find l.saddr).isNone = false := by
      cases hf : w.srcstate.find l.saddr with
      | none =>
        rw [RefMap.get_eq_none.mpr hf] at hget
        cases hget
      | some r => rfl
    rw [hsome]
    exact hb st hget

/-- One packet, for the entry and for the bucket. -/
lemma holds_packet {w w' : World n} {p : Pending} {v : Verdict} {c : Fin n} {b : Bucket}
    (hp : Comes l w p) (h : run (exec c) (update_state p) w = (v, w')) (hb : Holds l b w) :
    Holds l (next 1000000000 l.rate.toNat l.burst.toNat b (arrival l w p)).1 w' ∧
      (limited p && decide (v = .pass)) =
        (next 1000000000 l.rate.toNat l.burst.toNat b (arrival l w p)).2 := by
  have hroom := hp.room
  rw [← hp.saddr] at hroom
  obtain ⟨hv, hw⟩ := run_tracked c hp.tracked hroom
  rw [h] at hv hw
  obtain ⟨hfound, htok⟩ := bucket_entry_for hp hb
  obtain ⟨hstep, htok'⟩ := locked_step hp.rate hp.burst htok
  rw [hfound] at hstep
  obtain ⟨hbk, hpass⟩ := Prod.mk.inj hstep
  dsimp only at hv hw
  rw [hp.saddr] at hw
  rw [hv]
  refine ⟨fun st hst => ?_, hpass⟩
  rw [hw] at hst
  cases hst
  exact ⟨hbk, htok'⟩

/-- An operation of a cleanup deletes the entry or leaves it alone. -/
lemma get_cleanUp {c : Fin n} {w w' : World n} {o : Op} {b : Ans o} (h : exec c w o = (b, w'))
    (ho : CleanUpOp o) (a : Addr) :
    o = .state_delete a ∧ w'.srcstate.get a = none ∨ w'.srcstate.get a = w.srcstate.get a := by
  cases o with
  | state_delete a' =>
    cases h
    by_cases ha : a = a'
    · subst ha
      exact Or.inl ⟨rfl, RefMap.get_erase _ _⟩
    · exact Or.inr (RefMap.get_erase_ne _ ha)
  | ktime_get_ns | block_items | block_delete | state_items => cases h; exact Or.inr rfl
  | _ => exact ho.elim

/-- The cleanups are cleanups all along. -/
lemma uses_step {c c' : State n ι} {e : Ev ι} (h : Step l c e c')
    (hops : ∀ i, Uses CleanUpOp (c.2 i)) : ∀ i, Uses CleanUpOp (c'.2 i) := by
  cases h with
  | packet => exact hops
  | @clean _ _ ps i o b k _ hi =>
    have hown := hops i
    dsimp only at hown
    rw [hi] at hown
    exact (Function.forall_update_iff ps fun _ q => Uses CleanUpOp q).mpr
      ⟨hown.2 b, fun j _ => hops j⟩
  | @again ps i =>
    exact (Function.forall_update_iff ps fun _ q => Uses CleanUpOp q).mpr
      ⟨uses_remove_idle_states, fun j _ => hops j⟩
  | other => exact hops

lemma holds_of_get {b : Bucket} {w w' : World n} (hb : Holds l b w)
    (h : w'.srcstate.get l.saddr = none ∨ w'.srcstate.get l.saddr = w.srcstate.get l.saddr) :
    Holds l b w' := by
  intro st hst
  rcases h with h | h
  · rw [h] at hst
    cases hst
  · exact hb st (h ▸ hst)

lemma ite_eq_toNat (b : Bool) : (if b = true then 1 else 0) = b.toNat := by
  cases b <;> rfl

/-- **The limiter is the renewed bucket**: what it lets through of the source. -/
theorem passed_eq (s t : ℕ) {c c' : State n ι} {tr : List (Turn n ι)}
    (h : Path (Step l) c tr c') (hops : ∀ i, Uses CleanUpOp (c.2 i)) {b : Bucket}
    (hb : Holds l b c.1) :
    tr.countP (passes s t) =
      passed_between 1000000000 l.rate.toNat l.burst.toNat s t b (arrivals l tr) := by
  induction tr generalizing c b with
  | nil => rfl
  | cons x tr ih =>
    obtain ⟨rfl, hx, hrest⟩ := h.uncons
    have hops' := uses_step hx hops
    obtain ⟨c, e, c1⟩ := x
    rw [List.countP_cons]
    cases hx with
    | @packet w w' p v ps _ hp hrun =>
      obtain ⟨hb', hpass⟩ := holds_packet hp hrun hb
      have hone : (if passes s t (⟨(w, ps), .packet p v, (w', ps)⟩ : Turn n ι) then 1 else 0) =
          (decide (s ≤ p.now.toNat ∧ p.now.toNat ≤ t) &&
            (next 1000000000 l.rate.toNat l.burst.toNat b (arrival l w p)).2).toNat := by
        rw [← hpass, Bool.and_comm]
        exact ite_eq_toNat _
      rw [hone, ih hrest hops' hb', Nat.add_comm]
      rfl
    | @clean w w' ps i o a k _ hi hop =>
      have hown := hops i
      dsimp only at hown
      rw [hi] at hown
      exact ih hrest hops' (holds_of_get hb ((get_cleanUp hop hown.1 l.saddr).imp_left And.right))
    | again w hi => exact ih hrest hops' hb
    | other ps hget => exact ih hrest hops' (holds_of_get hb (Or.inr hget))

/-! ### The cleanup, step by step -/

/-- The sources of a snapshot that have been idle for a minute. -/
def doomed (now : ℕ) (items : List (Addr × SrcState)) : List Addr :=
  ((Dict.ofItems items).filterMap fun _ st =>
    if st.last_seen_ns.toNat < (now : ℤ) - (IDLE_TIMEOUT_S * 1000000000 : ℕ) then some st
    else none).keys

/-- The rest of a cleanup when `as` are still to be deleted. -/
def deleting (as : List Addr) (r : ℕ) : Call ℕ := delete_states as >>= fun _ => .ret r

lemma mem_doomed {now : ℕ} {m : RefMap Addr SrcState} {a : Addr}
    (h : a ∈ doomed now (states m)) :
    ∃ st, m.get a = some st ∧ st.last_seen_ns.toNat + 60000000000 < now := by
  unfold doomed at h
  rw [AList.mem_keys.symm, ← AList.lookup_isSome, Dict.lookup_filterMap, lookup_states] at h
  cases hget : m.get a with
  | none =>
    rw [hget] at h
    cases h
  | some st =>
    rw [hget, Option.bind_some] at h
    split_ifs at h with hlt
    · refine ⟨st, rfl, ?_⟩
      unfold IDLE_TIMEOUT_S at hlt
      omega
    · cases h

/-- If no packet has come since the snapshot, the source's last packet was a minute before the
cleanup read the clock. -/
def Doomed (m : Watch ι) (i : ι) : Prop :=
  m.seen i = false → ∀ t ∈ m.last, t + 60000000000 < m.clock i

/-- Where a cleanup stands. -/
inductive At (l : Limit) (m : Watch ι) (i : ι) : Call ℕ → Prop
  | start : At l m i remove_idle_states
  | reading {now : U64} (h : m.clock i = now.toNat) :
    At l m i (.call .state_items fun items =>
      deleting (doomed now.toNat items) (doomed now.toNat items).length)
  | deleting {as : List Addr} (r : ℕ) (h : l.saddr ∈ as → Doomed m i) : At l m i (deleting as r)

/-- What the watch knows of the source's entry, and of the cleanups. -/
structure Tracks (l : Limit) (m : Watch ι) (c : State n ι) : Prop where
  entry : ∀ st, c.1.srcstate.get l.saddr = some st → m.last = some st.last_seen_ns.toNat
  idle : c.1.srcstate.get l.saddr = none → ∀ clock ∈ m.idle, ∀ t ∈ m.last, t + 60000000000 < clock
  cleanup : ∀ i, At l m i (c.2 i)

omit [DecidableEq ι] in
/-- A cleanup is not moved by what leaves its notes alone. -/
lemma At.congr {m m' : Watch ι} {i : ι} {q : Call ℕ} (h : At l m i q) (hclock : m'.clock i = m.clock i)
    (hdoomed : Doomed m i → Doomed m' i) : At l m' i q := by
  cases h with
  | start => exact .start
  | reading h => exact .reading (hclock.trans h)
  | deleting r h => exact .deleting r fun ha => hdoomed (h ha)

/-- A packet of the source. -/
lemma tracks_packet {m : Watch ι} {w w' : World n} {ps : ι → Call ℕ} {p : Pending} {v : Verdict}
    {c : Fin n} (h : Tracks l m (w, ps)) (hp : Comes l w p)
    (hrun : run (exec c) (update_state p) w = (v, w')) :
    Tracks l (m.see l ⟨(w, ps), .packet p v, (w', ps)⟩) (w', ps) := by
  have hroom := hp.room
  rw [← hp.saddr] at hroom
  obtain ⟨-, hw⟩ := run_tracked c hp.tracked hroom
  rw [hrun, hp.saddr] at hw
  dsimp only at hw
  refine ⟨fun st hst => ?_, fun hnone => ?_, fun i => ?_⟩
  · rw [hw] at hst
    cases hst
    rw [last_seen_locked]
    rfl
  · rw [hw] at hnone
    cases hnone
  · exact (h.cleanup i).congr rfl fun _ hseen => by cases hseen

omit [DecidableEq ι] in
/-- A delete changes nothing that the cleanups have noted. -/
lemma delete_eq (m : Watch ι) (i : ι) (a : Addr) (existed : Bool) :
    (m.delete l i a existed).last = m.last ∧ (m.delete l i a existed).clock = m.clock ∧
      (m.delete l i a existed).seen = m.seen := by
  unfold Watch.delete
  split_ifs <;> exact ⟨rfl, rfl, rfl⟩

/-- A delete of a source that the snapshot has listed. -/
lemma tracks_delete {m : Watch ι} {w : World n} {ps : ι → Call ℕ} {i : ι} {a : Addr}
    (h : Tracks l m (w, ps)) (hd : a = l.saddr → Doomed m i) {q : Call ℕ} (hq : At l m i q) :
    Tracks l (m.delete l i a (w.srcstate.find a).isSome)
      ({ w with srcstate := w.srcstate.erase a }, Function.update ps i q) := by
  obtain ⟨hlast, hclock, hseen⟩ := delete_eq (l := l) m i a (w.srcstate.find a).isSome
  have hsame : ∀ j q, At l m j q → At l (m.delete l i a (w.srcstate.find a).isSome) j q := by
    intro j q hj
    refine hj.congr (congrFun hclock j) ?_
    unfold Doomed
    rw [hlast, hclock, hseen]
    exact id
  refine ⟨fun st hst => ?_, fun hnone => ?_,
    (Function.forall_update_iff ps fun j q => At l _ j q).mpr
      ⟨hsame i q hq, fun j _ => hsame j _ (h.cleanup j)⟩⟩
  · rw [hlast]
    by_cases ha : l.saddr = a
    · subst ha
      exact absurd (hst : (w.srcstate.erase l.saddr).get l.saddr = _) (by simp)
    · exact h.entry st ((RefMap.get_erase_ne w.srcstate ha).symm.trans hst)
  · rw [hlast]
    unfold Watch.delete
    split_ifs with hthis hnew
    · nofun
    · rintro clock hc t ht
      cases hc
      exact hd hthis.1 (by simpa using hnew) t ht
    · -- there was no entry to delete, or another one was deleted
      refine h.idle ?_
      by_cases ha : l.saddr = a
      · subst ha
        rw [RefMap.get_eq_none]
        simpa using hthis
      · exact (RefMap.get_erase_ne w.srcstate ha).symm.trans hnone

/-- The next operation of a cleanup. -/
lemma tracks_clean {m : Watch ι} {w w' : World n} {ps : ι → Call ℕ} {i : ι} {o : Op} {b : Ans o}
    {k : Ans o → Call ℕ} {c : Fin n} (h : Tracks l m (w, ps)) (hi : ps i = .call o k)
    (hop : exec c w o = (b, w')) :
    Tracks l (m.see l ⟨(w, ps), .clean i ⟨o, b⟩, (w', Function.update ps i (k b))⟩)
      (w', Function.update ps i (k b)) := by
  have hat := h.cleanup i
  dsimp only at hat
  rw [hi] at hat
  generalize hq : (Prog.call o k : Call ℕ) = q at hat
  cases hat with
  | start =>
    cases hq
    cases hop
    refine ⟨h.entry, h.idle, (Function.forall_update_iff ps fun j q => At l _ j q).mpr ⟨?_, ?_⟩⟩
    · exact .reading (Function.update_self ..)
    · intro j hj
      have hsame : Function.update m.clock i w.clock.toNat j = m.clock j :=
        Function.update_of_ne hj _ _
      refine (h.cleanup j).congr hsame fun hd hseen t ht => ?_
      exact lt_of_lt_of_eq (hd hseen t ht) hsame.symm
  | @reading now hclock =>
    cases hq
    cases hop
    refine ⟨h.entry, h.idle, (Function.forall_update_iff ps fun j q => At l _ j q).mpr ⟨?_, ?_⟩⟩
    · refine .deleting _ fun ha _ t ht => ?_
      obtain ⟨st, hst, hlt⟩ := mem_doomed ha
      have hlast : m.last = some st.last_seen_ns.toNat := h.entry st hst
      have ht' : t ∈ m.last := ht
      rw [hlast, Option.mem_def] at ht'
      cases ht'
      exact lt_of_lt_of_eq hlt hclock.symm
    · intro j hj
      have hsame : Function.update m.seen i false j = m.seen j := Function.update_of_ne hj _ _
      exact (h.cleanup j).congr rfl fun hd hseen => hd (hsame.symm.trans hseen)
  | @deleting as r hlist =>
    cases as with
    | nil => cases hq
    | cons a as =>
      have hrest : At l m i (deleting as r) :=
        .deleting r fun ha => hlist (List.mem_cons_of_mem _ ha)
      cases hq
      cases hop
      exact tracks_delete h (fun ha => hlist (by simp [ha])) hrest

/-- **One event** of a run. -/
theorem tracks_step {m : Watch ι} {c c' : State n ι} {e : Ev ι} (h : Tracks l m c)
    (hs : Step l c e c') : Tracks l (m.see l ⟨c, e, c'⟩) c' := by
  cases hs with
  | packet ps k hp hrun => exact tracks_packet h hp hrun
  | clean k hi hop => exact tracks_clean h hi hop
  | @again ps i r w hi =>
    refine ⟨h.entry, h.idle, (Function.forall_update_iff ps fun j q => At l _ j q).mpr
      ⟨.start, fun j _ => ?_⟩⟩
    exact (h.cleanup j).congr rfl id
  | other ps hget =>
    refine ⟨fun st hst => h.entry st (hget ▸ hst), fun hnone => h.idle (hget ▸ hnone), ?_⟩
    exact fun j => (h.cleanup j).congr rfl id

/-! ### Whole runs -/

/-- Only a packet is the source's last. -/
lemma last_see_clean (m : Watch ι) (c c' : State n ι) (i : ι) (e : Event calls) :
    (m.see l ⟨c, .clean i e, c'⟩).last = m.last := by
  obtain ⟨o, b⟩ := e
  cases o with
  | state_delete a => exact (delete_eq m i a b).1
  | _ => rfl

omit [DecidableEq ι] in
/-- A packet in order that is spared. -/
lemma spaced_packet {m : Watch ι} {w : World n} {ps : ι → Call ℕ} {p : Pending}
    {as : List Arrival} (h : Tracks l m (w, ps)) (horder : InOrder m w p)
    (hspared : Spared l m w p)
    (has : Spaced 1000000000 l.rate.toNat l.burst.toNat (some p.now.toNat) as) :
    Spaced 1000000000 l.rate.toNat l.burst.toNat m.last (arrival l w p :: as) := by
  cases hlast : m.last with
  | none =>
    have hnone : w.srcstate.get l.saddr = none := by
      rw [Option.eq_none_iff_forall_ne_some]
      intro st hst
      have := h.entry st hst
      rw [hlast] at this
      cases this
    refine ⟨?_, has⟩
    rw [arrival, RefMap.get_eq_none.mp hnone]
    rfl
  | some t =>
    refine ⟨horder t hlast, fun hnew => ?_, has⟩
    have hnone : w.srcstate.find l.saddr = none := Option.isNone_iff_eq_none.mp hnew
    rw [l.fills]
    rcases hspared hnone t hlast with ⟨clock, hclock, hle⟩ | hgap
    · have hidle := h.idle (RefMap.get_eq_none.mpr hnone) clock hclock t hlast
      change t + 2000000000 ≤ p.now.toNat
      omega
    · exact hgap

/-- **The packets of a run are spaced**: one that finds the source's entry gone comes after the
time in which the bucket fills up. -/
theorem spaced {c c' : State n ι} {tr : List (Turn n ι)} {m : Watch ι}
    (h : Path (Step l) c tr c') (hm : Tracks l m c) (horder : AtPackets l InOrder m tr)
    (hspared : AtPackets l (Spared l) m tr) :
    Spaced 1000000000 l.rate.toNat l.burst.toNat m.last (arrivals l tr) := by
  induction tr generalizing c m with
  | nil => cases hl : m.last <;> trivial
  | cons x tr ih =>
    obtain ⟨rfl, hx, hrest⟩ := h.uncons
    have hsee : Tracks l (m.see l x) x.post := tracks_step hm hx
    have hnext := ih hrest hsee horder.2 hspared.2
    obtain ⟨c, e, c1⟩ := x
    cases hx with
    | packet ps k hp hrun => exact spaced_packet hm horder.1 hspared.1 hnext
    | clean =>
      rw [last_see_clean] at hnext
      exact hnext
    | again => exact hnext
    | other => exact hnext

/-- **The cleanup does not lift the limit**: in any interval of `T` ns the limiter passes at most
a burst, `rate * T / 10⁹` packets and one more of the source, as long as no packet comes between
the snapshot of a cleanup and its delete, or the next one after the delete lets two seconds go
by. -/
theorem cleanup_keeps_limit (l : Limit) (w : World n) (hw : w.srcstate.find l.saddr = none)
    (tr : List (Turn n ι)) (c' : State n ι)
    (h : Path (Step l) (w, fun _ => remove_idle_states) tr c')
    (horder : AtPackets l InOrder .start tr) (hspared : AtPackets l (Spared l) .start tr)
    (s T : ℕ) :
    tr.countP (passes s (s + T)) ≤
      l.burst.toNat + l.rate.toNat * T / 1000000000 + 1 := by
  have hget : w.srcstate.get l.saddr = none := RefMap.get_eq_none.mpr hw
  have htracks : Tracks l (.start : Watch ι) (w, fun _ : ι => remove_idle_states) :=
    ⟨fun st hst => (by rw [hget] at hst; cases hst), fun _ => nofun, fun _ => .start⟩
  have hspaced := spaced h htracks horder hspared
  have hholds : Holds l ⟨0, 0⟩ w := fun st hst => (by rw [hget] at hst; cases hst)
  have hpos := l.rate_pos
  have hdiv := Nat.mul_div_cancel' l.divides
  have hc : 0 < 1000000000 / l.rate.toNat := Nat.div_pos l.rate_le hpos
  have hready : Ready 1000000000 l.rate.toNat l.burst.toNat (s - 1000000000 / l.rate.toNat)
    (Watch.start : Watch ι).last ⟨0, 0⟩ 0 := rfl
  have hbound := passed_between_le hdiv hc hpos s T (arrivals l tr) hready hspaced
    (Nat.zero_le _)
  rw [Nat.zero_add, ideal_of_dvd hpos l.divides T (by omega)] at hbound
  rw [passed_eq s (s + T) h (fun _ => uses_remove_idle_states) hholds]
  exact hbound

/-! ### A source that comes back -/

instance (l : Limit) (w : World n) (p : Pending) : Decidable (Comes l w p) :=
  decidable_of_iff (p.saddr = l.saddr ∧ p.rate = l.rate ∧ p.burst = l.burst ∧
      has p.feat FEAT_TRACK_STATE = true ∧
      ((w.srcstate.find l.saddr).isSome = true ∨ w.srcstate.size < MAX_TRACKED))
    ⟨fun ⟨h1, h2, h3, h4, h5⟩ => ⟨h1, h2, h3, h4, h5⟩,
      fun ⟨h1, h2, h3, h4, h5⟩ => ⟨h1, h2, h3, h4, h5⟩⟩

instance (m : Watch ι) (w : World n) (p : Pending) : Decidable (InOrder m w p) :=
  inferInstanceAs (Decidable (∀ t ∈ m.last, _))

instance (l : Limit) (m : Watch ι) (w : World n) (p : Pending) : Decidable (Spared l m w p) :=
  inferInstanceAs (Decidable (_ → ∀ t ∈ m.last, (∃ c ∈ m.idle, _) ∨ _))

instance (l : Limit) (P : Watch ι → World n → Pending → Prop) [∀ m w p, Decidable (P m w p)]
    (m : Watch ι) (tr : List (Turn n ι)) : Decidable (AtPackets l P m tr) :=
  go m tr
where
  go : ∀ (m : Watch ι) (tr : List (Turn n ι)), Decidable (AtPackets l P m tr)
    | _, [] => isTrue trivial
    | m, x :: tr =>
      have : Decidable (AtPackets l P (m.see l x) tr) := go (m.see l x) tr
      match x with
      | ⟨c, .packet p v, c'⟩ => inferInstanceAs
        (Decidable (P m c.1 p ∧ AtPackets l P (m.see l ⟨c, .packet p v, c'⟩) tr))
      | ⟨c, .clean i e, c'⟩ => inferInstanceAs
        (Decidable (True ∧ AtPackets l P (m.see l ⟨c, .clean i e, c'⟩) tr))
      | ⟨c, .again i, c'⟩ => inferInstanceAs
        (Decidable (True ∧ AtPackets l P (m.see l ⟨c, .again i, c'⟩) tr))
      | ⟨c, .other, c'⟩ => inferInstanceAs
        (Decidable (True ∧ AtPackets l P (m.see l ⟨c, .other, c'⟩) tr))

/-- One packet a second, and two at once. -/
def slow : Limit := ⟨7, 1, 2, by decide, rfl⟩

def slow_packet (now : U64) : Pending where
  now := now
  rate := 1
  burst := 2
  feat := FEAT_DEFAULT
  saddr := 7
  proto := IPPROTO_UDP
  tcp_flags := 0
  dport := 0
  pkt_len := 60
  verdict := .pass
  reason := .pass_default

inductive Move
  | packet
  | clean
  | wait (clock : U64)

/-- One move, with one cleanup. -/
def move (c : State 1 Unit) : Move → Ev Unit × State 1 Unit
  | .packet =>
    if Comes slow c.1 (slow_packet c.1.clock) then
      let r := run (exec 0) (update_state (slow_packet c.1.clock)) c.1
      (.packet (slow_packet c.1.clock) r.1, (r.2, c.2))
    else (.other, c)
  | .clean =>
    match c.2 () with
    | .ret _ => (.again (), (c.1, Function.update c.2 () remove_idle_states))
    | .call o k =>
      (.clean () ⟨o, (exec 0 c.1 o).1⟩,
        ((exec 0 c.1 o).2, Function.update c.2 () (k (exec 0 c.1 o).1)))
  | .wait clock => (.other, ({ c.1 with clock }, c.2))

def follow : List Move → State 1 Unit → List (Turn 1 Unit)
  | [], _ => []
  | x :: xs, c => ⟨c, (move c x).1, (move c x).2⟩ :: follow xs (move c x).2

lemma step_move (c : State 1 Unit) (x : Move) : Step slow c (move c x).1 (move c x).2 := by
  cases x with
  | packet =>
    unfold move
    split_ifs with hp
    · exact .packet c.2 0 hp rfl
    · exact .other c.2 rfl
  | clean =>
    unfold move
    cases hi : c.2 () with
    | ret r => exact .again c.1 hi
    | call o k => exact .clean 0 hi rfl
  | wait clock => exact .other c.2 rfl

lemma path_follow (xs : List Move) (c : State 1 Unit) :
    ∃ c', Path (Step slow) c (follow xs c) c' := by
  induction xs generalizing c with
  | nil => exact ⟨c, .nil⟩
  | cons x xs ih =>
    obtain ⟨c', hrest⟩ := ih (move c x).2
    exact ⟨c', .cons (step_move c x) hrest⟩

/-- The maps as they were loaded, and a cleanup that begins. -/
def fresh : State 1 Unit := (World.loaded 1, fun _ => remove_idle_states)

/-- The source comes back after its entry was deleted. -/
def after_delete : List (Turn 1 Unit) :=
  follow [.packet, .wait 61000000000, .clean, .clean, .clean, .packet, .packet] fresh

theorem after_delete_limited :
    after_delete.countP (passes 61000000000 (61000000000 + 0)) ≤ 2 + 1 * 0 / 1000000000 + 1 := by
  obtain ⟨c', h⟩ := path_follow
    [.packet, .wait 61000000000, .clean, .clean, .clean, .packet, .packet] fresh
  exact cleanup_keeps_limit slow _ rfl after_delete c' h (by decide +kernel) (by decide +kernel) _ _

/-- The source comes back between the snapshot and the delete, and goes on. -/
def before_delete : List (Turn 1 Unit) :=
  follow [.packet, .wait 61000000000, .clean, .clean, .packet, .packet, .clean, .packet, .packet]
    fresh

theorem before_delete_not_limited :
    ∃ c', Path (Step slow) fresh before_delete c' ∧ AtPackets slow InOrder .start before_delete ∧
      ¬ before_delete.countP (passes 61000000000 (61000000000 + 0)) ≤
        slow.burst.toNat + slow.rate.toNat * 0 / 1000000000 + 1 := by
  obtain ⟨c', h⟩ := path_follow
    [.packet, .wait 61000000000, .clean, .clean, .packet, .packet, .clean, .packet, .packet] fresh
  exact ⟨c', h, by decide +kernel, by decide +kernel⟩

end Lookout.Idle

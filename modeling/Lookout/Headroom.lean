import Lookout.Atomic
import Lookout.Counting
import Lookout.Idle

/-!
Room in `srcstate`.

The kernel never evicts an entry of `srcstate`: only the cleanup of the controller does, a minute
after the source's last packet. As long as the cleanups come regularly, the table holds no more
sources than have sent in the minute before the latest one and in the time since, and no source
is turned away before there are `MAX_TRACKED` of them.
-/

namespace Lookout.Headroom

open Lookout.Effects Lookout.Effects.Prog Lookout.Runs Lookout.Dicts Lookout.Handles
open Lookout.Common Lookout.Packet Lookout.Limiter Lookout.Kernel Lookout.Xdp Lookout.Firewall
open Lookout.Atomic Lookout.Idle

variable {n : ℕ} {ι : Type} [DecidableEq ι]

/-! ### Packets and cleanups -/

/-- The maps, the packets, and the cleanup under way. -/
abbrev State (n : ℕ) (ι : Type) := World n × (ι → Call Verdict) × Call ℕ

inductive Ev (ι : Type)
  | packet (i : ι) (e : Event calls)
  | clean (e : Event calls)
  | again
  | other

/-- Time passes, and the tools may delete an entry. -/
def Elsewhere (w w' : World n) : Prop :=
  w.clock.toNat ≤ w'.clock.toNat ∧
    (w'.srcstate = w.srcstate ∨ ∃ a, w'.srcstate = w.srcstate.erase a)

/-- The next operation of a packet or of the cleanup, the start of another cleanup, or anything
else. -/
inductive Step (cpu : ι → Fin n) : State n ι → Ev ι → State n ι → Prop
  | packet {w w' : World n} {ps : ι → Call Verdict} {i : ι} {o : Op} {b : Ans o}
    {k : Ans o → Call Verdict} (q : Call ℕ) (hi : ps i = .call o k)
    (h : exec (cpu i) w o = (b, w')) :
    Step cpu (w, ps, q) (.packet i ⟨o, b⟩) (w', Function.update ps i (k b), q)
  | clean {w w' : World n} {o : Op} {b : Ans o} {k : Ans o → Call ℕ} (ps : ι → Call Verdict)
    (c : Fin n) (h : exec c w o = (b, w')) :
    Step cpu (w, ps, .call o k) (.clean ⟨o, b⟩) (w', ps, k b)
  | again (w : World n) (ps : ι → Call Verdict) (r : ℕ) :
    Step cpu (w, ps, .ret r) .again (w, ps, remove_idle_states)
  | other {w w' : World n} (ps : ι → Call Verdict) (q : Call ℕ) (h : Elsewhere w w') :
    Step cpu (w, ps, q) .other (w', ps, q)

abbrev Turn (n : ℕ) (ι : Type) := Trans (State n ι) (Ev ι)

/-! ### What an observer notes -/

structure Watch where
  /-- The sources whose entries were made or locked, with the clock then. -/
  touched : List (ℕ × Addr)
  /-- The clock reading of the cleanup under way, and of the last one that has ended. -/
  since : ℕ
  done : ℕ

namespace Watch

def start (w : World n) : Watch := ⟨[], w.clock.toNat, w.clock.toNat⟩

def touch (m : Watch) (w : World n) (a : Addr) : Watch :=
  { m with touched := m.touched ++ [(w.clock.toNat, a)] }

/-- The cleanup ends when nothing is left of it. -/
def finish (m : Watch) (q : Call ℕ) : Watch :=
  if q.result.isSome then { m with done := m.since } else m

def see (m : Watch) (x : Turn n ι) : Watch :=
  match x.ev with
  | .packet _ ⟨.state_insert a _, _⟩ => m.touch x.pre.1 a
  | .packet _ ⟨.state_locked _ p, _⟩ => m.touch x.pre.1 p.saddr
  | .clean ⟨.ktime_get_ns, now⟩ => { m with since := now.toNat }
  | .clean _ => m.finish x.post.2.2
  | _ => m

/-- The sources that were touched at `t` or later. -/
def recent (m : Watch) (t : ℕ) : Finset Addr :=
  ((m.touched.filter fun e => t ≤ e.1).map Prod.snd).toFinset

lemma mem_recent {m : Watch} {t : ℕ} {a : Addr} :
    a ∈ m.recent t ↔ ∃ τ, (τ, a) ∈ m.touched ∧ t ≤ τ := by
  simp [recent]

end Watch

/-- The idle time after which a cleanup deletes an entry, in nanoseconds. -/
def IDLE_NS : ℕ := IDLE_TIMEOUT_S * 1000000000

/-- The last cleanup that has ended read the clock at most `G` ns ago, and `a` and the sources
that were touched in the idle time and `G` before now are at most `MAX_TRACKED`. -/
def Sparse (G : ℕ) (m : Watch) (w : World n) (a : Addr) : Prop :=
  w.clock.toNat ≤ m.done + G ∧
    (insert a (m.recent (w.clock.toNat - (IDLE_NS + G)))).card ≤ MAX_TRACKED

instance (G : ℕ) (m : Watch) (w : World n) (a : Addr) : Decidable (Sparse G m w a) :=
  inferInstanceAs (Decidable (_ ∧ _))

/-- The source whose entry is to be made. -/
def newcomer : Ev ι → Option Addr
  | .packet _ ⟨.state_insert a _, _⟩ => some a
  | _ => none

/-- `P` at every insert of the run, with the watch up to there. -/
def AtInserts (P : Watch → World n → Addr → Prop) : Watch → List (Turn n ι) → Prop
  | _, [] => True
  | m, x :: tr => (∀ a ∈ newcomer x.ev, P m x.pre.1 a) ∧ AtInserts P (m.see x) tr

/-! ### The packets -/

/-- Answers when the clock is at most `t`, and the cells were made for the sources `owners`. -/
def Answers (t : ℕ) (owners : List Addr) : Event calls → Prop
  | ⟨.ktime_get_ns, now⟩ => now.toNat ≤ t
  | ⟨.state_lookup a, some r⟩ => owners[r]? = some a
  | _ => True

/-- A packet makes and locks entries of its own source with a reading of the past, and deletes
none. -/
def Does (t : ℕ) (owners : List Addr) : Op → Prop
  | .state_insert _ st => st.last_seen_ns.toNat ≤ t
  | .state_locked r p => owners[r]? = some p.saddr ∧ p.now.toNat ≤ t
  | .state_delete _ => False
  | _ => True

section

variable {t : ℕ} {owners : List Addr}

lemma free_does : Free (Does t owners) := by
  rintro o ⟨ho, -⟩ hm
  cases ho with
  | state_locked => cases hm
  | _ => trivial

lemma under_update {p : Pending} (hp : p.now.toNat ≤ t) :
    Under (Answers t owners) (Does t owners) (update_state p) := by
  have hlock : ∀ st, owners[st]? = some p.saddr →
      Under (Answers t owners) (Does t owners) (locked_stage st p) := fun st hst =>
    ⟨⟨hst, hp⟩, fun _ _ => under_finish free_does _ _⟩
  unfold update_state
  refine ⟨trivial, fun _ _ => ?_⟩
  simp only [op_eq, call_bind, ret_bind]
  split_ifs
  · refine ⟨trivial, fun st hst => ?_⟩
    cases st with
    | some st => exact hlock st hst
    | none =>
      refine ⟨hp, fun failed _ => ?_⟩
      cases failed with
      | true => exact under_state_full free_does p
      | false =>
        refine ⟨trivial, fun st hst => ?_⟩
        cases st with
        | some st => exact hlock st hst
        | none => exact under_state_full free_does p
  · exact under_finish free_does _ _

/-- **What a packet does** as long as the kernel answers right. -/
theorem under_packet (f : Frame) :
    Under (Answers t owners) (Does t owners) (xdp_firewall f) := by
  refine ⟨trivial, fun now hnow => ⟨trivial, fun _ _ => ⟨trivial, fun _ _ =>
    ⟨trivial, fun cfg _ => ?_⟩⟩⟩⟩
  cases cfg with
  | none => trivial
  | some cfg =>
    change Under _ _ (config_stage f now cfg)
    unfold config_stage
    cases parse_l3 f with
    | malformed => exact under_finish free_does _ _
    | non_ipv4 => exact under_finish free_does _ _
    | ipv4 ip =>
      refine under_allowlist_stage free_does (under_blocklist_stage free_does ?_)
      unfold l4_stage
      cases parse_l4 f ip with
      | none => exact under_finish free_does _ _
      | some l4 =>
        exact under_bind (under_verdict_stage free_does ip l4) fun r => under_update hnow

end

/-- The rest of a packet, from this time and these cells on. -/
def Held (t : ℕ) (owners : List Addr) (q : Call Verdict) : Prop :=
  ∀ t' owners', t ≤ t' → owners <+: owners' → Under (Answers t' owners') (Does t' owners') q

section

variable {t t' : ℕ} {owners owners' : List Addr}

lemma getElem?_of_prefix {r : ℕ} {a : Addr} (ho : owners <+: owners') (h : owners[r]? = some a) :
    owners'[r]? = some a := by
  obtain ⟨rest, rfl⟩ := ho
  rw [List.getElem?_append_left (List.getElem?_eq_some_iff.mp h).1]
  exact h

lemma Held.later {q : Call Verdict} (h : Held t owners q) (ht : t ≤ t')
    (ho : owners <+: owners') : Held t' owners' q :=
  fun _ _ ht' ho' => h _ _ (ht.trans ht') (ho.trans ho')

lemma Answers.later {e : Event calls} (h : Answers t owners e) (ht : t ≤ t')
    (ho : owners <+: owners') : Answers t' owners' e := by
  obtain ⟨o, b⟩ := e
  cases o with
  | ktime_get_ns => exact le_trans (h : b.toNat ≤ t) ht
  | state_lookup a =>
    cases b with
    | none => trivial
    | some r => exact getElem?_of_prefix ho h
  | _ => trivial

lemma Held.does {o : Op} {k : Ans o → Call Verdict} (h : Held t owners (.call o k)) :
    Does t owners o :=
  (h t owners le_rfl (List.prefix_refl _)).1

lemma Held.answered {o : Op} {b : Ans o} {k : Ans o → Call Verdict}
    (h : Held t owners (.call o k)) (hb : Answers t owners ⟨o, b⟩) : Held t owners (k b) :=
  fun t' owners' ht ho => (h t' owners' ht ho).2 b (hb.later ht ho)

end

/-! ### The table -/

/-- `a` was touched at `t` or later. -/
def Touched (m : Watch) (t : ℕ) (a : Addr) : Prop := ∃ τ, (τ, a) ∈ m.touched ∧ t ≤ τ

/-- The cleanup has nothing left to do but to delete `as`; every other entry was touched in the
idle time before its clock reading, or later. -/
inductive At (m : Watch) (w : World n) : Call ℕ → Prop
  | start : At m w remove_idle_states
  | reading {now : U64} (h : m.since = now.toNat) :
    At m w (.call .state_items fun items =>
      deleting (doomed now.toNat items) (doomed now.toNat items).length)
  | deleting {as : List Addr} (r : ℕ)
    (h : ∀ a st, w.srcstate.get a = some st → a ∈ as ∨ Touched m (m.since - IDLE_NS) a) :
    At m w (deleting as r)

/-- What the watch knows of the table, of the packets and of the cleanup. -/
structure Tracks (owners : List Addr) (m : Watch) (c : State n ι) : Prop where
  cells : owners.length = c.1.srcstate.heap.length
  owned : ∀ a r, c.1.srcstate.find a = some r → owners[r]? = some a
  held : ∀ i, Held c.1.clock.toNat owners (c.2.1 i)
  order : m.done ≤ m.since ∧ m.since ≤ c.1.clock.toNat
  seen : ∀ a st, c.1.srcstate.get a = some st →
    Touched m st.last_seen_ns.toNat a ∧ Touched m (m.done - IDLE_NS) a
  cleanup : At m c.1 c.2.2

variable {owners owners' : List Addr} {m m' : Watch} {w w' : World n}

lemma Touched.mono {t t' : ℕ} {a : Addr} (h : Touched m t a) (hm : m.touched ⊆ m'.touched)
    (ht : t' ≤ t) : Touched m' t' a :=
  let ⟨τ, hτ, hle⟩ := h
  ⟨τ, hm hτ, ht.trans hle⟩

lemma touched_touch (w : World n) (a : Addr) {t : ℕ} (ht : t ≤ w.clock.toNat) :
    Touched (m.touch w a) t a :=
  ⟨w.clock.toNat, List.mem_append_right _ List.mem_cons_self, ht⟩

/-- Entries may go, and sources may be touched. -/
lemma At.mono {q : Call ℕ} (h : At m w q) (hsince : m'.since = m.since)
    (hm : m.touched ⊆ m'.touched)
    (hget : ∀ a st, w'.srcstate.get a = some st →
      (∃ st', w.srcstate.get a = some st') ∨ Touched m' (m.since - IDLE_NS) a) :
    At m' w' q := by
  cases h with
  | start => exact .start
  | reading h => exact .reading (hsince.trans h)
  | deleting r h =>
    refine .deleting r fun a st hst => ?_
    rw [hsince]
    rcases hget a st hst with ⟨st', hst'⟩ | hnew
    · exact (h a st' hst').imp_right fun ht => ht.mono hm le_rfl
    · exact Or.inr hnew

variable {ps ps' : ι → Call Verdict} {q : Call ℕ}

omit [DecidableEq ι] in
/-- Time passes, and entries may go. -/
lemma Tracks.shrink (h : Tracks owners m (w, ps, q)) (hclock : w.clock.toNat ≤ w'.clock.toNat)
    (hheap : w'.srcstate.heap = w.srcstate.heap)
    (hfind : ∀ a r, w'.srcstate.find a = some r → w.srcstate.find a = some r)
    (hps : ∀ i, Held w.clock.toNat owners (ps' i)) : Tracks owners m (w', ps', q) := by
  have hget : ∀ a st, w'.srcstate.get a = some st → w.srcstate.get a = some st := by
    intro a st hst
    obtain ⟨r, hr, hd⟩ := Option.bind_eq_some_iff.mp hst
    rw [RefMap.get_eq (hfind a r hr), RefMap.deref, ← hheap]
    exact hd
  exact
    { cells := h.cells.trans (congrArg List.length hheap.symm)
      owned := fun a r hr => h.owned a r (hfind a r hr)
      held := fun i => (hps i).later hclock (List.prefix_refl _)
      order := ⟨h.order.1, h.order.2.trans hclock⟩
      seen := fun a st hst => h.seen a st (hget a st hst)
      cleanup := h.cleanup.mono rfl (List.Subset.refl _) fun a st hst =>
        Or.inl ⟨st, hget a st hst⟩ }

omit [DecidableEq ι] in
/-- A source is touched: its entry is made or written, and the others stay. -/
lemma Tracks.touch (h : Tracks owners m (w, ps, q)) (ho : owners <+: owners') (a : Addr)
    (hclock : w'.clock = w.clock) (hcells : owners'.length = w'.srcstate.heap.length)
    (howned : ∀ b r, w'.srcstate.find b = some r → owners'[r]? = some b)
    (hget : ∀ b st, w'.srcstate.get b = some st → w.srcstate.get b = some st ∨
      b = a ∧ st.last_seen_ns.toNat ≤ w.clock.toNat)
    (hps : ∀ i, Held w.clock.toNat owners (ps' i)) :
    Tracks owners' (m.touch w a) (w', ps', q) := by
  have hsub : m.touched ⊆ (m.touch w a).touched := fun _ he => List.mem_append_left _ he
  have hdone : m.done ≤ m.since ∧ m.since ≤ w.clock.toNat := h.order
  exact
    { cells := hcells
      owned := howned
      held := fun i => by rw [hclock]; exact (hps i).later le_rfl ho
      order := by rw [hclock]; exact h.order
      seen := by
        intro b st hst
        rcases hget b st hst with hold | ⟨rfl, hle⟩
        · exact (h.seen b st hold).imp (fun ht => ht.mono hsub le_rfl) fun ht =>
            ht.mono hsub le_rfl
        · refine ⟨touched_touch w b hle, touched_touch w b ?_⟩
          change m.done - IDLE_NS ≤ _
          omega
      cleanup := h.cleanup.mono rfl hsub fun b st hst => by
        rcases hget b st hst with hold | ⟨rfl, -⟩
        · exact Or.inl ⟨st, hold⟩
        · refine Or.inr (touched_touch w b ?_)
          omega }

/-! ### Packets -/

omit [DecidableEq ι] in
/-- An insert, refused or not. -/
lemma tracks_insert (h : Tracks owners m (w, ps, q)) {a : Addr} {st : SrcState}
    (hst : st.last_seen_ns.toNat ≤ w.clock.toNat)
    (hps : ∀ i, Held w.clock.toNat owners (ps' i)) :
    ∃ owners', Tracks owners' (m.touch w a)
      ({ w with srcstate := (insert_noexist w.srcstate a st).2 }, ps', q) := by
  unfold insert_noexist
  split_ifs with hfull
  · exact ⟨owners, h.touch (List.prefix_refl _) a rfl h.cells h.owned
      (fun _ _ hb => Or.inl hb) hps⟩
  · refine ⟨owners ++ [a], h.touch (List.prefix_append _ _) a rfl ?_ ?_ ?_ hps⟩
    · have hcells := h.cells
      simp only [RefMap.insert, List.length_append, List.length_singleton]
      exact congrArg (· + 1) hcells
    · intro b r hr
      by_cases hb : b = a
      · subst hb
        have hcells : owners.length = w.srcstate.heap.length := h.cells
        have hr' := (RefMap.find_insert w.srcstate b st).symm.trans hr
        cases hr'
        rw [← hcells]
        simp
      · have hr' := (RefMap.find_insert_ne w.srcstate st hb).symm.trans hr
        exact getElem?_of_prefix (List.prefix_append _ _) (h.owned b r hr')
    · intro b st' hb
      by_cases hba : b = a
      · subst hba
        have hnew := (RefMap.get_insert w.srcstate b st).symm.trans hb
        cases hnew
        exact Or.inr ⟨rfl, hst⟩
      · exact Or.inl ((RefMap.get_insert_ne w.srcstate st hba).symm.trans hb)

omit [DecidableEq ι] in
/-- The locked section, on an entry of the packet's source. -/
lemma tracks_locked (h : Tracks owners m (w, ps, q)) {r : ℕ} {p : Pending}
    (hr : owners[r]? = some p.saddr) (hnow : p.now.toNat ≤ w.clock.toNat)
    (hps : ∀ i, Held w.clock.toNat owners (ps' i)) :
    Tracks owners (m.touch w p.saddr)
      ({ w with srcstate := (update_locked w.srcstate r p).2 }, ps', q) := by
  unfold update_locked
  cases hd : w.srcstate.deref r with
  | none =>
    exact h.touch (List.prefix_refl _) p.saddr rfl h.cells h.owned (fun _ _ hb => Or.inl hb) hps
  | some st =>
    refine h.touch (List.prefix_refl _) p.saddr rfl ?_ h.owned ?_ hps
    · simp only [RefMap.set, List.length_set]
      exact h.cells
    · intro b st' hb
      by_cases hbr : w.srcstate.find b = some r
      · have hsame : b = p.saddr := Option.some.inj ((h.owned b r hbr).symm.trans hr)
        have hnew := (RefMap.get_set w.srcstate (locked p st).1 hbr).symm.trans hb
        cases hnew
        refine Or.inr ⟨hsame, ?_⟩
        rw [last_seen_locked]
        exact hnow
      · exact Or.inl ((RefMap.get_set_ne w.srcstate (locked p st).1 hbr).symm.trans hb)

omit [DecidableEq ι] in
/-- The kernel answers a packet right. -/
lemma answers_exec (h : Tracks owners m (w, ps, q)) (cpu : Fin n) (o : Op) :
    Answers w.clock.toNat owners ⟨o, (exec cpu w o).1⟩ := by
  cases o with
  | ktime_get_ns => exact le_rfl
  | state_lookup a =>
    change Answers w.clock.toNat owners ⟨.state_lookup a, w.srcstate.find a⟩
    cases hf : w.srcstate.find a with
    | none => trivial
    | some r => exact h.owned a r hf
  | _ => trivial

/-- **One operation of a packet.** -/
theorem tracks_packet {cpu : Fin n} {i : ι} {o : Op} {b : Ans o} {k : Ans o → Call Verdict}
    (h : Tracks owners m (w, ps, q)) (hi : ps i = .call o k) (hop : exec cpu w o = (b, w')) :
    ∃ owners', Tracks owners'
      (m.see ⟨(w, ps, q), .packet i ⟨o, b⟩, (w', Function.update ps i (k b), q)⟩)
      (w', Function.update ps i (k b), q) := by
  have hheld : Held w.clock.toNat owners (.call o k) := hi ▸ h.held i
  have hans : Answers w.clock.toNat owners ⟨o, b⟩ := by
    have hans := answers_exec h cpu o
    rw [hop] at hans
    exact hans
  have hps : ∀ j, Held w.clock.toNat owners (Function.update ps i (k b) j) :=
    (Function.forall_update_iff ps fun _ p => Held w.clock.toNat owners p).mpr
      ⟨hheld.answered hans, fun j _ => h.held j⟩
  have hdoes := hheld.does
  cases o with
  | state_insert a st =>
    cases hop
    exact tracks_insert h hdoes hps
  | state_locked r p =>
    cases hop
    exact ⟨owners, tracks_locked h hdoes.1 hdoes.2 hps⟩
  | state_delete a => exact hdoes.elim
  | _ =>
    cases hop
    exact ⟨owners, h.shrink le_rfl rfl (fun _ _ hr => hr) hps⟩

/-! ### The cleanup -/

/-- A source that a cleanup does not delete has been seen in the idle time. -/
lemma recent_of_not_doomed {now : ℕ} {t : RefMap Addr SrcState} {a : Addr} {st : SrcState}
    (hst : t.get a = some st) (h : a ∉ doomed now (states t)) :
    now - IDLE_NS ≤ st.last_seen_ns.toNat := by
  by_contra hlt
  refine h ?_
  have hold : st.last_seen_ns.toNat < (now : ℤ) - (IDLE_TIMEOUT_S * 1000000000 : ℕ) := by
    unfold IDLE_NS at hlt
    omega
  unfold doomed
  rw [AList.mem_keys.symm, ← AList.lookup_isSome, Dict.lookup_filterMap, lookup_states, hst]
  simp only [Option.bind_some, if_pos hold, Option.isSome_some]

omit [DecidableEq ι] in
/-- When only `as` are left to be deleted, the cleanup has come to its end, or goes on. -/
lemma Tracks.finish {q' : Call ℕ} {as : List Addr} (r : ℕ) (h : Tracks owners m (w, ps, q'))
    (hleft : ∀ a st, w.srcstate.get a = some st → a ∈ as ∨ Touched m (m.since - IDLE_NS) a) :
    Tracks owners (m.finish (deleting as r)) (w, ps, deleting as r) := by
  cases as with
  | cons a as => exact { h with cleanup := .deleting r hleft }
  | nil =>
    exact
      { h with
        order := ⟨le_rfl, h.order.2⟩
        seen := fun a st hst =>
          ⟨(h.seen a st hst).1, (hleft a st hst).resolve_left List.not_mem_nil⟩
        cleanup := .deleting r hleft }

omit [DecidableEq ι] in
/-- **One operation of the cleanup.** -/
theorem tracks_clean {c : Fin n} {o : Op} {b : Ans o} {k : Ans o → Call ℕ}
    (h : Tracks owners m (w, ps, .call o k)) (hop : exec c w o = (b, w')) :
    Tracks owners (m.see ⟨(w, ps, .call o k), .clean ⟨o, b⟩, (w', ps, k b)⟩) (w', ps, k b) := by
  have hat := h.cleanup
  generalize hq : (Prog.call o k : Call ℕ) = q at hat
  cases hat with
  | start =>
    cases hq
    cases hop
    exact { h with
      order := ⟨h.order.1.trans h.order.2, le_rfl⟩
      cleanup := .reading rfl }
  | @reading now hsince =>
    cases hq
    cases hop
    refine Tracks.finish _ h fun a st hst => ?_
    by_cases ha : a ∈ doomed now.toNat (states w.srcstate)
    · exact Or.inl ha
    · refine Or.inr ((h.seen a st hst).1.mono (List.Subset.refl _) ?_)
      rw [hsince]
      exact recent_of_not_doomed hst ha
  | @deleting as r hleft =>
    cases as with
    | nil => cases hq
    | cons a as =>
      cases hq
      cases hop
      have hfewer : Tracks owners m ({ w with srcstate := w.srcstate.erase a }, ps, _) :=
        h.shrink le_rfl rfl (fun b r hr => RefMap.find_of_erase hr) h.held
      refine Tracks.finish r hfewer fun b st hst => ?_
      have hne : b ≠ a := by
        rintro rfl
        cases (RefMap.get_erase w.srcstate b).symm.trans hst
      have hold := (RefMap.get_erase_ne w.srcstate hne).symm.trans hst
      exact (hleft b st hold).imp_left fun hb => (List.mem_cons.mp hb).resolve_left hne

/-- **One event of a run.** -/
theorem tracks_step {cpu : ι → Fin n} {c c' : State n ι} {e : Ev ι} (h : Tracks owners m c)
    (hs : Step cpu c e c') : ∃ owners', Tracks owners' (m.see ⟨c, e, c'⟩) c' := by
  cases hs with
  | packet q hi hop => exact tracks_packet h hi hop
  | clean ps k hop => exact ⟨owners, tracks_clean h hop⟩
  | again w ps r => exact ⟨owners, { h with cleanup := .start }⟩
  | other ps q hw =>
    obtain ⟨hclock, hsame | ⟨a, hgone⟩⟩ := hw
    · exact ⟨owners, h.shrink hclock (by rw [hsame]) (by rw [hsame]; exact fun _ _ hr => hr) h.held⟩
    · exact ⟨owners, h.shrink hclock (by rw [hgone]; rfl)
        (by rw [hgone]; exact fun _ _ hr => RefMap.find_of_erase hr) h.held⟩

/-! ### Whole runs -/

omit [DecidableEq ι] in
/-- There is room for a source without an entry. -/
lemma room_of_sparse {G : ℕ} {a : Addr} (h : Tracks owners m (w, ps, q)) (hs : Sparse G m w a)
    (ha : w.srcstate.find a = none) : w.srcstate.size < MAX_TRACKED := by
  obtain ⟨hdone, hcard⟩ := hs
  have hsub : w.srcstate.index.keys.toFinset ⊆ m.recent (w.clock.toNat - (IDLE_NS + G)) := by
    intro b hb
    have hmem : (w.srcstate.index.lookup b).isSome = true := by
      rw [AList.lookup_isSome, AList.mem_keys]
      exact List.mem_toFinset.mp hb
    obtain ⟨r, hr⟩ := Option.isSome_iff_exists.mp hmem
    obtain ⟨st, hst⟩ := RefMap.deref_of_find hr
    obtain ⟨τ, hτ, hle⟩ := (h.seen b st ((RefMap.get_eq hr).trans hst)).2
    refine Watch.mem_recent.mpr ⟨τ, hτ, ?_⟩
    omega
  have hnew : a ∉ w.srcstate.index.keys.toFinset := by
    intro hmem
    have hsome := AList.lookup_isSome.mpr (AList.mem_keys.mpr (List.mem_toFinset.mp hmem))
    have hnone : w.srcstate.index.lookup a = none := ha
    rw [hnone] at hsome
    cases hsome
  calc w.srcstate.size
      = w.srcstate.index.keys.toFinset.card :=
        (List.toFinset_card_of_nodup w.srcstate.index.nodupKeys).symm
    _ < (insert a w.srcstate.index.keys.toFinset).card := by
        rw [Finset.card_insert_of_notMem hnew]
        exact Nat.lt_succ_self _
    _ ≤ (insert a (m.recent (w.clock.toNat - (IDLE_NS + G)))).card :=
        Finset.card_le_card (Finset.insert_subset_insert a hsub)
    _ ≤ MAX_TRACKED := hcard

/-- The source that is turned away. -/
def refused : Ev ι → Option Addr
  | .packet _ ⟨.state_insert a _, true⟩ => some a
  | _ => none

/-- A source that is turned away has an entry. -/
def Taken (x : Turn n ι) : Prop :=
  ∀ a ∈ refused x.ev, (x.pre.1.srcstate.find a).isSome = true

lemma taken_of_sparse {cpu : ι → Fin n} {G : ℕ} {x : Turn n ι} (h : Tracks owners m x.pre)
    (hx : Step cpu x.pre x.ev x.post) (hs : ∀ a ∈ newcomer x.ev, Sparse G m x.pre.1 a) :
    Taken x := by
  intro a ha
  obtain ⟨c, e, c'⟩ := x
  cases hx with
  | @packet w w' ps i o b k q hi hop =>
    cases o with
    | state_insert a st =>
      cases b with
      | false => cases ha
      | true =>
        cases ha
        have hroom := room_of_sparse (a := a) h (hs a rfl)
        by_contra hnone
        have hnone := Option.not_isSome_iff_eq_none.mp hnone
        have hadd : ¬ ((w.srcstate.find a).isSome = true ∨ MAX_TRACKED ≤ w.srcstate.size) := by
          rw [not_or, not_le, hnone]
          exact ⟨Bool.false_ne_true, hroom hnone⟩
        have hfailed := congrArg Prod.fst hop
        simp only [exec, insert_noexist, if_neg hadd] at hfailed
        cases hfailed
    | _ => cases ha
  | _ => cases ha

lemma never_full_from {cpu : ι → Fin n} {G : ℕ} {tr : List (Turn n ι)} {c c' : State n ι}
    (h : Path (Step cpu) c tr c') (hm : Tracks owners m c) (hs : AtInserts (Sparse G) m tr) :
    ∀ x ∈ tr, Taken x := by
  induction tr generalizing owners m c with
  | nil => exact fun _ hx => absurd hx List.not_mem_nil
  | cons x tr ih =>
    obtain ⟨rfl, hx, hrest⟩ := h.uncons
    obtain ⟨owners', hsee⟩ := tracks_step hm hx
    exact List.forall_mem_cons.mpr
      ⟨taken_of_sparse hm hx hs.1, ih hrest hsee hs.2⟩

omit [DecidableEq ι] in
lemma tracks_start (frames : ι → Frame) (hw : ∀ a, w.srcstate.find a = none) :
    ∃ owners, Tracks owners (.start w) (w, fun i => xdp_firewall (frames i), remove_idle_states) :=
  ⟨List.replicate w.srcstate.heap.length 0,
    { cells := List.length_replicate
      owned := fun a r hr => by cases (hw a).symm.trans hr
      held := fun i t owners _ _ => under_packet (frames i)
      order := ⟨le_rfl, le_rfl⟩
      seen := fun a st hst => by cases (RefMap.get_eq_none.mpr (hw a)).symm.trans hst
      cleanup := .start }⟩

/-- **`srcstate` does not fill up**: from an empty table, whatever the packets on all CPUs and the
cleanups do, and in whatever order, an insert is refused only when the source has an entry
already, as long as at each insert the last finished cleanup read the clock at most `G` ns ago and
no more than `MAX_TRACKED` sources have come in the idle time and `G`. -/
theorem never_full (cpu : ι → Fin n) (frames : ι → Frame) (w : World n)
    (hw : ∀ a, w.srcstate.find a = none) (G : ℕ) (tr : List (Turn n ι)) (c' : State n ι)
    (h : Path (Step cpu) (w, fun i => xdp_firewall (frames i), remove_idle_states) tr c')
    (hs : AtInserts (Sparse G) (.start w) tr) : ∀ x ∈ tr, Taken x :=
  let ⟨_, hm⟩ := tracks_start frames hw
  never_full_from h hm hs

/-! ### Two packets of a new source -/

/-- Who goes next. -/
inductive Move
  | packet (i : Fin 2)
  | clean
  | wait (clock : U64)

/-- One move, with two packets on two CPUs. -/
def move (c : State 2 (Fin 2)) : Move → Ev (Fin 2) × State 2 (Fin 2)
  | .packet i =>
    match c.2.1 i with
    | .ret _ => (.other, c)
    | .call o k =>
      (.packet i ⟨o, (exec i c.1 o).1⟩,
        ((exec i c.1 o).2, Function.update c.2.1 i (k (exec i c.1 o).1), c.2.2))
  | .clean =>
    match c.2.2 with
    | .ret _ => (.again, (c.1, c.2.1, remove_idle_states))
    | .call o k => (.clean ⟨o, (exec 0 c.1 o).1⟩, ((exec 0 c.1 o).2, c.2.1, k (exec 0 c.1 o).1))
  | .wait clock =>
    if c.1.clock.toNat ≤ clock.toNat then (.other, ({ c.1 with clock }, c.2)) else (.other, c)

def follow : List Move → State 2 (Fin 2) → List (Turn 2 (Fin 2))
  | [], _ => []
  | x :: xs, c => ⟨c, (move c x).1, (move c x).2⟩ :: follow xs (move c x).2

lemma step_move (c : State 2 (Fin 2)) (x : Move) : Step id c (move c x).1 (move c x).2 := by
  obtain ⟨w, ps, q⟩ := c
  cases x with
  | packet i =>
    unfold move
    dsimp only
    cases hi : ps i with
    | ret v => exact .other ps q ⟨le_rfl, Or.inl rfl⟩
    | call o k => exact .packet q hi rfl
  | clean =>
    cases q with
    | ret r => exact .again w ps r
    | call o k => exact .clean ps 0 rfl
  | wait clock =>
    unfold move
    dsimp only
    split_ifs with hle
    · exact .other ps q ⟨hle, Or.inl rfl⟩
    · exact .other ps q ⟨le_rfl, Or.inl rfl⟩

lemma path_follow (xs : List Move) (c : State 2 (Fin 2)) :
    ∃ c', Path (Step id) c (follow xs c) c' := by
  induction xs generalizing c with
  | nil => exact ⟨c, .nil⟩
  | cons x xs ih =>
    obtain ⟨c', hrest⟩ := ih (move c x).2
    exact ⟨c', .cons (step_move c x) hrest⟩

instance (P : Watch → World n → Addr → Prop) [∀ m w a, Decidable (P m w a)] (m : Watch)
    (tr : List (Turn n ι)) : Decidable (AtInserts P m tr) :=
  go m tr
where
  go : ∀ (m : Watch) (tr : List (Turn n ι)), Decidable (AtInserts P m tr)
    | _, [] => isTrue trivial
    | m, x :: tr =>
      have : Decidable (∀ a ∈ newcomer x.ev, P m x.pre.1 a) := Option.decidableForallMem _
      have : Decidable (AtInserts P (m.see x) tr) := go (m.see x) tr
      inferInstanceAs (Decidable (_ ∧ _))

/-- Two packets of a source that look for its entry, and insert one each; a cleanup that comes
after a minute. -/
def two_inserts : List (Turn 2 (Fin 2)) :=
  follow (List.replicate 9 (.packet 0) ++ List.replicate 9 (.packet 1) ++
      List.replicate 4 (.packet 0) ++ List.replicate 3 (.packet 1) ++
      [.wait 61000000000, .clean, .clean, .clean])
    (World.loaded 2, fun _ => xdp_firewall Counting.dns_query, remove_idle_states)

theorem never_full_two_inserts :
    (two_inserts.countP fun x => refused x.ev = some 0x0A000007) = 1 ∧
      ∀ x ∈ two_inserts, Taken x := by
  obtain ⟨c', h⟩ := path_follow
    (List.replicate 9 (.packet 0) ++ List.replicate 9 (.packet 1) ++
      List.replicate 4 (.packet 0) ++ List.replicate 3 (.packet 1) ++
      [.wait 61000000000, .clean, .clean, .clean])
    (World.loaded 2, fun _ => xdp_firewall Counting.dns_query, remove_idle_states)
  exact ⟨by decide +kernel,
    never_full id (fun _ => Counting.dns_query) _ (fun _ => rfl) 0 two_inserts c' h
      (by decide +kernel)⟩

end Lookout.Headroom

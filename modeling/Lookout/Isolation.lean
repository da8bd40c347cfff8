import Lookout.Atomic

/-!
What the other sources send does not matter.

To a source with an entry of its own, the packets of the others only move hit counters, counters
and other entries. Its verdicts and its entry are those it would have had alone, however the
packets of all sources are interleaved.
-/

namespace Lookout.Isolation

open Lookout.Effects Lookout.Effects.Prog Lookout.Runs Lookout.Movers Lookout.Lpm
open Lookout.Handles Lookout.Common Lookout.Packet Lookout.Limiter Lookout.Kernel Lookout.Xdp
open Lookout.Traffic Lookout.Atomic

variable {n : ℕ}

/-- An IPv4 frame from `a`. -/
def sent_by (a : Addr) (f : Frame) : Bool :=
  match parse_l3 f with
  | .ipv4 ip => ip.saddr == a
  | _ => false

lemma sent_by_iff {a : Addr} {f : Frame} : sent_by a f = true ↔ Counting.SentBy a f := by
  unfold sent_by Counting.SentBy
  cases hip : parse_l3 f with
  | ipv4 ip => simp
  | _ => simp

/-- The worlds look the same to the packets of `a`. -/
structure Looks (a : Addr) (w w' : World n) : Prop where
  config : w.config = w'.config
  allowlist : Alike AllowVal.flags w.allowlist w'.allowlist
  blocklist : Alike BlockVal.expires_ns w.blocklist w'.blocklist
  portrules : ∀ c, Alike (fun v : Fin n → PortVal => (v c).action) w.portrules w'.portrules
  find : ∀ b, w.srcstate.find b = w'.srcstate.find b
  entry : w.srcstate.get a = w'.srcstate.get a

lemma Looks.refl (a : Addr) (w : World n) : Looks a w w :=
  ⟨rfl, fun _ => rfl, fun _ => rfl, fun _ _ => rfl, fun _ => rfl, rfl⟩

lemma Looks.trans {a : Addr} {w w' w'' : World n} (h : Looks a w w') (h' : Looks a w' w'') :
    Looks a w w'' :=
  ⟨h.config.trans h'.config, fun k => (h'.allowlist k).trans (h.allowlist k),
    fun k => (h'.blocklist k).trans (h.blocklist k),
    fun c k => (h'.portrules c k).trans (h.portrules c k), fun b => (h.find b).trans (h'.find b),
    h.entry.trans h'.entry⟩

lemma Looks.symm {a : Addr} {w w' : World n} (h : Looks a w w') : Looks a w' w :=
  ⟨h.config.symm, fun k => (h.allowlist k).symm, fun k => (h.blocklist k).symm,
    fun c k => (h.portrules c k).symm, fun b => (h.find b).symm, h.entry.symm⟩

/-- A lock on another entry. -/
def Passes (a : Addr) (w : World n) (o : Op) : Prop :=
  ∀ st p, o = .state_locked st p → w.srcstate.find a ≠ some st

/-- What does not lock the entry of `a` does not show. -/
lemma looks_exec (cpu : Fin n) {a : Addr} {w : World n} {o : Op} (ho : PacketOp o)
    (hp : Passes a w o) : Looks a w (exec cpu w o).2 := by
  rw [exec_after cpu w ho]
  refine ⟨rfl, alike_allow_after o _, alike_block_after o _, fun c k => ?_, fun b => ?_, ?_⟩
  · have haction := action_ports_after cpu c o w.portrules k
    rwa [Option.map_map, Option.map_map] at haction
  · exact (find_states_after o w.srcstate b).symm
  · cases o with
    | state_locked st p =>
      change _ = (update_locked w.srcstate st p).2.get a
      unfold update_locked
      split
      · rfl
      · exact (RefMap.get_set_ne _ _ (hp st p rfl)).symm
    | _ => rfl

/-- What does lock it, does the same to both. -/
lemma looks_locked (cpu : Fin n) {a : Addr} {w w' : World n} (h : Looks a w w') {st : ℕ}
    (p : Pending) (hst : w.srcstate.find a = some st) :
    (exec cpu w (.state_locked st p)).1 = (exec cpu w' (.state_locked st p)).1 ∧
      Looks a (exec cpu w (.state_locked st p)).2 (exec cpu w' (.state_locked st p)).2 := by
  have hst' : w'.srcstate.find a = some st := (h.find a) ▸ hst
  obtain ⟨e, he⟩ := RefMap.deref_of_find hst
  have he' : w'.srcstate.deref st = some e := by
    rw [← RefMap.get_eq hst', ← h.entry, RefMap.get_eq hst, he]
  simp only [exec, update_locked, he, he']
  refine ⟨trivial, h.config, h.allowlist, h.blocklist, h.portrules, h.find, ?_⟩
  exact (RefMap.get_set _ _ hst).trans (RefMap.get_set _ _ hst').symm

/-- The answers that are the same up to the hits. -/
lemma looks_answer (cpu : Fin n) {a : Addr} {w w' : World n} (h : Looks a w w') {o : Op}
    (ho : AfterClock o) (hm : mover o = true) :
    SameAnswer o (exec cpu w o).1 (exec cpu w' o).1 := by
  obtain ⟨ho, hclock⟩ := ho
  cases ho with
  | ktime_get_ns => exact absurd rfl hclock
  | config_lookup => exact congrArg some h.config
  | allow_lookup b =>
    have hkey := congrArg (Option.map Prod.fst) (find_alike_key h.allowlist b)
    rw [Option.map_map, Option.map_map] at hkey
    exact hkey.symm
  | block_lookup b => exact (find_alike_key h.blocklist b).symm
  | port_lookup k =>
    have haction := h.portrules cpu k
    change Option.map PortVal.action (Option.map _ _) = Option.map PortVal.action (Option.map _ _)
    rw [Option.map_map, Option.map_map]
    exact haction.symm
  | state_lookup b => exact h.find b
  | state_locked st p => cases hm
  | _ => rfl

/-- The operations of the packets of `a`. -/
def OwnOp (a : Addr) (ref : Addr → Option ℕ) (o : Op) : Prop :=
  AfterClock o ∧ ∀ st p, o = .state_locked st p → ref a = some st

/-- The operations of the others' packets. -/
def OtherOp (a : Addr) (ref : Addr → Option ℕ) (o : Op) : Prop :=
  AfterClock o ∧ ∀ st p, o = .state_locked st p → ref a ≠ some st

lemma free_ownOp (a : Addr) (ref : Addr → Option ℕ) : Free (OwnOp a ref) := by
  rintro o ho hm
  refine ⟨ho, ?_⟩
  rintro st p rfl
  cases hm

lemma free_otherOp (a : Addr) (ref : Addr → Option ℕ) : Free (OtherOp a ref) := by
  rintro o ho hm
  refine ⟨ho, ?_⟩
  rintro st p rfl
  cases hm

/-! ### One packet -/

variable {w0 w w' : World n} {a : Addr} {f : Frame} {cpu : Fin n}

lemma stays_exec (cpu : Fin n) {o : Op} (ho : PacketOp o) (h : Stays w0 w) :
    Answers w0.config w0.srcstate.find ⟨o, (exec cpu w o).1⟩ ∧ Stays w0 (exec cpu w o).2 :=
  stays_step ho h ⟨w, rfl, rfl⟩

/-- The source has its entry, if entries are kept at all. -/
def Tracked (w : World n) (f : Frame) : Prop :=
  has w.config.features FEAT_TRACK_STATE = true →
    ∀ ip, parse_l3 f = .ipv4 ip → (w.srcstate.find ip.saddr).isSome = true

lemma under_own (hf : sent_by a f = true) (hknown : Tracked w0 f) (now : U64) :
    Under (Answers w0.config w0.srcstate.find) (OwnOp a w0.srcstate.find) (rest f now) := by
  obtain ⟨ip0, hip0, rfl⟩ := sent_by_iff.mp hf
  refine under_rest (free_ownOp _ _) now (fun _ hc => hc) fun ht ip hip => ?_
  have hsome := hknown ht ip hip
  obtain rfl : ip0 = ip := by
    rw [hip0] at hip
    cases hip
    rfl
  refine ⟨fun hnone => ?_, fun st hst p => ⟨⟨.state_locked st p, nofun⟩, ?_⟩⟩
  · exact absurd hnone (no_answer_none hsome)
  · intro st' p' ho
    cases ho
    exact Eq.symm hst

lemma under_other (hf : sent_by a f = false) (hknown : Tracked w0 f) (now : U64) :
    Under (Answers w0.config w0.srcstate.find) (OtherOp a w0.srcstate.find) (rest f now) := by
  refine under_rest (free_otherOp _ _) now (fun _ hc => hc) fun ht ip hip => ?_
  have hne : a ≠ ip.saddr := by
    rintro rfl
    rw [sent_by_iff.mpr ⟨ip, hip, rfl⟩] at hf
    cases hf
  refine ⟨fun hnone => ?_, fun st hst p => ⟨⟨.state_locked st p, nofun⟩, ?_⟩⟩
  · exact absurd hnone (no_answer_none (hknown ht ip hip))
  · intro st' p' ho ha
    cases ho
    have hst' : w0.srcstate.find ip.saddr = some st := Eq.symm hst
    exact hne (w0.srcstate.inj ha hst')

/-- **A packet of `a`** does the same in worlds that look the same to `a`. -/
theorem handle_own (hf : sent_by a f = true) (hknown : Tracked w0 f) (hstays : Stays w0 w)
    (h : Looks a w w') (hclock : w.clock = w'.clock) :
    (handle cpu f w).1 = (handle cpu f w').1 ∧ Looks a (handle cpu f w).2 (handle cpu f w').2 := by
  have hrun := run_alike (f := exec cpu) (g := exec cpu)
    (blind_rest f w.clock) (under_own hf hknown w.clock)
    (fun w w' : World n => Stays w0 w ∧ Looks a w w') ?_ ⟨hstays, h⟩
  · have hw' : handle cpu f w' = run (exec cpu) (rest f w.clock) w' := by
      rw [hclock]
      rfl
    rw [hw']
    exact ⟨hrun.1, hrun.2.2⟩
  · rintro w w' o ⟨hst, hlooks⟩ ⟨ho, hlock⟩
    obtain ⟨hA, hst'⟩ := stays_exec cpu ho.1 hst
    cases hm : mover o with
    | true =>
      have hpass : ∀ w : World n, Passes a w o := by
        rintro w st p rfl
        cases hm
      exact ⟨looks_answer cpu hlooks ho hm, hA, hst',
        ((looks_exec cpu ho.1 (hpass w)).symm.trans hlooks).trans (looks_exec cpu ho.1 (hpass w'))⟩
    | false =>
      cases o with
      | state_locked st p =>
        have hfind : w.srcstate.find a = some st := (hst.2 a).trans (hlock st p rfl)
        obtain ⟨hans, hpost⟩ := looks_locked cpu hlooks p hfind
        exact ⟨hans, hA, hst', hpost⟩
      | _ => cases hm

/-- **A packet of another source** does not show. -/
theorem handle_other (cpu : Fin n) (hf : sent_by a f = false) (hknown : Tracked w0 f)
    (hstays : Stays w0 w) : Looks a w (handle cpu f w).2 := by
  have hrun := (under_other hf hknown w.clock).run (f := exec cpu)
    (fun w1 : World n => Stays w0 w1 ∧ Looks a w w1) ?_ ⟨hstays, .refl a w⟩
  · exact hrun.2
  · rintro w1 o ⟨hst, hlooks⟩ ⟨ho, hlock⟩
    obtain ⟨hA, hst'⟩ := stays_exec cpu ho.1 hst
    refine ⟨hA, hst', hlooks.trans (looks_exec cpu ho.1 fun st p hop hfind => ?_)⟩
    exact hlock st p hop ((hst.2 a).symm.trans hfind)

/-- No packet moves the configuration or an entry's place. -/
lemma stays_handle (cpu : Fin n) (hknown : Tracked w0 f) (hstays : Stays w0 w) :
    Stays w0 (handle cpu f w).2 := by
  have hunder : Under (Answers w0.config w0.srcstate.find) PacketOp (xdp_firewall f) :=
    under_xdp_firewall hknown
  exact hunder.run (Stays w0) (fun w1 o hst ho => stays_exec cpu ho hst) hstays

/-! ### All packets -/

variable {ι : Type} {frames : ι → Frame} {cpu : ι → Fin n}

/-- The clock does not show. -/
lemma Looks.clocked (h : Looks a w w') (now : U64) :
    Looks a { w with clock := now } { w' with clock := now } :=
  ⟨h.config, h.allowlist, h.blocklist, h.portrules, h.find, h.entry⟩

/-- **The packets of `a` by themselves**: what comes of them, and of their entry, is what came of
them among all others. -/
theorem in_turn_alone (a : Addr) (now : ι → U64) (is : List ι) (hknown : ∀ i, Tracked w0 (frames i))
    (hw : Stays w0 w) (hw' : Stays w0 w') (h : Looks a w w') :
    (in_turn cpu frames now (is.filter fun i => sent_by a (frames i)) w').1 =
        (in_turn cpu frames now is w).1.filter (fun e => sent_by a (frames e.1)) ∧
      Looks a (in_turn cpu frames now is w).2
        (in_turn cpu frames now (is.filter fun i => sent_by a (frames i)) w').2 := by
  induction is generalizing w w' with
  | nil => exact ⟨rfl, h⟩
  | cons i is ih =>
    have hset : ∀ {w : World n}, Stays w0 w → Stays w0 { w with clock := now i } := fun h => h
    cases hf : sent_by a (frames i) with
    | true =>
      obtain ⟨hv, hlooks⟩ := handle_own hf (hknown i) (hset hw) (h.clocked (now i)) rfl
      obtain ⟨hvs, hend⟩ := ih (stays_handle (cpu i) (hknown i) (hset hw))
        (stays_handle (cpu i) (hknown i) (hset hw')) hlooks
      simp only [List.filter_cons, hf, if_true, in_turn, ← hv]
      exact ⟨congrArg _ hvs, hend⟩
    | false =>
      have hlooks := handle_other (cpu i) hf (hknown i) (hset hw) (w := { w with clock := now i })
      have hlooks' : Looks a (handle (cpu i) (frames i) { w with clock := now i }).2 w' :=
        hlooks.symm.trans ⟨h.config, h.allowlist, h.blocklist, h.portrules, h.find, h.entry⟩
      obtain ⟨hvs, hend⟩ := ih (stays_handle (cpu i) (hknown i) (hset hw)) hw' hlooks'
      simp only [List.filter_cons, hf, Bool.false_eq_true, if_false, in_turn]
      exact ⟨hvs, hend⟩

/-- What the packets of `a` among `is` come to by themselves: the verdicts `v`, and the entry that
`w'` has. -/
structure Apart (cpu : ι → Fin n) (frames : ι → Frame) (v : ι → Verdict) (w w' : World n)
    (is : List ι) (now : ι → U64) (a : Addr) : Prop where
  verdicts : (in_turn cpu frames now (is.filter fun i => sent_by a (frames i)) w).1 =
    (is.filter fun i => sent_by a (frames i)).map fun i => (i, v i)
  entry : (in_turn cpu frames now (is.filter fun i => sent_by a (frames i)) w).2.srcstate.get a =
    w'.srcstate.get a

/-- **A source is on its own.** However the packets of all sources are interleaved on all CPUs,
the packets of each source get the verdicts, and leave the entry, that they get and leave when
they are handled in turn with no other packet there. -/
theorem isolated [DecidableEq ι] {q : ι → Call Verdict} {tr : Turns calls (World n) Verdict ι}
    (h : Path (turn fun i => kernel Ticks (cpu i)) (w, fun i => xdp_firewall (frames i)) tr (w', q))
    (hknown : Known frames w) {v : ι → Verdict} (hdone : ∀ i, own i tr ≠ [] → q i = .ret (v i)) :
    ∃ is now, InTurn cpu frames v w w' tr is now ∧ ∀ a, Apart cpu frames v w w' is now a := by
  have hturn := inTurn_order h hknown hdone
  refine ⟨_, _, hturn, fun a => ?_⟩
  obtain ⟨hv, hlooks⟩ := in_turn_alone a (fun i => reading (own i tr))
    (order Atomic.mover tr) (fun i ht => hknown ht i) (⟨rfl, fun _ => rfl⟩ : Stays w w)
    ⟨rfl, fun _ => rfl⟩ (.refl a w)
  refine ⟨?_, ?_⟩
  · rw [hv, hturn.verdicts, List.filter_map]
    rfl
  · rw [← hlooks.entry, hturn.maps.srcstate]

/-- A source with one token left, and one with none. -/
def two_sources : World 2 :=
  { World.loaded 2 with
    srcstate := (RefMap.empty.insert 0x0A000007 ⟨1, 0, 0, 9, 900, 0, 0, 0, 0, 9, 0, 0⟩).insert
      0x0A000008 ⟨0, 0, 0, 40000, 2000000, 0, 0, 0, 0, 0, 0, 0⟩ }

def a_packet_each (i : Fin 2) : Frame :=
  if i = 0 then Counting.dns_query else header_from 0x0A000008

/-- A packet of each, on two CPUs that take turns. -/
def crossed : Turns calls (World 2) Verdict (Fin 2) × Pool calls (World 2) Verdict (Fin 2) :=
  play (fun i => exec i) ((List.range 22).map fun i => if i % 2 = 0 then 0 else 1)
    (two_sources, fun i => xdp_firewall (a_packet_each i))

theorem isolated_two_sources : ∃ is now,
    InTurn (fun i : Fin 2 => i) a_packet_each (fun i => if i = 0 then .pass else .drop) two_sources
        crossed.2.1 crossed.1 is now ∧
      ∀ a, Apart (fun i : Fin 2 => i) a_packet_each (fun i => if i = 0 then .pass else .drop)
        two_sources crossed.2.1 is now a := by
  have hrun : Path (turn fun i => kernel Ticks i)
      (two_sources, fun i => xdp_firewall (a_packet_each i)) crossed.1 crossed.2 := by
    have hE : ∀ w : World 2, Ticks w w := fun _ => rfl
    exact path_play hE _ _ _
  have hparse : ∀ i, parse_l3 (a_packet_each i) =
      .ipv4 (if i = 0 then ⟨34, 0x0A000007, 17, 0⟩ else ⟨34, 0x0A000008, 253, 0⟩) := by
    decide +kernel
  have hfound : ∀ i : Fin 2, (two_sources.srcstate.find
      (if i = 0 then (⟨34, 0x0A000007, 17, 0⟩ : IpHdr) else ⟨34, 0x0A000008, 253, 0⟩).saddr).isSome =
      true := by
    decide +kernel
  have hknown : Known a_packet_each two_sources := by
    rintro - i ip hip
    rw [hparse] at hip
    cases hip
    exact hfound i
  have hend : ∀ i, (crossed.2.2 i).result = some (if i = 0 then .pass else .drop) := by
    decide +kernel
  exact isolated hrun hknown fun i _ => result_eq_some.mp (hend i)

end Lookout.Isolation

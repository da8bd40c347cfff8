import Lookout.Polls

/-!
What a source's past says about its present window.

Of the fields of an entry, the counters are subtracted; the bitmap of destination ports is not. A
source is judged by every port it has used since its entry was made. Two sources that send the same
packets in a window get the same row exactly when their pasts have marked equally many of the other
ports.
-/

namespace Lookout.History

open Lookout.Common Lookout.Packet Lookout.Dicts Lookout.Limiter Lookout.Detect Lookout.Polls

/-! ### The bitmap -/

/-- The bit of the destination port, if there is one. -/
def port_bit (p : Pending) : U64 := if p.dport ≠ 0 then (1 : U64) <<< (p.dport.toNat % 64) else 0

/-- The bits of all the packets. -/
def marks (l : List Counted) : U64 := l.foldl (fun b c => b ||| port_bit c.1) 0

lemma marks_snoc (l : List Counted) (c : Counted) :
    marks (l ++ [c]) = marks l ||| port_bit c.1 := by
  simp [marks]

lemma bitmap_charge (p : Pending) (st : SrcState) :
    (charge p st).1.port_bitmap = st.port_bitmap := by
  unfold charge token_bucket
  split_ifs
  · dsimp only
    split_ifs <;> rfl
  · rfl

lemma bitmap_count_drop (v : Verdict) (st : SrcState) :
    (count_drop v st).port_bitmap = st.port_bitmap := by
  unfold count_drop
  split_ifs <;> rfl

/-- The locked section marks the port of its packet. -/
lemma bitmap_locked (p : Pending) (st : SrcState) :
    (locked p st).1.port_bitmap = st.port_bitmap ||| port_bit p := by
  unfold locked
  rw [bitmap_count_drop, bitmap_charge]
  unfold count_packet port_bit
  dsimp only
  split_ifs
  · rfl
  · exact BitVec.or_zero.symm

/-- The bitmap of an entry is what its life says. -/
structure Marked (e : Option SrcState) (t : Life) : Prop where
  renewed : ∀ st, t.entry = some st → t.renewed = true → st.port_bitmap = marks t.seen
  same : ∀ st, t.entry = some st → t.renewed = false →
    ∃ old, e = some old ∧ st.port_bitmap = old.port_bitmap ||| marks t.seen

lemma marked_step {e : Option SrcState} {t : Life} (h : Marked e t) (ev : Ev) :
    Marked e (t.step ev) := by
  obtain ⟨entry, renewed, seen⟩ := t
  cases ev with
  | create p =>
    cases entry with
    | none =>
      refine ⟨fun st hst _ => ?_, fun st _ hr => (by cases hr)⟩
      cases hst
      rfl
    | some st => exact h
  | count p =>
    cases entry with
    | none => exact h
    | some st =>
      refine ⟨fun st' hst hr => ?_, fun st' hst hr => ?_⟩
      · cases hst
        change (locked p st).1.port_bitmap = marks (seen ++ [(p, (locked p st).2.1)])
        rw [bitmap_locked, marks_snoc, h.renewed st rfl hr]
      · cases hst
        obtain ⟨old, he, hst⟩ := h.same st rfl hr
        refine ⟨old, he, ?_⟩
        change (locked p st).1.port_bitmap =
          old.port_bitmap ||| marks (seen ++ [(p, (locked p st).2.1)])
        rw [bitmap_locked, marks_snoc, hst, BitVec.or_assoc]
  | delete => exact ⟨fun st hst => (by cases hst), fun st hst => (by cases hst)⟩

lemma marked_live (e : Option SrcState) (h : List Ev) : Marked e (live e h) := by
  induction h using List.reverseRecOn with
  | nil =>
    refine ⟨fun st _ hr => (by cases hr), fun st hst _ => ⟨st, hst, ?_⟩⟩
    exact BitVec.or_zero.symm
  | append_singleton h ev ih =>
    rw [live, List.foldl_append]
    exact marked_step ih ev

/-- An entry has marked the ports of the packets since it was made. -/
lemma bitmap_of_live {h : List Ev} {st : SrcState} (hst : (live none h).entry = some st) :
    st.port_bitmap = marks (live none h).seen := by
  have hm := marked_live none h
  cases hr : (live none h).renewed with
  | true => exact hm.renewed st hst hr
  | false =>
    obtain ⟨old, ho, -⟩ := hm.same st hst hr
    cases ho

/-- An entry that is not deleted stays the one it is. -/
lemma live_kept (st : SrcState) {h : List Ev} (hd : .delete ∉ h) :
    (live (some st) h).renewed = false ∧ (live (some st) h).entry.isSome = true := by
  induction h using List.reverseRecOn with
  | nil => exact ⟨rfl, rfl⟩
  | append_singleton h ev ih =>
    have hboth := ih fun hmem => hd (List.mem_append_left _ hmem)
    rw [live, List.foldl_append]
    obtain ⟨hr, hsome⟩ := hboth
    obtain ⟨cur, hcur⟩ := Option.isSome_iff_exists.mp hsome
    change ((live (some st) h).step ev).renewed = false ∧
      ((live (some st) h).step ev).entry.isSome = true
    cases ev with
    | create p =>
      unfold Life.step
      rw [hcur]
      exact ⟨hr, hsome⟩
    | count p =>
      unfold Life.step
      rw [hcur]
      exact ⟨hr, rfl⟩
    | delete => exact absurd (List.mem_append_right _ List.mem_cons_self) hd

/-! ### Counting bits -/

lemma countP_or {α : Type} (p q : α → Bool) (l : List α) :
    (l.countP fun i => p i || q i) = l.countP q + l.countP fun i => p i && !q i := by
  induction l with
  | nil => rfl
  | cons a l ih =>
    simp only [List.countP_cons, ih]
    cases p a <;> cases q a <;> simp <;> omega

/-- The bits of the union are those of one part and those the other part has besides. -/
lemma popcount_or (x y : U64) : popcount (x ||| y) = popcount y + popcount (x &&& ~~~y) := by
  have hor : popcount (x ||| y) =
      (List.range 64).countP fun i => x.getLsbD i || y.getLsbD i :=
    List.countP_congr fun i _ => by rw [BitVec.getLsbD_or]
  have hand : popcount (x &&& ~~~y) =
      (List.range 64).countP fun i => x.getLsbD i && !y.getLsbD i := by
    refine List.countP_congr fun i hi => ?_
    have hlt : i < 64 := List.mem_range.mp hi
    simp [hlt]
  rw [hor, hand, countP_or]
  rfl

/-! ### Two polls -/

/-- A source at two polls: what happened to its entry before the first and between them, and the
two snapshots. The entry is there at the first poll and is not deleted before the second. -/
structure Watched (ip : Addr) where
  before : List Ev
  between : List Ev
  first : Dict Addr SrcState
  second : Dict Addr SrcState
  first_eq : first.lookup ip = (live none before).entry
  second_eq : second.lookup ip = (live (first.lookup ip) between).entry
  there : (first.lookup ip).isSome = true
  kept : .delete ∉ between

namespace Watched

variable {ip : Addr} (x y : Watched ip)

/-- The packets the entry has counted before the first poll. -/
def past : List Counted := (live none x.before).seen

/-- The packets it has counted between the polls, with the verdicts they got. -/
def window : List Counted := (live (x.first.lookup ip) x.between).seen

/-- The row of the second poll. -/
def row (win : Window) (t0 t1 : ℕ) : Option Row :=
  ((win.update x.first t0).2.update x.second t1).1.lookup ip

/-- How many ports the past has marked besides those of the window. -/
def beyond : ℕ := popcount (marks x.past &&& ~~~marks x.window)

/-- What is in the snapshots. -/
lemma entries : ∃ old cur, x.first.lookup ip = some old ∧ x.second.lookup ip = some cur ∧
    counters cur = Delta.add (counters old) (totals x.window) ∧
    cur.port_bitmap = marks x.past ||| marks x.window := by
  obtain ⟨old, hold⟩ := Option.isSome_iff_exists.mp x.there
  obtain ⟨hr, hsome⟩ := live_kept old x.kept
  obtain ⟨cur, hcur⟩ := Option.isSome_iff_exists.mp hsome
  obtain ⟨st, hst, hcount⟩ := (sound_live (some old) x.between).same cur hcur hr
  obtain ⟨st', hst', hmark⟩ := (marked_live (some old) x.between).same cur hcur hr
  cases hst
  cases hst'
  have hwindow : x.window = (live (some old) x.between).seen := by
    unfold window
    rw [hold]
  have hpast : old.port_bitmap = marks x.past := bitmap_of_live (x.first_eq.symm.trans hold)
  refine ⟨old, cur, hold, ?_, ?_, ?_⟩
  · rw [x.second_eq, hold, hcur]
  · rw [hcount, hwindow]
  · rw [hmark, hwindow, hpast]

/-- **The row** of a source: its packets in the window, and the ports of its whole past. -/
theorem row_eq (win : Window) (t0 t1 : ℕ) :
    x.row win t0 t1 =
      if seconds t0 t1 < 1 / 1000 ∨ x.window = [] then none
      else some (.of (totals x.window) (marks x.past ||| marks x.window) (seconds t0 t1)) := by
  obtain ⟨old, cur, hold, hcur, hcount, hmark⟩ := x.entries
  have hrow : x.row win t0 t1 = (if seconds t0 t1 < 1 / 1000 then (∅ : Dict Addr Row)
      else x.second.filterMap fun ip cur =>
        measurements (x.first.lookup ip) cur (seconds t0 t1)).lookup ip := rfl
  rw [hrow]
  by_cases hsecs : seconds t0 t1 < 1 / 1000
  · rw [if_pos hsecs, if_pos (Or.inl hsecs)]
    rfl
  · rw [if_neg hsecs, Dict.lookup_filterMap, hcur, hold, Option.bind_some]
    have hp : ¬ cur.packets < old.packets := by
      have hpackets := congrArg Delta.packets hcount
      simp only [Delta.add, totals_packets, counters] at hpackets
      omega
    have hdelta : delta (some old) cur = totals x.window := by
      unfold delta baseline
      simp only [if_neg hp, hcount, add_sub]
    unfold measurements
    dsimp only
    rw [hdelta, totals_packets, hmark]
    by_cases hw : x.window = []
    · rw [if_pos (Or.inr hw), hw]
      rfl
    · have hpos := List.length_pos_of_ne_nil hw
      have hone : ¬ (seconds t0 t1 < 1 / 1000 ∨ x.window = []) := by
        rintro (h | h)
        · exact hsecs h
        · exact hw h
      rw [if_neg hone, if_neg (by omega)]

/-- **The past of a source shows in its row** exactly when it has marked more or fewer of the
ports that the window has not: for the same packets in the window, the row and its reason are the
same if there is no row at all or the pasts have marked equally many such ports. -/
theorem judged_alike_iff (h : x.window = y.window) (win win' : Window) (t0 t1 : ℕ) :
    (x.row win t0 t1 = y.row win' t0 t1 ∧
      (x.row win t0 t1).map classify = (y.row win' t0 t1).map classify) ↔
      seconds t0 t1 < 1 / 1000 ∨ x.window = [] ∨ x.beyond = y.beyond := by
  have hx := x.row_eq win t0 t1
  have hy := y.row_eq win' t0 t1
  rw [← h] at hy
  by_cases hnone : seconds t0 t1 < 1 / 1000 ∨ x.window = []
  · rw [if_pos hnone] at hx hy
    rw [hx, hy]
    tauto
  · rw [if_neg hnone] at hx hy
    rw [hx, hy]
    have hspread : x.beyond = y.beyond ↔
        popcount (marks x.past ||| marks x.window) =
          popcount (marks y.past ||| marks x.window) := by
      unfold beyond
      rw [popcount_or, popcount_or, ← h]
      omega
    constructor
    · rintro ⟨hrow, -⟩
      have hports := congrArg Row.port_spread (Option.some.inj hrow)
      exact Or.inr (Or.inr (hspread.mpr hports))
    · intro hcond
      have hbeyond : x.beyond = y.beyond := by tauto
      have hrow : Row.of (totals x.window) (marks x.past ||| marks x.window) (seconds t0 t1) =
          Row.of (totals x.window) (marks y.past ||| marks x.window) (seconds t0 t1) := by
        unfold Row.of
        rw [hspread.mp hbeyond]
      rw [hrow]
      exact ⟨rfl, rfl⟩

end Watched

/-! ### An old client -/

/-- A small packet to a port. -/
def datagram (dport : U16) : Pending :=
  ⟨0, 20000, 40000, FEAT_DEFAULT, 7, 17, 0, dport, 60, .pass, .pass_default⟩

/-- A new entry, and one packet to each of the ports. -/
def sends (dports : List U16) : List Ev :=
  .create (datagram 53) :: dports.map fun dport => .count (datagram dport)

lemma there_counts {t : Life} (ht : t.entry.isSome = true) (dports : List U16) :
    ((dports.map fun dport => Ev.count (datagram dport)).foldl Life.step t).entry.isSome =
      true := by
  induction dports generalizing t with
  | nil => exact ht
  | cons dport dports ih =>
    obtain ⟨st, hst⟩ := Option.isSome_iff_exists.mp ht
    refine ih ?_
    unfold Life.step
    rw [hst]
    rfl

lemma lookup_first (dports : List U16) :
    ((snapshot (live none (sends dports)).entry).lookup 7).isSome = true := by
  rw [lookup_snapshot]
  exact there_counts rfl dports

lemma lookup_second (e : Option SrcState) (h : List Ev) :
    (snapshot (live e h).entry).lookup 7 = (live ((snapshot e).lookup 7) h).entry := by
  rw [lookup_snapshot, lookup_snapshot]

lemma not_deleted (p : Pending) : Ev.delete ∉ [Ev.count p] := by simp

/-- The first poll, a packet to port 53 and the second. -/
def client (dports : List U16) : Watched 7 where
  before := sends dports
  between := [.count (datagram 53)]
  first := snapshot (live none (sends dports)).entry
  second := snapshot (live (live none (sends dports)).entry [.count (datagram 53)]).entry
  first_eq := lookup_snapshot _
  second_eq := lookup_second _ _
  there := lookup_first dports
  kept := not_deleted _

/-- Two pasts that have used the same port. -/
theorem judged_alike_iff_dns :
    (client [53]).row .init 0 1000000000 = (client [53, 53]).row .init 0 1000000000 :=
  ((client [53]).judged_alike_iff (client [53, 53]) (by decide +kernel) .init .init 0
    1000000000).mpr (Or.inr (Or.inr (by decide +kernel))) |>.1

/-- Ports 1 to 25. -/
def scanned : List U16 := (List.range 25).map fun i => BitVec.ofNat 16 (i + 1)

/-- One small packet to port 53, from a source that has used 25 other ports before. -/
theorem old_ports_condemn :
    (client scanned).window = (client []).window ∧
      ((client scanned).row .init 0 1000000000).map classify = some (some "port scan") ∧
      ((client []).row .init 0 1000000000).map classify = some none := by
  decide +kernel

end Lookout.History

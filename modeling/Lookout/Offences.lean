import Lookout.Strikes
import Mathlib.Tactic.FieldSimp
import Mathlib.Tactic.Linarith
import Mathlib.Tactic.Ring

/-!
The books of the blocker and what it has written.

Offences, deadlines and the count of blocks change after a write that may fail. They agree with the
blocks that were written all along a live session, whatever the order of the sources, whatever the
clocks say, and wherever a write fails. The cap is the number of blocks of one call; the sources
beyond it keep their strikes.
-/

namespace Lookout.Offences

open Lookout.Effects Lookout.Effects.Prog Lookout.Runs Lookout.Dicts Lookout.Common Lookout.Kernel
open Lookout.Firewall Lookout.Policy Lookout.Windows Lookout.Strikes

/-! ### Blocks -/

/-- A block of a source: when the call began, when the blocker last found no other block of the
source lasting, and for how many nanoseconds the entry holds. -/
structure Block where
  now : ℚ
  found : ℚ
  holds : ℕ

/-- When the blocker takes it to end. -/
def Block.ends (p : Block) : ℚ := p.now + p.holds / 1000000000

/-- The times a program was told. -/
def times (l : List (Event calls)) : List ℚ :=
  l.filterMap fun | ⟨.time, time⟩ => some time | _ => none

/-- The readings of the kernel's clock. -/
def clocks (l : List (Event calls)) : List U64 :=
  l.filterMap fun | ⟨.ktime_get_ns, clock⟩ => some clock | _ => none

/-- The block of `ip` written in a step. -/
def block_of (ip : Addr) (x : Trans State Ev) : Option Block :=
  match x.pre.call, (written x.ev.log).lookup (.single ip), times x.ev.log, clocks x.ev.log with
  | some k, some bv, found :: _, clock :: _ =>
    some ⟨k.now, found, bv.expires_ns.toNat - clock.toNat⟩
  | _, _, _, _ => none

/-- The blocks written for `ip`, in their order. -/
def blocks (ip : Addr) (tr : List (Trans State Ev)) : List Block := tr.filterMap (block_of ip)

lemma blocks_snoc (ip : Addr) (tr : List (Trans State Ev)) (x : Trans State Ev) :
    blocks ip (tr ++ [x]) = blocks ip tr ++ (block_of ip x).toList := by
  unfold blocks
  rw [List.filterMap_append]
  cases hb : block_of ip x <;> simp [hb]

/-- How long the `i`-th block of a source holds. -/
def ladder (i : ℕ) : ℕ := DURATIONS.getD (min i 2) 0 * 1000000000

/-! ### One source -/

variable {b b' : Blocker} {now : ℚ} {issued issued' : ℕ} {ip : Addr} {reason : Option String}
variable {l : List (Event calls)}

/-- A live judgement writes one block and keeps the books of it, or does neither. -/
theorem books_judged (hlive : b.dry_run = false)
    (h : Judged b now issued ip reason l (.ok (b', issued'))) :
    (written l = [] ∧ b'.offences = b.offences ∧ b'.until_ = b.until_ ∧
      b'.blocks_issued = b.blocks_issued) ∨
    ∃ time clock, b.lasts ip time = false ∧ InTime b ip clock ∧ times l = [time] ∧
      clocks l = [clock] ∧ written l = [(.single ip, entry b ip clock)] ∧
      b'.offences = (b.issue ip now).offences ∧ b'.until_ = (b.issue ip now).until_ ∧
      b'.blocks_issued = b.blocks_issued + 1 := by
  cases h with
  | @blocked _ time clock _ log hd hs hl hi ht =>
    exact Or.inr ⟨time, clock, hl, ht, rfl, rfl, rfl, rfl, rfl, rfl⟩
  | dry log hd => exact absurd (hlive.symm.trans hd) Bool.false_ne_true
  | _ => exact Or.inl ⟨rfl, rfl, rfl, rfl⟩

/-- A write that fails is not in the books. -/
theorem books_raised {e : PyError} (h : Judged b now issued ip reason l (.error (e, b'))) :
    written l = [] ∧ b'.offences = b.offences ∧ b'.until_ = b.until_ ∧
      b'.blocks_issued = b.blocks_issued := by
  cases h <;> exact ⟨rfl, rfl, rfl, rfl⟩

lemma entry_holds {clock : U64} (ht : InTime b ip clock) :
    (entry b ip clock).expires_ns.toNat - clock.toNat = b.duration ip * 1000000000 := by
  rw [entry, BitVec.toNat_ofNat, Nat.mod_eq_of_lt ht]
  omega

/-! ### The books -/

/-- What holds all along a live session. -/
structure Books (tr : List (Trans State Ev)) (s : State) : Prop where
  holds : ∀ ip, (blocks ip tr).map Block.holds = (List.range (blocks ip tr).length).map ladder
  apart : ∀ ip, (blocks ip tr).IsChain fun p q => p.ends ≤ q.found
  offences : ∀ ip, s.blocker.offences.getD ip 0 = (blocks ip tr).length
  until_ : ∀ ip, s.blocker.until_.lookup ip = (blocks ip tr).getLast?.map Block.ends
  issued : s.blocker.blocks_issued = Dict.total s.blocker.offences

/-- A step that writes nothing and leaves the tables alone. -/
lemma Books.idle {tr : List (Trans State Ev)} {s : State} (h : Books tr s) {x : Trans State Ev}
    (hw : written x.ev.log = []) {s' : State} (ho : s'.blocker.offences = s.blocker.offences)
    (hu : s'.blocker.until_ = s.blocker.until_)
    (hi : s'.blocker.blocks_issued = s.blocker.blocks_issued) : Books (tr ++ [x]) s' := by
  have hblocks : ∀ ip, blocks ip (tr ++ [x]) = blocks ip tr := by
    intro ip
    have hnone : block_of ip x = none := by
      unfold block_of
      rw [hw, List.lookup_nil]
      split
      · next heq _ _ => cases heq
      · rfl
    rw [blocks_snoc, hnone, Option.toList_none, List.append_nil]
  obtain ⟨h1, h2, h3, h4, h5⟩ := h
  refine ⟨fun ip => ?_, fun ip => ?_, fun ip => ?_, fun ip => ?_, ?_⟩
  · rw [hblocks]; exact h1 ip
  · rw [hblocks]; exact h2 ip
  · rw [hblocks, ho]; exact h3 ip
  · rw [hblocks, hu]; exact h4 ip
  · rw [hi, ho]; exact h5

lemma duration_eq (b : Blocker) (ip : Addr) :
    b.duration ip * 1000000000 = ladder (b.offences.getD ip 0) := rfl

/-- A step that writes a block. -/
lemma block_of_written {time : ℚ} {clock : U64} (ht : InTime b ip clock) (htimes : times l = [time])
    (hclocks : clocks l = [clock]) (hw : written l = [(.single ip, entry b ip clock)])
    (rest : List ((_ : Addr) × Option String)) (s' : State) (a : Addr) :
    block_of a ⟨⟨b, some ⟨now, issued, ⟨ip, reason⟩ :: rest⟩⟩, .source ip reason l, s'⟩ =
      if a = ip then some ⟨now, time, b.duration ip * 1000000000⟩ else none := by
  unfold block_of
  dsimp only [Ev.log]
  rw [hw, htimes, hclocks]
  split_ifs with ha
  · rw [ha, List.lookup_cons_self]
    exact congrArg (fun d => some (⟨now, time, d⟩ : Block)) (entry_holds ht)
  · have hne : (LpmKey.single a == LpmKey.single ip) = false := by
      rw [beq_eq_false_iff_ne]
      exact fun heq => ha (congrArg LpmKey.addr heq)
    rw [List.lookup_cons, hne, List.lookup_nil]

/-- When a block of the blocker ends. -/
lemma ends_eq (now found : ℚ) (d : ℕ) : Block.ends ⟨now, found, d * 1000000000⟩ = now + d := by
  unfold Block.ends
  push_cast
  ring

/-- A block is entered in the books. -/
lemma Books.block {tr : List (Trans State Ev)} {s s' : State} (h : Books tr s)
    {x : Trans State Ev} {time : ℚ} (hx : ∀ a, block_of a x =
      if a = ip then some ⟨now, time, s.blocker.duration ip * 1000000000⟩ else none)
    (hl : s.blocker.lasts ip time = false)
    (ho : s'.blocker.offences = (s.blocker.issue ip now).offences)
    (hu : s'.blocker.until_ = (s.blocker.issue ip now).until_)
    (hi : s'.blocker.blocks_issued = s.blocker.blocks_issued + 1) : Books (tr ++ [x]) s' := by
  obtain ⟨hholds, hapart, hoff, huntil, hissued⟩ := h
  have hself : blocks ip (tr ++ [x]) =
      blocks ip tr ++ [⟨now, time, s.blocker.duration ip * 1000000000⟩] := by
    rw [blocks_snoc, hx, if_pos rfl]
    rfl
  have hother : ∀ a ≠ ip, blocks a (tr ++ [x]) = blocks a tr := by
    intro a ha
    rw [blocks_snoc, hx, if_neg ha, Option.toList_none, List.append_nil]
  refine ⟨fun a => ?_, fun a => ?_, fun a => ?_, fun a => ?_, ?_⟩
  · by_cases ha : a = ip
    · subst ha
      rw [hself, List.map_append, List.length_append, List.length_singleton, List.range_succ,
        List.map_append, hholds a, List.map_singleton, List.map_singleton, ← hoff a, ← duration_eq]
    · rw [hother a ha]
      exact hholds a
  · by_cases ha : a = ip
    · subst ha
      rw [hself, List.isChain_append]
      refine ⟨hapart a, .singleton _, fun p hp q hq => ?_⟩
      cases hq
      have hlast : s.blocker.until_.lookup a = some p.ends := (huntil a).trans (by rw [hp]; rfl)
      unfold Blocker.lasts Dict.getD at hl
      rw [hlast] at hl
      simpa using hl
    · rw [hother a ha]
      exact hapart a
  · rw [ho]
    unfold Blocker.issue
    by_cases ha : a = ip
    · subst ha
      rw [hself, List.length_append, List.length_singleton, ← hoff a, Dict.getD_insert]
    · rw [hother a ha, ← hoff a, Dict.getD_insert_ne _ _ _ ha]
  · rw [hu]
    by_cases ha : a = ip
    · subst ha
      rw [hself, List.getLast?_concat, Option.map_some, ends_eq]
      exact AList.lookup_insert _
    · rw [hother a ha, ← huntil a]
      exact AList.lookup_insert_ne ha
  · rw [hi, ho]
    unfold Blocker.issue
    rw [Dict.total_count, hissued]

lemma books_step {tr : List (Trans State Ev)} {s s' : State} {e : Ev} (h : Books tr s)
    (hlive : s.blocker.dry_run = false) (hs : Step s e s') : Books (tr ++ [⟨s, e, s'⟩]) s' := by
  cases hs with
  | begin_call b now vs => exact h.idle rfl rfl rfl rfl
  | end_call b now issued => exact h.idle rfl rfl rfl rfl
  | source hj =>
    rcases books_judged hlive (judged_of_trace hj) with
      ⟨hw, ho, hu, hi⟩ | ⟨time, clock, hl, ht, htimes, hclocks, hw, ho, hu, hi⟩
    · exact h.idle (x := ⟨_, .source _ _ _, _⟩) hw ho hu hi
    · exact h.block (block_of_written ht htimes hclocks hw _ _) hl ho hu hi
  | failed hj =>
    obtain ⟨hw, ho, hu, hi⟩ := books_raised (judged_of_trace hj)
    exact h.idle (x := ⟨_, .failed _ _ _, _⟩) hw ho hu hi

lemma books_init : Books [] ⟨Blocker.init false, none⟩ :=
  ⟨fun _ => rfl, fun _ => .nil, fun _ => rfl, fun _ => rfl, rfl⟩

/-! ### The cap -/

/-- A source that would be blocked were it not for the cap: it is flagged, it has enough strikes,
and the blocker finds it neither blocked already nor allowlisted. -/
def Qualifies (x : Trans State Ev) : Prop :=
  match x.ev with
  | .source ip reason l =>
    reason.isSome = true ∧ Struck x.pre.blocker ip ∧ found_lasting x.pre.blocker ip l = false ∧
      found_allowed l = false
  | _ => False

instance (x : Trans State Ev) : Decidable (Qualifies x) := by
  unfold Qualifies
  split <;> infer_instance

/-- What holds all along a call: as many blocks are written as sources qualify, up to the cap, and
every source beyond it has a strike more than before. -/
structure Quota (win : List (Trans State Ev)) (s : State) : Prop where
  issued : ∀ k, s.call = some k → k.issued = (written (logged win)).length
  capped : ∀ k, s.call = some k → k.issued = min MAX_PER_WINDOW (win.countP Qualifies)
  nodup : ∀ k, s.call = some k → (k.rest.map Sigma.fst).Nodup
  fresh : ∀ k, s.call = some k → ∀ y ∈ win, ∀ ip reason l, y.ev = .source ip reason l →
    ip ∉ k.rest.map Sigma.fst
  strikes : ∀ y ∈ win, ∀ ip reason l, y.ev = .source ip reason l → Qualifies y →
    written l = [] → s.blocker.strikes.getD ip 0 = y.pre.blocker.strikes.getD ip 0 + 1

lemma written_append (l l' : List (Event calls)) : written (l ++ l') = written l ++ written l' :=
  List.filterMap_append

lemma logged_snoc (tr : List (Trans State Ev)) (x : Trans State Ev) :
    logged (tr ++ [x]) = logged tr ++ x.ev.log := by
  unfold logged
  rw [List.flatMap_append, List.flatMap_singleton]

lemma capped_succ {n m c : ℕ} {q : Prop} [Decidable q] (h : n = min m c) :
    n + (if q ∧ n < m then 1 else 0) = min m (c + if q then 1 else 0) := by
  by_cases hq : q
  · rw [if_pos hq, if_congr (and_iff_right hq) rfl rfl]
    split_ifs <;> omega
  · rw [if_neg hq, if_neg fun hboth => hq hboth.1]
    omega

/-- A block is written for a source that qualifies, while the cap is not reached. -/
lemma written_length (hlive : b.dry_run = false)
    (h : Judged b now issued ip reason l (.ok (b', issued')))
    (rest : List ((_ : Addr) × Option String)) (s' : State) :
    issued' = issued + (written l).length ∧
      (written l).length =
        if Qualifies ⟨⟨b, some ⟨now, issued, ⟨ip, reason⟩ :: rest⟩⟩, .source ip reason l, s'⟩ ∧
          issued < MAX_PER_WINDOW then 1 else 0 := by
  obtain ⟨hiff, hissued⟩ := counted_judged h
  have hlen : (written l).length = if b'.blocks_issued = b.blocks_issued + 1 then 1 else 0 := by
    rcases books_judged hlive h with
      ⟨hw, -, -, hi⟩ | ⟨time, clock, -, -, -, -, hw, -, -, hi⟩
    · rw [hw, hi, if_neg (by omega)]
      rfl
    · rw [hw, if_pos hi]
      rfl
  have hcond : (Qualifies ⟨⟨b, some ⟨now, issued, ⟨ip, reason⟩ :: rest⟩⟩, .source ip reason l, s'⟩ ∧
      issued < MAX_PER_WINDOW) ↔ b'.blocks_issued = b.blocks_issued + 1 := by
    rw [hiff]
    unfold Qualifies
    dsimp only
    simp only [and_assoc]
  refine ⟨?_, ?_⟩
  · rw [hissued, hlen]
    split_ifs <;> rfl
  · rw [hlen]
    exact if_congr hcond.symm rfl rfl

/-- A source that qualifies and gets no block keeps its strikes, with the new one. -/
lemma strikes_kept (hlive : b.dry_run = false)
    (h : Judged b now issued ip reason l (.ok (b', issued'))) (hflag : reason.isSome = true)
    (hlasting : found_lasting b ip l = false) (hallowed : found_allowed l = false)
    (hw : written l = []) : b'.strikes.getD ip 0 = b.strikes.getD ip 0 + 1 := by
  have hno : cleared b b' ip l = false := by
    rcases books_judged hlive h with ⟨-, -, -, hi⟩ | ⟨_, _, -, -, -, -, hw', -, -, -⟩
    · unfold cleared
      rw [hlasting, hallowed, hi]
      simp
    · rw [hw] at hw'
      cases hw'
  unfold Dict.getD
  rw [lookup_judged h, if_pos rfl, hno, if_neg Bool.false_ne_true, hflag]
  rfl

/-- The sources judged already are not among those to come. -/
lemma Quota.apart {win : List (Trans State Ev)} {rest : List ((_ : Addr) × Option String)}
    (h : Quota win ⟨b, some ⟨now, issued, ⟨ip, reason⟩ :: rest⟩⟩) {y : Trans State Ev}
    (hy : y ∈ win) {a : Addr} {r : Option String} {l' : List (Event calls)}
    (hev : y.ev = .source a r l') : a ≠ ip ∧ a ∉ rest.map Sigma.fst := by
  have hnot := h.fresh _ rfl y hy a r l' hev
  rw [List.map_cons, List.mem_cons, not_or] at hnot
  exact hnot

lemma Quota.source {win : List (Trans State Ev)} {rest : List ((_ : Addr) × Option String)}
    (h : Quota win ⟨b, some ⟨now, issued, ⟨ip, reason⟩ :: rest⟩⟩) (hlive : b.dry_run = false)
    (hj : Judged b now issued ip reason l (.ok (b', issued'))) :
    Quota (win ++ [⟨⟨b, some ⟨now, issued, ⟨ip, reason⟩ :: rest⟩⟩, .source ip reason l,
      ⟨b', some ⟨now, issued', rest⟩⟩⟩]) ⟨b', some ⟨now, issued', rest⟩⟩ := by
  have hkeys := List.nodup_cons.mp (h.nodup _ rfl)
  obtain ⟨hmore, hlen⟩ := written_length hlive hj rest ⟨b', some ⟨now, issued', rest⟩⟩
  constructor
  · rintro k ⟨⟩
    rw [logged_snoc, written_append, List.length_append, ← h.issued _ rfl]
    exact hmore
  · rintro k ⟨⟩
    have hmin := h.capped _ rfl
    dsimp only at hmin ⊢
    rw [List.countP_append, List.countP_singleton, hmore, hlen, capped_succ hmin]
    exact congrArg (fun c => min MAX_PER_WINDOW (_ + c))
      (if_congr decide_eq_true_iff.symm rfl rfl)
  · rintro k ⟨⟩
    exact hkeys.2
  · rintro k ⟨⟩ y hy a r l' hev
    rcases List.mem_append.mp hy with hy | hy
    · exact (h.apart hy hev).2
    · cases List.mem_singleton.mp hy
      cases hev
      exact hkeys.1
  · intro y hy a r l' hev hq hw
    rcases List.mem_append.mp hy with hy | hy
    · have hsame : b'.strikes.lookup a = b.strikes.lookup a := by
        rw [lookup_judged hj, if_neg (h.apart hy hev).1]
      exact (Dict.getD_congr hsame 0).trans (h.strikes y hy a r l' hev hq hw)
    · cases List.mem_singleton.mp hy
      cases hev
      exact strikes_kept hlive hj hq.1 hq.2.2.1 hq.2.2.2 hw

lemma Quota.failed {win : List (Trans State Ev)} {rest : List ((_ : Addr) × Option String)}
    {e : PyError} (h : Quota win ⟨b, some ⟨now, issued, ⟨ip, reason⟩ :: rest⟩⟩)
    (hj : Judged b now issued ip reason l (.error (e, b'))) :
    Quota (win ++ [⟨⟨b, some ⟨now, issued, ⟨ip, reason⟩ :: rest⟩⟩, .failed ip reason l,
      ⟨b', none⟩⟩]) ⟨b', none⟩ := by
  refine ⟨nofun, nofun, nofun, nofun, fun y hy a r l' hev hq hw => ?_⟩
  rcases List.mem_append.mp hy with hy | hy
  · have hsame : b'.strikes.lookup a = b.strikes.lookup a := by
      rw [(lookup_raised hj a).2, if_neg (h.apart hy hev).1]
    exact (Dict.getD_congr hsame 0).trans (h.strikes y hy a r l' hev hq hw)
  · cases List.mem_singleton.mp hy
    cases hev

lemma quota_step {tr : List (Trans State Ev)} {s s' : State} {e : Ev} (h : Quota (window tr) s)
    (hlive : s.blocker.dry_run = false) (hs : Step s e s') :
    Quota (window (tr ++ [⟨s, e, s'⟩])) s' := by
  rw [window_snoc]
  cases hs with
  | begin_call b now vs =>
    constructor
    · rintro k ⟨⟩; rfl
    · rintro k ⟨⟩; rfl
    · rintro k ⟨⟩
      exact vs.nodupKeys
    · rintro k ⟨⟩ y hy
      cases hy
    · intro y hy
      cases hy
  | end_call b now issued =>
    refine ⟨nofun, nofun, nofun, nofun, fun y hy ip reason l hev => ?_⟩
    rcases List.mem_append.mp hy with hy | hy
    · exact h.strikes y hy ip reason l hev
    · cases List.mem_singleton.mp hy
      cases hev
  | source hj => exact h.source hlive (judged_of_trace hj)
  | failed hj => exact h.failed (judged_of_trace hj)

lemma quota_init : Quota [] ⟨Blocker.init false, none⟩ :=
  ⟨nofun, nofun, nofun, nofun, fun _ hy => absurd hy List.not_mem_nil⟩

/-! ### Runs -/

/-- The books are as they were. -/
def Unbooked (b b' : Blocker) : Prop :=
  b'.offences = b.offences ∧ b'.until_ = b.until_ ∧ b'.blocks_issued = b.blocks_issued

/-- **The books of a live session** agree with the blocks it has written, all along. A write that
fails is in none of them; a call that returns has written a block for every source that qualifies,
up to the cap, and the sources beyond it keep their strikes. -/
theorem books_kept {tr : List (Trans State Ev)} {t : State}
    (h : Path Step ⟨Blocker.init false, none⟩ tr t) :
    Throughout Step ⟨Blocker.init false, none⟩ tr t Books ∧
      (∀ x ∈ tr, ∀ ip reason l, x.ev = .failed ip reason l →
        Unbooked x.pre.blocker x.post.blocker) ∧
      ∀ tr1 x tr2, tr = tr1 ++ x :: tr2 → x.ev = .end_call →
        (written (logged (window tr1))).length =
            min MAX_PER_WINDOW ((window tr1).countP Qualifies) ∧
          ∀ y ∈ window tr1, ∀ ip reason l, y.ev = .source ip reason l → Qualifies y →
            written l = [] →
              x.post.blocker.strikes.getD ip 0 = y.pre.blocker.strikes.getD ip 0 + 1 := by
  have hbooks : Throughout Step ⟨Blocker.init false, none⟩ tr t Books :=
    throughout_of_step books_init fun tr1 m e m' hm he hx => books_step hm (path_live h rfl hx) he
  have hquota : Throughout Step ⟨Blocker.init false, none⟩ tr t fun tr1 s => Quota (window tr1) s :=
    throughout_of_step quota_init fun tr1 m e m' hm he hx => quota_step hm (path_live h rfl hx) he
  refine ⟨hbooks, ?_, ?_⟩
  · intro x hx ip reason l hev
    have hstep := h.step_of_mem hx
    obtain ⟨pre, ev, post⟩ := x
    dsimp only at hev hstep ⊢
    subst hev
    cases hstep with
    | failed hj => exact (books_raised (judged_of_trace hj)).2
  · rintro tr1 x tr2 rfl hev
    obtain ⟨m, h1, h2⟩ := h.cut
    obtain ⟨rfl, hstep, -⟩ := h2.uncons
    have hq := hquota tr1 (x :: tr2) x.pre rfl h1 h2
    obtain ⟨pre, ev, post⟩ := x
    dsimp only at hev hstep hq ⊢
    subst hev
    cases hstep with
    | end_call b now issued =>
      exact ⟨(hq.issued _ rfl).symm.trans (hq.capped _ rfl), hq.strikes⟩

/-- A window that flags one source. -/
def flood : Dict Addr (Option String) := AList.insert 7 (some "syn flood") ∅

/-- Two such windows, and the block of the second. -/
theorem books_kept_flood :
    ∃ tr t, Path Step ⟨Blocker.init false, none⟩ tr t ∧ (blocks 7 tr).length = 1 := by
  have hfirst := trace_events (f := exec (0 : Fin 1)) ((Blocker.init false).update flood)
    (World.loaded 1)
  obtain ⟨tr, htr, -⟩ := path_of_trace hfirst
  have hsecond := trace_events (f := exec (0 : Fin 1))
    ((left (run (exec 0) ((Blocker.init false).update flood) (World.loaded 1)).1).update flood)
    (World.loaded 1)
  obtain ⟨tr', htr', -⟩ := path_of_trace hsecond
  have hbooks := (books_kept (htr.append htr')).1.last (htr.append htr')
  exact ⟨_, _, htr.append htr', (hbooks.offences 7).symm.trans (by decide +kernel)⟩

end Lookout.Offences

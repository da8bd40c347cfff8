import Lookout.Blocklist
import Lookout.Fwctl
import Lookout.Sessions

/-!
What a call of `Blocker.update` takes away from the blocklist.

A block of a source answers every later lookup of the source, so it replaces whatever covered
the source before: an entry of the operator's under the same key, or one for a whole prefix.
-/

namespace Lookout.Weakening

open Lookout.Effects Lookout.Effects.Prog Lookout.Runs Lookout.Dicts Lookout.Lpm Lookout.Common
open Lookout.Kernel Lookout.Xdp Lookout.Blocklist Lookout.Firewall Lookout.Fwctl Lookout.Policy
open Lookout.Sessions

variable {n : ℕ} {cpu : Fin n} {outside : World n → World n → Prop}

/-- What the blocklist drops from `t0` on, the later one drops too. -/
def NotWeaker (m m' : Store LpmKey BlockVal) (t0 : U64) : Prop :=
  ∀ (a : Addr) (t : U64), t0 ≤ t → Drops m a t → Drops m' a t

/-- The deadline of the longest entry that covers `a`. -/
def expiry (m : Store LpmKey BlockVal) (a : Addr) : Option U64 :=
  (find m a).map fun e => e.2.expires_ns

lemma drops_iff (m : Store LpmKey BlockVal) (a : Addr) (t : U64) :
    Drops m a t ↔ ∃ e, expiry m a = some e ∧ (e = 0 ∨ t < e) := by
  unfold Drops expiry active
  constructor
  · rintro ⟨k, bv, hf, ha⟩
    exact ⟨bv.expires_ns, by rw [hf]; rfl, of_decide_eq_true ha⟩
  · rintro ⟨e, hf, ha⟩
    obtain ⟨⟨k, bv⟩, hfind, rfl⟩ := Option.map_eq_some_iff.mp hf
    exact ⟨k, bv, hfind, decide_eq_true ha⟩

lemma expiry_alike {m m' : Store LpmKey BlockVal} (h : Alike BlockVal.expires_ns m m')
    (a : Addr) : expiry m' a = expiry m a := find_alike h a

lemma expiry_put {w : World n} {ip : Addr} {bv : BlockVal} :
    expiry (put w (.single ip) bv).blocklist ip = some bv.expires_ns := by
  have hf : find (put w (.single ip) bv).blocklist ip = some (.single ip, bv) :=
    find_insert ((covers_single ip ip).mpr rfl) (longest_single w.blocklist ip)
  rw [expiry, hf]
  rfl

lemma expiry_put_ne {w : World n} {ip a : Addr} {bv : BlockVal} (h : a ≠ ip) :
    expiry (put w (.single ip) bv).blocklist a = expiry w.blocklist a := by
  have hf : find (put w (.single ip) bv).blocklist a = find w.blocklist a :=
    find_insert_of_not_covers fun hc => h ((covers_single ip a).mp hc)
  rw [expiry, hf]
  rfl

/-! ### A block against what was there -/

/-- A block until `d` takes nothing away from the entry that answered for the source. -/
def Outlasts (d : U64) (old : Option U64) : Prop := ∀ e, old = some e → e ≠ 0 ∧ e ≤ d

/-- The state of a call: an address answers as it did at the start, or by a block that outlasts
what it had. -/
def Covered (start w : World n) : Prop :=
  ∀ a, expiry w.blocklist a = expiry start.blocklist a ∨
    ∃ d, expiry w.blocklist a = some d ∧ Outlasts d (expiry start.blocklist a)

lemma Covered.not_weaker {start w : World n} (h : Covered start w) (t0 : U64) :
    NotWeaker start.blocklist w.blocklist t0 := by
  intro a t _ hd
  obtain ⟨e, he, ht⟩ := (drops_iff _ _ _).mp hd
  rcases h a with hsame | ⟨d, hd', hout⟩
  · exact (drops_iff _ _ _).mpr ⟨e, by rw [hsame, he], ht⟩
  · obtain ⟨h0, hle⟩ := hout e he
    have hlt : t < d := BitVec.lt_def.mpr
      (lt_of_lt_of_le (BitVec.lt_def.mp (ht.resolve_left h0)) (BitVec.le_def.mp hle))
    exact (drops_iff _ _ _).mpr ⟨d, hd', Or.inr hlt⟩

/-- A block that does not outlast what was there weakens it, as soon as it has run out. -/
lemma outlasts_of_not_weaker {m m' : Store LpmKey BlockVal} {t0 d : U64} {a : Addr}
    (h : NotWeaker m m' t0) (hd : expiry m' a = some d) (h0 : d ≠ 0) (ht : t0 ≤ d) :
    Outlasts d (expiry m a) := by
  have hnot : ¬ Drops m' a d := by
    rw [drops_iff, hd]
    rintro ⟨e, he, hlt⟩
    cases he
    rcases hlt with hz | hlt
    · exact h0 hz
    · exact BitVec.lt_irrefl d hlt
  intro e he
  have hstart : ¬ (e = 0 ∨ d < e) := fun hlt =>
    hnot (h a d ht ((drops_iff _ _ _).mpr ⟨e, he, hlt⟩))
  rw [not_or, BitVec.not_lt] at hstart
  exact hstart

/-! ### Runs -/

/-- A block that the call writes outlasts what answered for its source when the call began. -/
def Spares (x : Trans (Session n) Ev) : Prop :=
  ∀ ip reason k, x.ev = .source ip reason → x.pre.call = some k →
    Blocks x.pre.blocker x.pre.world k.issued ip reason →
      Outlasts (entry x.pre.blocker ip x.pre.world).expires_ns (expiry k.start.blocklist ip)

/-- A live session; a running call has not begun in the future. -/
structure Timely (s : Session n) : Prop where
  live : s.blocker.dry_run = false
  start : ∀ k, s.call = some k → k.start.clock ≤ s.world.clock

lemma timely_step {s s' : Session n} {ev : Ev} (hs : Timely s)
    (h : Step cpu Still outside s ev s') : Timely s' := by
  refine ⟨step_live h hs.live, ?_⟩
  cases h with
  | begin_call w b => rintro k ⟨⟩; exact BitVec.le_refl _
  | @source w w' b b' k ip reason issued h =>
    rintro k' ⟨⟩
    have hstart := hs.start k rfl
    cases outcome_of_run hs.live h <;> exact hstart
  | inside b k h => rintro k ⟨⟩; exact BitVec.le_trans (hs.start k rfl) h.1
  | _ => rintro k ⟨⟩

/-- **One event of a call**: an address that is not written answers as before. -/
lemma covered_step {s s' : Session n} {ev : Ev} {k : Running n} (hs : Timely s)
    (hk : s.call = some k) (hc : Covered k.start s.world) (hx : Spares ⟨s, ev, s'⟩)
    (h : Step cpu Still outside s ev s') :
    Covered k.start s'.world ∧ ∀ k', s'.call = some k' → k'.start = k.start := by
  cases h with
  | begin_call w b => cases hk
  | @source w w' b b' k₁ ip reason issued h =>
    cases hk
    refine ⟨?_, fun k' hk' => by cases hk'; rfl⟩
    cases outcome_of_run hs.live h with
    | idle => exact hc
    | blocked hb ht =>
      intro a
      by_cases ha : a = ip
      · subst ha
        exact Or.inr ⟨_, expiry_put, hx a reason k rfl rfl hb⟩
      · dsimp only
        rw [expiry_put_ne ha]
        exact hc a
  | failed h =>
    cases hk
    refine ⟨?_, fun k' hk' => by cases hk'⟩
    cases outcome_of_run hs.live h <;> exact hc
  | end_call w b k => cases hk; exact ⟨hc, fun k' hk' => by cases hk'⟩
  | clean_up w b => cases hk
  | inside b k h =>
    cases hk
    refine ⟨fun a => ?_, fun k' hk' => by cases hk'; rfl⟩
    dsimp only
    rw [expiry_alike h.2 a]
    exact hc a
  | outside b log h => cases hk

/-- A running call has taken nothing away so far. -/
def Intact (s : Session n) : Prop := Timely s ∧ ∀ k, s.call = some k → Covered k.start s.world

lemma intact_step {s s' : Session n} {ev : Ev}
    (h : Step cpu Still outside s ev s' ∧ Spares ⟨s, ev, s'⟩) (hs : Intact s) : Intact s' := by
  refine ⟨timely_step hs.1 h.1, fun k' hk' => ?_⟩
  cases hk : s.call with
  | some k =>
    obtain ⟨hc, hstart⟩ := covered_step hs.1 hk (hs.2 k hk) h.2 h.1
    rw [hstart k' hk']
    exact hc
  | none =>
    obtain ⟨hstep, -⟩ := h
    cases hstep with
    | begin_call w b => cases hk'; exact fun a => Or.inl rfl
    | source | failed | end_call | inside => cases hk
    | clean_up | outside => cases hk'

/-- A block written by a call that has taken nothing away outlasts what it replaced. -/
lemma spares_of_not_weaker {s s' : Session n} {ev : Ev} (hs : Timely s)
    (h : Step cpu Still outside s ev s')
    (hnot : ∀ k, s.call = some k →
      NotWeaker k.start.blocklist s'.world.blocklist k.start.clock) : Spares ⟨s, ev, s'⟩ := by
  rintro ip reason k hev hk hb
  dsimp only at hev hk hb ⊢
  subst hev
  have hweak := hnot k hk
  have hstart := hs.start k hk
  cases h with
  | @source w w' b b' k' _ _ issued h =>
    cases hk
    cases outcome_of_run hs.live h with
    | idle hidle => exact absurd hb hidle
    | blocked _ ht =>
      have he : (entry b ip w).expires_ns.toNat = w.clock.toNat + b.duration ip * 1000000000 :=
        entry_expires ht
      have hd := duration_pos b ip
      have h0 : (entry b ip w).expires_ns ≠ 0 := by
        intro hz
        rw [hz] at he
        have hzero : (0 : U64).toNat = 0 := rfl
        omega
      have ht0 : k.start.clock ≤ (entry b ip w).expires_ns := by
        rw [BitVec.le_def] at hstart ⊢
        dsimp only at hstart
        omega
      exact outlasts_of_not_weaker hweak expiry_put h0 ht0

/-- **No call of `update` weakens the blocklist**, in a run, exactly when every block it writes
outlasts what answered for its source when the call began. -/
theorem not_weaker_iff (w : World n) (b : Blocker) (hlive : b.dry_run = false)
    (tr : List (Trans (Session n) Ev)) (s' : Session n)
    (h : Path (Step cpu Still outside) ⟨w, b, none⟩ tr s') :
    (∀ x ∈ tr, ∀ k, x.pre.call = some k →
      NotWeaker k.start.blocklist x.post.world.blocklist k.start.clock) ↔
    ∀ x ∈ tr, Spares x := by
  have htimely : Timely (⟨w, b, none⟩ : Session n) := ⟨hlive, fun k hk => by cases hk⟩
  constructor
  · intro hnot x hx
    have hpre := h.inv_pre Timely (fun _ _ _ hstep hs => timely_step hs hstep) htimely hx
    exact spares_of_not_weaker hpre (h.step_of_mem hx) (hnot x hx)
  · intro hspares x hx k hk
    have hpath := h.strengthen (P := fun s e t => Spares ⟨s, e, t⟩) hspares
    have hpre := hpath.inv_pre Intact (fun _ _ _ => intact_step)
      ⟨htimely, fun k hk => by cases hk⟩ hx
    obtain ⟨hc, -⟩ := covered_step hpre.1 hk (hpre.2 k hk) (hspares x hx) (h.step_of_mem hx)
    exact hc.not_weaker _

/-! ### A source the operator has blocked -/

/-- The source is blocked by hand for ten seconds. -/
def blocked_shortly : World 1 :=
  { World.loaded 1 with
    blocklist := AList.insert (.single 7) ⟨10000000000, 0, BLOCK_MANUAL⟩ ∅ }

theorem short_block_extended : ∃ tr s',
    Path (Step 0 Still Eq) ⟨blocked_shortly, one_strike, none⟩ tr s' ∧
      (∃ x ∈ tr, Blocks x.pre.blocker x.pre.world 0 7 (some "syn flood")) ∧
      NotWeaker blocked_shortly.blocklist s'.world.blocklist blocked_shortly.clock := by
  have hb : Blocks one_strike blocked_shortly 0 7 (some "syn flood") :=
    ⟨⟨rfl, by decide +kernel⟩, by decide +kernel, by decide +kernel, by decide⟩
  have hrun := run_process_block 0 (b := one_strike) rfl 0 hb
  rw [if_pos (by decide +kernel), if_pos (by decide +kernel)] at hrun
  have hpath : Path (Step 0 Still Eq) ⟨blocked_shortly, one_strike, none⟩ _ _ :=
    .snoc (.snoc .nil (.begin_call blocked_shortly one_strike)) (.source hrun)
  have hold : expiry blocked_shortly.blocklist 7 = some 10000000000 := by decide +kernel
  have hcond := (not_weaker_iff blocked_shortly one_strike rfl _ _ hpath).mpr ?_
  · exact ⟨_, _, hpath, ⟨_, List.mem_append_right _ (List.mem_singleton_self _), hb⟩,
      hcond _ (List.mem_append_right _ (List.mem_singleton_self _)) _ rfl⟩
  · rintro x hx ip reason k hev hk - e he
    simp only [List.nil_append, List.mem_append, List.mem_singleton] at hx
    rcases hx with rfl | rfl
    · cases hev
    · cases hev
      cases hk
      rw [hold] at he
      cases he
      decide +kernel

/-- The source is blocked by hand for good. -/
def blocked_for_good (w : World 1) : World 1 :=
  (run (exec 0) (block_add none [.plain 7]) w).2

def BlocksForGood (w w' : World 1) : Prop := w' = blocked_for_good w

/-- It has one strike already. -/
def flagged_once : Session 1 :=
  Session.after_call 0 ⟨blocked_for_good (World.loaded 1), .init false, none⟩ flood

theorem permanent_block_replaced : ∃ tr s',
    Path (Step 0 Still BlocksForGood) ⟨World.loaded 1, .init false, none⟩ tr s' ∧
      ∃ x ∈ tr, ∃ k, x.pre.call = some k ∧
        ¬ NotWeaker k.start.blocklist x.post.world.blocklist k.start.clock := by
  have hout : Step 0 Still BlocksForGood ⟨World.loaded 1, .init false, none⟩ .outside
      ⟨blocked_for_good (World.loaded 1), .init false, none⟩ :=
    .outside (.init false) [] rfl
  obtain ⟨tr, h⟩ := path_after_call 0 Still BlocksForGood
    ⟨blocked_for_good (World.loaded 1), .init false, none⟩ flood rfl
  have hb : Blocks flagged_once.blocker flagged_once.world 0 7 (some "syn flood") :=
    ⟨⟨rfl, by decide +kernel⟩, by decide +kernel, by decide +kernel, by decide⟩
  have hlive : flagged_once.blocker.dry_run = false := by decide +kernel
  have hrun := run_process_block 0 hlive flagged_once.world.wall hb
  rw [if_pos (by decide +kernel), if_pos (by decide +kernel)] at hrun
  have hpath : Path (Step 0 Still BlocksForGood) ⟨World.loaded 1, .init false, none⟩ _ _ :=
    .snoc ((Path.cons hout h).snoc (.begin_call flagged_once.world flagged_once.blocker))
      (.source hrun)
  refine ⟨_, _, hpath, _, List.mem_append_right _ (List.mem_singleton_self _), _, rfl, fun hn => ?_⟩
  have hdrops : Drops flagged_once.world.blocklist 7 (-1) :=
    (drops_iff _ _ _).mpr ⟨0, by decide +kernel, Or.inl rfl⟩
  obtain ⟨e, he, ht⟩ := (drops_iff _ _ _).mp (hn 7 (-1) (by decide +kernel) hdrops)
  rw [expiry_put] at he
  rw [← Option.some.inj he] at ht
  exact absurd ht (by decide +kernel)

end Lookout.Weakening

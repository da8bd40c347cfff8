import Lookout.Control
import Mathlib.Logic.Relation

/-!
A session that is only to show its decisions.

Four of the five places where the controller writes ask for `--dry-run` first. The prefixes of
`--allow` are put on the allowlist before anything else, without asking.
-/

namespace Lookout.DryRun

open Lookout.Effects Lookout.Effects.Prog Lookout.Dicts Lookout.Common Lookout.Kernel
open Lookout.Firewall Lookout.Detect Lookout.Policy Lookout.Control

/-- The system calls that update or delete nothing. -/
def Reads : Op → Prop
  | .ktime_get_ns | .config_lookup | .allow_lookup _ | .block_lookup _ | .time | .strftime
  | .stat_sum _ | .block_items | .state_items => True
  | _ => False

variable {n : ℕ}

lemma exec_reads {cpu : Fin n} {w w' : World n} {o : Op} {b : Ans o} (ho : Reads o)
    (h : exec cpu w o = (b, w')) : w' = w := by
  cases o <;> first | exact absurd ho id | exact (Prod.mk.inj h).2.symm

/-! ### The parts of a step -/

lemma within_note {b : Blocker} (hdry : b.dry_run = true) (msg : String) :
    Within Reads (fun b' : Blocker => b'.dry_run = true) (b.note msg) :=
  ⟨trivial, fun _ => hdry⟩

lemma within_issue_block {b : Blocker} (hdry : b.dry_run = true) (now : ℚ) (issued : ℕ)
    (ip : Addr) (reason : String) :
    Exc.Within Reads (fun r : Blocker × ℕ => r.1.dry_run = true)
      (b.issue_block now issued ip reason) := by
  have hskip : ¬ (!b.dry_run) = true := by simp [hdry]
  have hissue : (b.issue ip now).dry_run = true := hdry
  unfold Blocker.issue_block
  rw [if_neg hskip]
  exact Exc.within_bind (Exc.within_lift (within_note hissue _)) fun b' hb => Exc.within_pure hb

lemma within_judge {b : Blocker} (hdry : b.dry_run = true) (now : ℚ) (issued : ℕ) (ip : Addr)
    (reason : String) :
    Exc.Within Reads (fun r : Blocker × ℕ => r.1.dry_run = true) (b.judge now issued ip reason) := by
  have hallowed : ∀ allowed : Bool, True → Exc.Within Reads (fun r : Blocker × ℕ =>
      r.1.dry_run = true) (if allowed then do
        let b ← b.note (Blocker.allow_msg ip reason)
        return (b.forget ip, issued)
      else if issued ≥ MAX_PER_WINDOW then return (b, issued)
      else b.issue_block now issued ip reason : Blocker.Method (Blocker × ℕ)) := by
    rintro allowed -
    split_ifs
    · exact Exc.within_bind (Exc.within_lift (within_note hdry _)) fun b' hb => Exc.within_pure hb
    · exact Exc.within_pure hdry
    · exact within_issue_block hdry _ _ _ _
  unfold Blocker.judge
  split
  · exact Exc.within_pure hdry
  · refine Exc.within_bind (Q := fun _ => True) (Exc.within_lift ⟨trivial, fun _ => trivial⟩)
      fun blocked _ => ?_
    split
    · exact Exc.within_pure hdry
    · exact Exc.within_bind (Q := fun _ => True) (Exc.within_lift ⟨trivial, fun _ => trivial⟩)
        hallowed

lemma within_process {b : Blocker} (hdry : b.dry_run = true) (now : ℚ) (issued : ℕ) (ip : Addr)
    (reason : Option String) :
    Exc.Within Reads (fun r : Blocker × ℕ => r.1.dry_run = true)
      (b.process now issued ip reason) := by
  cases reason with
  | none => exact Exc.within_pure hdry
  | some reason =>
    have hstrike : (b.strike ip).dry_run = true := hdry
    exact within_judge hstrike now issued ip reason

lemma within_process_all {b : Blocker} (hdry : b.dry_run = true) (now : ℚ) (issued : ℕ)
    (vs : List ((_ : Addr) × Option String)) :
    Exc.Within Reads (fun b' : Blocker => b'.dry_run = true) (b.process_all now issued vs) := by
  induction vs generalizing b issued with
  | nil => exact Exc.within_pure hdry
  | cons v vs ih =>
    exact Exc.within_bind (within_process hdry now issued v.1 v.2) fun r hr => ih hr r.2

lemma within_update {b : Blocker} (hdry : b.dry_run = true) (vs : Dict Addr (Option String)) :
    Exc.Within Reads (fun b' : Blocker => b'.dry_run = true) (b.update vs) :=
  Exc.within_bind (Q := fun _ => True) (Exc.within_lift ⟨trivial, fun _ => trivial⟩) fun now _ =>
    within_process_all hdry now 0 vs.entries

/-- A controller that writes nothing. -/
def Dry (c : Controller) : Prop := c.args.dry_run = true ∧ c.blocker.dry_run = true

lemma within_tune {c : Controller} (hdry : Dry c) : Exc.Within Reads Dry (tune c) := by
  obtain ⟨hargs, hblocker⟩ := hdry
  have hskip : ¬ (!c.args.dry_run) = true := by simp [hargs]
  unfold tune
  split_ifs
  · exact Exc.within_pure ⟨hargs, hblocker⟩
  · split
    · exact Exc.within_raise _ _ _
    · exact Exc.within_pure ⟨hargs, hblocker⟩
    · exact Exc.within_bind (Exc.within_lift (within_note hblocker _)) fun b hb =>
        Exc.within_pure ⟨hargs, hb⟩

lemma within_clean_up {c : Controller} (hdry : Dry c) : Within Reads Dry (clean_up c) := by
  have hskip : ¬ (c.cycles % 5 = 0 ∧ (!c.args.dry_run) = true) := by simp [hdry.1]
  unfold clean_up
  rw [if_neg hskip]
  exact hdry

lemma within_act {c : Controller} (hdry : Dry c) (vs : Dict Addr (Option String)) (stats : Stats)
    (now : ℚ) : Exc.Within Reads Dry (act c vs stats now) := by
  refine Exc.within_bind (Exc.within_rethrow (within_update hdry.2 vs)) fun b hb => ?_
  obtain ⟨hargs, -, hblocker⟩ := measure_keeps { c with blocker := b } stats now
  have hmeasured : Dry (({ c with blocker := b } : Controller).measure stats now) := by
    refine ⟨?_, ?_⟩
    · rw [hargs]; exact hdry.1
    · rw [hblocker]; exact hb
  exact Exc.within_bind (within_tune hmeasured) fun c' hc =>
    Exc.within_lift (within_clean_up hc)

/-- **One step** reads, and stays dry. -/
theorem within_step {c : Controller} (hdry : Dry c) :
    Exc.Within Reads (fun r => Dry r.1) (step c) := by
  have hread : ∀ o, ReadOp o → Reads o := fun o ho => by cases o <;> trivial
  have hktime : Uses Reads ktime_ns := uses_ktime_ns trivial
  have hmonotonic : Uses Reads monotonic := uses_bind hktime fun _ => trivial
  have hwindow : ∀ window, Dry { c with window } := fun _ => hdry
  unfold step
  refine Exc.within_bind (Exc.within_lift (uses_read_stats.mono hread).within) fun stats _ => ?_
  refine Exc.within_bind (Exc.within_lift hmonotonic.within) fun now _ => ?_
  refine Exc.within_bind (Exc.within_lift (uses_read_states trivial).within) fun states _ => ?_
  refine Exc.within_bind (Exc.within_lift hktime.within) fun now_ns _ => ?_
  exact Exc.within_bind (within_act (hwindow _) _ stats now) fun c' hc => Exc.within_pure hc

/-! ### Sessions -/

def steps : ℕ → Controller → Py Controller
  | 0, c => return c
  | k + 1, c => do
    let r ← step c
    steps k r.1

/-- The start of the controller and `k` steps. -/
def session (args : Args) (k : ℕ) : Py Controller := do
  let c ← start args
  steps k c

lemma within_steps (k : ℕ) {c : Controller} (hdry : Dry c) :
    Exc.Within Reads Dry (steps k c) := by
  induction k generalizing c with
  | zero => exact Exc.within_pure hdry
  | succ k ih => exact Exc.within_bind (within_step hdry) fun r hr => ih hr

/-- What only reads leaves the maps to the others. -/
lemma left_to_others {cpu : Fin n} {E : World n → World n → Prop} {α : Type} {p : Call α}
    (hp : Uses Reads p) {w w' : World n} {a : α} (hx : Exec (kernel E cpu) w p a w') :
    Relation.ReflTransGen E w w' := by
  refine hp.exec (I := Relation.ReflTransGen E w) ?_ hx .refl
  rintro w1 o b w2 ho ⟨w3, hE, hop⟩ h
  rw [exec_reads ho hop]
  exact h.tail hE

/-- **A dry run writes nothing**, and leaves the maps as the others alone would have left them,
exactly when it is given no prefix to allow. -/
theorem dry_run_writes_nothing_iff (cpu : Fin n) (args : Args) (hdry : args.dry_run = true) :
    (∀ k, Uses Reads (session args k) ∧ ∀ (E : World n → World n → Prop) w r w',
      Exec (kernel E cpu) w (session args k) r w' → Relation.ReflTransGen E w w') ↔
    args.allow = [] := by
  constructor
  · intro h
    obtain ⟨huses, -⟩ := h 0
    cases hallow : args.allow with
    | nil => rfl
    | cons k ks =>
      unfold session start at huses
      rw [hallow] at huses
      exact absurd huses.1 id
  · intro hallow k
    have hstart : Exc.Within Reads Dry (start args) := by
      unfold start
      rw [hallow]
      exact Exc.within_bind (Q := fun _ => True) (Exc.within_pure trivial) fun _ _ =>
        Exc.within_pure ⟨hdry, hdry⟩
    have hall := Exc.within_bind hstart fun c hc => within_steps k hc
    exact ⟨hall.uses, fun E w r w' hx => left_to_others hall.uses hx⟩

/-- Three steps, with options that only ask for a dry run. -/
theorem dry_run_without_allow : Uses Reads (session ⟨true, false, []⟩ 3) :=
  ((dry_run_writes_nothing_iff (0 : Fin 1) ⟨true, false, []⟩ rfl).mpr rfl 3).1

/-- A dry run with `--allow`: nobody else is there, and the allowlist has a new entry. -/
theorem dry_run_allows : ∃ r w',
    Exec (kernel Eq 0) (World.loaded 1) (session ⟨true, false, [.single 7]⟩ 1) r w' ∧
      ¬ Relation.ReflTransGen Eq (World.loaded 1) w' := by
  refine ⟨_, _, exec_run (fun _ => rfl) _ _, fun h => ?_⟩
  rw [Relation.reflTransGen_eq_self] at h
  have hkeys := congrArg (fun w => w.allowlist.keys.length) h
  exact absurd hkeys (by decide +kernel)

end Lookout.DryRun

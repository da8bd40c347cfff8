import Mathlib.Data.List.Chain
import Mathlib.Tactic.Common

/-!
Walks on the natural numbers, one step up or down at a time, that stay at zero when they would go
below it.

A walk is the list of its steps, the last one first. How high it stands says how far up some run
of its last steps has gone: the reflection at zero forgets the steps before that run.
-/

namespace Lookout.Walks

/-- Where the walk stands. -/
def height : List Bool → ℕ
  | [] => 0
  | true :: l => height l + 1
  | false :: l => height l - 1

/-- The steps up less the steps down. -/
def surplus (l : List Bool) : ℤ := l.count true - l.count false

lemma surplus_up (l : List Bool) : surplus (true :: l) = surplus l + 1 := by
  simp only [surplus, List.count_cons_self, List.count_cons_of_ne (by decide : true ≠ false)]
  omega

lemma surplus_down (l : List Bool) : surplus (false :: l) = surplus l - 1 := by
  simp only [surplus, List.count_cons_self, List.count_cons_of_ne (by decide : false ≠ true)]
  omega

/-- Some run of the last steps goes up by `m` or more. -/
def Climbs (m : ℕ) (l : List Bool) : Prop := ∃ k, (m : ℤ) ≤ surplus (l.take k)

lemma climbs_zero (l : List Bool) : Climbs 0 l := ⟨0, by simp [surplus]⟩

/-- Before its last step the run was the rest of the walk. -/
lemma climbs_up {m : ℕ} {l : List Bool} : Climbs (m + 1) (true :: l) ↔ Climbs m l := by
  constructor
  · rintro ⟨k, hk⟩
    cases k with
    | zero => rw [List.take_zero] at hk; simp [surplus] at hk; omega
    | succ k =>
      rw [List.take_succ_cons, surplus_up] at hk
      exact ⟨k, by omega⟩
  · rintro ⟨k, hk⟩
    refine ⟨k + 1, ?_⟩
    rw [List.take_succ_cons, surplus_up]
    omega

lemma climbs_down {m : ℕ} {l : List Bool} : Climbs (m + 1) (false :: l) ↔ Climbs (m + 2) l := by
  constructor
  · rintro ⟨k, hk⟩
    cases k with
    | zero => rw [List.take_zero] at hk; simp [surplus] at hk; omega
    | succ k =>
      rw [List.take_succ_cons, surplus_down] at hk
      exact ⟨k, by omega⟩
  · rintro ⟨k, hk⟩
    refine ⟨k + 1, ?_⟩
    rw [List.take_succ_cons, surplus_down]
    omega

/-- **A walk stands at `m` or higher when some run of its last steps goes up by as much.** -/
theorem le_height_iff {m : ℕ} {l : List Bool} : m ≤ height l ↔ Climbs m l := by
  induction l generalizing m with
  | nil =>
    constructor
    · intro h
      rw [Nat.le_zero.mp h]
      exact climbs_zero []
    · rintro ⟨k, hk⟩
      simp [surplus] at hk
      omega
  | cons b l ih =>
    cases m with
    | zero => exact ⟨fun _ => climbs_zero _, fun _ => Nat.zero_le _⟩
    | succ m =>
      cases b with
      | true => rw [climbs_up, ← ih, height, Nat.add_le_add_iff_right]
      | false =>
        rw [climbs_down, ← ih, height]
        omega

/-- Two steps up never follow each other. -/
def Separated (l : List Bool) : Prop := l.IsChain fun a b => ¬ (a = true ∧ b = true)

/-- A walk that goes down between any two steps up stays low, and is at zero after a step down. -/
lemma height_separated {l : List Bool} (h : Separated l) :
    height l ≤ 1 ∧ (l.head? ≠ some true → height l = 0) := by
  induction l with
  | nil => exact ⟨Nat.zero_le _, fun _ => rfl⟩
  | cons b l ih =>
    obtain ⟨hhead, htail⟩ := List.isChain_cons.mp h
    obtain ⟨hle, hzero⟩ := ih htail
    cases b with
    | true =>
      have hl : l.head? ≠ some true := fun hl => hhead true hl ⟨rfl, rfl⟩
      rw [height, hzero hl]
      exact ⟨le_rfl, fun hne => absurd rfl hne⟩
    | false =>
      rw [height]
      exact ⟨by omega, fun _ => by omega⟩

end Lookout.Walks

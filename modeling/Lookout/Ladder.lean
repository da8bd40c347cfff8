import Lookout.Policy
import Lookout.Runs

/-!
The ladder of tiers: up at once, down by one rung after enough calm seconds in a row.

The counter `calm` is the length of the streak of calm windows the run ends with. So a level is
left downwards only after `CALM_WINDOWS` windows that all called for less, and a flood that
comes back often enough never gets below the level it has called for.
-/

namespace Lookout.Ladder

open Lookout.Runs Lookout.Firewall Lookout.Policy

/-! ### One window -/

/-- The two attributes as the integers they are in the source. -/
structure Ints where
  level : ℤ
  calm : ℤ

/-- The end of `update` on these integers, once the target is known. -/
def Ints.move (a : Ints) (target : ℤ) : Bool × Ints :=
  if target > a.level then (true, ⟨target, 0⟩)
  else if target = a.level then (false, { a with calm := 0 })
  else if a.calm + 1 ≥ CALM_WINDOWS then (true, ⟨a.level - 1, 0⟩)
  else (false, { a with calm := a.calm + 1 })

def ints (a : Aggressiveness) : Ints := ⟨a.level.val, a.calm⟩

/-- What one call of `move` can do. -/
lemma move_cases (a : Aggressiveness) (target : Fin 4) :
    a.level < target ∧ a.move target = (true, ⟨target, 0⟩) ∨
    target = a.level ∧ a.move target = (false, ⟨a.level, 0⟩) ∨
    target < a.level ∧ CALM_WINDOWS ≤ a.calm + 1 ∧
      a.move target = (true, ⟨Aggressiveness.lower a.level, 0⟩) ∨
    target < a.level ∧ a.calm + 1 < CALM_WINDOWS ∧
      a.move target = (false, ⟨a.level, a.calm + 1⟩) := by
  unfold Aggressiveness.move
  rcases lt_trichotomy a.level target with h | h | h
  · left
    exact ⟨h, if_pos h⟩
  · right; left
    rw [if_neg (by omega), if_pos h.symm]
    exact ⟨h.symm, rfl⟩
  · right; right
    rw [if_neg (by omega), if_neg (by omega)]
    by_cases hc : CALM_WINDOWS ≤ a.calm + 1
    · left
      exact ⟨h, hc, if_pos hc⟩
    · right
      exact ⟨h, by omega, if_neg hc⟩

lemma lower_val {lvl target : Fin 4} (h : target < lvl) :
    (Aggressiveness.lower lvl).val + 1 = lvl.val := by
  unfold Aggressiveness.lower
  have := Fin.lt_def.mp h
  dsimp only
  omega

/-- **The levels never leave the ladder**: the integers of the source move as the level does. -/
theorem ints_move (a : Aggressiveness) (target : Fin 4) :
    (ints a).move target.val = ((a.move target).1, ints (a.move target).2) := by
  unfold Ints.move ints
  rcases move_cases a target with ⟨h, hm⟩ | ⟨h, hm⟩ | ⟨h, hc, hm⟩ | ⟨h, hc, hm⟩ <;> rw [hm]
  · have hlt : (target.val : ℤ) > a.level.val := by exact_mod_cast h
    rw [if_pos hlt]
    rfl
  · subst h
    simp
  · have hlt : (target.val : ℤ) < a.level.val := by exact_mod_cast h
    have hcalm : (a.calm : ℤ) + 1 ≥ CALM_WINDOWS := by exact_mod_cast hc
    have hlow := lower_val h
    rw [if_neg hlt.le.not_gt, if_neg hlt.ne, if_pos hcalm]
    simp only [Nat.cast_zero, Prod.mk.injEq, Ints.mk.injEq, and_true, true_and]
    omega
  · have hlt : (target.val : ℤ) < a.level.val := by exact_mod_cast h
    have hcalm : ¬ (a.calm : ℤ) + 1 ≥ CALM_WINDOWS := by
      rw [not_le]
      exact_mod_cast hc
    rw [if_neg hlt.le.not_gt, if_neg hlt.ne, if_neg hcalm]
    simp

/-- `max` finds a level for every load that is not negative. -/
lemma target_ok {pps : ℚ} (h : 0 ≤ pps) (drop_ratio : ℚ) :
    ∃ target, Aggressiveness.target pps drop_ratio = .ok target := by
  have hlevel : ∃ lvl, Aggressiveness.load_level pps = .ok lvl := by
    have hmem : (⟨0, by decide⟩ : Fin ESCALATE_PPS.length) ∈
        (List.finRange 4).filter fun lvl => decide (ESCALATE_PPS.get lvl ≤ pps) :=
      List.mem_filter.mpr ⟨List.mem_finRange _, decide_eq_true h⟩
    unfold Aggressiveness.load_level
    split
    · exact ⟨_, rfl⟩
    · next hnone =>
      rw [List.max?_eq_none_iff] at hnone
      rw [hnone] at hmem
      exact absurd hmem List.not_mem_nil
  obtain ⟨lvl, hlvl⟩ := hlevel
  unfold Aggressiveness.target
  rw [hlvl]
  exact ⟨_, rfl⟩

/-! ### Runs -/

/-- A call of `update`: its arguments, the target of the window and what it returns. -/
structure Call where
  pps : ℚ
  drop_ratio : ℚ
  target : Fin 4
  changed : Bool

def Feeds (a : Aggressiveness) (c : Call) (a' : Aggressiveness) : Prop :=
  0 ≤ c.pps ∧ Aggressiveness.target c.pps c.drop_ratio = .ok c.target ∧
    a.update c.pps c.drop_ratio = .ok (c.changed, a')

lemma Feeds.move {a a' : Aggressiveness} {c : Call} (h : Feeds a c a') :
    a.move c.target = (c.changed, a') := by
  obtain ⟨-, ht, hu⟩ := h
  unfold Aggressiveness.update at hu
  rw [ht] at hu
  exact Except.ok.inj hu

/-- What a call can do. -/
lemma Feeds.cases {a a' : Aggressiveness} {c : Call} (h : Feeds a c a') :
    a.level < c.target ∧ c.changed = true ∧ a' = ⟨c.target, 0⟩ ∨
    c.target = a.level ∧ c.changed = false ∧ a' = ⟨a.level, 0⟩ ∨
    c.target < a.level ∧ CALM_WINDOWS ≤ a.calm + 1 ∧ c.changed = true ∧
      a' = ⟨Aggressiveness.lower a.level, 0⟩ ∨
    c.target < a.level ∧ a.calm + 1 < CALM_WINDOWS ∧ c.changed = false ∧
      a' = ⟨a.level, a.calm + 1⟩ := by
  have hm := h.move
  rcases move_cases a c.target with ⟨h, hm'⟩ | ⟨h, hm'⟩ | ⟨h, hc, hm'⟩ | ⟨h, hc, hm'⟩ <;>
    obtain ⟨hch, ha⟩ := Prod.ext_iff.mp (hm.symm.trans hm')
  · exact Or.inl ⟨h, hch, ha⟩
  · exact Or.inr (Or.inl ⟨h, hch, ha⟩)
  · exact Or.inr (Or.inr (Or.inl ⟨h, hc, hch, ha⟩))
  · exact Or.inr (Or.inr (Or.inr ⟨h, hc, hch, ha⟩))

/-- The windows of a streak all call for less than the level, which does not change. -/
def Calm (lvl : Fin 4) (s : List (Trans Aggressiveness Call)) : Prop :=
  ∀ y ∈ s, y.pre.level = lvl ∧ y.ev.target < lvl

/-- The run ends with a streak of as many calm windows as the counter says. -/
def Counts (tr : List (Trans Aggressiveness Call)) (a : Aggressiveness) : Prop :=
  a.calm < CALM_WINDOWS ∧
    ∃ tr0 s, tr = tr0 ++ s ∧ s.length = a.calm ∧ Calm a.level s

lemma counts_zero (tr : List (Trans Aggressiveness Call)) (lvl : Fin 4) :
    Counts tr ⟨lvl, 0⟩ :=
  ⟨show 0 < CALM_WINDOWS by decide, tr, [], (List.append_nil tr).symm, rfl, nofun⟩

/-- The streak goes on for one more window. -/
lemma calm_snoc {lvl : Fin 4} {s : List (Trans Aggressiveness Call)} (h : Calm lvl s)
    {x : Trans Aggressiveness Call} (hl : x.pre.level = lvl) (ht : x.ev.target < lvl) :
    Calm lvl (s ++ [x]) := by
  intro y hy
  rcases List.mem_append.mp hy with hy | hy
  · exact h y hy
  · rw [List.mem_singleton.mp hy]
    exact ⟨hl, ht⟩

lemma counts_step {tr : List (Trans Aggressiveness Call)} {a a' : Aggressiveness} {c : Call}
    (h : Counts tr a) (hf : Feeds a c a') : Counts (tr ++ [⟨a, c, a'⟩]) a' := by
  obtain ⟨hlt, tr0, s, rfl, hlen, hcalm⟩ := h
  rcases hf.cases with ⟨-, -, rfl⟩ | ⟨-, -, rfl⟩ | ⟨-, -, -, rfl⟩ | ⟨h, hc, -, rfl⟩
  · exact counts_zero _ _
  · exact counts_zero _ _
  · exact counts_zero _ _
  · refine ⟨hc, tr0, s ++ [⟨a, c, _⟩], List.append_assoc _ _ _, ?_, calm_snoc hcalm rfl h⟩
    rw [List.length_append, hlen]
    rfl

/-- A level is left downwards at the end of a streak of `CALM_WINDOWS`. -/
lemma falls_after_streak {tr : List (Trans Aggressiveness Call)} {a a' : Aggressiveness}
    {c : Call} (h : Counts tr a) (hf : Feeds a c a') (hfall : a'.level < a.level) :
    a'.level.val + 1 = a.level.val ∧ ∃ tr0 s, tr ++ [⟨a, c, a'⟩] = tr0 ++ s ∧
      s.length = CALM_WINDOWS ∧ Calm a.level s := by
  obtain ⟨hlt, tr0, s, rfl, hlen, hcalm⟩ := h
  rcases hf.cases with ⟨h, -, rfl⟩ | ⟨-, -, rfl⟩ | ⟨h, hc, -, rfl⟩ | ⟨-, -, -, rfl⟩
  · exact absurd hfall h.not_gt
  · exact absurd hfall (lt_irrefl _)
  · refine ⟨lower_val h, tr0, s ++ [⟨a, c, _⟩], List.append_assoc _ _ _, ?_,
      calm_snoc hcalm rfl h⟩
    rw [List.length_append, hlen, List.length_singleton]
    omega
  · exact absurd hfall (lt_irrefl _)

/-- What one window does. -/
lemma feeds_keeps {a a' : Aggressiveness} {c : Call} (hf : Feeds a c a') :
    c.target ≤ a'.level ∧ (c.changed = true ↔ a'.level ≠ a.level) := by
  rcases hf.cases with ⟨h, hch, rfl⟩ | ⟨h, hch, rfl⟩ | ⟨h, -, hch, rfl⟩ | ⟨h, -, hch, rfl⟩ <;>
    rw [hch]
  · exact ⟨le_rfl, iff_of_true rfl h.ne'⟩
  · exact ⟨h.le, iff_of_false Bool.false_ne_true fun hne => hne rfl⟩
  · have hlow := lower_val h
    have hlt := Fin.lt_def.mp h
    refine ⟨Fin.le_def.mpr (by dsimp only; omega), iff_of_true rfl fun he => ?_⟩
    dsimp only at he
    rw [he] at hlow
    omega
  · exact ⟨h.le, iff_of_false Bool.false_ne_true fun hne => hne rfl⟩

lemma counts_of_path {tr : List (Trans Aggressiveness Call)} {a : Aggressiveness}
    (h : Path Feeds .init tr a) : Counts tr a := by
  induction h with
  | nil => exact counts_zero _ _
  | snoc _ hf ih => exact counts_step ih hf

/-- Every `CALM_WINDOWS` windows in a row contain one that calls for `L`. -/
def Often (L : Fin 4) (tr : List (Trans Aggressiveness Call)) : Prop :=
  ∀ tr0 s tr1, tr = tr0 ++ s ++ tr1 → s.length = CALM_WINDOWS → ∃ y ∈ s, L ≤ y.ev.target

/-- No window of a run that often calls for `L` goes below it. -/
lemma kept_of_often {L : Fin 4} {tr : List (Trans Aggressiveness Call)} {a : Aggressiveness}
    (h : Path Feeds .init tr a) (hoften : Often L tr) {x : Trans Aggressiveness Call}
    (hx : x ∈ tr) (hL : L ≤ x.pre.level) : L ≤ x.post.level := by
  obtain ⟨tr1, tr2, rfl, h1, hf, -⟩ := h.split hx
  by_contra hlt
  obtain ⟨hone, tr0, s, htr, hlen, hcalm⟩ :=
    falls_after_streak (counts_of_path h1) hf ((not_le.mp hlt).trans_le hL)
  -- the level left is `L` itself
  have hlevel : x.pre.level.val = L.val := by
    have h1 := Fin.lt_def.mp (not_le.mp hlt)
    have h2 := Fin.le_def.mp hL
    omega
  have hcut : tr1 ++ x :: tr2 = tr0 ++ s ++ tr2 := by
    rw [← htr, List.append_assoc]
    rfl
  obtain ⟨y, hy, hL'⟩ := hoften tr0 s tr2 hcut hlen
  have hless := Fin.lt_def.mp (hcalm y hy).2
  have hmore := Fin.le_def.mp hL'
  omega

/-- **The ladder of tiers.** In every run from the start: each call returns; the level after it
is at least the target, and changes exactly when the call says so, as the integers of the source
do; it falls by one at the end of a calm streak, and not otherwise; and it never falls again
below a level that the windows call for often enough. -/
theorem ladder (tr : List (Trans Aggressiveness Call)) (a : Aggressiveness)
    (h : Path Feeds .init tr a) :
    (∀ pps drop_ratio, 0 ≤ pps →
      ∃ target changed a', Feeds a ⟨pps, drop_ratio, target, changed⟩ a') ∧
    (∀ x ∈ tr, x.ev.target ≤ x.post.level ∧ (x.ev.changed = true ↔ x.post.level ≠ x.pre.level) ∧
      (ints x.pre).move x.ev.target.val = (x.ev.changed, ints x.post)) ∧
    (∀ tr1 x tr2, tr = tr1 ++ x :: tr2 → x.post.level < x.pre.level →
      x.post.level.val + 1 = x.pre.level.val ∧ ∃ tr0 s, tr1 ++ [x] = tr0 ++ s ∧
        s.length = CALM_WINDOWS ∧ Calm x.pre.level s) ∧
    (∀ L, Often L tr → ∀ tr1 x tr2, tr = tr1 ++ x :: tr2 → L ≤ x.post.level →
      ∀ y ∈ tr2, L ≤ y.post.level) := by
  refine ⟨fun pps drop_ratio hpps => ?_, fun x hx => ?_, fun tr1 x tr2 htr hfall => ?_,
    fun L hoften tr1 x tr2 htr hL y hy => ?_⟩
  · obtain ⟨target, ht⟩ := target_ok hpps drop_ratio
    refine ⟨target, (a.move target).1, (a.move target).2, hpps, ht, ?_⟩
    unfold Aggressiveness.update
    rw [ht]
    rfl
  · have hf := h.step_of_mem hx
    have hints := ints_move x.pre x.ev.target
    rw [hf.move] at hints
    exact ⟨(feeds_keeps hf).1, (feeds_keeps hf).2, hints⟩
  · obtain ⟨m, h1, h2⟩ := (htr ▸ h).cut
    obtain ⟨rfl, hf, -⟩ := h2.uncons
    exact falls_after_streak (counts_of_path h1) hf hfall
  · obtain ⟨m, h1, h2⟩ := (htr ▸ h).cut
    obtain ⟨-, -, h3⟩ := h2.uncons
    have hkept : ∀ z ∈ tr2, L ≤ z.pre.level → L ≤ z.post.level := fun z hz =>
      kept_of_often h hoften (by simp [htr, hz])
    have hrest := h3.strengthen (P := fun a _ a' => L ≤ a.level → L ≤ a'.level) hkept
    exact hrest.inv_post (fun a => L ≤ a.level) (fun _ _ _ hs hle => hs.2 hle) hL hy

/-- A second of heavy load. -/
theorem ladder_heavy_load : ∃ a,
    Path Feeds .init [⟨.init, ⟨300000, 0, 3, true⟩, a⟩] a ∧ 3 ≤ a.level := by
  have hpath : Path Feeds .init ([] ++ [⟨.init, ⟨300000, 0, 3, true⟩, ⟨3, 0⟩⟩]) ⟨3, 0⟩ :=
    .snoc .nil ⟨by decide, by decide +kernel, by decide +kernel⟩
  exact ⟨⟨3, 0⟩, hpath, ((ladder _ _ hpath).2.1 _ (List.mem_singleton_self _)).1⟩

end Lookout.Ladder

import Lookout.Effects
import Mathlib.Algebra.BigOperators.Fin
import Mathlib.Data.List.Basic

/-!
Runs of a transition system, and the system several programs make when they take turns.

A run keeps its transitions, each with the state before and the state after, so that a
property of every step and a property of every state reached are both read off it.
-/

namespace Lookout.Runs

open Lookout.Effects

variable {σ ε : Type}

/-- One transition of a run. -/
structure Trans (σ ε : Type) where
  pre : σ
  ev : ε
  post : σ

inductive Path (step : σ → ε → σ → Prop) (s : σ) : List (Trans σ ε) → σ → Prop
  | nil : Path step s [] s
  | snoc {tr : List (Trans σ ε)} {t u : σ} {e : ε} (h : Path step s tr t) (he : step t e u) :
      Path step s (tr ++ [⟨t, e, u⟩]) u

variable {step : σ → ε → σ → Prop} {s t u : σ} {tr tr' : List (Trans σ ε)}

lemma Path.append (h : Path step s tr t) (h' : Path step t tr' u) :
    Path step s (tr ++ tr') u := by
  induction h' with
  | nil => simpa using h
  | snoc _ he ih => rw [← List.append_assoc]; exact .snoc ih he

lemma Path.cons {e : ε} (he : step s e t) (h : Path step t tr u) :
    Path step s (⟨s, e, t⟩ :: tr) u := by
  have h1 : Path step s [⟨s, e, t⟩] t := .snoc .nil he
  exact h1.append h

lemma Path.step_of_mem (h : Path step s tr t) {x : Trans σ ε} (hx : x ∈ tr) :
    step x.pre x.ev x.post := by
  induction h with
  | nil => simp at hx
  | snoc _ he ih =>
    rcases List.mem_append.mp hx with hx | hx
    · exact ih hx
    · rw [List.mem_singleton] at hx; subst hx; exact he

/-- **The invariant rule.** What holds at the start and is kept by every transition holds at
the end. -/
theorem Path.inv (I : σ → Prop) (hI : ∀ s e t, step s e t → I s → I t) (h : Path step s tr t)
    (hs : I s) : I t := by
  induction h with
  | nil => exact hs
  | snoc _ he ih => exact hI _ _ _ he ih

/-- The invariant holds before every transition too. -/
lemma Path.inv_pre (I : σ → Prop) (hI : ∀ s e t, step s e t → I s → I t) (h : Path step s tr t)
    (hs : I s) {x : Trans σ ε} (hx : x ∈ tr) : I x.pre := by
  induction h with
  | nil => simp at hx
  | snoc h he ih =>
    rcases List.mem_append.mp hx with hx | hx
    · exact ih hx
    · rw [List.mem_singleton] at hx; subst hx; exact h.inv I hI hs

/-- A run all of whose transitions have `P` is a run of the smaller system. -/
lemma Path.strengthen {P : σ → ε → σ → Prop} (h : Path step s tr t)
    (hP : ∀ x ∈ tr, P x.pre x.ev x.post) :
    Path (fun s e t => step s e t ∧ P s e t) s tr t := by
  induction h with
  | nil => exact .nil
  | snoc _ he ih =>
    exact .snoc (ih fun x hx => hP x (List.mem_append_left _ hx))
      ⟨he, hP _ (List.mem_append_right _ (List.mem_singleton_self _))⟩

lemma Path.mono {step' : σ → ε → σ → Prop} (h : Path step s tr t)
    (hsub : ∀ s e t, step s e t → step' s e t) : Path step' s tr t := by
  induction h with
  | nil => exact .nil
  | snoc _ he ih => exact .snoc ih (hsub _ _ _ he)

/-- The invariant holds after every transition. -/
lemma Path.inv_post (I : σ → Prop) (hI : ∀ s e t, step s e t → I s → I t)
    (h : Path step s tr t) (hs : I s) {x : Trans σ ε} (hx : x ∈ tr) : I x.post :=
  hI _ _ _ (h.step_of_mem hx) (h.inv_pre I hI hs hx)

lemma Path.eq_of_nil (h : Path step s [] t) : t = s := by
  generalize hl : ([] : List (Trans σ ε)) = l at h
  cases h with
  | nil => rfl
  | snoc _ _ => simp at hl

lemma Path.uncons {x : Trans σ ε} (h : Path step s (x :: tr) t) :
    x.pre = s ∧ step s x.ev x.post ∧ Path step x.post tr t := by
  generalize hl : x :: tr = l at h
  induction h generalizing tr with
  | nil => cases hl
  | @snoc l u v e h he ih =>
    cases l with
    | nil =>
      obtain rfl := h.eq_of_nil
      cases hl
      exact ⟨rfl, he, .nil⟩
    | cons y l =>
      obtain ⟨rfl, rfl⟩ := List.cons.inj hl
      obtain ⟨h1, h2, h3⟩ := ih rfl
      exact ⟨h1, h2, .snoc h3 he⟩

/-- A run is cut anywhere. -/
lemma Path.cut (h : Path step s (tr ++ tr') t) :
    ∃ m, Path step s tr m ∧ Path step m tr' t := by
  induction tr generalizing s with
  | nil => exact ⟨s, .nil, h⟩
  | cons x tr ih =>
    obtain ⟨rfl, hx, hrest⟩ := Path.uncons h
    obtain ⟨m, h1, h2⟩ := ih hrest
    exact ⟨m, .cons hx h1, h2⟩

/-- A run is cut at any of its transitions. -/
lemma Path.split (h : Path step s tr t) {x : Trans σ ε} (hx : x ∈ tr) :
    ∃ tr1 tr2, tr = tr1 ++ x :: tr2 ∧ Path step s tr1 x.pre ∧ step x.pre x.ev x.post ∧
      Path step x.post tr2 t := by
  obtain ⟨tr1, tr2, rfl⟩ := List.append_of_mem hx
  obtain ⟨m, h1, h2⟩ := h.cut
  obtain ⟨rfl, hstep, h3⟩ := h2.uncons
  exact ⟨tr1, tr2, rfl, h1, hstep, h3⟩

/-- At every point of the run, `P` holds of the transitions so far and the state reached. -/
def Throughout (step : σ → ε → σ → Prop) (s : σ) (tr : List (Trans σ ε)) (t : σ)
    (P : List (Trans σ ε) → σ → Prop) : Prop :=
  ∀ tr1 tr2 m, tr = tr1 ++ tr2 → Path step s tr1 m → Path step m tr2 t → P tr1 m

/-- The induction along a run: `P` at the start, and from each point to the next. -/
theorem throughout_of_step {P : List (Trans σ ε) → σ → Prop} (h0 : P [] s)
    (hP : ∀ tr1 m e m', P tr1 m → step m e m' → (⟨m, e, m'⟩ : Trans σ ε) ∈ tr →
      P (tr1 ++ [⟨m, e, m'⟩]) m') : Throughout step s tr t P := by
  intro tr1 tr2 m htr h1 h2
  have hsub : ∀ x ∈ tr1, x ∈ tr := fun x hx => htr ▸ List.mem_append_left _ hx
  clear htr h2
  induction h1 with
  | nil => exact h0
  | @snoc tr1 m u e _ he ih =>
    have hx : (⟨m, e, u⟩ : Trans σ ε) ∈ tr1 ++ [⟨m, e, u⟩] := by simp
    exact hP _ _ _ _ (ih fun x hx => hsub x (List.mem_append_left _ hx)) he (hsub _ hx)

lemma Throughout.last {P : List (Trans σ ε) → σ → Prop} (hP : Throughout step s tr t P)
    (h : Path step s tr t) : P tr t :=
  hP tr [] t (List.append_nil tr).symm h .nil

/-! ### Programs taking turns -/

variable {S : Sig} {α ι : Type} [DecidableEq ι]

/-- One turn: a program of the pool that has not returned performs its next operation, on its
own machine. -/
def turn (R : ι → Machine S σ) (c : σ × (ι → Prog S α)) (e : ι × Event S)
    (c' : σ × (ι → Prog S α)) : Prop :=
  ∃ k, c.2 e.1 = .call e.2.1 k ∧ R e.1 c.1 e.2.1 e.2.2 c'.1 ∧
    c'.2 = Function.update c.2 e.1 (k e.2.2)

abbrev Pool (S : Sig) (σ α ι : Type) := σ × (ι → Prog S α)

/-- The transitions of a run of the pool. -/
abbrev Turns (S : Sig) (σ α ι : Type) := List (Trans (Pool S σ α ι) (ι × Event S))

/-- What program `i` did in a run of the pool. -/
def own (i : ι) (tr : Turns S σ α ι) : List (Event S) :=
  tr.filterMap fun x => if x.ev.1 = i then some x.ev.2 else none

lemma own_snoc (i : ι) (tr : Turns S σ α ι)
    (x : Trans (Pool S σ α ι) (ι × Event S)) :
    own i (tr ++ [x]) = own i tr ++ if x.ev.1 = i then [x.ev.2] else [] := by
  unfold own
  rw [List.filterMap_append]
  by_cases h : x.ev.1 = i <;> simp [h]

/-- Whatever the others do, each program of the pool follows its own text. -/
theorem own_trace {R : ι → Machine S σ} {c c' : Pool S σ α ι}
    {tr : Turns S σ α ι} (h : Path (turn R) c tr c') (i : ι) :
    Prog.Trace (c.2 i) (own i tr) (c'.2 i) := by
  induction h with
  | nil => exact .nil _
  | @snoc tr t u e _ he ih =>
    obtain ⟨k, hk, -, hu⟩ := he
    rw [own_snoc, hu]
    by_cases hi : e.1 = i
    · subst hi
      simpa using ih.snoc (b := e.2.2) hk
    · simpa [hi, Function.update_of_ne (Ne.symm hi)] using ih

lemma mem_own {i : ι} {tr : Turns S σ α ι} {e : Event S} :
    e ∈ own i tr ↔ ∃ x ∈ tr, x.ev = (i, e) := by
  simp only [own, List.mem_filterMap]
  constructor
  · rintro ⟨x, hx, he⟩
    split_ifs at he with hi
    cases he
    exact ⟨x, hx, Prod.ext hi rfl⟩
  · rintro ⟨x, hx, he⟩
    exact ⟨x, hx, by simp [he]⟩

/-- **What a run adds up to.** A quantity that each event changes by its own amount, and nothing
else changes, has grown by what the programs of the pool have each added. -/
theorem path_gains [Fintype ι] {R : ι → Machine S σ} {V : σ → ℕ} {f : Event S → ℕ}
    {c c' : Pool S σ α ι} {tr : Turns S σ α ι} (h : Path (turn R) c tr c')
    (hV : ∀ x ∈ tr, V x.post.1 = V x.pre.1 + f x.ev.2) :
    V c'.1 = V c.1 + ∑ i, ((own i tr).map f).sum := by
  induction h with
  | nil => simp [own]
  | @snoc tr t u e _ he ih =>
    have hlast : V u.1 = V t.1 + f e.2 := hV ⟨t, e, u⟩ (by simp)
    have hown : ∀ i, ((own i (tr ++ [⟨t, e, u⟩])).map f).sum =
        ((own i tr).map f).sum + if e.1 = i then f e.2 else 0 := by
      intro i
      rw [own_snoc, List.map_append, List.sum_append]
      by_cases hi : e.1 = i <;> simp [hi]
    rw [hlast, ih fun x hx => hV x (List.mem_append_left _ hx)]
    simp only [hown, Finset.sum_add_distrib, Finset.sum_ite_eq, Finset.mem_univ, if_true]
    omega

/-- **Rely and guarantee.** Every program performs only operations with `G` as long as its
answers have `A`; as long as the operations have `G`, the machines answer with `A` and keep
`I`. Then both hold all along the run. -/
theorem rely {R : ι → Machine S σ} {A : Event S → Prop} {G : S.Op → Prop} {I : σ → Prop}
    {c c' : Pool S σ α ι} {tr : Turns S σ α ι} (h : Path (turn R) c tr c')
    (hR : ∀ x ∈ tr, ∀ b t, I x.pre.1 → G x.ev.2.1 → R x.ev.1 x.pre.1 x.ev.2.1 b t →
      A ⟨x.ev.2.1, b⟩ ∧ I t)
    (hI : I c.1) (hp : ∀ i, (c.2 i).Under A G) :
    I c'.1 ∧ (∀ i, (c'.2 i).Under A G) ∧ ∀ x ∈ tr, A x.ev.2 ∧ I x.pre.1 := by
  induction h with
  | nil => exact ⟨hI, hp, nofun⟩
  | @snoc tr t u e _ he ih =>
    obtain ⟨hIt, hpt, hall⟩ := ih fun x hx => hR x (List.mem_append_left _ hx)
    obtain ⟨k, hk, hstep, hu⟩ := he
    have hown := hpt e.1
    rw [hk] at hown
    obtain ⟨hA, hIu⟩ := hR ⟨t, e, u⟩ (by simp) e.2.2 u.1 hIt hown.1 hstep
    refine ⟨hIu, fun i => ?_, fun x hx => ?_⟩
    · rw [hu]
      by_cases hi : i = e.1
      · subst hi
        rw [Function.update_self]
        exact hown.2 _ hA
      · rw [Function.update_of_ne hi]
        exact hpt i
    · rcases List.mem_append.mp hx with hx | hx
      · exact hall x hx
      · rw [List.mem_singleton] at hx
        subst hx
        exact ⟨hA, hIt⟩

/-! ### One program among the others -/

/-- The machine of program `i` as a run shows it: an operation is one of its turns, and what the
others did before it is in `E`. -/
def amid (tr : Turns S σ α ι) (E : σ → σ → Prop) (i : ι) : Machine S σ :=
  fun s o b t => ∃ x ∈ tr, x.ev = (i, ⟨o, b⟩) ∧ E s x.pre.1 ∧ x.post.1 = t

omit [DecidableEq ι] in
/-- More may have been done before the first operation. -/
lemma exec_later {tr : Turns S σ α ι} {E : σ → σ → Prop}
    (htrans : ∀ s t u, E s t → E t u → E s u) {i : ι} {p : Prog S α} {a : α} {s t u : σ}
    (hs : E s t) (h : Prog.Exec (amid tr E i) t p a u) :
    ∃ v, Prog.Exec (amid tr E i) s p a v ∧ (v = u ∨ E v u) := by
  cases h with
  | ret => exact ⟨s, .ret s a, Or.inr hs⟩
  | call hop hk =>
    obtain ⟨x, hx, hev, hpre, hpost⟩ := hop
    exact ⟨u, .call ⟨x, hx, hev, htrans _ _ _ hs hpre, hpost⟩ hk, Or.inl rfl⟩

/-- **The others are an environment.** When their turns are in a preorder `E`, a program of the pool
that has returned is one that has run among changes in `E`, and its operations are its turns. -/
theorem exec_of_path {R : ι → Machine S σ} {E : σ → σ → Prop} (hrefl : ∀ s, E s s)
    (htrans : ∀ s t u, E s t → E t u → E s u) {c c' : Pool S σ α ι} {tr : Turns S σ α ι} {i : ι}
    {a : α} (h : Path (turn R) c tr c') (hE : ∀ x ∈ tr, x.ev.1 ≠ i → E x.pre.1 x.post.1)
    (ha : c'.2 i = .ret a) : ∃ s, Prog.Exec (amid tr E i) c.1 (c.2 i) a s ∧ E s c'.1 := by
  suffices hall : ∀ l : Turns S σ α ι, (∀ x ∈ tr, x ∈ l) →
      ∃ s, Prog.Exec (amid l E i) c.1 (c.2 i) a s ∧ E s c'.1 from hall tr fun _ hx => hx
  intro l hl
  induction tr generalizing c with
  | nil =>
    obtain rfl := h.eq_of_nil
    rw [ha]
    exact ⟨_, .ret _ a, hrefl _⟩
  | cons x tr ih =>
    obtain ⟨rfl, ⟨k, hk, -, hu⟩, hrest⟩ := h.uncons
    obtain ⟨hx, hl⟩ := List.forall_mem_cons.mp hl
    obtain ⟨s, hexec, hs⟩ := ih hrest (fun y hy => hE y (List.mem_cons_of_mem _ hy)) hl
    by_cases hi : x.ev.1 = i
    · subst hi
      rw [hu, Function.update_self] at hexec
      rw [hk]
      exact ⟨s, .call ⟨x, hx, rfl, hrefl _, rfl⟩ hexec, hs⟩
    · rw [hu, Function.update_of_ne (Ne.symm hi)] at hexec
      obtain ⟨v, hv, rfl | hvs⟩ := exec_later htrans (hE x List.mem_cons_self hi) hexec
      · exact ⟨v, hv, hs⟩
      · exact ⟨v, hv, htrans _ _ _ hvs hs⟩

/-- The run in which the programs take turns in the order of `is`, alone on their machines. -/
def play (f : ι → σ → (o : S.Op) → S.Ans o × σ) :
    List ι → Pool S σ α ι → Turns S σ α ι × Pool S σ α ι
  | [], c => ([], c)
  | i :: is, c =>
    match c.2 i with
    | .ret _ => play f is c
    | .call o k =>
      let c' := ((f i c.1 o).2, Function.update c.2 i (k (f i c.1 o).1))
      let r := play f is c'
      (⟨c, (i, ⟨o, (f i c.1 o).1⟩), c'⟩ :: r.1, r.2)

/-- What is played is a run. -/
theorem path_play {E : σ → σ → Prop} (hE : ∀ s, E s s)
    (f : ι → σ → (o : S.Op) → S.Ans o × σ) (is : List ι) (c : Pool S σ α ι) :
    Path (turn fun i => Prog.among E (f i)) c (play f is c).1 (play f is c).2 := by
  induction is generalizing c with
  | nil => exact .nil
  | cons i is ih =>
    unfold play
    split
    · exact ih c
    · next o k hk => exact .cons ⟨k, hk, ⟨c.1, hE _, rfl⟩, rfl⟩ (ih _)

end Lookout.Runs

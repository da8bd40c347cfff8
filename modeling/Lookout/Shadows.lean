import Lookout.Effects

/-!
Programs that do the same but for some operations.

One program shadows another when each can come to the same result as the other on the same
answers, the first with some operations more that the second does without. What a program does
in two modes, one of which leaves out a part of the work, is compared so.
-/

namespace Lookout.Shadows

open Lookout.Effects Lookout.Effects.Prog

variable {S : Sig} {P : S.Op → Prop} {l l' l1 l1' l2 l2' : List (Event S)}

/-- `l'` is `l` without some of its operations with `P`. -/
inductive Skips (P : S.Op → Prop) : List (Event S) → List (Event S) → Prop
  | nil : Skips P [] []
  | keep (e : Event S) {l l' : List (Event S)} (h : Skips P l l') : Skips P (e :: l) (e :: l')
  | skip {e : Event S} (he : P e.1) {l l' : List (Event S)} (h : Skips P l l') :
    Skips P (e :: l) l'

namespace Skips

lemma refl (l : List (Event S)) : Skips P l l := by
  induction l with
  | nil => exact .nil
  | cons e l ih => exact .keep e ih

lemma append (h1 : Skips P l1 l1') (h2 : Skips P l2 l2') : Skips P (l1 ++ l2) (l1' ++ l2') := by
  induction h1 with
  | nil => exact h2
  | keep e _ ih => exact .keep e ih
  | skip he _ ih => exact .skip he ih

lemma all (h : ∀ e ∈ l, P e.1) : Skips P l [] := by
  induction l with
  | nil => exact .nil
  | cons e l ih =>
    obtain ⟨he, hl⟩ := List.forall_mem_cons.mp h
    exact .skip he (ih hl)

end Skips

variable {ε δ α β γ : Type}

/-- Whatever `p` comes to on some answers, `p'` can come to on those of them that are left when
operations with `P` are left out, and the other way round. -/
structure Shadow (P : S.Op → Prop) (R : α → β → Prop) (p : Exc S ε α) (p' : Exc S δ β) : Prop where
  fewer : ∀ l a, Trace p l (.ret (.ok a)) →
    ∃ l' b, Skips P l l' ∧ Trace p' l' (.ret (.ok b)) ∧ R a b
  more : ∀ l' b, Trace p' l' (.ret (.ok b)) →
    ∃ l a, Skips P l l' ∧ Trace p l (.ret (.ok a)) ∧ R a b

/-- What a part returns goes on to the rest. -/
lemma trace_bind {p : Prog S α} {f : α → Prog S β} {a : α} {q : Prog S β}
    (h1 : Trace p l1 (.ret a)) (h2 : Trace (f a) l2 q) : Trace (p >>= f) (l1 ++ l2) q := by
  induction p generalizing l1 with
  | ret b =>
    obtain ⟨rfl, hb⟩ := trace_ret.mp h1
    cases hb
    exact h2
  | call o k ih =>
    obtain ⟨b, l, rfl, hk⟩ := trace_call_ret.mp h1
    exact .cons (ih b hk)

lemma trace_bind_ok {p : Exc S ε α} {f : α → Exc S ε β} {a : α} {r : Except ε β}
    (h1 : Trace p l1 (.ret (.ok a))) (h2 : Trace (f a) l2 (.ret r)) :
    Trace (p >>= f : Exc S ε β) (l1 ++ l2) (.ret r) := by
  refine trace_bind (a := Except.ok a) h1 ?_
  exact h2

lemma trace_bind_ok_inv {p : Exc S ε α} {f : α → Exc S ε β} {b : β}
    (h : Trace (p >>= f : Exc S ε β) l (.ret (.ok b))) :
    ∃ a l1 l2, l = l1 ++ l2 ∧ Trace p l1 (.ret (.ok a)) ∧ Trace (f a) l2 (.ret (.ok b)) := by
  rcases Exc.trace_bind_inv h with h | ⟨e, he, -⟩
  · exact h
  · cases he

/-- `p` can return a value. -/
def Returns (p : Exc S ε α) : Prop := ∃ l a, Trace p l (.ret (.ok a))

lemma returns_lift {p : Prog S α} (h : ∃ l a, Trace p l (.ret a)) :
    Returns (liftM p : Exc S ε α) := by
  obtain ⟨l, a, ht⟩ := h
  exact ⟨l ++ [], a, trace_bind ht (.nil _)⟩

lemma lift_bind (p : Prog S γ) (f : γ → Prog S α) :
    (liftM (p >>= f) : Exc S ε α) = (liftM p >>= fun c => liftM (f c) : Exc S ε α) := by
  induction p with
  | ret c => rfl
  | call o k ih => exact congrArg (Prog.call o) (funext ih)

namespace Shadow

variable {R : α → β → Prop}

lemma pure {a : α} {b : β} (h : R a b) :
    Shadow P R (Pure.pure a : Exc S ε α) (Pure.pure b : Exc S δ β) where
  fewer l a' ht := by
    obtain ⟨rfl, ha⟩ := trace_ret.mp ht
    cases ha
    exact ⟨[], b, .nil, .nil _, h⟩
  more l b' ht := by
    obtain ⟨rfl, hb⟩ := trace_ret.mp ht
    cases hb
    exact ⟨[], a, .nil, .nil _, h⟩

lemma refl (p : Exc S ε α) : Shadow P Eq p p where
  fewer l a ht := ⟨l, a, .refl l, ht, rfl⟩
  more l a ht := ⟨l, a, .refl l, ht, rfl⟩

/-- Two programs that raise have come to nothing. -/
lemma raise (e : ε) (e' : δ) : Shadow P R (Exc.raise e) (Exc.raise e') where
  fewer l a ht := by
    obtain ⟨-, ha⟩ := trace_ret.mp ht
    cases ha
  more l a ht := by
    obtain ⟨-, ha⟩ := trace_ret.mp ht
    cases ha

variable {α' β' : Type} {Q : α' → β' → Prop}

lemma bind {p : Exc S ε α} {p' : Exc S δ β} {f : α → Exc S ε α'} {f' : β → Exc S δ β'}
    (h : Shadow P R p p') (hf : ∀ a b, R a b → Shadow P Q (f a) (f' b)) :
    Shadow P Q (p >>= f : Exc S ε α') (p' >>= f' : Exc S δ β') where
  fewer l a ht := by
    obtain ⟨a1, l1, l2, rfl, h1, h2⟩ := trace_bind_ok_inv ht
    obtain ⟨l1', b1, hs1, h1', hr⟩ := h.fewer l1 a1 h1
    obtain ⟨l2', b2, hs2, h2', hq⟩ := (hf a1 b1 hr).fewer l2 a h2
    exact ⟨l1' ++ l2', b2, hs1.append hs2, trace_bind_ok h1' h2', hq⟩
  more l b ht := by
    obtain ⟨b1, l1, l2, rfl, h1, h2⟩ := trace_bind_ok_inv ht
    obtain ⟨l1', a1, hs1, h1', hr⟩ := h.more l1 b1 h1
    obtain ⟨l2', a2, hs2, h2', hq⟩ := (hf a1 b1 hr).more l2 b h2
    exact ⟨l1' ++ l2', a2, hs1.append hs2, trace_bind_ok h1' h2', hq⟩

/-- Both ask the same. -/
lemma same {p : Prog S γ} {f : γ → Exc S ε α'} {f' : γ → Exc S δ β'}
    (hf : ∀ c, Shadow P Q (f c) (f' c)) :
    Shadow P Q (liftM p >>= f : Exc S ε α') (liftM p >>= f' : Exc S δ β') where
  fewer l a ht := by
    obtain ⟨c, l1, l2, rfl, h1, h2⟩ := Exc.trace_lift_bind_inv ht
    obtain ⟨l2', b, hs, h2', hq⟩ := (hf c).fewer l2 a h2
    refine ⟨l1 ++ l2', b, (Skips.refl l1).append hs, ?_, hq⟩
    have hlift : Trace (liftM p : Exc S δ γ) (l1 ++ []) (.ret (.ok c)) := trace_bind h1 (.nil _)
    rw [List.append_nil] at hlift
    exact trace_bind_ok hlift h2'
  more l b ht := by
    obtain ⟨c, l1, l2, rfl, h1, h2⟩ := Exc.trace_lift_bind_inv ht
    obtain ⟨l2', a, hs, h2', hq⟩ := (hf c).more l2 b h2
    refine ⟨l1 ++ l2', a, (Skips.refl l1).append hs, ?_, hq⟩
    have hlift : Trace (liftM p : Exc S ε γ) (l1 ++ []) (.ret (.ok c)) := trace_bind h1 (.nil _)
    rw [List.append_nil] at hlift
    exact trace_bind_ok hlift h2'

/-- A part that only does what may be left out, and can return, is left out. -/
lemma skip {p : Exc S ε γ} {f : γ → Exc S ε α'} {p' : Exc S δ β'} (hp : Uses P p)
    (hr : Returns p) (hf : ∀ c, Shadow P Q (f c) p') :
    Shadow P Q (p >>= f : Exc S ε α') p' where
  fewer l a ht := by
    obtain ⟨c, l1, l2, rfl, h1, h2⟩ := trace_bind_ok_inv ht
    obtain ⟨l2', b, hs, h2', hq⟩ := (hf c).fewer l2 a h2
    have hall : ∀ e ∈ l1, P e.1 := h1.under (A := fun _ => True) hp.under fun _ _ => trivial
    exact ⟨l2', b, (Skips.all hall).append hs, h2', hq⟩
  more l b ht := by
    obtain ⟨l1, c, h1⟩ := hr
    obtain ⟨l2, a, hs, h2, hq⟩ := (hf c).more l b ht
    have hall : ∀ e ∈ l1, P e.1 := h1.under (A := fun _ => True) hp.under fun _ _ => trivial
    exact ⟨l1 ++ l2, a, (Skips.all hall).append hs, trace_bind_ok h1 h2, hq⟩

/-- The errors may be told differently. -/
lemma rethrow {ε' δ' : Type} {p : Exc S ε α} {p' : Exc S δ β} (f : ε → ε') (g : δ → δ')
    (h : Shadow P R p p') : Shadow P R (Exc.rethrow f p) (Exc.rethrow g p') where
  fewer l a ht := by
    obtain ⟨r, hr, h1⟩ := Exc.trace_rethrow_inv ht
    cases r with
    | error e => cases hr
    | ok a' =>
      cases hr
      obtain ⟨l', b, hs, h1', hq⟩ := h.fewer l a h1
      refine ⟨l', b, hs, ?_, hq⟩
      rw [← List.append_nil l']
      exact trace_bind h1' (.nil _)
  more l b ht := by
    obtain ⟨r, hr, h1⟩ := Exc.trace_rethrow_inv ht
    cases r with
    | error e => cases hr
    | ok b' =>
      cases hr
      obtain ⟨l', a, hs, h1', hq⟩ := h.more l b h1
      refine ⟨l', a, hs, ?_, hq⟩
      rw [← List.append_nil l']
      exact trace_bind h1' (.nil _)

end Shadow

end Lookout.Shadows

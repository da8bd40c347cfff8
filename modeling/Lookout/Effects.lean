import Mathlib.Logic.Function.Basic
import Mathlib.Tactic.Common

/-!
Programs over a signature of operations, and what their executions do.

A program is a tree: it either returns, or performs one operation and goes on with the
answer. What an operation does to the state is not part of the program; it is given by a
machine, which may be nondeterministic.
-/

namespace Lookout.Effects

/-- The operations a program may perform, with the type of each one's answer. -/
structure Sig where
  Op : Type
  Ans : Op → Type

inductive Prog (S : Sig) (α : Type)
  | ret (a : α)
  | call (o : S.Op) (k : S.Ans o → Prog S α)

/-- An operation with the answer it got. -/
abbrev Event (S : Sig) := (o : S.Op) × S.Ans o

/-- What one operation can do: the state before, the answer, the state after. -/
abbrev Machine (S : Sig) (σ : Type) := σ → (o : S.Op) → S.Ans o → σ → Prop

variable {S : Sig} {σ α β : Type}

namespace Prog

def bind : Prog S α → (α → Prog S β) → Prog S β
  | .ret a, f => f a
  | .call o k, f => .call o fun b => (k b).bind f

instance : Monad (Prog S) where
  pure := .ret
  bind := bind

/-- The program that performs one operation and returns its answer. -/
def op (o : S.Op) : Prog S (S.Ans o) := .call o .ret

@[simp] lemma pure_eq (a : α) : (pure a : Prog S α) = .ret a := rfl
@[simp] lemma ret_bind (a : α) (f : α → Prog S β) : (Prog.ret a >>= f) = f a := rfl
@[simp] lemma call_bind (o : S.Op) (k : S.Ans o → Prog S α) (f : α → Prog S β) :
    (Prog.call o k >>= f) = .call o fun b => k b >>= f := rfl
@[simp] lemma op_eq (o : S.Op) : (op o : Prog S (S.Ans o)) = .call o .ret := rfl

lemma bind_bind {γ : Type} (p : Prog S α) (f : α → Prog S β) (g : β → Prog S γ) :
    (p >>= f >>= g) = p >>= fun a => f a >>= g := by
  induction p with
  | ret a => rfl
  | call o k ih => exact congrArg (Prog.call o) (funext ih)

/-- What a program that has come to its end returns. -/
def result : Prog S α → Option α
  | .ret a => some a
  | .call .. => none

lemma result_eq_some {p : Prog S α} {a : α} : p.result = some a ↔ p = .ret a := by
  cases p <;> simp [result]

/-! ### Executions -/

/-- `p` started in `s` can return `a` in the state `t`. -/
inductive Exec (R : Machine S σ) : σ → Prog S α → α → σ → Prop
  | ret (s : σ) (a : α) : Exec R s (.ret a) a s
  | call {s t u : σ} {o : S.Op} {b : S.Ans o} {k : S.Ans o → Prog S α} {a : α}
      (hop : R s o b t) (hk : Exec R t (k b) a u) : Exec R s (.call o k) a u

/-- Every execution of `p` from `s` ends in a result and a state with `Q`. -/
def wp (R : Machine S σ) : Prog S α → (α → σ → Prop) → σ → Prop
  | .ret a, Q, s => Q a s
  | .call o k, Q, s => ∀ b t, R s o b t → wp R (k b) Q t

variable {R : Machine S σ}

@[simp] lemma wp_ret (a : α) (Q : α → σ → Prop) (s : σ) : wp R (.ret a) Q s ↔ Q a s := Iff.rfl

lemma wp_call (o : S.Op) (k : S.Ans o → Prog S α) (Q : α → σ → Prop) (s : σ) :
    wp R (.call o k) Q s ↔ ∀ b t, R s o b t → wp R (k b) Q t := Iff.rfl

lemma wp_mono {p : Prog S α} {Q Q' : α → σ → Prop} {s : σ} (h : wp R p Q s)
    (hQ : ∀ a t, Q a t → Q' a t) : wp R p Q' s := by
  induction p generalizing s with
  | ret a => exact hQ _ _ h
  | call o k ih => exact fun b t hop => ih b (h b t hop)

lemma wp_bind (p : Prog S α) (f : α → Prog S β) (Q : β → σ → Prop) (s : σ) :
    wp R (p >>= f) Q s ↔ wp R p (fun a t => wp R (f a) Q t) s := by
  induction p generalizing s with
  | ret a => rfl
  | call o k ih =>
    rw [call_bind, wp_call, wp_call]
    exact forall_congr' fun b => forall_congr' fun t => imp_congr_right fun _ => ih b t

lemma wp_op_bind (o : S.Op) (k : S.Ans o → Prog S α) (Q : α → σ → Prop) (s : σ) :
    wp R (op o >>= k) Q s ↔ ∀ b t, R s o b t → wp R (k b) Q t := Iff.rfl

/-- The rule is sound and complete: it speaks of exactly the executions. -/
theorem wp_iff (p : Prog S α) (Q : α → σ → Prop) (s : σ) :
    wp R p Q s ↔ ∀ a t, Exec R s p a t → Q a t := by
  constructor
  · intro h a t hx
    induction hx with
    | ret => exact h
    | call hop _ ih => exact ih (h _ _ hop)
  · induction p generalizing s with
    | ret a => exact fun h => h a s (.ret s a)
    | call o k ih => exact fun h b t hop => ih b t fun a u hx => h a u (.call hop hx)

lemma Exec.wp {p : Prog S α} {Q : α → σ → Prop} {s t : σ} {a : α} (hx : Exec R s p a t)
    (h : wp R p Q s) : Q a t :=
  (wp_iff p Q s).mp h a t hx

/-- On a machine that always answers, a program has an execution. -/
lemma exec_total (hR : ∀ s o, ∃ b t, R s o b t) (p : Prog S α) (s : σ) :
    ∃ a t, Exec R s p a t := by
  induction p generalizing s with
  | ret a => exact ⟨a, s, .ret s a⟩
  | call o k ih =>
    obtain ⟨b, t, hop⟩ := hR s o
    obtain ⟨a, u, hx⟩ := ih b t
    exact ⟨a, u, .call hop hx⟩

/-- Every execution of `p` from `s` returns `a`, and there is one. -/
def Ends (R : Machine S σ) (s : σ) (p : Prog S α) (a : α) : Prop :=
  (∃ t, Exec R s p a t) ∧ ∀ b t, Exec R s p b t → b = a

lemma ends_of_wp (hR : ∀ s o, ∃ b t, R s o b t) {p : Prog S α} {a : α} {s : σ}
    (h : wp R p (fun b _ => b = a) s) : Ends R s p a := by
  have hall : ∀ b t, Exec R s p b t → b = a := (wp_iff p _ s).mp h
  obtain ⟨b, t, hx⟩ := exec_total hR p s
  have hb := hall b t hx
  subst hb
  exact ⟨⟨t, hx⟩, hall⟩

/-! ### Executions, taken apart -/

lemma exec_ret {a b : α} {s t : σ} : Exec R s (.ret a : Prog S α) b t ↔ b = a ∧ t = s := by
  constructor
  · rintro ⟨⟩
    exact ⟨rfl, rfl⟩
  · rintro ⟨rfl, rfl⟩
    exact .ret _ _

lemma exec_call {o : S.Op} {k : S.Ans o → Prog S α} {a : α} {s u : σ} :
    Exec R s (.call o k) a u ↔ ∃ b t, R s o b t ∧ Exec R t (k b) a u := by
  constructor
  · rintro ⟨⟩
    exact ⟨_, _, ‹_›, ‹_›⟩
  · rintro ⟨b, t, hop, hk⟩
    exact .call hop hk

lemma exec_op_bind {o : S.Op} {k : S.Ans o → Prog S α} {a : α} {s u : σ} :
    Exec R s (op o >>= k) a u ↔ ∃ b t, R s o b t ∧ Exec R t (k b) a u := exec_call

lemma Exec.bind_inv {p : Prog S α} {f : α → Prog S β} {s u : σ} {b : β}
    (h : Exec R s (p >>= f) b u) : ∃ a t, Exec R s p a t ∧ Exec R t (f a) b u := by
  induction p generalizing s with
  | ret a => exact ⟨a, s, .ret s a, h⟩
  | call o k ih =>
    obtain ⟨c, t, hop, hk⟩ := exec_call.mp h
    obtain ⟨a, t', hp, hf⟩ := ih c hk
    exact ⟨a, t', .call hop hp, hf⟩

/-- **Simulation.** A rule on one machine holds of every machine it simulates. -/
theorem wp_sim {τ : Type} {T : Machine S τ} {sim : σ → τ → Prop}
    (hsim : ∀ s t o b s', sim s t → R s o b s' → ∃ t', T t o b t' ∧ sim s' t') {p : Prog S α}
    {Q : α → τ → Prop} {s : σ} {t : τ} (hs : sim s t) (h : wp T p Q t) :
    wp R p (fun a s' => ∃ t', sim s' t' ∧ Q a t') s := by
  induction p generalizing s t with
  | ret a => exact ⟨t, hs, h⟩
  | call o k ih =>
    intro b s' hop
    obtain ⟨t', hT, hs'⟩ := hsim s t o b s' hs hop
    exact ih b hs' (h b t' hT)

/-! ### Traces -/

/-- Performing the operations of `l` and getting its answers takes `p` to `q`. -/
inductive Trace : Prog S α → List (Event S) → Prog S α → Prop
  | nil (p : Prog S α) : Trace p [] p
  | cons {o : S.Op} {b : S.Ans o} {k : S.Ans o → Prog S α} {l : List (Event S)} {q : Prog S α}
      (h : Trace (k b) l q) : Trace (.call o k) (⟨o, b⟩ :: l) q

lemma trace_ret {a : α} {l : List (Event S)} {q : Prog S α} :
    Trace (.ret a) l q ↔ l = [] ∧ q = .ret a := by
  constructor
  · rintro (_ | _)
    exact ⟨rfl, rfl⟩
  · rintro ⟨rfl, rfl⟩
    exact .nil _

lemma trace_call {o : S.Op} {k : S.Ans o → Prog S α} {l : List (Event S)} {q : Prog S α} :
    Trace (.call o k) l q ↔
      l = [] ∧ q = .call o k ∨ ∃ b l', l = ⟨o, b⟩ :: l' ∧ Trace (k b) l' q := by
  constructor
  · rintro (_ | h)
    · exact Or.inl ⟨rfl, rfl⟩
    · exact Or.inr ⟨_, _, rfl, h⟩
  · rintro (⟨rfl, rfl⟩ | ⟨b, l', rfl, h⟩)
    · exact .nil _
    · exact .cons h

/-- A trace that ends in a result has got past the first operation. -/
lemma trace_call_ret {o : S.Op} {k : S.Ans o → Prog S α} {l : List (Event S)} {a : α} :
    Trace (.call o k) l (.ret a) ↔ ∃ b l', l = ⟨o, b⟩ :: l' ∧ Trace (k b) l' (.ret a) := by
  rw [trace_call]
  constructor
  · rintro (⟨-, h⟩ | h)
    · cases h
    · exact h
  · exact Or.inr

lemma Trace.bind_inv {p : Prog S α} {f : α → Prog S β} {l : List (Event S)} {b : β}
    (h : Trace (p >>= f) l (.ret b)) :
    ∃ a l1 l2, l = l1 ++ l2 ∧ Trace p l1 (.ret a) ∧ Trace (f a) l2 (.ret b) := by
  induction p generalizing l with
  | ret a => exact ⟨a, [], l, rfl, .nil _, h⟩
  | call o k ih =>
    obtain ⟨c, l', rfl, hk⟩ := trace_call_ret.mp h
    obtain ⟨a, l1, l2, rfl, hp, hf⟩ := ih c hk
    exact ⟨a, ⟨o, c⟩ :: l1, l2, rfl, .cons hp, hf⟩

/-- Every execution has a trace. -/
lemma Exec.trace {p : Prog S α} {a : α} {s t : σ} (h : Exec R s p a t) :
    ∃ l, Trace p l (.ret a) := by
  induction h with
  | ret => exact ⟨[], .nil _⟩
  | call _ _ ih =>
    obtain ⟨l, hl⟩ := ih
    exact ⟨_, .cons hl⟩

lemma Trace.of_map {β : Type} {p : Prog S α} {g : α → β} {l : List (Event S)} {q : Prog S β}
    (h : Trace (p >>= fun a => .ret (g a)) l q) : ∃ q', Trace p l q' := by
  induction p generalizing l with
  | ret a =>
    obtain ⟨rfl, -⟩ := trace_ret.mp h
    exact ⟨_, .nil _⟩
  | call o k ih =>
    rcases trace_call.mp h with ⟨rfl, -⟩ | ⟨b, l', rfl, h'⟩
    · exact ⟨_, .nil _⟩
    · obtain ⟨q', hq⟩ := ih b h'
      exact ⟨q', .cons hq⟩

/-- The machine that may give any answer with `A`, and only keeps the books `g`. -/
def books {τ : Type} (g : τ → Event S → τ) (A : Event S → Prop) : Machine S τ :=
  fun t o b t' => A ⟨o, b⟩ ∧ t' = g t ⟨o, b⟩

@[simp] lemma wp_books_call {τ : Type} (g : τ → Event S → τ) (A : Event S → Prop) (o : S.Op)
    (k : S.Ans o → Prog S α) (Q : α → τ → Prop) (t : τ) :
    wp (books g A) (.call o k) Q t ↔ ∀ b, A ⟨o, b⟩ → wp (books g A) (k b) Q (g t ⟨o, b⟩) := by
  constructor
  · exact fun h b hA => h b _ ⟨hA, rfl⟩
  · rintro h b _ ⟨hA, rfl⟩
    exact h b hA

lemma Trace.append {p q r : Prog S α} {l l' : List (Event S)} (h : Trace p l q)
    (h' : Trace q l' r) : Trace p (l ++ l') r := by
  induction h with
  | nil => exact h'
  | cons _ ih => exact .cons (ih h')

/-- Where every operation has an answer with `A`, a program can be run to its end. -/
lemma Trace.complete {A : Event S → Prop} (hA : ∀ o, ∃ b, A ⟨o, b⟩) (p : Prog S α) :
    ∃ l a, Trace p l (.ret a) ∧ ∀ e ∈ l, A e := by
  induction p with
  | ret a => exact ⟨[], a, .nil _, nofun⟩
  | call o k ih =>
    obtain ⟨b, hb⟩ := hA o
    obtain ⟨l, a, hl, hall⟩ := ih b
    exact ⟨⟨o, b⟩ :: l, a, .cons hl, List.forall_mem_cons.mpr ⟨hb, hall⟩⟩

lemma Trace.snoc {p q : Prog S α} {l : List (Event S)} {o : S.Op} {b : S.Ans o}
    {k : S.Ans o → Prog S α} (h : Trace p l q) (hq : q = .call o k) :
    Trace p (l ++ [⟨o, b⟩]) (k b) := by
  induction h with
  | nil p => subst hq; exact .cons (.nil _)
  | cons _ ih => exact .cons (ih hq)

/-- What the rule says of the books holds of every trace that ends in a result. -/
lemma Trace.wp {τ : Type} {g : τ → Event S → τ} {A : Event S → Prop} {p : Prog S α}
    {l : List (Event S)} {a : α} {Q : α → τ → Prop} {t : τ} (h : Trace p l (.ret a))
    (hA : ∀ e ∈ l, A e) (hQ : Prog.wp (books g A) p Q t) : Q a (l.foldl g t) := by
  generalize hq : Prog.ret a = q at h
  induction h generalizing t with
  | nil p => subst hq; exact hQ
  | @cons o b k l q _ ih =>
    have hstep : books g A t o b (g t ⟨o, b⟩) := ⟨hA _ List.mem_cons_self, rfl⟩
    exact ih (fun e he => hA e (List.mem_cons_of_mem _ he)) (hQ b _ hstep) hq

/-! ### Programs confined to some operations -/

/-- Whatever the answers, `p` only ever performs operations with `P`. -/
def Uses (P : S.Op → Prop) : Prog S α → Prop
  | .ret _ => True
  | .call o k => P o ∧ ∀ b, Uses P (k b)

@[simp] lemma uses_ret (P : S.Op → Prop) (a : α) : Uses P (.ret a : Prog S α) ↔ True := Iff.rfl

@[simp] lemma uses_call (P : S.Op → Prop) (o : S.Op) (k : S.Ans o → Prog S α) :
    Uses P (.call o k) ↔ P o ∧ ∀ b, Uses P (k b) := Iff.rfl

lemma uses_op {P : S.Op → Prop} {o : S.Op} (h : P o) : Uses P (op o : Prog S (S.Ans o)) :=
  ⟨h, fun _ => trivial⟩

lemma uses_bind {P : S.Op → Prop} {p : Prog S α} {f : α → Prog S β} (hp : Uses P p)
    (hf : ∀ a, Uses P (f a)) : Uses P (p >>= f) := by
  induction p with
  | ret a => exact hf a
  | call o k ih => exact ⟨hp.1, fun b => ih b (hp.2 b)⟩

lemma Uses.mono {P P' : S.Op → Prop} {p : Prog S α} (hp : Uses P p) (h : ∀ o, P o → P' o) :
    Uses P' p := by
  induction p with
  | ret a => trivial
  | call o k ih => exact ⟨h o hp.1, fun b => ih b (hp.2 b)⟩

/-- **The frame rule**: what every operation of a program keeps, the program keeps. -/
theorem Uses.frame {P : S.Op → Prop} {p : Prog S α} (hp : Uses P p) (I : σ → Prop)
    (hI : ∀ s o b t, P o → R s o b t → I s → I t) {s : σ} (hs : I s) :
    Prog.wp R p (fun _ t => I t) s := by
  induction p generalizing s with
  | ret a => exact hs
  | call o k ih => exact fun b t hop => ih b (hp.2 b) (hI s o b t hp.1 hop hs)

lemma Uses.exec {P : S.Op → Prop} {p : Prog S α} (hp : Uses P p) {I : σ → Prop}
    (hI : ∀ s o b t, P o → R s o b t → I s → I t) {s t : σ} {a : α} (hx : Exec R s p a t)
    (hs : I s) : I t :=
  (wp_iff p _ s).mp (hp.frame I hI hs) a t hx

/-- Whatever the answers, `p` only performs operations with `P` and only returns a `Q`. -/
def Within (P : S.Op → Prop) (Q : α → Prop) : Prog S α → Prop
  | .ret a => Q a
  | .call o k => P o ∧ ∀ b, Within P Q (k b)

lemma Uses.within {P : S.Op → Prop} {p : Prog S α} (hp : Uses P p) :
    Within P (fun _ => True) p := by
  induction p with
  | ret a => trivial
  | call o k ih => exact ⟨hp.1, fun b => ih b (hp.2 b)⟩

lemma Within.uses {P : S.Op → Prop} {Q : α → Prop} {p : Prog S α} (hp : Within P Q p) :
    Uses P p := by
  induction p with
  | ret a => trivial
  | call o k ih => exact ⟨hp.1, fun b => ih b (hp.2 b)⟩

lemma within_bind {P : S.Op → Prop} {Q : α → Prop} {Q' : β → Prop} {p : Prog S α}
    {f : α → Prog S β} (hp : Within P Q p) (hf : ∀ a, Q a → Within P Q' (f a)) :
    Within P Q' (p >>= f) := by
  induction p with
  | ret a => exact hf a hp
  | call o k ih => exact ⟨hp.1, fun b => ih b (hp.2 b)⟩

/-- What has been performed has `P`, and what is returned has `Q`. -/
lemma Trace.within {P : S.Op → Prop} {Q : α → Prop} {p q : Prog S α} {l : List (Event S)}
    (h : Trace p l q) (hp : Within P Q p) : (∀ e ∈ l, P e.1) ∧ Within P Q q := by
  induction h with
  | nil => exact ⟨nofun, hp⟩
  | cons _ ih =>
    obtain ⟨hall, hq⟩ := ih (hp.2 _)
    exact ⟨List.forall_mem_cons.mpr ⟨hp.1, hall⟩, hq⟩

/-! ### Programs confined as long as the answers are -/

/-- As long as the answers have `A`, `p` only performs operations with `G`. -/
def Under (A : Event S → Prop) (G : S.Op → Prop) : Prog S α → Prop
  | .ret _ => True
  | .call o k => G o ∧ ∀ b, A ⟨o, b⟩ → Under A G (k b)

@[simp] lemma under_ret (A : Event S → Prop) (G : S.Op → Prop) (a : α) :
    Under A G (.ret a : Prog S α) ↔ True := Iff.rfl

@[simp] lemma under_call (A : Event S → Prop) (G : S.Op → Prop) (o : S.Op)
    (k : S.Ans o → Prog S α) :
    Under A G (.call o k) ↔ G o ∧ ∀ b, A ⟨o, b⟩ → Under A G (k b) := Iff.rfl

lemma Uses.under {A : Event S → Prop} {G : S.Op → Prop} {p : Prog S α} (hp : Uses G p) :
    Under A G p := by
  induction p with
  | ret a => trivial
  | call o k ih => exact ⟨hp.1, fun b _ => ih b (hp.2 b)⟩

lemma under_bind {A : Event S → Prop} {G : S.Op → Prop} {p : Prog S α} {f : α → Prog S β}
    (hp : Under A G p) (hf : ∀ a, Under A G (f a)) : Under A G (p >>= f) := by
  induction p with
  | ret a => exact hf a
  | call o k ih => exact ⟨hp.1, fun b hb => ih b (hp.2 b hb)⟩

lemma Under.mono {A : Event S → Prop} {G G' : S.Op → Prop} {p : Prog S α} (hp : Under A G p)
    (h : ∀ o, G o → G' o) : Under A G' p := by
  induction p with
  | ret a => trivial
  | call o k ih => exact ⟨h o hp.1, fun b hb => ih b (hp.2 b hb)⟩

lemma Trace.under {A : Event S → Prop} {G : S.Op → Prop} {p q : Prog S α} {l : List (Event S)}
    (h : Trace p l q) (hp : Under A G p) (hA : ∀ e ∈ l, A e) : ∀ e ∈ l, G e.1 := by
  induction h with
  | nil => nofun
  | cons h ih =>
    have hrest := ih (hp.2 _ (hA _ List.mem_cons_self)) fun e he => hA e (List.mem_cons_of_mem _ he)
    exact List.forall_mem_cons.mpr ⟨hp.1, hrest⟩

/-! ### What holds all along -/

/-- As long as the answers have `A`, the books `g` are in `I` at every point of `p`, and its
result and they are in `Q` at its end. -/
def Along {τ : Type} (g : τ → Event S → τ) (A : Event S → Prop) (I : τ → Prop) :
    Prog S α → (α → τ → Prop) → τ → Prop
  | .ret a, Q, t => I t ∧ Q a t
  | .call o k, Q, t => I t ∧ ∀ b, A ⟨o, b⟩ → Along g A I (k b) Q (g t ⟨o, b⟩)

section

variable {τ : Type} {g : τ → Event S → τ} {A : Event S → Prop} {I : τ → Prop}

lemma along_bind {p : Prog S α} {f : α → Prog S β} {Q : β → τ → Prop} {t : τ}
    (h : Along g A I p (fun a t => Along g A I (f a) Q t) t) : Along g A I (p >>= f) Q t := by
  induction p generalizing t with
  | ret a => exact h.2
  | call o k ih => exact ⟨h.1, fun b hb => ih b (h.2 b hb)⟩

lemma Along.mono {p : Prog S α} {Q Q' : α → τ → Prop} {t : τ} (h : Along g A I p Q t)
    (hQ : ∀ a t, Q a t → Q' a t) : Along g A I p Q' t := by
  induction p generalizing t with
  | ret a => exact ⟨h.1, hQ _ _ h.2⟩
  | call o k ih => exact ⟨h.1, fun b hb => ih b (h.2 b hb)⟩

/-- Wherever an execution has come to, the books are in `I`. -/
theorem Trace.along {p q : Prog S α} {l : List (Event S)} {Q : α → τ → Prop} {t : τ}
    (h : Trace p l q) (hA : ∀ e ∈ l, A e) (hp : Along g A I p Q t) :
    I (l.foldl g t) ∧ ∀ a, q = .ret a → Q a (l.foldl g t) := by
  induction h generalizing t with
  | nil p =>
    cases p with
    | ret a =>
      refine ⟨hp.1, fun b hb => ?_⟩
      cases hb
      exact hp.2
    | call o k => exact ⟨hp.1, nofun⟩
  | @cons o b k l q _ ih =>
    obtain ⟨hb, hl⟩ := List.forall_mem_cons.mp hA
    exact ih hl (hp.2 b hb)

end

/-! ### Deterministic machines -/

/-- The result of running `p` alone on a deterministic machine. -/
def run (f : σ → (o : S.Op) → S.Ans o × σ) : Prog S α → σ → α × σ
  | .ret a, s => (a, s)
  | .call o k, s => run f (k (f s o).1) (f s o).2

/-- A deterministic machine among others: before each operation they may change the state
by any `E`. -/
def among (E : σ → σ → Prop) (f : σ → (o : S.Op) → S.Ans o × σ) : Machine S σ :=
  fun s o b t => ∃ s', E s s' ∧ f s' o = (b, t)

variable {f : σ → (o : S.Op) → S.Ans o × σ}

@[simp] lemma run_ret (a : α) (s : σ) : run f (.ret a : Prog S α) s = (a, s) := rfl

@[simp] lemma run_call (o : S.Op) (k : S.Ans o → Prog S α) (s : σ) :
    run f (.call o k) s = run f (k (f s o).1) (f s o).2 := rfl

lemma run_bind (p : Prog S α) (g : α → Prog S β) (s : σ) :
    run f (p >>= g) s = run f (g (run f p s).1) (run f p s).2 := by
  induction p generalizing s with
  | ret a => rfl
  | call o k ih => exact ih _ _

/-- What a program that runs alone performs, with the answers it gets. -/
def events (f : σ → (o : S.Op) → S.Ans o × σ) : Prog S α → σ → List (Event S)
  | .ret _, _ => []
  | .call o k, s => ⟨o, (f s o).1⟩ :: events f (k (f s o).1) (f s o).2

lemma events_call (o : S.Op) (k : S.Ans o → Prog S α) (s : σ) :
    events f (.call o k) s = ⟨o, (f s o).1⟩ :: events f (k (f s o).1) (f s o).2 := rfl

lemma trace_events (p : Prog S α) (s : σ) : Trace p (events f p s) (.ret (run f p s).1) := by
  induction p generalizing s with
  | ret a => exact .nil _
  | call o k ih => exact .cons (ih _ _)

lemma events_bind (p : Prog S α) (g : α → Prog S β) (s : σ) :
    events f (p >>= g) s = events f p s ++ events f (g (run f p s).1) (run f p s).2 := by
  induction p generalizing s with
  | ret a => rfl
  | call o k ih => exact congrArg (List.cons _) (ih _ _)

/-- What every event of a program that runs alone does. -/
lemma mem_events {p : Prog S α} {s : σ} {e : Event S} (he : e ∈ events f p s) :
    ∃ t, (f t e.1).1 = e.2 := by
  induction p generalizing s with
  | ret a => simp [events] at he
  | call o k ih =>
    rcases List.mem_cons.mp he with rfl | he
    · exact ⟨s, rfl⟩
    · exact ih _ he

/-- Running alone is one of the executions, when the others may do nothing. -/
lemma exec_run {E : σ → σ → Prop} (hE : ∀ s, E s s) (p : Prog S α) (s : σ) :
    Exec (among E f) s p (run f p s).1 (run f p s).2 := by
  induction p generalizing s with
  | ret a => exact .ret s a
  | call o k ih => exact .call ⟨s, hE s, rfl⟩ (ih _ _)

lemma exec_alone (p : Prog S α) (s : σ) :
    Exec (fun s o b t => f s o = (b, t)) s p (run f p s).1 (run f p s).2 := by
  induction p generalizing s with
  | ret a => exact .ret s a
  | call o k ih => exact .call rfl (ih _ _)

/-- A rule for all executions holds of the run alone. -/
lemma run_of_wp {E : σ → σ → Prop} (hE : ∀ s, E s s) {p : Prog S α} {Q : α → σ → Prop} {s : σ}
    (h : wp (among E f) p Q s) : Q (run f p s).1 (run f p s).2 :=
  (exec_run hE p s).wp h

/-- What the operations of a program keep as long as the answers are right, its run keeps. -/
lemma Under.run {A : Event S → Prop} {G : S.Op → Prop} {p : Prog S α} (hp : Under A G p)
    (I : σ → Prop) (hI : ∀ s o, I s → G o → A ⟨o, (f s o).1⟩ ∧ I (f s o).2) {s : σ} (hs : I s) :
    I (Prog.run f p s).2 := by
  induction p generalizing s with
  | ret a => exact hs
  | call o k ih =>
    obtain ⟨hA, hpost⟩ := hI s o hs hp.1
    exact ih _ (hp.2 _ hA) hpost

end Prog

/-! ### Programs that can raise -/

/-- A program that returns a value or raises an exception. -/
def Exc (S : Sig) (ε α : Type) := Prog S (Except ε α)

namespace Exc

open Prog

variable {ε : Type}

def bind (p : Exc S ε α) (f : α → Exc S ε β) : Exc S ε β :=
  Prog.bind p fun r =>
    match r with
    | .ok a => f a
    | .error e => .ret (.error e)

instance : Monad (Exc S ε) where
  pure a := .ret (.ok a)
  bind := bind

def raise (e : ε) : Exc S ε α := .ret (.error e)

/-- A program that raises nothing. -/
def lift (p : Prog S α) : Exc S ε α := Prog.bind p fun a => .ret (.ok a)

instance : MonadLift (Prog S) (Exc S ε) := ⟨lift⟩

/-- Raising `f e` in place of `e`. -/
def rethrow {δ : Type} (f : ε → δ) (p : Exc S ε α) : Exc S δ α :=
  Prog.bind p fun r => .ret (r.mapError f)

variable {R : Machine S σ} {f : σ → (o : S.Op) → S.Ans o × σ}

lemma exec_pure {a : α} {r : Except ε α} {s t : σ} :
    Exec R s (pure a : Exc S ε α) r t ↔ r = .ok a ∧ t = s := exec_ret

lemma exec_raise {e : ε} {r : Except ε α} {s t : σ} :
    Exec R s (raise e : Exc S ε α) r t ↔ r = .error e ∧ t = s := exec_ret

/-- What returns a value has returned one at every step. -/
lemma bind_ok {p : Exc S ε α} {g : α → Exc S ε β} {s u : σ} {b : β}
    (h : Exec R s (p >>= g : Exc S ε β) (.ok b) u) :
    ∃ a t, Exec R s p (.ok a) t ∧ Exec R t (g a) (.ok b) u := by
  obtain ⟨r, t, hp, hg⟩ := Exec.bind_inv h
  cases r with
  | ok a => exact ⟨a, t, hp, hg⟩
  | error e =>
    obtain ⟨hr, -⟩ := exec_ret.mp hg
    cases hr

/-- Either the first part returns and the second goes on, or it raises what the whole raises. -/
lemma bind_inv {p : Exc S ε α} {g : α → Exc S ε β} {r : Except ε β} {s u : σ}
    (h : Exec R s (p >>= g : Exc S ε β) r u) :
    (∃ a t, Exec R s p (.ok a) t ∧ Exec R t (g a) r u) ∨
      ∃ e, r = .error e ∧ Exec R s p (.error e) u := by
  obtain ⟨r', t, hp, hg⟩ := Exec.bind_inv h
  cases r' with
  | ok a => exact Or.inl ⟨a, t, hp, hg⟩
  | error e =>
    obtain ⟨rfl, rfl⟩ := exec_ret.mp hg
    exact Or.inr ⟨e, rfl, hp⟩

lemma lift_inv {p : Prog S α} {r : Except ε α} {s t : σ}
    (h : Exec R s (liftM p : Exc S ε α) r t) : ∃ a, r = .ok a ∧ Exec R s p a t := by
  obtain ⟨a, t', hp, hret⟩ := Exec.bind_inv h
  obtain ⟨rfl, rfl⟩ := exec_ret.mp hret
  exact ⟨a, rfl, hp⟩

lemma lift_bind_inv {p : Prog S α} {g : α → Exc S ε β} {r : Except ε β} {s u : σ}
    (h : Exec R s (liftM p >>= g : Exc S ε β) r u) :
    ∃ a t, Exec R s p a t ∧ Exec R t (g a) r u := by
  obtain ⟨r', t, hp, hg⟩ := Exec.bind_inv h
  obtain ⟨a, rfl, hp'⟩ := lift_inv hp
  exact ⟨a, t, hp', hg⟩

lemma trace_bind_inv {p : Exc S ε α} {g : α → Exc S ε β} {l : List (Event S)}
    {r : Except ε β} (h : Trace (p >>= g : Exc S ε β) l (.ret r)) :
    (∃ a l1 l2, l = l1 ++ l2 ∧ Trace p l1 (.ret (.ok a)) ∧ Trace (g a) l2 (.ret r)) ∨
      ∃ e, r = .error e ∧ Trace p l (.ret (.error e)) := by
  obtain ⟨r', l1, l2, rfl, hp, hg⟩ := Trace.bind_inv h
  cases r' with
  | ok a => exact Or.inl ⟨a, l1, l2, rfl, hp, hg⟩
  | error e =>
    obtain ⟨rfl, he⟩ := trace_ret.mp hg
    cases he
    rw [List.append_nil]
    exact Or.inr ⟨e, rfl, hp⟩

/-- What returns a value has returned one at every step. -/
lemma trace_bind_ok {p : Exc S ε α} {g : α → Exc S ε β} {l : List (Event S)} {b : β}
    (h : Trace (p >>= g : Exc S ε β) l (.ret (.ok b))) :
    ∃ a l1 l2, l = l1 ++ l2 ∧ Trace p l1 (.ret (.ok a)) ∧ Trace (g a) l2 (.ret (.ok b)) := by
  rcases trace_bind_inv h with h | ⟨e, he, -⟩
  · exact h
  · cases he

lemma trace_lift_bind_inv {p : Prog S α} {g : α → Exc S ε β} {l : List (Event S)}
    {r : Except ε β} (h : Trace (liftM p >>= g : Exc S ε β) l (.ret r)) :
    ∃ a l1 l2, l = l1 ++ l2 ∧ Trace p l1 (.ret a) ∧ Trace (g a) l2 (.ret r) := by
  obtain ⟨r', l1, l2, rfl, hp, hg⟩ := Trace.bind_inv h
  obtain ⟨a, l3, l4, rfl, hp', hret⟩ := Trace.bind_inv hp
  obtain ⟨rfl, hr⟩ := trace_ret.mp hret
  cases hr
  rw [List.append_nil]
  exact ⟨a, l3, l2, rfl, hp', hg⟩

lemma trace_rethrow_inv {δ : Type} {g : ε → δ} {p : Exc S ε α} {l : List (Event S)}
    {r : Except δ α} (h : Trace (rethrow g p) l (.ret r)) :
    ∃ r', r = r'.mapError g ∧ Trace p l (.ret r') := by
  obtain ⟨r', l1, l2, rfl, hp, hret⟩ := Trace.bind_inv h
  obtain ⟨rfl, hr⟩ := trace_ret.mp hret
  cases hr
  rw [List.append_nil]
  exact ⟨r', rfl, hp⟩

lemma uses_pure (P : S.Op → Prop) (a : α) : Uses P (pure a : Exc S ε α) := trivial

lemma uses_bind {P : S.Op → Prop} {p : Exc S ε α} {g : α → Exc S ε β} (hp : Uses P p)
    (hg : ∀ a, Uses P (g a)) : Uses P (p >>= g : Exc S ε β) :=
  Prog.uses_bind hp fun r =>
    match r with
    | .ok a => hg a
    | .error _ => trivial

lemma uses_lift {P : S.Op → Prop} {p : Prog S α} (hp : Uses P p) :
    Uses P (liftM p : Exc S ε α) :=
  Prog.uses_bind hp fun _ => trivial

lemma uses_rethrow {δ : Type} {P : S.Op → Prop} {g : ε → δ} {p : Exc S ε α} (hp : Uses P p) :
    Uses P (rethrow g p) :=
  Prog.uses_bind hp fun _ => trivial

lemma under_bind {A : Event S → Prop} {G : S.Op → Prop} {p : Exc S ε α} {g : α → Exc S ε β}
    (hp : Under A G p) (hg : ∀ a, Under A G (g a)) : Under A G (p >>= g : Exc S ε β) :=
  Prog.under_bind hp fun r =>
    match r with
    | .ok a => hg a
    | .error _ => trivial

lemma under_lift {A : Event S → Prop} {G : S.Op → Prop} {p : Prog S α} (hp : Under A G p) :
    Under A G (liftM p : Exc S ε α) :=
  Prog.under_bind hp fun _ => trivial

lemma under_rethrow {δ : Type} {A : Event S → Prop} {G : S.Op → Prop} {f : ε → δ}
    {p : Exc S ε α} (hp : Under A G p) : Under A G (rethrow f p) :=
  Prog.under_bind hp fun _ => trivial

/-- What `p` performs has `P`, and a value it returns has `Q`. -/
def Within (P : S.Op → Prop) (Q : α → Prop) (p : Exc S ε α) : Prop :=
  Prog.Within P (fun r => ∀ a, r = .ok a → Q a) p

lemma within_pure {P : S.Op → Prop} {Q : α → Prop} {a : α} (h : Q a) :
    Within P Q (pure a : Exc S ε α) := by
  intro a' ha
  cases ha
  exact h

lemma within_raise (P : S.Op → Prop) (Q : α → Prop) (e : ε) :
    Within P Q (raise e : Exc S ε α) := nofun

lemma within_bind {P : S.Op → Prop} {Q : α → Prop} {Q' : β → Prop} {p : Exc S ε α}
    {g : α → Exc S ε β} (hp : Within P Q p) (hg : ∀ a, Q a → Within P Q' (g a)) :
    Within P Q' (p >>= g : Exc S ε β) :=
  Prog.within_bind hp fun r hr =>
    match r with
    | .ok a => hg a (hr a rfl)
    | .error _ => nofun

lemma within_lift {P : S.Op → Prop} {Q : α → Prop} {p : Prog S α} (hp : Prog.Within P Q p) :
    Within P Q (liftM p : Exc S ε α) := by
  refine Prog.within_bind hp fun a ha b hb => ?_
  cases hb
  exact ha

lemma within_rethrow {δ : Type} {P : S.Op → Prop} {Q : α → Prop} {g : ε → δ} {p : Exc S ε α}
    (hp : Within P Q p) : Within P Q (rethrow g p) := by
  refine Prog.within_bind hp fun r hr a ha => ?_
  cases r with
  | ok b => exact hr a (by cases ha; rfl)
  | error e => cases ha

lemma within_of_uses {P : S.Op → Prop} {p : Exc S ε α} (hp : Uses P p) :
    Within P (fun _ => True) p := by
  unfold Within Exc at *
  induction p with
  | ret r => exact fun _ _ => trivial
  | call o k ih => exact ⟨hp.1, fun b => ih b (hp.2 b)⟩

lemma run_bind_ok {p : Exc S ε α} {g : α → Exc S ε β} {s t : σ} {a : α}
    (h : run f p s = (.ok a, t)) : run f (p >>= g : Exc S ε β) s = run f (g a) t := by
  refine (Prog.run_bind (f := f) p _ s).trans ?_
  rw [h]

lemma run_bind_error {p : Exc S ε α} {g : α → Exc S ε β} {s t : σ} {e : ε}
    (h : run f p s = (.error e, t)) : run f (p >>= g : Exc S ε β) s = (.error e, t) := by
  refine (Prog.run_bind (f := f) p _ s).trans ?_
  rw [h]
  rfl

lemma run_rethrow {δ : Type} (g : ε → δ) (p : Exc S ε α) (s : σ) :
    run f (rethrow g p) s = ((run f p s).1.mapError g, (run f p s).2) :=
  Prog.run_bind p _ s

lemma run_lift (p : Prog S α) (s : σ) :
    run f (lift p : Exc S ε α) s = (.ok (run f p s).1, (run f p s).2) :=
  Prog.run_bind p _ s

end Exc

end Lookout.Effects

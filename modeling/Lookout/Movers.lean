import Lookout.Runs
import Mathlib.Data.List.Induction
import Mathlib.Data.List.Nodup

/-!
Reduction: when programs that take turns might as well have run one at a time.

A mover is an operation that can be exchanged with the operations of the other programs, no
answer and no state showing it. Where every program performs at most one operation that is
not a mover, the programs can be put in the order of these operations. States and answers are
compared up to relations that the programs do not see through.
-/

namespace Lookout.Movers

open Lookout.Effects Lookout.Runs

variable {S : Sig} {σ α ι : Type}

/-- The program goes on alike after answers that are alike. -/
def Blind (same : ∀ o : S.Op, S.Ans o → S.Ans o → Prop) : Prog S α → Prop
  | .ret _ => True
  | .call o k => (∀ b b', same o b b' → k b = k b') ∧ ∀ b, Blind same (k b)

lemma blind_bind {β : Type} {same : ∀ o : S.Op, S.Ans o → S.Ans o → Prop} {p : Prog S α}
    {g : α → Prog S β} (hp : Blind same p) (hg : ∀ a, Blind same (g a)) :
    Blind same (p >>= g) := by
  induction p with
  | ret a => exact hg a
  | call o k ih => exact ⟨fun b b' h => congrArg (· >>= g) (hp.1 b b' h), fun b => ih b (hp.2 b)⟩

/-- **A program that is blind** does the same on two machines, from states that are alike, when
the machines keep them alike. -/
theorem run_alike {same : ∀ o : S.Op, S.Ans o → S.Ans o → Prop} {A : Event S → Prop}
    {G : S.Op → Prop} {f g : σ → (o : S.Op) → S.Ans o × σ} {p : Prog S α}
    (hb : Blind same p) (hp : Prog.Under A G p) (rel : σ → σ → Prop)
    (hstep : ∀ s t o, rel s t → G o →
      same o (f s o).1 (g t o).1 ∧ A ⟨o, (f s o).1⟩ ∧ rel (f s o).2 (g t o).2) {s t : σ}
    (hs : rel s t) :
    (Prog.run f p s).1 = (Prog.run g p t).1 ∧ rel (Prog.run f p s).2 (Prog.run g p t).2 := by
  induction p generalizing s t with
  | ret a => exact ⟨rfl, hs⟩
  | call o k ih =>
    obtain ⟨hsame, hA, hrel⟩ := hstep s t o hs hp.1
    have hk : k (f s o).1 = k (g t o).1 := hb.1 _ _ hsame
    rw [Prog.run_call, Prog.run_call, ← hk]
    exact ih _ (hb.2 _) (hp.2 _ hA) hrel

/-- The machines of the programs, one for each; which operations are movers; and what is not
told apart. -/
structure Setting (S : Sig) (σ ι : Type) where
  f : ι → σ → (o : S.Op) → S.Ans o × σ
  mover : S.Op → Bool
  sim : σ → σ → Prop
  same : ∀ o : S.Op, S.Ans o → S.Ans o → Prop

namespace Setting

variable (X : Setting S σ ι)

/-- The operations with `G` respect the relations, and the movers among them can be exchanged
with the others. -/
structure Commutes (G : S.Op → Prop) : Prop where
  refl : ∀ s, X.sim s s
  symm : ∀ {s t}, X.sim s t → X.sim t s
  trans : ∀ {s t u}, X.sim s t → X.sim t u → X.sim s u
  same_trans : ∀ {o a b c}, X.same o a b → X.same o b c → X.same o a c
  same_symm : ∀ {o a b}, X.same o a b → X.same o b a
  respects : ∀ i o {s t}, G o → X.sim s t →
    X.same o (X.f i s o).1 (X.f i t o).1 ∧ X.sim (X.f i s o).2 (X.f i t o).2
  exchange : ∀ {i j} o o' s, i ≠ j → G o → G o' → X.mover o ∨ X.mover o' →
    X.same o' (X.f j (X.f i s o).2 o').1 (X.f j s o').1 ∧
      X.sim (X.f j (X.f i s o).2 o').2 (X.f i (X.f j s o').2 o).2

/-! ### Replaying events -/

/-- An event, and whose it is. -/
abbrev Act (S : Sig) (ι : Type) := ι × Event S

/-- The state after the operations of `l`. -/
def replay (s : σ) (l : List (Act S ι)) : σ := l.foldl (fun s x => (X.f x.1 s x.2.1).2) s

/-- Replaying `l` gives the answers it has. -/
def Fits (s : σ) : List (Act S ι) → Prop
  | [] => True
  | x :: l => X.same x.2.1 x.2.2 (X.f x.1 s x.2.1).1 ∧ Fits (X.f x.1 s x.2.1).2 l

@[simp] lemma replay_nil (s : σ) : X.replay s [] = s := rfl

@[simp] lemma replay_cons (s : σ) (x : Act S ι) (l : List (Act S ι)) :
    X.replay s (x :: l) = X.replay (X.f x.1 s x.2.1).2 l := rfl

lemma replay_append (s : σ) (l l' : List (Act S ι)) :
    X.replay s (l ++ l') = X.replay (X.replay s l) l' := List.foldl_append

@[simp] lemma fits_nil (s : σ) : X.Fits s [] ↔ True := Iff.rfl

@[simp] lemma fits_cons (s : σ) (x : Act S ι) (l : List (Act S ι)) :
    X.Fits s (x :: l) ↔
      X.same x.2.1 x.2.2 (X.f x.1 s x.2.1).1 ∧ X.Fits (X.f x.1 s x.2.1).2 l := Iff.rfl

lemma fits_append (s : σ) (l l' : List (Act S ι)) :
    X.Fits s (l ++ l') ↔ X.Fits s l ∧ X.Fits (X.replay s l) l' := by
  induction l generalizing s with
  | nil => simp
  | cons x l ih => simp [ih, and_assoc]

/-- The first list can be replaced by the second: the answers fit again, and the states they
lead to are alike. -/
def Turns (l l' : List (Act S ι)) : Prop :=
  ∀ s, X.Fits s l → X.Fits s l' ∧ X.sim (X.replay s l) (X.replay s l')

variable {X} {G : S.Op → Prop}

/-- All of the list has `G`. -/
def Within (G : S.Op → Prop) (l : List (Act S ι)) : Prop := ∀ x ∈ l, G x.2.1

namespace Commutes

variable (h : X.Commutes G)

include h

lemma replay_sim {l : List (Act S ι)} (hl : Within G l) {s t : σ} (hs : X.sim s t) :
    X.sim (X.replay s l) (X.replay t l) := by
  induction l generalizing s t with
  | nil => exact hs
  | cons x l ih =>
    obtain ⟨hx, hl⟩ := List.forall_mem_cons.mp hl
    exact ih hl (h.respects x.1 x.2.1 hx hs).2

lemma fits_sim {l : List (Act S ι)} (hl : Within G l) {s t : σ} (hs : X.sim s t)
    (hf : X.Fits s l) : X.Fits t l := by
  induction l generalizing s t with
  | nil => trivial
  | cons x l ih =>
    obtain ⟨hx, hl⟩ := List.forall_mem_cons.mp hl
    obtain ⟨hsame, hsim⟩ := h.respects x.1 x.2.1 hx hs
    exact ⟨h.same_trans hf.1 hsame, ih hl hsim hf.2⟩

lemma turns_refl (l : List (Act S ι)) : X.Turns l l := fun _ hf => ⟨hf, h.refl _⟩

lemma turns_trans {l l' l'' : List (Act S ι)} (h1 : X.Turns l l') (h2 : X.Turns l' l'') :
    X.Turns l l'' := by
  intro s hf
  obtain ⟨hf', hs'⟩ := h1 s hf
  obtain ⟨hf'', hs''⟩ := h2 s hf'
  exact ⟨hf'', h.trans hs' hs''⟩

/-- In the middle of a run. -/
lemma turns_inside {l l' : List (Act S ι)} (hl : X.Turns l l') (l1 : List (Act S ι))
    {l2 : List (Act S ι)} (hl2 : Within G l2) : X.Turns (l1 ++ l ++ l2) (l1 ++ l' ++ l2) := by
  intro s hf
  rw [fits_append, fits_append, replay_append] at hf
  obtain ⟨hf', hs'⟩ := hl _ hf.1.2
  rw [fits_append, fits_append]
  simp only [replay_append]
  exact ⟨⟨⟨hf.1.1, hf'⟩, h.fits_sim hl2 hs' hf.2⟩, h.replay_sim hl2 hs'⟩

lemma turns_last {l l' : List (Act S ι)} (hl : X.Turns l l') (l1 : List (Act S ι)) :
    X.Turns (l1 ++ l) (l1 ++ l') := by
  have hnil : Within G ([] : List (Act S ι)) := fun _ hz => absurd hz List.not_mem_nil
  simpa using h.turns_inside hl l1 hnil

/-- **An event moves to the front** of a list of other programs' events. -/
theorem turns_front {x : Act S ι} {l : List (Act S ι)} (hx : G x.2.1) (hl : Within G l)
    (hne : ∀ y ∈ l, y.1 ≠ x.1) (hm : ∀ y ∈ l, X.mover x.2.1 ∨ X.mover y.2.1) :
    X.Turns (l ++ [x]) (x :: l) := by
  induction l with
  | nil => exact h.turns_refl _
  | cons y l ih =>
    obtain ⟨hy, hl⟩ := List.forall_mem_cons.mp hl
    obtain ⟨hney, hne⟩ := List.forall_mem_cons.mp hne
    obtain ⟨hmy, hm⟩ := List.forall_mem_cons.mp hm
    have hrest : X.Turns ([y] ++ (l ++ [x])) ([y] ++ (x :: l)) :=
      h.turns_last (ih hl hne hm) [y]
    have hswap : X.Turns [y, x] [x, y] := by
      intro s hf
      obtain ⟨hsame, hsim⟩ := h.exchange y.2.1 x.2.1 s hney hy hx hmy.symm
      obtain ⟨hsame', -⟩ := h.exchange x.2.1 y.2.1 s hney.symm hx hy hmy
      obtain ⟨hfy, hfx, -⟩ := hf
      exact ⟨⟨h.same_trans hfx hsame, h.same_trans hfy (h.same_symm hsame'), trivial⟩, hsim⟩
    exact h.turns_trans hrest (h.turns_inside hswap [] hl)

/-- Movers of one program move to the front together. -/
lemma turns_block {i : ι} {b l : List (Act S ι)} (hb : Within G b) (hl : Within G l)
    (hi : ∀ x ∈ b, x.1 = i) (hne : ∀ y ∈ l, y.1 ≠ i)
    (hm : ∀ x ∈ b, ∀ y ∈ l, X.mover x.2.1 ∨ X.mover y.2.1) : X.Turns (l ++ b) (b ++ l) := by
  induction b with
  | nil => simpa using h.turns_refl l
  | cons x b ih =>
    obtain ⟨hx, hb⟩ := List.forall_mem_cons.mp hb
    obtain ⟨hix, hi⟩ := List.forall_mem_cons.mp hi
    obtain ⟨hmx, hm⟩ := List.forall_mem_cons.mp hm
    have hfront : X.Turns (l ++ [x]) (x :: l) :=
      h.turns_front hx hl (fun y hy => hix ▸ hne y hy) hmx
    have h1 : X.Turns (l ++ x :: b) (x :: l ++ b) := by
      simpa using h.turns_inside hfront [] hb
    have h2 : X.Turns (x :: l ++ b) (x :: b ++ l) := by
      simpa using h.turns_last (ih hb hi hm) [x]
    exact h.turns_trans h1 h2

end Commutes

end Setting

/-! ### The order of the programs -/

variable [DecidableEq ι] {R : ι → Machine S σ} {mover : S.Op → Bool}

/-- The operation after which the order of its program is settled: one that is not a mover, or
the last. -/
def settles (mover : S.Op → Bool) (x : Trans (Pool S σ α ι) (ι × Event S)) : Bool :=
  !mover x.ev.2.1 || (x.post.2 x.ev.1).result.isSome

/-- The programs in the order in which they are settled. -/
def order (mover : S.Op → Bool) (tr : Turns S σ α ι) : List ι :=
  tr.foldl (fun l x => if settles mover x ∧ x.ev.1 ∉ l then l ++ [x.ev.1] else l) []

lemma order_snoc (tr : Turns S σ α ι) (x : Trans (Pool S σ α ι) (ι × Event S)) :
    order mover (tr ++ [x]) =
      if settles mover x ∧ x.ev.1 ∉ order mover tr then order mover tr ++ [x.ev.1]
      else order mover tr := by
  unfold order
  rw [List.foldl_append]
  rfl

/-- What comes later is put behind what is settled already. -/
lemma order_append (tr tr' : Turns S σ α ι) :
    ∃ l, order mover (tr ++ tr') = order mover tr ++ l ∧ ∀ i ∈ l, own i tr' ≠ [] := by
  induction tr' using List.reverseRecOn with
  | nil => exact ⟨[], by simp, nofun⟩
  | append_singleton tr' x ih =>
    obtain ⟨l, hl, hown⟩ := ih
    have hold : ∀ i ∈ l, own i (tr' ++ [x]) ≠ [] := by
      intro i hi
      rw [own_snoc]
      exact List.append_ne_nil_of_left_ne_nil (hown i hi) _
    rw [← List.append_assoc, order_snoc, hl]
    split_ifs
    · refine ⟨l ++ [x.ev.1], List.append_assoc _ _ _, fun i hi => ?_⟩
      rcases List.mem_append.mp hi with hi | hi
      · exact hold i hi
      · rw [List.mem_singleton.mp hi, own_snoc, if_pos rfl]
        simp
    · exact ⟨l, rfl, hold⟩

/-- The operations of `tr` that are not movers, of program `i`. -/
def turning (mover : S.Op → Bool) (i : ι) (tr : Turns S σ α ι) : ℕ :=
  (own i tr).countP fun e => !mover e.1

/-- Who is in the order, and who is not. -/
structure Settled (mover : S.Op → Bool) (tr : Turns S σ α ι) (c : Pool S σ α ι) : Prop where
  nodup : (order mover tr).Nodup
  began : ∀ i ∈ order mover tr, own i tr ≠ []
  /-- A program in the order has returned, or its turning point is behind it. -/
  past : ∀ i ∈ order mover tr, turning mover i tr = 0 → (c.2 i).result.isSome
  /-- A program not in the order is before its turning point. -/
  early : ∀ i ∉ order mover tr, turning mover i tr = 0
  /-- A program that has returned is in the order. -/
  ended : ∀ i, own i tr ≠ [] → (c.2 i).result.isSome → i ∈ order mover tr

lemma turning_snoc (i : ι) (tr : Turns S σ α ι) (x : Trans (Pool S σ α ι) (ι × Event S)) :
    turning mover i (tr ++ [x]) =
      turning mover i tr + if x.ev.1 = i ∧ mover x.ev.2.1 = false then 1 else 0 := by
  unfold turning
  rw [own_snoc, List.countP_append]
  by_cases hi : x.ev.1 = i <;> cases hm : mover x.ev.2.1 <;> simp [hi, hm]

lemma mem_order_snoc {i : ι} {tr : Turns S σ α ι} {x : Trans (Pool S σ α ι) (ι × Event S)} :
    i ∈ order mover (tr ++ [x]) ↔ i ∈ order mover tr ∨ settles mover x ∧ x.ev.1 = i := by
  rw [order_snoc]
  split_ifs with h
  · simp only [List.mem_append, List.mem_singleton, h.1, true_and, eq_comm]
  · rw [not_and, not_not] at h
    constructor
    · exact Or.inl
    · rintro (hi | ⟨hs, rfl⟩)
      · exact hi
      · exact h hs

lemma nodup_snoc {tr : Turns S σ α ι} {x : Trans (Pool S σ α ι) (ι × Event S)}
    (h : (order mover tr).Nodup) : (order mover (tr ++ [x])).Nodup := by
  rw [order_snoc]
  split_ifs with hx
  · exact List.nodup_append.mpr ⟨h, List.nodup_singleton _, fun a ha b hb => by
      rw [List.mem_singleton.mp hb]
      exact fun hab => hx.2 (hab ▸ ha)⟩
  · exact h

/-- **Who is in the order**, at every point of a run. -/
theorem settled {c c' : Pool S σ α ι} {tr : Turns S σ α ι} (h : Path (turn R) c tr c') :
    Settled mover tr c' := by
  induction h with
  | nil =>
    exact ⟨List.nodup_nil, fun _ hi => absurd hi List.not_mem_nil,
      fun _ hi => absurd hi List.not_mem_nil, fun _ _ => rfl, fun _ hi => absurd rfl hi⟩
  | @snoc tr t u e _ he ih =>
    obtain ⟨k, hk, -, hu⟩ := he
    have hother : ∀ {i}, e.1 ≠ i → u.2 i = t.2 i := by
      intro i hi
      rw [hu]
      exact Function.update_of_ne (Ne.symm hi) _ _
    have hrunning : (t.2 e.1).result = none := by rw [hk]; rfl
    refine ⟨nodup_snoc ih.nodup, fun i hi => ?_, fun i hi hturn => ?_, fun i hi => ?_,
      fun i hown hret => ?_⟩
    · rw [own_snoc]
      rcases mem_order_snoc.mp hi with hi | ⟨-, hi⟩
      · exact fun hnil => ih.began i hi (List.append_eq_nil_iff.mp hnil).1
      · rw [if_pos hi]
        simp
    · rw [turning_snoc] at hturn
      by_cases hei : e.1 = i
      · subst hei
        rcases mem_order_snoc.mp hi with hi | ⟨hs, -⟩
        · have := ih.past _ hi (by omega)
          rw [hrunning] at this
          exact absurd this (by simp)
        · have hmover : mover e.2.1 = true := by
            by_contra hm
            rw [Bool.not_eq_true] at hm
            simp [hm] at hturn
          simpa [settles, hmover] using hs
      · rw [hother hei]
        have hi' : i ∈ order mover tr := (mem_order_snoc.mp hi).resolve_right fun hc => hei hc.2
        exact ih.past i hi' (by omega)
    · have hi' : i ∉ order mover tr := fun hc => hi (mem_order_snoc.mpr (Or.inl hc))
      rw [turning_snoc, ih.early i hi', Nat.zero_add, if_neg]
      rintro ⟨rfl, hm⟩
      have hm' : mover e.2.1 = false := hm
      exact hi (mem_order_snoc.mpr (Or.inr ⟨by simp [settles, hm'], rfl⟩))
    · by_cases hei : e.1 = i
      · subst hei
        exact mem_order_snoc.mpr (Or.inr ⟨by simp [settles, hret], rfl⟩)
      · rw [hother hei] at hret
        rw [own_snoc, if_neg hei, List.append_nil] at hown
        exact mem_order_snoc.mpr (Or.inl (ih.ended i hown hret))

/-! ### The run in that order -/

open Setting

/-- What program `i` did, as a list of acts. -/
def acts (tr : Turns S σ α ι) (i : ι) : List (Act S ι) := (own i tr).map fun e => (i, e)

/-- What the programs of `is` did, one program after the other. -/
def serial (tr : Turns S σ α ι) (is : List ι) : List (Act S ι) := is.flatMap (acts tr)

lemma acts_snoc (tr : Turns S σ α ι) (x : Trans (Pool S σ α ι) (ι × Event S)) (i : ι) :
    acts (tr ++ [x]) i = acts tr i ++ if x.ev.1 = i then [x.ev] else [] := by
  unfold acts
  rw [own_snoc, List.map_append]
  split_ifs with hi
  · rw [← hi]
    rfl
  · rfl

lemma serial_append (tr : Turns S σ α ι) (is js : List ι) :
    serial tr (is ++ js) = serial tr is ++ serial tr js := List.flatMap_append

lemma serial_snoc {tr : Turns S σ α ι} {x : Trans (Pool S σ α ι) (ι × Event S)} {is : List ι}
    (h : x.ev.1 ∉ is) : serial (tr ++ [x]) is = serial tr is := by
  induction is with
  | nil => rfl
  | cons i is ih =>
    obtain ⟨hi, his⟩ := not_or.mp (List.mem_cons.not.mp h)
    have hcons : ∀ tr : Turns S σ α ι, serial tr (i :: is) = acts tr i ++ serial tr is :=
      fun _ => List.flatMap_cons
    rw [hcons, hcons, ih his, acts_snoc, if_neg hi, List.append_nil]

lemma mem_acts {tr : Turns S σ α ι} {i : ι} {y : Act S ι} :
    y ∈ acts tr i ↔ y.1 = i ∧ ∃ x ∈ tr, x.ev = y := by
  simp only [acts, List.mem_map, mem_own]
  constructor
  · rintro ⟨e, ⟨x, hx, he⟩, rfl⟩
    exact ⟨rfl, x, hx, he⟩
  · rintro ⟨rfl, x, hx, he⟩
    exact ⟨y.2, ⟨x, hx, he⟩, rfl⟩

lemma mem_serial {tr : Turns S σ α ι} {is : List ι} {y : Act S ι} :
    y ∈ serial tr is ↔ y.1 ∈ is ∧ ∃ x ∈ tr, x.ev = y := by
  simp only [serial, List.mem_flatMap, mem_acts]
  constructor
  · rintro ⟨i, hi, rfl, hx⟩
    exact ⟨hi, hx⟩
  · rintro ⟨hi, hx⟩
    exact ⟨y.1, hi, rfl, hx⟩

lemma acts_eq_nil {tr : Turns S σ α ι} {i : ι} (h : own i tr = []) : acts tr i = [] := by
  rw [acts, h, List.map_nil]

/-- One program of the list among the others. -/
lemma serial_split (tr : Turns S σ α ι) {i : ι} (a b : List ι) :
    serial tr (a ++ i :: b) = serial tr a ++ acts tr i ++ serial tr b := by
  rw [serial_append, List.append_assoc]
  exact congrArg _ List.flatMap_cons

variable {X : Setting S σ ι} {G : S.Op → Prop}

/-- The transitions are those of the machines, as far as can be told. -/
def Follows (X : Setting S σ ι) (G : S.Op → Prop) (tr : Turns S σ α ι) : Prop :=
  ∀ x ∈ tr, G x.ev.2.1 ∧ X.same x.ev.2.1 x.ev.2.2 (X.f x.ev.1 x.pre.1 x.ev.2.1).1 ∧
    X.sim (X.f x.ev.1 x.pre.1 x.ev.2.1).2 x.post.1

lemma Follows.within {tr : Turns S σ α ι} (h : Follows X G tr) (is : List ι) :
    Within G (serial tr is) := by
  intro y hy
  obtain ⟨-, x, hx, rfl⟩ := mem_serial.mp hy
  exact (h x hx).1

lemma Follows.within_acts {tr : Turns S σ α ι} (h : Follows X G tr) (i : ι) :
    Within G (acts tr i) := by
  intro y hy
  obtain ⟨-, x, hx, rfl⟩ := mem_acts.mp hy
  exact (h x hx).1

/-- Before its turning point a program has performed movers only. -/
lemma mover_of_early {tr : Turns S σ α ι} {i : ι} (h : turning mover i tr = 0) :
    ∀ y ∈ acts tr i, mover y.2.1 = true := by
  intro y hy
  obtain ⟨e, he, rfl⟩ := List.mem_map.mp hy
  have hall := List.countP_eq_zero.mp h e he
  simpa using hall

lemma mover_of_serial {tr : Turns S σ α ι} {is : List ι} (h : ∀ i ∈ is, turning mover i tr = 0) :
    ∀ y ∈ serial tr is, mover y.2.1 = true := by
  intro y hy
  obtain ⟨i, hi, hy⟩ := List.mem_flatMap.mp hy
  exact mover_of_early (h i hi) y hy

/-- What has happened so far can be replayed program by program: first those in the order, then
those not settled yet. -/
structure Reduced (X : Setting S σ ι) (s : σ) (tr : Turns S σ α ι) (c : Pool S σ α ι)
    (rest : List ι) : Prop where
  nodup : (order X.mover tr ++ rest).Nodup
  began : ∀ i, own i tr ≠ [] → i ∈ order X.mover tr ++ rest
  fits : X.Fits s (serial tr (order X.mover tr ++ rest))
  ends : X.sim (X.replay s (serial tr (order X.mover tr ++ rest))) c.1

/-- The next event, after all the others. -/
lemma Reduced.snoc (hX : X.Commutes G) {s : σ} {tr : Turns S σ α ι} {t u : Pool S σ α ι}
    {e : ι × Event S} {rest : List ι} (h : Reduced X s tr t rest)
    (hG : G e.2.1) (hsame : X.same e.2.1 e.2.2 (X.f e.1 t.1 e.2.1).1)
    (hsim : X.sim (X.f e.1 t.1 e.2.1).2 u.1) {l : List (Act S ι)}
    (hl : X.Turns (serial tr (order X.mover tr ++ rest) ++ [e]) l) :
    X.Fits s l ∧ X.sim (X.replay s l) u.1 := by
  obtain ⟨hans, hpost⟩ := hX.respects e.1 e.2.1 hG h.ends
  have hfits : X.Fits s (serial tr (order X.mover tr ++ rest) ++ [e]) := by
    rw [fits_append]
    exact ⟨h.fits, hX.same_trans hsame (hX.same_symm hans), trivial⟩
  obtain ⟨hf, hs⟩ := hl s hfits
  refine ⟨hf, hX.trans (hX.symm hs) ?_⟩
  rw [replay_append]
  exact hX.trans hpost hsim

variable {s : σ} {tr : Turns S σ α ι} {t u : Pool S σ α ι} {e : ι × Event S} {rest : List ι}

/-- A mover of a program that has begun joins its program's events. -/
lemma turns_join (hX : X.Commutes G) (hG : G e.2.1) (hw : Follows X G tr) {a b : List ι}
    (hnd : (a ++ e.1 :: b).Nodup) (hm : X.mover e.2.1 = true) :
    X.Turns (serial tr (a ++ e.1 :: b) ++ [e])
      (serial (tr ++ [⟨t, e, u⟩]) (a ++ e.1 :: b)) := by
  obtain ⟨-, hb, hdis⟩ := List.nodup_append.mp hnd
  have hna : e.1 ∉ a := fun ha => hdis _ ha _ List.mem_cons_self rfl
  have hnb : e.1 ∉ b := (List.nodup_cons.mp hb).1
  have hfront : X.Turns (serial tr b ++ [e]) (e :: serial tr b) := by
    refine hX.turns_front hG (hw.within b) (fun y hy hye => ?_) fun y _ => Or.inl hm
    exact hnb (hye ▸ (mem_serial.mp hy).1)
  have hin := hX.turns_last hfront (serial tr a ++ acts tr e.1)
  rw [serial_split, serial_split, serial_snoc (x := ⟨t, e, u⟩) hna,
    serial_snoc (x := ⟨t, e, u⟩) hnb, acts_snoc, if_pos rfl]
  simpa using hin

/-- At its turning point a program passes all that are not settled yet. -/
lemma turns_settle (hX : X.Commutes G) (hG : G e.2.1) (hw : Follows X G tr) {o r1 r2 : List ι}
    (he : e.1 ∉ o ++ (r1 ++ r2))
    (hme : ∀ y ∈ acts tr e.1, X.mover y.2.1 = true)
    (hmr : ∀ y ∈ serial tr (r1 ++ r2), X.mover y.2.1 = true) :
    X.Turns (serial tr o ++ serial tr r1 ++ acts tr e.1 ++ serial tr r2 ++ [e])
      (serial (tr ++ [⟨t, e, u⟩]) (o ++ [e.1] ++ (r1 ++ r2))) := by
  have hne : ∀ {is : List ι}, e.1 ∉ is → ∀ y ∈ serial tr is, y.1 ≠ e.1 :=
    fun his y hy hye => his (hye ▸ (mem_serial.mp hy).1)
  simp only [List.mem_append, not_or] at he
  obtain ⟨heo, he1, he2⟩ := he
  have her : e.1 ∉ r1 ++ r2 := by simp [he1, he2]
  have hblock : X.Turns (serial tr r1 ++ acts tr e.1) (acts tr e.1 ++ serial tr r1) :=
    hX.turns_block (hw.within_acts e.1) (hw.within r1) (fun y hy => (mem_acts.mp hy).1) (hne he1)
      fun y hy _ _ => Or.inl (hme y hy)
  have hfront : X.Turns (serial tr (r1 ++ r2) ++ [e]) (e :: serial tr (r1 ++ r2)) :=
    hX.turns_front hG (hw.within _) (hne her) fun y hy => Or.inr (hmr y hy)
  have hlast : Within G (serial tr r2 ++ [e]) := by
    intro y hy
    rcases List.mem_append.mp hy with hy | hy
    · exact hw.within r2 y hy
    · rw [List.mem_singleton.mp hy]
      exact hG
  have h1 := hX.turns_inside hblock (serial tr o) hlast
  have h2 := hX.turns_last hfront (serial tr o ++ acts tr e.1)
  have hend : serial (tr ++ [⟨t, e, u⟩]) (o ++ [e.1] ++ (r1 ++ r2)) =
      serial tr o ++ acts tr e.1 ++ (e :: serial tr (r1 ++ r2)) := by
    rw [List.append_assoc, List.singleton_append, serial_split,
      serial_snoc (x := ⟨t, e, u⟩) heo, serial_snoc (x := ⟨t, e, u⟩) her, acts_snoc, if_pos rfl]
    simp
  rw [hend]
  rw [serial_append] at h2 ⊢
  simp only [List.append_assoc] at h1 h2 ⊢
  exact hX.turns_trans h1 h2

/-- **One event later.** -/
theorem reduced_step (hX : X.Commutes G) (hset : Settled X.mover tr t)
    (hturn : turning X.mover e.1 (tr ++ [⟨t, e, u⟩]) ≤ 1) (hrun : (t.2 e.1).result = none)
    (hw : Follows X G (tr ++ [⟨t, e, u⟩])) (h : Reduced X s tr t rest) :
    ∃ rest', Reduced X s (tr ++ [⟨t, e, u⟩]) u rest' := by
  have hw' : Follows X G tr := fun x hx => hw x (List.mem_append_left _ hx)
  obtain ⟨hG, hsame, hsim⟩ := hw ⟨t, e, u⟩ (by simp)
  have hown : ∀ {i}, own i (tr ++ [⟨t, e, u⟩]) ≠ [] → i = e.1 ∨ own i tr ≠ [] := by
    intro i hi
    by_cases hei : e.1 = i
    · exact Or.inl hei.symm
    · rw [own_snoc, if_neg hei, List.append_nil] at hi
      exact Or.inr hi
  have hearly : ∀ i ∈ rest, turning X.mover i tr = 0 := by
    intro i hi
    exact hset.early i fun ho => (List.nodup_append.mp h.nodup).2.2 i ho i hi rfl
  by_cases hnew : settles X.mover ⟨t, e, u⟩ ∧ e.1 ∉ order X.mover tr
  · -- the program is settled: it goes to the end of the order
    have horder : order X.mover (tr ++ [⟨t, e, u⟩]) = order X.mover tr ++ [e.1] := by
      rw [order_snoc, if_pos hnew]
    obtain ⟨r1, r2, hrest, hnd, he⟩ : ∃ r1 r2 : List ι,
        serial tr rest = serial tr r1 ++ acts tr e.1 ++ serial tr r2 ∧
          (order X.mover tr ++ [e.1] ++ (r1 ++ r2)).Nodup ∧
            ∀ i ∈ rest, i = e.1 ∨ i ∈ r1 ++ r2 := by
      by_cases hin : e.1 ∈ rest
      · obtain ⟨r1, r2, hr⟩ := List.append_of_mem hin
        have hperm : (order X.mover tr ++ rest).Perm (order X.mover tr ++ [e.1] ++ (r1 ++ r2)) := by
          rw [hr, List.append_assoc]
          exact List.perm_middle.append_left _
        refine ⟨r1, r2, hr ▸ serial_split tr r1 r2, hperm.nodup_iff.mp h.nodup, fun i hi => ?_⟩
        rw [hr] at hi
        simp only [List.mem_append, List.mem_cons] at hi ⊢
        tauto
      · have hnone : own e.1 tr = [] := by
          by_contra hc
          rcases List.mem_append.mp (h.began _ hc) with hc | hc
          · exact hnew.2 hc
          · exact hin hc
        refine ⟨rest, [], by simp [acts_eq_nil hnone, serial], ?_, fun i hi => Or.inr (by simpa using hi)⟩
        have hperm : (order X.mover tr ++ [e.1] ++ (rest ++ [])).Perm
            (e.1 :: (order X.mover tr ++ rest)) := by
          rw [List.append_nil, List.append_assoc]
          exact List.perm_middle
        exact hperm.nodup_iff.mpr (List.nodup_cons.mpr ⟨by simp [hnew.2, hin], h.nodup⟩)
    have hsub : ∀ i ∈ r1 ++ r2, turning X.mover i tr = 0 := by
      intro i hi
      refine hset.early i fun ho => (List.nodup_append.mp hnd).2.2 i ?_ i hi rfl
      exact List.mem_append_left _ ho
    have hnot : e.1 ∉ order X.mover tr ++ (r1 ++ r2) := by
      have hperm : (order X.mover tr ++ [e.1] ++ (r1 ++ r2)).Perm
          (e.1 :: (order X.mover tr ++ (r1 ++ r2))) := by
        rw [List.append_assoc]
        exact List.perm_middle
      exact (List.nodup_cons.mp (hperm.nodup_iff.mp hnd)).1
    have hl := turns_settle (t := t) (u := u) hX hG hw' hnot
      (mover_of_early (hset.early _ hnew.2)) (mover_of_serial hsub)
    have hall : serial tr (order X.mover tr ++ rest) ++ [e] =
        serial tr (order X.mover tr) ++ serial tr r1 ++ acts tr e.1 ++ serial tr r2 ++ [e] := by
      rw [serial_append, hrest]
      simp
    rw [← hall] at hl
    obtain ⟨hf, hs⟩ := h.snoc hX hG hsame hsim hl
    refine ⟨r1 ++ r2, horder ▸ hnd, fun i hi => ?_, horder ▸ hf, horder ▸ hs⟩
    rw [horder]
    rcases hown hi with rfl | hi
    · simp
    · rcases List.mem_append.mp (h.began i hi) with ho | hr
      · simp [ho]
      · rcases he i hr with rfl | hr
        · simp
        · exact List.mem_append_right _ hr
  · -- the order stays as it is
    have horder : order X.mover (tr ++ [⟨t, e, u⟩]) = order X.mover tr := by
      rw [order_snoc, if_neg hnew]
    have hm : X.mover e.2.1 = true := by
      by_contra hm
      rw [Bool.not_eq_true] at hm
      by_cases ho : e.1 ∈ order X.mover tr
      · rw [turning_snoc, if_pos ⟨rfl, hm⟩] at hturn
        have := hset.past _ ho (by omega)
        simp [hrun] at this
      · exact hnew ⟨by simp [settles, hm], ho⟩
    by_cases hin : e.1 ∈ order X.mover tr ++ rest
    · obtain ⟨a, b, hab⟩ := List.append_of_mem hin
      have hl := turns_join (t := t) (u := u) hX hG hw' (hab ▸ h.nodup) hm
      rw [← hab] at hl
      obtain ⟨hf, hs⟩ := h.snoc hX hG hsame hsim hl
      refine ⟨rest, horder ▸ h.nodup, fun i hi => ?_, horder ▸ hf, horder ▸ hs⟩
      rw [horder]
      rcases hown hi with rfl | hi
      · exact hin
      · exact h.began i hi
    · have hnone : own e.1 tr = [] := by
        by_contra hc
        exact hin (h.began _ hc)
      have hsplit : serial (tr ++ [⟨t, e, u⟩]) (order X.mover tr ++ (rest ++ [e.1])) =
          serial tr (order X.mover tr ++ rest) ++ [e] := by
        rw [← List.append_assoc, serial_split, serial_snoc (x := ⟨t, e, u⟩) hin, acts_snoc,
          acts_eq_nil hnone, if_pos rfl]
        simp [serial]
      obtain ⟨hf, hs⟩ := h.snoc hX hG hsame hsim (hX.turns_refl _)
      refine ⟨rest ++ [e.1], ?_, fun i hi => ?_, ?_, ?_⟩
      · rw [horder, ← List.append_assoc]
        exact List.nodup_append.mpr ⟨h.nodup, List.nodup_singleton _, fun a ha b hb hab =>
          hin ((List.mem_singleton.mp hb) ▸ hab ▸ ha)⟩
      · rw [horder, ← List.append_assoc]
        rcases hown hi with rfl | hi
        · simp
        · exact List.mem_append_left _ (h.began i hi)
      · rw [horder, hsplit]
        exact hf
      · rw [horder, hsplit]
        exact hs

lemma reduced {c c' : Pool S σ α ι} (hX : X.Commutes G) (h : Path (turn R) c tr c')
    (hw : Follows X G tr) (hturn : ∀ i, turning X.mover i tr ≤ 1) :
    ∃ rest, Reduced X c.1 tr c' rest := by
  induction h with
  | nil => exact ⟨[], List.nodup_nil, fun _ hi => absurd rfl hi, trivial, hX.refl _⟩
  | @snoc tr t u e h he ih =>
    have hless : ∀ i, turning X.mover i tr ≤ 1 := by
      intro i
      have := hturn i
      rw [turning_snoc] at this
      omega
    obtain ⟨rest, hred⟩ := ih (fun x hx => hw x (List.mem_append_left _ hx)) hless
    obtain ⟨k, hk, -, -⟩ := he
    have hrun : (t.2 e.1).result = none := by rw [hk]; rfl
    exact reduced_step hX (settled h) (hturn e.1) hrun hw hred

/-! ### One program at a time -/

/-- The programs of the list run one at a time: what each returns, and the state at the end. -/
def one_by_one (X : Setting S σ ι) (p : ι → Prog S α) : List ι → σ → List (ι × α) × σ
  | [], s => ([], s)
  | i :: is, s =>
    let r := Prog.run (X.f i) (p i) s
    let rest := one_by_one X p is r.2
    ((i, r.1) :: rest.1, rest.2)

omit [DecidableEq ι] in
/-- A program whose events can be replayed does that when it runs alone. -/
lemma run_of_fits {i : ι} {p : Prog S α} {l : List (Event S)} {v : α} {s : σ}
    (h : Prog.Trace p l (.ret v)) (hb : Blind X.same p) (hf : X.Fits s (l.map fun e => (i, e))) :
    Prog.run (X.f i) p s = (v, X.replay s (l.map fun e => (i, e))) := by
  induction l generalizing p s with
  | nil =>
    cases h
    rfl
  | cons e l ih =>
    cases h with
    | @cons o b k _ _ h =>
      obtain ⟨hsame, hf⟩ := hf
      have hk : k b = k (X.f i s o).1 := hb.1 _ _ hsame
      rw [hk] at h
      exact ih h (hb.2 _) hf

lemma one_by_one_serial {p : ι → Prog S α} {v : ι → α} {is : List ι} {s : σ}
    (htrace : ∀ i ∈ is, Prog.Trace (p i) (own i tr) (.ret (v i))) (hb : ∀ i, Blind X.same (p i))
    (hf : X.Fits s (serial tr is)) :
    one_by_one X p is s = (is.map fun i => (i, v i), X.replay s (serial tr is)) := by
  induction is generalizing s with
  | nil => rfl
  | cons i is ih =>
    obtain ⟨hi, his⟩ := List.forall_mem_cons.mp htrace
    have hcons : serial tr (i :: is) = acts tr i ++ serial tr is := List.flatMap_cons
    rw [hcons, fits_append] at hf
    have hrun : Prog.run (X.f i) (p i) s = (v i, X.replay s (acts tr i)) :=
      run_of_fits hi (hb i) hf.1
    rw [hcons, replay_append, one_by_one, hrun]
    dsimp only
    rw [ih his hf.2]
    rfl

/-- **Reduction.** A run in which all programs that began have returned ends as if they had run
one at a time, each in one go, in the order in which they were settled. -/
theorem reduction {c c' : Pool S σ α ι} (hX : X.Commutes G) (h : Path (turn R) c tr c')
    (hw : Follows X G tr) (hturn : ∀ i, turning X.mover i tr ≤ 1) (hb : ∀ i, Blind X.same (c.2 i))
    {v : ι → α} (hdone : ∀ i, own i tr ≠ [] → c'.2 i = .ret (v i)) :
    (one_by_one X c.2 (order X.mover tr) c.1).1 = (order X.mover tr).map (fun i => (i, v i)) ∧
      X.sim (one_by_one X c.2 (order X.mover tr) c.1).2 c'.1 := by
  obtain ⟨rest, hred⟩ := reduced hX h hw hturn
  have hset : Settled X.mover tr c' := settled h
  have htrace : ∀ i ∈ order X.mover tr ++ rest, own i tr ≠ [] →
      Prog.Trace (c.2 i) (own i tr) (.ret (v i)) := by
    intro i _ hi
    rw [← hdone i hi]
    exact own_trace h i
  have hrest : serial tr rest = [] := by
    rw [serial, List.flatMap_eq_nil_iff]
    intro i hi
    refine acts_eq_nil ?_
    by_contra hown
    have ho := hset.ended i hown (by rw [hdone i hown]; rfl)
    exact (List.nodup_append.mp hred.nodup).2.2 i ho i hi rfl
  have hfits := hred.fits
  have hends := hred.ends
  rw [serial_append, hrest, List.append_nil] at hfits hends
  have hone := one_by_one_serial (v := v)
    (fun i hi => htrace i (List.mem_append_left _ hi) (hset.began i hi)) hb hfits
  rw [hone]
  exact ⟨rfl, hends⟩

/-- Every program that began and has returned is in the order, and no other. -/
lemma mem_order {c c' : Pool S σ α ι} (h : Path (turn R) c tr c') {v : ι → α}
    (hdone : ∀ i, own i tr ≠ [] → c'.2 i = .ret (v i)) (i : ι) :
    i ∈ order mover tr ↔ own i tr ≠ [] :=
  ⟨(settled h).began i, fun hi => (settled h).ended i hi (by rw [hdone i hi]; rfl)⟩

end Lookout.Movers

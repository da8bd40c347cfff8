import Mathlib.Data.List.AList
import Mathlib.Data.List.MinMax

/-!
Longest-prefix matching, over any keys that cover points and have a length.

A lookup sees one stored key only, the longest that covers the point. Whether the value it
finds has a property, and whether some stored key that covers the point has it, are two
questions; they differ exactly where a longer key without the property shadows a shorter one
that has it.
-/

namespace Lookout.Lpm

/-- Keys that cover points. Of the keys of one length at most one covers a given point. -/
class Covering (K A : Type) where
  covers : K → A → Bool
  len : K → ℕ
  eq_of_len : ∀ {k k' a}, covers k a → covers k' a → len k = len k' → k = k'

open Covering

variable {K A V : Type} [DecidableEq K] [Covering K A]

abbrev Store (K V : Type) := AList fun _ : K => V

/-- The stored key that covers `a` and is at least as long as the others that do, with its
value. -/
def find (m : Store K V) (a : A) : Option (K × V) :=
  ((m.entries.filter fun e => covers e.1 a).argmax fun e => len A e.1).map fun e => (e.1, e.2)

/-- No stored key that covers `a` is longer than `k`. -/
def Longest (m : Store K V) (a : A) (k : K) : Prop :=
  ∀ k' ∈ m, covers k' a → len A k' ≤ len A k

lemma mem_entries {m : Store K V} {e : (_ : K) × V} : e ∈ m.entries ↔ m.lookup e.1 = some e.2 := by
  rw [← Option.mem_def, AList.mem_lookup_iff]

lemma mem_of_lookup {m : Store K V} {k : K} {v : V} (h : m.lookup k = some v) : k ∈ m := by
  rw [← AList.lookup_isSome, h]; rfl

lemma lookup_of_mem {m : Store K V} {k : K} (h : k ∈ m) : ∃ v, m.lookup k = some v := by
  rwa [← AList.lookup_isSome, Option.isSome_iff_exists] at h

lemma find_none {m : Store K V} {a : A} : find m a = none ↔ ∀ k ∈ m, ¬ covers k a := by
  simp only [find, Option.map_eq_none_iff, List.argmax_eq_none, List.filter_eq_nil_iff]
  constructor
  · intro h k hk
    obtain ⟨v, hv⟩ := lookup_of_mem hk
    exact h ⟨k, v⟩ (mem_entries.mpr hv)
  · exact fun h e he => h e.1 (mem_of_lookup (mem_entries.mp he))

lemma find_some_imp {m : Store K V} {a : A} {k : K} {v : V} (h : find m a = some (k, v)) :
    m.lookup k = some v ∧ covers k a ∧ Longest m a k := by
  simp only [find, Option.map_eq_some_iff, Prod.mk.injEq] at h
  obtain ⟨⟨k, v⟩, he, rfl, rfl⟩ := h
  have hmem := List.argmax_mem he
  rw [List.mem_filter] at hmem
  refine ⟨mem_entries.mp hmem.1, hmem.2, fun k' hk' hc => ?_⟩
  obtain ⟨v', hv'⟩ := lookup_of_mem hk'
  have hin : (⟨k', v'⟩ : (_ : K) × V) ∈ m.entries.filter fun e => covers e.1 a := by
    rw [List.mem_filter]
    exact ⟨mem_entries.mpr hv', hc⟩
  exact List.le_of_mem_argmax (f := fun e : (_ : K) × V => len A e.1) hin he

/-- **What a lookup returns**: the stored key that covers the point and has no longer rival. -/
theorem find_some {m : Store K V} {a : A} {k : K} {v : V} :
    find m a = some (k, v) ↔ m.lookup k = some v ∧ covers k a ∧ Longest m a k := by
  refine ⟨find_some_imp, fun ⟨hv, hc, hl⟩ => ?_⟩
  cases hf : find m a with
  | none => exact absurd hc (find_none.mp hf k (mem_of_lookup hv))
  | some e =>
    obtain ⟨k', v'⟩ := e
    obtain ⟨hv', hc', hl'⟩ := find_some_imp hf
    have hlen : len A k = len A k' :=
      le_antisymm (hl' k (mem_of_lookup hv) hc) (hl k' (mem_of_lookup hv') hc')
    obtain rfl : k = k' := eq_of_len hc hc' hlen
    rw [hv] at hv'
    rw [Option.some.inj hv']

/-! ### Updates -/

lemma find_insert {m : Store K V} {a : A} {k : K} {v : V} (hc : covers k a)
    (hl : Longest m a k) : find (m.insert k v) a = some (k, v) := by
  refine find_some.mpr ⟨AList.lookup_insert m, hc, fun k' hk' hc' => ?_⟩
  rcases (AList.mem_insert m).mp hk' with rfl | hk'
  · exact le_rfl
  · exact hl k' hk' hc'

lemma find_insert_of_not_covers {m : Store K V} {a : A} {k : K} {v : V} (hc : ¬ covers k a) :
    find (m.insert k v) a = find m a := by
  cases hf : find m a with
  | none =>
    rw [find_none] at hf ⊢
    intro k' hk'
    rcases (AList.mem_insert m).mp hk' with rfl | hk'
    · exact hc
    · exact hf k' hk'
  | some e =>
    obtain ⟨k', v'⟩ := e
    obtain ⟨hv', hc', hl'⟩ := find_some.mp hf
    have hne : k' ≠ k := by rintro rfl; exact hc hc'
    refine find_some.mpr ⟨by rw [AList.lookup_insert_ne hne, hv'], hc', fun k'' hk'' hc'' => ?_⟩
    rcases (AList.mem_insert m).mp hk'' with rfl | hk''
    · exact absurd hc'' hc
    · exact hl' k'' hk'' hc''

/-! ### What a lookup sees of the values -/

/-- The stores have the same keys, with values that look alike through `f`. -/
def Alike {D : Type} (f : V → D) (m m' : Store K V) : Prop :=
  ∀ k, (m'.lookup k).map f = (m.lookup k).map f

lemma Alike.mem_iff {D : Type} {f : V → D} {m m' : Store K V} (h : Alike f m m') {k : K} :
    k ∈ m' ↔ k ∈ m := by
  rw [← AList.lookup_isSome, ← AList.lookup_isSome]
  have hk := congrArg Option.isSome (h k)
  rw [Option.isSome_map, Option.isSome_map] at hk
  rw [hk]

/-- **A lookup sees no more of the values than `f` does.** -/
theorem find_alike {D : Type} {f : V → D} {m m' : Store K V} (h : Alike f m m') (a : A) :
    (find m' a).map (fun e => f e.2) = (find m a).map fun e => f e.2 := by
  cases hf : find m a with
  | none =>
    have hnone : find m' a = none :=
      find_none.mpr fun k hk => find_none.mp hf k (h.mem_iff.mp hk)
    rw [hnone]
  | some e =>
    obtain ⟨k, v⟩ := e
    obtain ⟨hv, hc, hl⟩ := find_some.mp hf
    have hk := h k
    rw [hv, Option.map_some, Option.map_eq_some_iff] at hk
    obtain ⟨v', hv', hfv⟩ := hk
    have hl' : Longest m' a k := fun k' hk' => hl k' (h.mem_iff.mp hk')
    rw [find_some.mpr ⟨hv', hc, hl'⟩]
    exact congrArg some hfv

/-- The key that answers is the same one. -/
lemma find_alike_key {D : Type} {f : V → D} {m m' : Store K V} (h : Alike f m m') (a : A) :
    (find m' a).map (fun e => (e.1, f e.2)) = (find m a).map fun e => (e.1, f e.2) := by
  cases hf : find m a with
  | none =>
    have hnone : find m' a = none :=
      find_none.mpr fun k hk => find_none.mp hf k (h.mem_iff.mp hk)
    rw [hnone]
  | some e =>
    obtain ⟨k, v⟩ := e
    obtain ⟨hv, hc, hl⟩ := find_some.mp hf
    have hk := h k
    rw [hv, Option.map_some, Option.map_eq_some_iff] at hk
    obtain ⟨v', hv', hfv⟩ := hk
    have hl' : Longest m' a k := fun k' hk' => hl k' (h.mem_iff.mp hk')
    rw [find_some.mpr ⟨hv', hc, hl'⟩, Option.map_some, Option.map_some, hfv]

/-! ### One answer against all entries -/

/-- Some stored key that covers `a` has a value with `P`. -/
def Holds (m : Store K V) (a : A) (P : V → Prop) : Prop :=
  ∃ k v, m.lookup k = some v ∧ covers k a ∧ P v

/-- The longest stored key that covers `a` has a value without `P`, and some shorter one has a
value with it. -/
def Shadowed (m : Store K V) (a : A) (P : V → Prop) : Prop :=
  (∃ k v, m.lookup k = some v ∧ covers k a ∧ Longest m a k ∧ ¬ P v) ∧ Holds m a P

lemma holds_of_find {m : Store K V} {a : A} {P : V → Prop} {k : K} {v : V}
    (h : find m a = some (k, v)) (hP : P v) : Holds m a P := by
  obtain ⟨hv, hc, -⟩ := find_some.mp h
  exact ⟨k, v, hv, hc, hP⟩

/-- **The answer speaks for all entries exactly when nothing is shadowed.** -/
theorem find_iff_holds (m : Store K V) (a : A) (P : V → Prop) :
    ((∃ k v, find m a = some (k, v) ∧ P v) ↔ Holds m a P) ↔ ¬ Shadowed m a P := by
  constructor
  · rintro h ⟨⟨k, v, hv, hc, hl, hn⟩, hh⟩
    obtain ⟨k', v', hf, hP⟩ := h.mpr hh
    rw [find_some.mpr ⟨hv, hc, hl⟩] at hf
    cases hf
    exact hn hP
  · intro h
    refine ⟨fun ⟨k, v, hf, hP⟩ => holds_of_find hf hP, fun hh => ?_⟩
    cases hf : find m a with
    | none =>
      obtain ⟨k, v, hv, hc, -⟩ := hh
      exact absurd hc (find_none.mp hf k (mem_of_lookup hv))
    | some e =>
      obtain ⟨k, v⟩ := e
      obtain ⟨hv, hc, hl⟩ := find_some.mp hf
      refine ⟨k, v, rfl, ?_⟩
      by_contra hn
      exact h ⟨⟨k, v, hv, hc, hl, hn⟩, hh⟩

end Lookout.Lpm

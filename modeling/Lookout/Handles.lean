import Mathlib.Data.List.AList

/-!
A map that hands out references to its values.

A lookup gives a reference, and the value is read and written through it later. Removing a
key takes it out of the index only: whoever still holds the reference goes on using a cell
that no key leads to. Two keys never share a cell.
-/

namespace Lookout.Handles

structure RefMap (K V : Type) [DecidableEq K] where
  index : AList fun _ : K => ℕ
  heap : List V
  lt : ∀ {k r}, index.lookup k = some r → r < heap.length
  inj : ∀ {k k' r}, index.lookup k = some r → index.lookup k' = some r → k = k'

variable {K V : Type} [DecidableEq K]

namespace RefMap

def empty : RefMap K V where
  index := ∅
  heap := []
  lt h := by simp at h
  inj h := by simp at h

def find (m : RefMap K V) (k : K) : Option ℕ := m.index.lookup k

def deref (m : RefMap K V) (r : ℕ) : Option V := m.heap[r]?

def get (m : RefMap K V) (k : K) : Option V := (m.find k).bind m.deref

def size (m : RefMap K V) : ℕ := m.index.keys.length

/-- A new cell for `k`. -/
def insert (m : RefMap K V) (k : K) (v : V) : RefMap K V where
  index := m.index.insert k m.heap.length
  heap := m.heap ++ [v]
  lt := by
    intro k' r h
    rw [List.length_append, List.length_singleton]
    by_cases hk : k' = k
    · subst hk
      rw [AList.lookup_insert] at h
      cases h; omega
    · rw [AList.lookup_insert_ne hk] at h
      have := m.lt h
      omega
  inj := by
    intro k1 k2 r h1 h2
    by_cases hk1 : k1 = k <;> by_cases hk2 : k2 = k
    · rw [hk1, hk2]
    · subst hk1
      rw [AList.lookup_insert] at h1
      rw [AList.lookup_insert_ne hk2] at h2
      have := m.lt h2
      cases h1; omega
    · subst hk2
      rw [AList.lookup_insert] at h2
      rw [AList.lookup_insert_ne hk1] at h1
      have := m.lt h1
      cases h2; omega
    · rw [AList.lookup_insert_ne hk1] at h1
      rw [AList.lookup_insert_ne hk2] at h2
      exact m.inj h1 h2

def erase (m : RefMap K V) (k : K) : RefMap K V where
  index := m.index.erase k
  heap := m.heap
  lt := by
    intro k' r h
    by_cases hk : k' = k
    · subst hk; simp at h
    · rw [AList.lookup_erase_ne hk] at h; exact m.lt h
  inj := by
    intro k1 k2 r h1 h2
    by_cases hk1 : k1 = k
    · subst hk1; simp at h1
    by_cases hk2 : k2 = k
    · subst hk2; simp at h2
    rw [AList.lookup_erase_ne hk1] at h1
    rw [AList.lookup_erase_ne hk2] at h2
    exact m.inj h1 h2

/-- Writing through a reference. -/
def set (m : RefMap K V) (r : ℕ) (v : V) : RefMap K V where
  index := m.index
  heap := m.heap.set r v
  lt h := by rw [List.length_set]; exact m.lt h
  inj := m.inj

@[simp] lemma find_set (m : RefMap K V) (r : ℕ) (v : V) (k : K) :
    (m.set r v).find k = m.find k := rfl

@[simp] lemma find_insert (m : RefMap K V) (k : K) (v : V) :
    (m.insert k v).find k = some m.heap.length := AList.lookup_insert _

lemma find_insert_ne (m : RefMap K V) {k k' : K} (v : V) (h : k' ≠ k) :
    (m.insert k v).find k' = m.find k' := AList.lookup_insert_ne h

/-- Only a reference that was not there yet is new. -/
lemma deref_insert (m : RefMap K V) (k : K) (v : V) {r : ℕ} (h : r < m.heap.length) :
    (m.insert k v).deref r = m.deref r := by
  simp [deref, insert, List.getElem?_append_left h]

lemma size_insert {m : RefMap K V} {k : K} (v : V) (h : m.find k = none) :
    (m.insert k v).size = m.size + 1 := by
  have hk : k ∉ m.index.keys := fun hk => AList.lookup_eq_none.mp h (AList.mem_keys.mpr hk)
  change (m.index.insert k _).keys.length = m.index.keys.length + 1
  rw [AList.keys_insert, List.length_cons, List.erase_of_not_mem hk]

lemma deref_of_find {m : RefMap K V} {k : K} {r : ℕ} (h : m.find k = some r) :
    ∃ v, m.deref r = some v :=
  ⟨_, List.getElem?_eq_getElem (m.lt h)⟩

lemma get_eq {m : RefMap K V} {k : K} {r : ℕ} (h : m.find k = some r) :
    m.get k = m.deref r := by
  rw [get, h]; rfl

@[simp] lemma get_eq_none {m : RefMap K V} {k : K} : m.get k = none ↔ m.find k = none := by
  constructor
  · intro h
    cases hf : m.find k with
    | none => rfl
    | some r =>
      obtain ⟨v, hv⟩ := deref_of_find hf
      rw [get_eq hf, hv] at h
      cases h
  · intro h; rw [get, h]; rfl

@[simp] lemma get_insert (m : RefMap K V) (k : K) (v : V) : (m.insert k v).get k = some v := by
  rw [get_eq (find_insert m k v), deref, insert]
  simp

lemma get_insert_ne (m : RefMap K V) {k k' : K} (v : V) (h : k' ≠ k) :
    (m.insert k v).get k' = m.get k' := by
  unfold get
  rw [find_insert_ne m v h]
  cases hf : m.find k' with
  | none => rfl
  | some r => exact deref_insert m k v (m.lt hf)

@[simp] lemma get_erase (m : RefMap K V) (k : K) : (m.erase k).get k = none := by
  rw [get_eq_none]
  exact AList.lookup_erase k m.index

/-- What is left after a deletion was there before. -/
lemma find_of_erase {m : RefMap K V} {k k' : K} {r : ℕ} (h : (m.erase k).find k' = some r) :
    m.find k' = some r := by
  by_cases hk : k' = k
  · subst hk
    rw [find, erase, AList.lookup_erase] at h
    cases h
  · rwa [find, erase, AList.lookup_erase_ne hk] at h

lemma get_erase_ne (m : RefMap K V) {k k' : K} (h : k' ≠ k) : (m.erase k).get k' = m.get k' := by
  unfold get find erase
  rw [AList.lookup_erase_ne h]
  rfl

lemma deref_set (m : RefMap K V) {r : ℕ} {v w : V} (h : m.deref r = some w) :
    (m.set r v).deref r = some v := by
  have hr : r < m.heap.length := (List.getElem?_eq_some_iff.mp h).1
  simp [deref, set, hr]

lemma deref_set_ne (m : RefMap K V) {r r' : ℕ} (v : V) (h : r ≠ r') :
    (m.set r v).deref r' = m.deref r' := by
  simp [deref, set, List.getElem?_set_ne h]

lemma get_set (m : RefMap K V) {k : K} {r : ℕ} (v : V) (h : m.find k = some r) :
    (m.set r v).get k = some v := by
  obtain ⟨w, hw⟩ := deref_of_find h
  rw [get_eq (m := m.set r v) h, deref_set m hw]

lemma get_set_ne (m : RefMap K V) {k : K} {r : ℕ} (v : V) (h : m.find k ≠ some r) :
    (m.set r v).get k = m.get k := by
  unfold get
  rw [find_set]
  cases hf : m.find k with
  | none => rfl
  | some r' =>
    have hne : r ≠ r' := by rintro rfl; exact h hf
    exact deref_set_ne m v hne

end RefMap

end Lookout.Handles

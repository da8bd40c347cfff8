import Mathlib.Algebra.Ring.Nat
import Mathlib.Data.List.AList

/-!
Dictionaries: finite maps whose keys stand in an order and occur once.
-/

namespace Lookout.Dicts

abbrev Dict (K V : Type) := AList fun _ : K => V

variable {K V W : Type}

namespace Dict

/-- The values that `f` keeps, in the same order. -/
def filterMap (f : K → V → Option W) (d : Dict K V) : Dict K W where
  entries := d.entries.filterMap fun e => (f e.1 e.2).map fun w => ⟨e.1, w⟩
  nodupKeys := by
    have hsub : (d.entries.filterMap fun e =>
        (f e.1 e.2).map fun w => (⟨e.1, w⟩ : (_ : K) × W)).keys.Sublist d.entries.keys := by
      induction d.entries with
      | nil => exact .slnil
      | cons e l ih =>
        rw [List.filterMap_cons]
        cases f e.1 e.2 with
        | none => exact ih.cons _
        | some w => exact ih.cons_cons _
    exact hsub.nodup d.nodupKeys

/-- `d.items()`. -/
def items (d : Dict K V) : List (K × V) := d.entries.map fun e => (e.1, e.2)

/-- The sum of the values. -/
def total (d : Dict K ℕ) : ℕ := (d.items.map Prod.snd).sum

lemma total_eq (d : Dict K ℕ) : d.total = (d.entries.map Sigma.snd).sum := by
  unfold total items
  rw [List.map_map]
  rfl

variable [DecidableEq K]

/-- The dictionary of items with different keys, in their order. -/
def ofItems (l : List (K × V)) : Dict K V := l.foldr (fun e d => d.insert e.1 e.2) ∅

lemma ofItems_items (d : Dict K V) : ofItems d.items = d := by
  obtain ⟨l, hl⟩ := d
  unfold items ofItems
  induction l with
  | nil => rfl
  | cons e l ih =>
    obtain ⟨hk, hl'⟩ := List.nodupKeys_cons.mp hl
    simp only [List.map_cons, List.foldr_cons] at ih ⊢
    rw [ih hl']
    exact AList.insert_of_notMem hk

lemma mem_items {d : Dict K V} {k : K} {v : V} : (k, v) ∈ d.items ↔ d.lookup k = some v := by
  rw [← Option.mem_def, AList.mem_lookup_iff]
  simp [items]

omit [DecidableEq K] in
lemma map_fst_items (d : Dict K V) : d.items.map Prod.fst = d.keys := by
  rw [items, List.map_map]
  rfl

/-- `d.get(k, v)`. -/
def getD (d : Dict K V) (k : K) (v : V) : V := (d.lookup k).getD v

lemma getD_congr {d d' : Dict K V} {k : K} (h : d'.lookup k = d.lookup k) (v : V) :
    d'.getD k v = d.getD k v :=
  congrArg (Option.getD · v) h

@[simp] lemma getD_insert (d : Dict K V) (k : K) (v v0 : V) :
    Dict.getD (d.insert k v) k v0 = v := by
  unfold getD
  rw [AList.lookup_insert, Option.getD_some]

lemma getD_insert_ne (d : Dict K V) {k k' : K} (v v0 : V) (h : k' ≠ k) :
    Dict.getD (d.insert k v) k' v0 = d.getD k' v0 :=
  getD_congr (AList.lookup_insert_ne h) v0

lemma dlookup_filterMap (f : K → V → Option W) (k : K) (l : List ((_ : K) × V))
    (hl : l.NodupKeys) :
    (l.filterMap fun e => (f e.1 e.2).map fun w => (⟨e.1, w⟩ : (_ : K) × W)).dlookup k =
      (l.dlookup k).bind (f k) := by
  induction l with
  | nil => rfl
  | cons e l ih =>
    obtain ⟨k', v⟩ := e
    have hl' := List.nodupKeys_cons.mp hl
    by_cases hk : k = k'
    · subst hk
      rw [List.dlookup_cons_eq, Option.bind_some, List.filterMap_cons]
      cases hf : f k v with
      | some w => simp
      | none =>
        have hnone : List.dlookup k l = none := List.dlookup_eq_none.mpr hl'.1
        have h := ih hl'.2
        rw [hnone] at h
        simpa [hf] using h
    · rw [List.dlookup_cons_ne _ _ hk, List.filterMap_cons, ← ih hl'.2]
      cases hf : f k' v with
      | some w => exact List.dlookup_cons_ne _ (⟨k', w⟩ : (_ : K) × W) hk
      | none => simp

lemma lookup_filterMap (f : K → V → Option W) (d : Dict K V) (k : K) :
    (d.filterMap f).lookup k = (d.lookup k).bind (f k) :=
  dlookup_filterMap f k d.entries d.nodupKeys

/-! ### Deleting keys one after the other -/

def eraseAll (d : Dict K V) (ks : List K) : Dict K V := ks.foldl (fun d k => d.erase k) d

lemma lookup_eraseAll (d : Dict K V) (ks : List K) (k : K) :
    (eraseAll d ks).lookup k = if k ∈ ks then none else d.lookup k := by
  induction ks generalizing d with
  | nil => simp [eraseAll]
  | cons k' ks ih =>
    have hcons : eraseAll d (k' :: ks) = eraseAll (d.erase k') ks := rfl
    rw [hcons, ih]
    by_cases hk : k = k'
    · subst hk
      simp
    · simp [hk]

lemma eq_empty {d : Dict K V} (h : ∀ k, d.lookup k = none) : d = ∅ := by
  apply AList.ext
  rw [AList.empty_entries, List.eq_nil_iff_forall_not_mem]
  intro e he
  have hmem : (e.1, e.2) ∈ d.items := List.mem_map.mpr ⟨e, he, rfl⟩
  rw [mem_items, h] at hmem
  cases hmem

/-- **Deleting every key leaves nothing.** -/
theorem eraseAll_keys {d : Dict K V} {ks : List K} (h : ∀ k, k ∈ ks ↔ k ∈ d) :
    eraseAll d ks = ∅ := by
  apply eq_empty
  intro k
  rw [lookup_eraseAll]
  split_ifs with hk
  · rfl
  · rw [h] at hk
    exact AList.lookup_eq_none.mpr hk

lemma eraseAll_items (d : Dict K V) : eraseAll d (d.items.map Prod.fst) = ∅ := by
  apply eraseAll_keys
  intro k
  rw [map_fst_items, AList.mem_keys]

/-! ### Totals -/

/-- What the values of a list of different keys come to, the value at `k` apart. -/
lemma sum_map_kerase (f : V → ℕ) (k : K) {l : List ((_ : K) × V)} (hl : l.NodupKeys) :
    (l.map fun e => f e.2).sum =
      ((l.dlookup k).map f).getD 0 + ((l.kerase k).map fun e => f e.2).sum := by
  induction l with
  | nil => rfl
  | cons e l ih =>
    obtain ⟨k', v⟩ := e
    obtain ⟨-, hl'⟩ := List.nodupKeys_cons.mp hl
    by_cases hk : k = k'
    · subst hk
      have hself : List.kerase k (⟨k, v⟩ :: l) = l := List.kerase_cons_eq rfl
      rw [List.dlookup_cons_eq, hself, List.map_cons, List.sum_cons]
      rfl
    · rw [List.dlookup_cons_ne _ _ hk, List.kerase_cons_ne hk, List.map_cons, List.map_cons,
        List.sum_cons, List.sum_cons, ih hl']
      omega

lemma sum_kerase (k : K) {l : List ((_ : K) × ℕ)} (hl : l.NodupKeys) :
    (l.map Sigma.snd).sum = (l.dlookup k).getD 0 + ((l.kerase k).map Sigma.snd).sum := by
  have hsum := sum_map_kerase (fun v : ℕ => v) k hl
  rwa [Option.map_id'] at hsum

/-- `d[k] = d.get(k, 0) + 1`. -/
lemma total_count (d : Dict K ℕ) (k : K) :
    Dict.total (d.insert k (d.getD k 0 + 1)) = d.total + 1 := by
  have hsum := sum_kerase k d.nodupKeys
  have hget : (d.entries.dlookup k).getD 0 = d.getD k 0 := rfl
  rw [total_eq, total_eq, AList.entries_insert, List.map_cons, List.sum_cons]
  dsimp only
  omega

end Dict

end Lookout.Dicts

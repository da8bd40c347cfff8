import Mathlib.Algebra.Ring.Nat
import Mathlib.Data.List.Basic
import Mathlib.Data.List.GetD
import Mathlib.Data.Nat.ModEq
import Mathlib.Tactic.Common

/-!
One's-complement sums over bytes, in either byte order, and writes into the bytes summed.

The sum adds 16-bit words and brings each carry round to the other end. It is the ordinary sum
modulo 65535, with two names for zero: an empty sum is 0, and any other multiple of 65535 is
0xffff. Swapping the bytes of every word multiplies by 256, which is why a check comes out the same
in both orders.
-/

namespace Lookout.OnesComplement

inductive Order
  | little
  | big

/-- The value of two bytes, as a machine of this order reads them. -/
def word : Order → BitVec 8 → BitVec 8 → ℕ
  | .little, a, b => a.toNat + 256 * b.toNat
  | .big, a, b => 256 * a.toNat + b.toNat

/-- The 16-bit words of some bytes; a last odd byte is padded with zero. -/
def words (o : Order) : List (BitVec 8) → List ℕ
  | [] => []
  | [a] => [word o a 0]
  | a :: b :: l => word o a b :: words o l

/-- The sum of two words, with the carry brought round. -/
def add (x y : ℕ) : ℕ := if x + y < 65536 then x + y else x + y - 65535

def total (ws : List ℕ) : ℕ := ws.foldl add 0

/-- Bytes with a right checksum among them, in network order. -/
def Valid (l : List (BitVec 8)) : Prop := total (words .big l) = 0xffff

instance (l : List (BitVec 8)) : Decidable (Valid l) := inferInstanceAs (Decidable (_ = _))

/-- The ordinary sum. -/
def sum (o : Order) (l : List (BitVec 8)) : ℕ := (words o l).sum

/-! ### The sum modulo 65535 -/

lemma word_lt (o : Order) (a b : BitVec 8) : word o a b < 65536 := by
  have ha := a.isLt
  have hb := b.isLt
  cases o <;> simp only [word] <;> omega

lemma lt_of_mem_words {o : Order} {l : List (BitVec 8)} {x : ℕ} (h : x ∈ words o l) :
    x < 65536 := by
  induction l using words.induct with
  | case1 => simp [words] at h
  | case2 a =>
    rw [words, List.mem_singleton] at h
    rw [h]
    exact word_lt o a 0
  | case3 a b l ih =>
    rw [words, List.mem_cons] at h
    rcases h with rfl | h
    · exact word_lt o a b
    · exact ih h

/-- One step of the sum: it keeps the range, the residue, and which sums are empty. -/
lemma add_spec {x y : ℕ} (hx : x < 65536) (hy : y < 65536) :
    add x y < 65536 ∧ add x y % 65535 = (x + y) % 65535 ∧ (add x y = 0 ↔ x + y = 0) := by
  unfold add
  split_ifs <;> omega

lemma foldl_add_spec {ws : List ℕ} (hws : ∀ x ∈ ws, x < 65536) {x : ℕ} (hx : x < 65536) :
    ws.foldl add x < 65536 ∧ ws.foldl add x % 65535 = (x + ws.sum) % 65535 ∧
      (ws.foldl add x = 0 ↔ x + ws.sum = 0) := by
  induction ws generalizing x with
  | nil => simp [hx]
  | cons y ws ih =>
    obtain ⟨hlt, hmod, hzero⟩ := add_spec hx (hws y List.mem_cons_self)
    obtain ⟨hlt', hmod', hzero'⟩ := ih (fun z hz => hws z (List.mem_cons_of_mem y hz)) hlt
    rw [List.foldl_cons, List.sum_cons]
    omega

/-- The two zeros told apart: a right checksum makes the sum a positive multiple of 65535. -/
theorem total_eq_iff {ws : List ℕ} (hws : ∀ x ∈ ws, x < 65536) :
    total ws = 0xffff ↔ 0 < ws.sum ∧ 65535 ∣ ws.sum := by
  obtain ⟨hlt, hmod, hzero⟩ := foldl_add_spec hws (x := 0) (by omega)
  unfold total
  omega

/-! ### Byte order -/

lemma sum_cons_cons (o : Order) (a b : BitVec 8) (l : List (BitVec 8)) :
    sum o (a :: b :: l) = word o a b + sum o l := by
  rw [sum, words, List.sum_cons]
  rfl

/-- Swapping the bytes of every word multiplies the sum by 256. -/
lemma sum_swap (l : List (BitVec 8)) : 256 * sum .little l % 65535 = sum .big l % 65535 := by
  induction l using words.induct with
  | case1 => rfl
  | case2 a =>
    simp only [sum, words, word, List.sum_cons, List.sum_nil]
    omega
  | case3 a b l ih =>
    rw [sum_cons_cons, sum_cons_cons]
    simp only [word]
    omega

lemma sum_eq_zero_iff (l : List (BitVec 8)) : sum .little l = 0 ↔ sum .big l = 0 := by
  induction l using words.induct with
  | case1 => rfl
  | case2 a => simp [sum, words, word]
  | case3 a b l ih =>
    rw [sum_cons_cons, sum_cons_cons]
    simp only [word]
    omega

/-- **A check can be made in the order of the machine.** -/
theorem valid_iff (o : Order) (l : List (BitVec 8)) :
    Valid l ↔ 0 < sum o l ∧ 65535 ∣ sum o l := by
  have hbig : Valid l ↔ 0 < sum .big l ∧ 65535 ∣ sum .big l :=
    total_eq_iff fun _ hx => lt_of_mem_words hx
  cases o with
  | big => exact hbig
  | little =>
    have hswap := sum_swap l
    have hzero := sum_eq_zero_iff l
    rw [hbig]
    omega

/-! ### Parts -/

lemma sum_append (o : Order) {l : List (BitVec 8)} (h : l.length % 2 = 0) (l' : List (BitVec 8)) :
    sum o (l ++ l') = sum o l + sum o l' := by
  induction l using words.induct with
  | case1 => simp [sum, words]
  | case2 a => simp at h
  | case3 a b l ih =>
    have hl : l.length % 2 = 0 := by
      simp only [List.length_cons] at h
      omega
    rw [List.cons_append, List.cons_append, sum_cons_cons, sum_cons_cons, ih hl]
    omega

/-- Writing bytes over those from `i` on. -/
def splice (i : ℕ) (new l : List (BitVec 8)) : List (BitVec 8) :=
  l.take i ++ (new ++ l.drop (i + new.length))

variable {i : ℕ} {new l : List (BitVec 8)}

lemma length_splice (h : i + new.length ≤ l.length) : (splice i new l).length = l.length := by
  simp only [splice, List.length_append, List.length_take, List.length_drop]
  omega

lemma getElem?_splice (h : i + new.length ≤ l.length) (j : ℕ) :
    (splice i new l)[j]? = if i ≤ j ∧ j < i + new.length then new[j - i]? else l[j]? := by
  have htake : (l.take i).length = i := by
    rw [List.length_take]
    omega
  rw [splice]
  by_cases h1 : j < i
  · rw [List.getElem?_append_left (by omega), List.getElem?_take, if_pos h1, if_neg (by omega)]
  · rw [List.getElem?_append_right (by omega), htake]
    by_cases h2 : j < i + new.length
    · rw [List.getElem?_append_left (by omega), if_pos (by omega)]
    · rw [List.getElem?_append_right (by omega), List.getElem?_drop, if_neg (by omega)]
      congr 1
      omega

/-- What a write does to the sum: the old bytes go and the new ones come. -/
theorem sum_splice (o : Order) (hi : i % 2 = 0) (hnew : new.length % 2 = 0)
    (h : i + new.length ≤ l.length) :
    sum o (splice i new l) + sum o ((l.drop i).take new.length) = sum o l + sum o new := by
  have hold : l = l.take i ++ ((l.drop i).take new.length ++ l.drop (i + new.length)) := by
    rw [← List.drop_drop, List.take_append_drop, List.take_append_drop]
  have htake : (l.take i).length % 2 = 0 := by
    rw [List.length_take]
    omega
  have hmid : ((l.drop i).take new.length).length % 2 = 0 := by
    rw [List.length_take, List.length_drop]
    omega
  have hsum := congrArg (sum o) hold
  rw [sum_append o htake, sum_append o hmid] at hsum
  rw [splice, sum_append o htake, sum_append o hnew]
  omega

/-- The bytes `a .. a + b`. -/
def window (l : List (BitVec 8)) (a b : ℕ) : List (BitVec 8) := (l.drop a).take b

lemma length_window {a b : ℕ} (h : a + b ≤ l.length) : (window l a b).length = b := by
  rw [window, List.length_take, List.length_drop]
  omega

lemma window_cons {a : ℕ} (b : ℕ) (h : a < l.length) :
    window l a (b + 1) = l.getD a 0 :: window l (a + 1) b := by
  rw [window, List.drop_eq_getElem_cons h, List.take_succ_cons, List.getD_eq_getElem l 0 h]
  rfl

lemma getD_mem_window {a b j : ℕ} (ha : a ≤ j) (hb : j < a + b) (hl : j < l.length) :
    l.getD j 0 ∈ window l a b := by
  rw [List.mem_iff_getElem?]
  refine ⟨j - a, ?_⟩
  rw [window, List.getElem?_take, if_pos (by omega), List.getElem?_drop, Nat.add_sub_cancel' ha,
    List.getD_eq_getElem l 0 hl]
  exact List.getElem?_eq_getElem hl

/-- A window that holds the write shows it. -/
lemma window_inside {a b : ℕ} (h : i + new.length ≤ l.length) (ha : a ≤ i)
    (hb : i + new.length ≤ a + b) :
    window (splice i new l) a b = splice (i - a) new (window l a b) := by
  have hfit : i - a + new.length ≤ (window l a b).length := by
    rw [window, List.length_take, List.length_drop]
    omega
  apply List.ext_getElem?
  intro j
  rw [getElem?_splice hfit, window, window, List.getElem?_take, List.getElem?_take,
    List.getElem?_drop, List.getElem?_drop, getElem?_splice h]
  split_ifs <;> first | rfl | omega | (congr 1; omega)

/-- A window beside the write does not. -/
lemma window_outside {a b : ℕ} (h : i + new.length ≤ l.length)
    (hab : i + new.length ≤ a ∨ a + b ≤ i) : window (splice i new l) a b = window l a b := by
  apply List.ext_getElem?
  intro j
  rw [window, window, List.getElem?_take, List.getElem?_take, List.getElem?_drop,
    List.getElem?_drop, getElem?_splice h]
  split_ifs <;> first | rfl | omega

lemma getD_splice {j : ℕ} (h : i + new.length ≤ l.length) (hj : j < i ∨ i + new.length ≤ j) :
    (splice i new l).getD j 0 = l.getD j 0 := by
  rw [List.getD_eq_getElem?_getD, List.getD_eq_getElem?_getD, getElem?_splice h,
    if_neg (by omega)]

/-- What a write does to the sum of a window that holds it. -/
theorem sum_window_splice (o : Order) {a b : ℕ} (hi : (i - a) % 2 = 0)
    (hnew : new.length % 2 = 0) (h : i + new.length ≤ l.length) (ha : a ≤ i)
    (hb : i + new.length ≤ a + b) :
    sum o (window (splice i new l) a b) + sum o (window l i new.length) =
      sum o (window l a b) + sum o new := by
  have hfit : i - a + new.length ≤ (window l a b).length := by
    rw [window, List.length_take, List.length_drop]
    omega
  have hold : ((window l a b).drop (i - a)).take new.length = window l i new.length := by
    rw [window, window, List.drop_take, List.drop_drop, List.take_take]
    congr 2 <;> omega
  rw [window_inside h ha hb, ← hold]
  exact sum_splice o hi hnew hfit

/-! ### Valid bytes -/

lemma sum_pos (o : Order) {b : BitVec 8} (hmem : b ∈ l) (hb : b ≠ 0) : 0 < sum o l := by
  have hnat : b.toNat ≠ 0 := by
    intro h
    exact hb (BitVec.eq_of_toNat_eq h)
  induction l using words.induct with
  | case1 => cases hmem
  | case2 a =>
    rw [List.mem_singleton] at hmem
    subst hmem
    cases o <;> simp only [sum, words, word, List.sum_cons, List.sum_nil] <;> omega
  | case3 a c l ih =>
    rw [sum_cons_cons]
    rw [List.mem_cons, List.mem_cons] at hmem
    rcases hmem with rfl | rfl | hmem
    · cases o <;> simp only [word] <;> omega
    · cases o <;> simp only [word] <;> omega
    · have hpos := ih hmem
      omega

/-- Bytes with the same residue are valid together, if they are not all zero. -/
lemma valid_of_mod (o : Order) {l' : List (BitVec 8)} (hl : Valid l)
    (hmod : sum o l' % 65535 = sum o l % 65535) (hpos : 0 < sum o l') : Valid l' := by
  rw [valid_iff o] at hl ⊢
  omega

end Lookout.OnesComplement

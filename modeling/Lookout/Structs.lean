import Mathlib.Data.List.Basic
import Mathlib.Tactic.Common
import Mathlib.Tactic.NormNum
import Mathlib.Algebra.Ring.Nat

/-!
Records as bytes, written twice: as a C struct with natural alignment, and as a format string of
Python's `struct` module without any (`<`). Both are read on a little-endian machine.

A format mirrors a struct when its values stand, one after the other, where the members of the
struct are, and its padding where the struct has a gap or a member that is always zero. Then
packing makes the memory of the struct, and unpacking reads its members.
-/

namespace Lookout.Structs

abbrev Bytes := List (BitVec 8)

/-! ### Little-endian numbers -/

/-- The lowest `k` bytes of a number, the lowest first. -/
def le : ℕ → ℕ → Bytes
  | 0, _ => []
  | k + 1, x => BitVec.ofNat 8 x :: le k (x / 256)

def of_le : Bytes → ℕ
  | [] => 0
  | b :: l => b.toNat + 256 * of_le l

@[simp] lemma length_le (k x : ℕ) : (le k x).length = k := by
  induction k generalizing x with
  | zero => rfl
  | succ k ih => rw [le, List.length_cons, ih]

lemma of_le_le (k : ℕ) {x : ℕ} (h : x < 256 ^ k) : of_le (le k x) = x := by
  induction k generalizing x with
  | zero =>
    rw [pow_zero] at h
    rw [le, of_le]
    omega
  | succ k ih =>
    have hdiv : x / 256 < 256 ^ k := by
      rw [pow_succ] at h
      omega
    rw [le, of_le, ih hdiv, BitVec.toNat_ofNat]
    omega

lemma le_of_le (l : Bytes) : le l.length (of_le l) = l := by
  induction l with
  | nil => rfl
  | cons b l ih =>
    have hb := b.isLt
    have hhead : BitVec.ofNat 8 (b.toNat + 256 * of_le l) = b := by
      apply BitVec.eq_of_toNat_eq
      rw [BitVec.toNat_ofNat]
      omega
    have htail : (b.toNat + 256 * of_le l) / 256 = of_le l := by omega
    rw [List.length_cons, of_le, le, hhead, htail, ih]

lemma of_le_lt (l : Bytes) : of_le l < 256 ^ l.length := by
  induction l with
  | nil => exact Nat.one_pos
  | cons b l ih =>
    have hb := b.isLt
    rw [of_le, List.length_cons, pow_succ]
    omega

/-! ### Formats -/

/-- What one place of a format holds: a number of `k` bytes, a string of `k` bytes, or a byte
of padding. -/
inductive Item
  | uint (k : ℕ)
  | bytes (k : ℕ)
  | pad
  deriving DecidableEq

/-- A value to pack, or that was unpacked. -/
inductive Val
  | int (x : ℤ)
  | bytes (b : Bytes)
  deriving DecidableEq

/-- The places that a format character stands for, with its repeat count. -/
def code : Char → Option (ℕ → List Item)
  | 'B' => some fun n => List.replicate n (.uint 1)
  | 'H' => some fun n => List.replicate n (.uint 2)
  | 'I' => some fun n => List.replicate n (.uint 4)
  | 'Q' => some fun n => List.replicate n (.uint 8)
  | 's' => some fun n => [.bytes n]
  | 'x' => some fun n => List.replicate n .pad
  | _ => none

/-- The format after its `<`, when the digits so far are a count. -/
def items : Option ℕ → List Char → Option (List Item)
  | none, [] => some []
  | some _, [] => none
  | count, c :: l =>
    if c.isDigit then items (some (10 * count.getD 0 + (c.toNat - '0'.toNat))) l
    else (code c).bind fun f => (items none l).map fun rest => f (count.getD 1) ++ rest

def format (s : String) : Option (List Item) :=
  match s.toList with
  | '<' :: l => items none l
  | _ => none

def Item.size : Item → ℕ
  | .uint k => k
  | .bytes k => k
  | .pad => 1

/-- `struct.calcsize`. -/
def calcsize (f : List Item) : ℕ := (f.map Item.size).sum

/-- `struct.pack`; `none` is a `struct.error`. A string is cut or filled up to its length. -/
def pack : List Item → List Val → Option Bytes
  | [], [] => some []
  | .pad :: f, vs => (pack f vs).map fun l => 0 :: l
  | .uint k :: f, .int x :: vs =>
    if 0 ≤ x ∧ x < 256 ^ k then (pack f vs).map fun l => le k x.toNat ++ l else none
  | .bytes k :: f, .bytes b :: vs =>
    (pack f vs).map fun l => (b ++ List.replicate k 0).take k ++ l
  | _, _ => none

/-- `struct.unpack`; the bytes must be just as many as the format asks for. -/
def unpack : List Item → Bytes → Option (List Val)
  | [], [] => some []
  | [], _ :: _ => none
  | .pad :: f, l => if l.length = 0 then none else unpack f (l.drop 1)
  | .uint k :: f, l =>
    if l.length < k then none
    else (unpack f (l.drop k)).map fun vs => .int (of_le (l.take k)) :: vs
  | .bytes k :: f, l =>
    if l.length < k then none
    else (unpack f (l.drop k)).map fun vs => .bytes (l.take k) :: vs

/-! ### Structs -/

/-- A scalar member; it stands at a multiple of its size. -/
structure Member where
  name : String
  size : ℕ
  deriving DecidableEq

/-- What is in the memory of a struct: a member, or a byte of a gap. -/
inductive Slot
  | gap
  | field (m : Member)
  deriving DecidableEq

/-- The bytes up to the next multiple of `align`. -/
def gap (align off : ℕ) : ℕ := (align - off % align) % align

/-- The members from the offset `off` on; `align` is what the whole is rounded up to. -/
def slots (align : ℕ) : ℕ → List Member → List Slot
  | off, [] => List.replicate (gap align off) .gap
  | off, m :: ms =>
    List.replicate (gap m.size off) .gap ++
      .field m :: slots align (off + gap m.size off + m.size) ms

/-- The struct is aligned as its widest member is. -/
def layout (s : List Member) : List Slot := slots ((s.map Member.size).foldl max 1) 0 s

def Slot.size : Slot → ℕ
  | .gap => 1
  | .field m => m.size

def sizeof (s : List Member) : ℕ := ((layout s).map Slot.size).sum

/-- The members of a struct, by their names. -/
abbrev Values := String → ℕ

/-- The bytes are the memory of a struct with these members. The gaps may hold anything. -/
def Holds (v : Values) : List Slot → Bytes → Prop
  | [], l => l = []
  | .gap :: s, l => l.length ≠ 0 ∧ Holds v s (l.drop 1)
  | .field m :: s, l => l.take m.size = le m.size (v m.name) ∧ Holds v s (l.drop m.size)

/-- The memory of a struct whose gaps are zero. -/
def image (v : Values) : List Slot → Bytes
  | [] => []
  | .gap :: s => 0 :: image v s
  | .field m :: s => le m.size (v m.name) ++ image v s

/-- The members fit their fields. -/
def InRange (v : Values) (s : List Slot) : Prop := ∀ m, .field m ∈ s → v m.name < 256 ^ m.size

/-- In a struct without gaps it is enough to look at the members. -/
lemma inRange_of_members {v : Values} {s : List Member} (hgaps : layout s = s.map .field)
    (h : ∀ m ∈ s, v m.name < 256 ^ m.size) : InRange v (layout s) := by
  rw [hgaps]
  intro m hm
  obtain ⟨m', hm', he⟩ := List.mem_map.mp hm
  cases he
  exact h m hm'

lemma holds_image (v : Values) (s : List Slot) : Holds v s (image v s) := by
  induction s with
  | nil => rfl
  | cons x s ih =>
    cases x with
    | gap => exact ⟨Nat.succ_ne_zero _, ih⟩
    | field m =>
      have hlen := length_le m.size (v m.name)
      refine ⟨List.take_left' hlen, ?_⟩
      rw [image, List.drop_left' hlen]
      exact ih

lemma holds_length {v : Values} {s : List Slot} {l : Bytes} (h : Holds v s l) :
    l.length = (s.map Slot.size).sum := by
  induction s generalizing l with
  | nil =>
    rw [show l = [] from h]
    rfl
  | cons x s ih =>
    rw [List.map_cons, List.sum_cons]
    cases x with
    | gap =>
      obtain ⟨hpos, hrest⟩ := h
      have hlen := ih hrest
      rw [List.length_drop] at hlen
      change l.length = 1 + _
      omega
    | field m =>
      obtain ⟨htake, hrest⟩ := h
      have hlen := ih hrest
      have hm := congrArg List.length htake
      rw [List.length_take, length_le] at hm
      rw [List.length_drop] at hlen
      change l.length = m.size + _
      omega

/-! ### A format that mirrors a struct -/

/-- The member a value of the format stands for: as a number, or as its bytes in memory. -/
inductive Place
  | int (m : Member)
  | raw (m : Member)
  deriving DecidableEq

def Place.val (v : Values) : Place → Val
  | .int m => .int (v m.name)
  | .raw m => .bytes (le m.size (v m.name))

/-- Place by place, the format follows the struct: its values stand for the members `ps`, and it
skips the members `ms`. -/
inductive Mirrors : List Item → List Slot → List Place → List Member → Prop
  | nil : Mirrors [] [] [] []
  | gap {f : List Item} {s : List Slot} {ps : List Place} {ms : List Member}
    (h : Mirrors f s ps ms) : Mirrors (.pad :: f) (.gap :: s) ps ms
  | skip {f : List Item} {s : List Slot} {ps : List Place} {ms : List Member} {m : Member}
    (hm : m.size = 1) (h : Mirrors f s ps ms) : Mirrors (.pad :: f) (.field m :: s) ps (m :: ms)
  | int {f : List Item} {s : List Slot} {ps : List Place} {ms : List Member} (m : Member)
    (h : Mirrors f s ps ms) : Mirrors (.uint m.size :: f) (.field m :: s) (.int m :: ps) ms
  | raw {f : List Item} {s : List Slot} {ps : List Place} {ms : List Member} (m : Member)
    (h : Mirrors f s ps ms) : Mirrors (.bytes m.size :: f) (.field m :: s) (.raw m :: ps) ms

/-- The members behind the format's values and those it skips, if it mirrors the struct. -/
def view : List Item → List Slot → Option (List Place × List Member)
  | [], [] => some ([], [])
  | .pad :: f, .gap :: s => view f s
  | .pad :: f, .field m :: s =>
    if m.size = 1 then (view f s).map fun r => (r.1, m :: r.2) else none
  | .uint k :: f, .field m :: s =>
    if m.size = k then (view f s).map fun r => (.int m :: r.1, r.2) else none
  | .bytes k :: f, .field m :: s =>
    if m.size = k then (view f s).map fun r => (.raw m :: r.1, r.2) else none
  | _, _ => none

lemma mirrors_of_view {f : List Item} {s : List Slot} {ps : List Place} {ms : List Member}
    (h : view f s = some (ps, ms)) : Mirrors f s ps ms := by
  induction f, s using view.induct generalizing ps ms with
  | case1 =>
    cases h
    exact .nil
  | case2 f s ih => exact .gap (ih h)
  | case3 f m s hm ih =>
    rw [view, if_pos hm] at h
    obtain ⟨r, hv, hr⟩ := Option.map_eq_some_iff.mp h
    cases hr
    exact .skip hm (ih hv)
  | case5 f m s ih =>
    rw [view, if_pos rfl] at h
    obtain ⟨r, hv, hr⟩ := Option.map_eq_some_iff.mp h
    cases hr
    exact .int m (ih hv)
  | case7 f m s ih =>
    rw [view, if_pos rfl] at h
    obtain ⟨r, hv, hr⟩ := Option.map_eq_some_iff.mp h
    cases hr
    exact .raw m (ih hv)
  | case4 f m s hm | case6 k f m s hm | case8 k f m s hm =>
    rw [view, if_neg hm] at h
    cases h
  | case9 f s h1 h2 h3 h4 h5 =>
    rw [view] at h
    · cases h
    all_goals assumption

variable {v : Values} {f : List Item} {s : List Slot} {ps : List Place} {ms : List Member}

lemma InRange.tail {x : Slot} (h : InRange v (x :: s)) : InRange v s :=
  fun m hm => h m (List.mem_cons_of_mem _ hm)

/-- **Packing makes the memory of the struct**, with the members that are skipped zero. -/
theorem Mirrors.pack (h : Mirrors f s ps ms) (hr : InRange v s) (hz : ∀ m ∈ ms, v m.name = 0) :
    pack f (ps.map (Place.val v)) = some (image v s) := by
  induction h with
  | nil => rfl
  | gap _ ih => rw [Structs.pack, ih hr.tail hz, image, Option.map_some]
  | skip hm _ ih =>
    obtain ⟨hzero, hz'⟩ := List.forall_mem_cons.mp hz
    rw [Structs.pack, ih hr.tail hz', image, hm, hzero]
    rfl
  | int m _ ih =>
    have hfit : (0 : ℤ) ≤ v m.name ∧ (v m.name : ℤ) < 256 ^ m.size :=
      ⟨Int.natCast_nonneg _, by exact_mod_cast hr m List.mem_cons_self⟩
    rw [List.map_cons, Place.val, Structs.pack, if_pos hfit, ih hr.tail hz, image,
      Int.toNat_natCast, Option.map_some]
  | raw m _ ih =>
    rw [List.map_cons, Place.val, Structs.pack, ih hr.tail hz, image,
      List.take_left' (length_le m.size (v m.name)), Option.map_some]

lemma size_le_length {m : Member} {l : Bytes} (h : l.take m.size = le m.size (v m.name)) :
    ¬ l.length < m.size := by
  have hlen := congrArg List.length h
  rw [List.length_take, length_le] at hlen
  omega

/-- **Unpacking reads the members of the struct**, whatever is in its gaps. -/
theorem Mirrors.unpack (h : Mirrors f s ps ms) (hr : InRange v s) {l : Bytes} (hl : Holds v s l) :
    unpack f l = some (ps.map (Place.val v)) := by
  induction h generalizing l with
  | nil =>
    rw [show l = [] from hl]
    rfl
  | gap _ ih => rw [Structs.unpack, if_neg hl.1, ih hr.tail hl.2]
  | skip hm _ ih =>
    obtain ⟨htake, hdrop⟩ := hl
    have hlen := size_le_length htake
    rw [hm] at hlen hdrop
    rw [Structs.unpack, if_neg (by omega), ih hr.tail hdrop]
  | int m _ ih =>
    rw [Structs.unpack, if_neg (size_le_length hl.1), ih hr.tail hl.2, hl.1,
      of_le_le _ (hr m List.mem_cons_self)]
    rfl
  | raw m _ ih =>
    rw [Structs.unpack, if_neg (size_le_length hl.1), ih hr.tail hl.2, hl.1]
    rfl

/-! ### One value for each CPU -/

/-- The size of an element of a per-CPU value. -/
def round8 (size : ℕ) : ℕ := (size + 7) / 8 * 8

lemma le_round8 (size : ℕ) : size ≤ round8 size := by
  unfold round8
  omega

/-- The bytes of CPU `i`. -/
def slice (size i : ℕ) (buf : Bytes) : Bytes := (buf.drop (i * round8 size)).take size

/-- What the kernel copies out: the elements of the CPUs, each rounded up, one after the other. -/
def Copied (size : ℕ) (elems : List Bytes) (buf : Bytes) : Prop :=
  ∃ tails : List Bytes, tails.length = elems.length ∧ (∀ e ∈ elems, e.length = size) ∧
    (∀ t ∈ tails, t.length = round8 size - size) ∧
    buf = (List.zipWith (· ++ ·) elems tails).flatten

lemma copied_cons {size : ℕ} {e : Bytes} {elems : List Bytes} {buf : Bytes} :
    Copied size (e :: elems) buf ↔
      ∃ t rest, e.length = size ∧ t.length = round8 size - size ∧ Copied size elems rest ∧
        buf = e ++ t ++ rest := by
  constructor
  · rintro ⟨tails, hlen, he, ht, rfl⟩
    cases tails with
    | nil => cases hlen
    | cons t tails =>
      obtain ⟨he, hes⟩ := List.forall_mem_cons.mp he
      obtain ⟨ht, hts⟩ := List.forall_mem_cons.mp ht
      exact ⟨t, _, he, ht, ⟨tails, Nat.succ.inj hlen, hes, hts, rfl⟩, rfl⟩
  · rintro ⟨t, _, he, ht, ⟨tails, hlen, hes, hts, rfl⟩, rfl⟩
    exact ⟨t :: tails, congrArg Nat.succ hlen, List.forall_mem_cons.mpr ⟨he, hes⟩,
      List.forall_mem_cons.mpr ⟨ht, hts⟩, rfl⟩

/-- **The `i`-th slice is the value of CPU `i`.** -/
theorem slice_of_copied {size : ℕ} {elems : List Bytes} {buf : Bytes} (h : Copied size elems buf)
    {i : ℕ} (hi : i < elems.length) : slice size i buf = elems.get ⟨i, hi⟩ := by
  induction elems generalizing buf i with
  | nil => exact absurd hi (Nat.not_lt_zero i)
  | cons e elems ih =>
    obtain ⟨t, rest, he, ht, hrest, rfl⟩ := copied_cons.mp h
    have hround := le_round8 size
    cases i with
    | zero =>
      rw [slice, Nat.zero_mul, List.drop_zero, List.append_assoc, List.take_left' he]
      rfl
    | succ i =>
      have hdrop : (e ++ t ++ rest).drop ((i + 1) * round8 size) = rest.drop (i * round8 size) := by
        have hlen : (e ++ t).length = round8 size := by
          rw [List.length_append]
          omega
        rw [Nat.succ_mul, Nat.add_comm, ← List.drop_drop, List.drop_left' hlen]
      rw [slice, hdrop]
      exact ih hrest (Nat.lt_of_succ_lt_succ hi)

lemma length_of_copied {size : ℕ} {elems : List Bytes} {buf : Bytes} (h : Copied size elems buf) :
    buf.length = round8 size * elems.length := by
  induction elems generalizing buf with
  | nil =>
    obtain ⟨tails, -, -, -, rfl⟩ := h
    rfl
  | cons e elems ih =>
    obtain ⟨t, rest, he, ht, hrest, rfl⟩ := copied_cons.mp h
    have hround := le_round8 size
    rw [List.length_append, List.length_append, ih hrest, List.length_cons, Nat.mul_succ]
    omega

/-- `struct.iter_unpack`; the length must be a multiple of the format's. -/
def iter_unpack (f : List Item) (l : Bytes) : Option (List (List Val)) :=
  if l.length % calcsize f = 0 then
    (List.range (l.length / calcsize f)).mapM fun i =>
      unpack f ((l.drop (i * calcsize f)).take (calcsize f))
  else none

lemma slices_of_copied {size : ℕ} {elems : List Bytes} {buf : Bytes}
    (h : Copied size elems buf) :
    (List.range elems.length).map (fun i => slice size i buf) = elems := by
  apply List.ext_getElem
  · rw [List.length_map, List.length_range]
  · intro i hi hi'
    rw [List.getElem_map, List.getElem_range]
    exact slice_of_copied h hi'

/-- An element that fills its place is unpacked for each CPU in turn. -/
theorem iter_unpack_of_copied {f : List Item} {elems : List Bytes} {buf : Bytes}
    (hpos : 0 < calcsize f) (hround : round8 (calcsize f) = calcsize f)
    (h : Copied (calcsize f) elems buf) : iter_unpack f buf = elems.mapM (unpack f) := by
  have hlen := length_of_copied h
  rw [hround] at hlen
  have hslice : (fun i => unpack f ((buf.drop (i * calcsize f)).take (calcsize f))) =
      fun i => unpack f (slice (calcsize f) i buf) := by
    unfold slice
    rw [hround]
  rw [iter_unpack, hlen, if_pos (Nat.mul_mod_right _ _), Nat.mul_div_cancel_left _ hpos, hslice]
  have hmap := congrArg (List.mapM (unpack f)) (slices_of_copied h)
  rwa [List.mapM_map] at hmap

end Lookout.Structs

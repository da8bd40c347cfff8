import Lookout.Load
import Lookout.Networks
import Lookout.Readout

/-!
The counters as the kernel hands them over, a slot for each possible CPU.

How many slots there are the program reads from a text, the list of the CPUs the kernel keeps under
`/sys`. The buffer is made by that number and the sum is over it, so a number too small would lose
what some CPU has counted, and one too large would read past what the kernel has filled.
-/

namespace Lookout.Slots

open Lookout.Effects Lookout.Effects.Prog Lookout.Common Lookout.Kernel Lookout.Structs
open Lookout.Layouts Lookout.Networks
open Lookout.Firewall hiding sum_percpu read_stats

variable {n : ℕ}

/-! ### The number of the CPUs -/

/-- `int`, which reads the digits of a number at least. -/
structure Literal where
  int : String → Except PyError ℤ
  int_ascii : ∀ s : String, s ≠ "" → s.toList.all Char.isDigit = true → s.length ≤ 4300 →
    int s = .ok (Nat.ofDigitChars 10 s.toList 0)

/-- `str.partition`, without the separator. -/
def partition (sep : Char) (l : List Char) : List Char × List Char :=
  (l.takeWhile (· ≠ sep), (l.dropWhile (· ≠ sep)).tail)

/-- What one part of the list adds. -/
def part_cpus (py : Literal) (part : List Char) : Except PyError ℤ := do
  let (lo, hi) := partition '-' part
  let last ← py.int (String.ofList (if hi = [] then lo else hi))
  let first ← py.int (String.ofList lo)
  return last - first + 1

/-- The file may be missing, and so may the answer of `os.cpu_count`. -/
def possible_cpus (py : Literal) (file : Option String) (cpu_count : Option ℕ) :
    Except PyError ℤ :=
  match file with
  | none =>
    match cpu_count with
    | none | some 0 => .ok 1
    | some count => .ok count
  | some text =>
    ((strip text.toList).splitOn ',').foldlM (fun n part => (n + ·) <$> part_cpus py part) 0

/-! ### The sums -/

/-- `BpfMap.sum_percpu`, of the bytes that `lookup` returns. -/
def sum_percpu (ncpu : ℤ) : Option Bytes → ℕ
  | none => 0
  | some raw => ((List.range ncpu.toNat).map (unpack_from raw)).sum

/-- `Firewall.read_stats`, of the bytes under each counter. -/
def read_stats (ncpu : ℤ) (lookup : Stat → Option Bytes) : Stats :=
  Readout.tally (STAT_NAMES.map fun s => (s, sum_percpu ncpu (lookup s)))

/-! ### The list, as the kernel writes it -/

/-- The CPUs of the mask, as ranges. -/
structure Ranges (mask : Finset ℕ) (rs : List (ℕ × ℕ)) : Prop where
  ordered : ∀ r ∈ rs, r.1 ≤ r.2
  apart : rs.Pairwise fun r r' => r.2 < r'.1
  small : ∀ r ∈ rs, r.2 < 2 ^ 32
  covers : ∀ c, c ∈ mask ↔ ∃ r ∈ rs, r.1 ≤ c ∧ c ≤ r.2

def range_text (r : ℕ × ℕ) : List Char :=
  if r.1 = r.2 then Nat.toDigits 10 r.1 else Nat.toDigits 10 r.1 ++ '-' :: Nat.toDigits 10 r.2

/-- The file: the ranges with commas in between, and the end of the line. -/
def cpulist (rs : List (ℕ × ℕ)) : String :=
  String.ofList ([','].intercalate (rs.map range_text) ++ ['\n'])

/-- The ranges keep clear of each other, so that their lengths count the mask. -/
lemma Ranges.card {mask : Finset ℕ} {rs : List (ℕ × ℕ)} (h : Ranges mask rs) :
    mask.card = (rs.map fun r => r.2 + 1 - r.1).sum := by
  have hdisjoint : rs.Pairwise fun r r' =>
      Disjoint (Finset.Icc r.1 r.2) (Finset.Icc r'.1 r'.2) := by
    refine h.apart.imp fun {r r'} hlt => ?_
    rw [Finset.disjoint_left]
    intro c hc hc'
    rw [Finset.mem_Icc] at hc hc'
    omega
  have hnodup : rs.Nodup := by
    refine List.Pairwise.imp_of_mem (fun {r r'} hr _ hlt heq => ?_) h.apart
    have hle := h.ordered r hr
    rw [← heq] at hlt
    omega
  have hmask : mask = rs.toFinset.biUnion fun r => Finset.Icc r.1 r.2 := by
    ext c
    rw [h.covers, Finset.mem_biUnion]
    simp only [List.mem_toFinset, Finset.mem_Icc]
  have hsym : Std.Symm fun r r' : ℕ × ℕ =>
      Disjoint (Finset.Icc r.1 r.2) (Finset.Icc r'.1 r'.2) := ⟨fun _ _ hd => hd.symm⟩
  rw [hmask, Finset.card_biUnion, List.sum_toFinset _ hnodup]
  · simp only [Nat.card_Icc]
  · intro r hr r' hr' hne
    exact hdisjoint.forall (List.mem_toFinset.mp hr) (List.mem_toFinset.mp hr') hne

/-! ### Reading the list -/

lemma int_toDigits (py : Literal) {k : ℕ} (h : k < 2 ^ 32) :
    py.int (String.ofList (Nat.toDigits 10 k)) = .ok k := by
  have hne : String.ofList (Nat.toDigits 10 k) ≠ "" := by
    intro heq
    exact Nat.toDigits_ne_nil (String.ofList_eq_empty_iff.mp heq)
  have hall : (Nat.toDigits 10 k).all Char.isDigit = true :=
    List.all_eq_true.mpr fun c hc => Nat.isDigit_of_mem_toDigits (by decide) (by decide) hc
  have hlen : (Nat.toDigits 10 k).length ≤ 10 :=
    (Nat.length_toDigits_le_iff (by decide) (by decide)).mpr (by omega)
  rw [py.int_ascii _ hne (by rwa [String.toList_ofList])
    (by rw [String.length_ofList]; omega), String.toList_ofList, Nat.ofDigitChars_ten_toDigits]

lemma forall_ne_of_notMem {sep : Char} {l : List Char} (h : sep ∉ l) :
    ∀ c ∈ l, decide (c ≠ sep) = true := by
  intro c hc
  exact decide_eq_true fun heq => h (heq ▸ hc)

lemma partition_of_notMem {sep : Char} {l : List Char} (h : sep ∉ l) :
    partition sep l = (l, []) := by
  have hall := forall_ne_of_notMem h
  rw [partition, List.takeWhile_eq_self_iff.mpr hall, List.dropWhile_eq_nil_iff.mpr hall]
  rfl

lemma partition_append {sep : Char} {l : List Char} (h : sep ∉ l) (r : List Char) :
    partition sep (l ++ sep :: r) = (l, r) := by
  have hall := forall_ne_of_notMem h
  rw [partition, List.takeWhile_append_of_pos hall, List.dropWhile_append_of_pos hall]
  simp

/-- A range is read as its length. -/
lemma part_range (py : Literal) {r : ℕ × ℕ} (hle : r.1 ≤ r.2) (hlt : r.2 < 2 ^ 32) :
    part_cpus py (range_text r) = .ok ((r.2 + 1 - r.1 : ℕ) : ℤ) := by
  have hdash := notMem_toDigits (c := '-') (by decide) r.1
  have hcast : (r.2 : ℤ) - r.1 + 1 = ((r.2 + 1 - r.1 : ℕ) : ℤ) := by omega
  rw [← hcast]
  unfold part_cpus range_text
  split_ifs with heq
  · rw [partition_of_notMem hdash]
    dsimp only
    rw [if_pos rfl, int_toDigits py (by omega), heq]
    rfl
  · rw [partition_append hdash]
    dsimp only
    rw [if_neg Nat.toDigits_ne_nil, int_toDigits py hlt, int_toDigits py (by omega)]
    rfl

lemma sum_parts (py : Literal) {rs : List (ℕ × ℕ)} (hle : ∀ r ∈ rs, r.1 ≤ r.2)
    (hlt : ∀ r ∈ rs, r.2 < 2 ^ 32) (z : ℤ) :
    (rs.map range_text).foldlM (fun n part => (n + ·) <$> part_cpus py part) z =
      .ok (z + ((rs.map fun r => r.2 + 1 - r.1).sum : ℕ)) := by
  induction rs generalizing z with
  | nil =>
    rw [List.map_nil, List.map_nil, List.sum_nil, Nat.cast_zero, add_zero]
    rfl
  | cons r rs ih =>
    rw [List.forall_mem_cons] at hle hlt
    rw [List.map_cons, List.foldlM_cons, part_range py hle.1 hlt.1, List.map_cons, List.sum_cons,
      Nat.cast_add, ← add_assoc]
    exact ih hle.2 hlt.2 _

/-- Reading the line takes the end of it off. -/
lemma strip_line {l : List Char} (h : ∀ c ∈ l, isspace c = false) : strip (l ++ ['\n']) = l := by
  cases l with
  | nil => decide
  | cons c l =>
    have hc : ¬ isspace c = true := by
      rw [h c List.mem_cons_self]
      exact Bool.false_ne_true
    have hself := strip_eq_self h
    rw [strip, List.dropWhile_cons_of_neg hc] at hself
    rw [strip, List.cons_append, List.dropWhile_cons_of_neg hc, ← List.cons_append,
      List.rdropWhile_concat_pos _ _ _ (by decide), hself]

lemma mem_range_text {r : ℕ × ℕ} {c : Char} (h : c ∈ range_text r) :
    c.isDigit = true ∨ c = '-' := by
  unfold range_text at h
  split_ifs at h with heq
  · exact Or.inl (Nat.isDigit_of_mem_toDigits (by decide) (by decide) h)
  · rw [List.mem_append, List.mem_cons] at h
    rcases h with h | h | h
    · exact Or.inl (Nat.isDigit_of_mem_toDigits (by decide) (by decide) h)
    · exact Or.inr h
    · exact Or.inl (Nat.isDigit_of_mem_toDigits (by decide) (by decide) h)

lemma not_isspace_list (rs : List (ℕ × ℕ)) :
    ∀ c ∈ [','].intercalate (rs.map range_text), isspace c = false := by
  have hrange : ∀ r, ∀ c ∈ range_text r, isspace c = false := by
    intro r c hc
    rcases mem_range_text hc with hc | rfl
    · exact not_isspace_of_isDigit hc
    · decide
  induction rs with
  | nil => nofun
  | cons r rs ih =>
    cases rs with
    | nil =>
      rw [List.map_singleton, List.intercalate_singleton]
      exact hrange r
    | cons r' rs =>
      rw [List.map_cons, List.map_cons, List.intercalate_cons_cons]
      intro c hc
      rw [List.mem_append, List.mem_append, List.mem_singleton] at hc
      rcases hc with (hc | rfl) | hc
      · exact hrange r c hc
      · decide
      · exact ih c hc

/-- The list is read as the number of the CPUs in it. -/
lemma possible_cpus_cpulist (py : Literal) (cpu_count : Option ℕ) {mask : Finset ℕ}
    {rs : List (ℕ × ℕ)} (h : Ranges mask rs) (hne : mask.Nonempty) :
    possible_cpus py (some (cpulist rs)) cpu_count = .ok (mask.card : ℤ) := by
  have hsome : rs.map range_text ≠ [] := by
    obtain ⟨c, hc⟩ := hne
    obtain ⟨r, hr, -⟩ := (h.covers c).mp hc
    exact List.ne_nil_of_mem (List.mem_map_of_mem hr)
  have hcomma : ∀ l ∈ rs.map range_text, ',' ∉ l := by
    intro l hl hc
    obtain ⟨r, -, rfl⟩ := List.mem_map.mp hl
    have hneither : ¬ (','.isDigit = true ∨ ',' = '-') := by decide
    exact hneither (mem_range_text hc)
  unfold possible_cpus cpulist
  dsimp only
  rw [String.toList_ofList, strip_line (not_isspace_list rs),
    List.splitOn_intercalate _ hcomma hsome, sum_parts py h.ordered h.small, zero_add, h.card]

/-! ### Summing the slots -/

/-- The kernel finds every counter, and copies out what each CPU has in it. -/
structure Copies (w : World n) (lookup : Stat → Option Bytes) : Prop where
  fits : ∀ c s, w.stats c s < 2 ^ 64
  found : ∀ s, ∃ raw, lookup s = some raw ∧ Copied 8 (List.ofFn fun c => le 8 (w.stats c s)) raw

/-- The sum over the slots is the total. -/
lemma sum_percpu_eq {w : World n} {s : Stat} {raw : Bytes} (hw : ∀ c, w.stats c s < 2 ^ 64)
    (h : Copied 8 (List.ofFn fun c => le 8 (w.stats c s)) raw) :
    sum_percpu n (some raw) = w.total s := by
  have hslot : ∀ c : Fin n, unpack_from raw c = w.stats c s := by
    intro c
    have hc : c.val < (List.ofFn fun c => le 8 (w.stats c s)).length := by
      rw [List.length_ofFn]
      exact c.isLt
    rw [unpack_from_eq h hc, List.get_ofFn]
    exact of_le_le 8 (hw c)
  calc sum_percpu n (some raw)
      = ∑ i ∈ Finset.range n, unpack_from raw i := rfl
    _ = ∑ c : Fin n, unpack_from raw c := Finset.sum_range _
    _ = w.total s := Finset.sum_congr rfl fun c _ => hslot c

/-! ### The rules, a copy on each CPU -/

/-- The members of `struct port_val`. -/
def port_values (v : PortVal) : Values
  | "hits" => v.hits
  | "action" => v.action.toNat
  | _ => 0

lemma inRange_port {v : PortVal} (h : v.hits < 2 ^ 64) :
    InRange (port_values v) (layout port_val) := by
  refine inRange_of_members (by decide +kernel) fun m hm => ?_
  simp only [port_val, List.mem_cons, List.not_mem_nil, or_false] at hm
  rcases hm with rfl | rfl | rfl
  · exact h
  · exact v.action.isLt
  · exact Nat.pow_pos (by decide)

/-- What the kernel copies out of a rule, or takes for one. -/
def Lists (v : Fin n → PortVal) (raw : Bytes) : Prop :=
  ∃ elems, Elements port_val (List.ofFn fun c => port_values (v c)) elems ∧ Copied 16 elems raw

lemma length_lists {v : Fin n → PortVal} {raw : Bytes} (h : Lists v raw) :
    raw.length = value_size 16 n true := by
  obtain ⟨elems, hel, hcopied⟩ := h
  have hlen := hel.length_eq
  rw [List.length_ofFn] at hlen
  rw [length_of_copied hcopied, ← hlen]
  rfl

/-- The copies are those of `port_items`. -/
lemma unpack_lists {v : Fin n → PortVal} {raw : Bytes} (h : Lists v raw) :
    unpack_copies raw =
      some ((List.ofFn v).map fun c => (.int c.hits, .int c.action.toNat)) := by
  obtain ⟨elems, hel, hcopied⟩ := h
  rw [unpack_copies_eq hel hcopied, List.map_ofFn, List.map_ofFn]
  rfl

/-- What `set_port_rule` hands in is a rule without hits on every CPU. -/
lemma lists_pack (action : U32) :
    ∃ raw, pack_port_val action.toNat n = some raw ∧ Lists (fun _ : Fin n => ⟨0, action⟩) raw := by
  have hrange : InRange (port_values ⟨0, action⟩) (layout port_val) :=
    inRange_port (by decide : 0 < 2 ^ 64)
  refine ⟨_, (packs (port_values ⟨0, action⟩)).port_val hrange rfl rfl n, _, ?_,
    copied_port_val n⟩
  rw [Elements, List.ofFn_const]
  induction n with
  | zero => exact .nil
  | succ n ih => exact .cons ⟨hrange, holds_image _ _⟩ ih

/-! ### One number for all the buffers -/

/-- With buffers for `ncpu` CPUs the bytes say what the operations of the model say, where the
kernel has `n`. -/
structure Agrees (ncpu : ℤ) (n : ℕ) : Prop where
  stats_size : ∀ (w : World n) lookup, Copies w lookup →
    ∀ s raw, lookup s = some raw → raw.length = value_size 8 ncpu.toNat true
  stats : ∀ (w : World n) cpu lookup, Copies w lookup →
    read_stats ncpu lookup = (run (exec cpu) Firewall.read_stats w).1
  rule_size : ∀ (v : Fin n → PortVal) raw, Lists v raw →
    raw.length = value_size 16 ncpu.toNat true
  rule : ∀ (v : Fin n → PortVal) raw, Lists v raw → unpack_copies raw =
    some ((List.ofFn v).map fun c => (.int c.hits, .int c.action.toNat))
  write : ∀ action : U32, ∃ raw, pack_port_val action.toNat ncpu.toNat = some raw ∧
    Lists (fun _ : Fin n => ⟨0, action⟩) raw

lemma agrees (n : ℕ) : Agrees n n where
  stats_size w lookup h s raw hraw := by
    obtain ⟨raw', hraw', hcopied⟩ := h.found s
    rw [hraw] at hraw'
    cases hraw'
    have hlen := length_of_copied hcopied
    rw [List.length_ofFn] at hlen
    exact hlen
  stats w cpu lookup h := by
    have hsums : ∀ s ∈ STAT_NAMES, (s, sum_percpu n (lookup s)) = (s, w.total s) := by
      intro s _
      obtain ⟨raw, hraw, hcopied⟩ := h.found s
      rw [hraw, sum_percpu_eq (fun c => h.fits c s) hcopied]
    rw [read_stats, List.map_congr_left hsums]
    unfold Firewall.read_stats
    rw [run_bind, Load.run_sum_percpu]
    rfl
  rule_size _ _ h := length_lists h
  rule _ _ h := unpack_lists h
  write action := lists_pack action

/-- No other number makes buffers of the right size. -/
lemma Agrees.eq {ncpu : ℤ} {n : ℕ} (h : Agrees ncpu n) (hpos : 0 < n) : ncpu = n := by
  obtain ⟨raw, -, hraw⟩ := lists_pack (n := n) 0
  have hsize := h.rule_size _ _ hraw
  rw [length_lists hraw] at hsize
  have heq : (16 + 7) / 8 * 8 * n = (16 + 7) / 8 * 8 * ncpu.toNat := hsize
  omega

/-- **The buffers are made for the CPUs of the kernel's list.** The number read from the list is
the one by which what the kernel copies fits, no CPU's count is left out of a sum, and a new rule is
on every CPU; no other number is. -/
theorem sized_by_list (py : Literal) (cpu_count : Option ℕ) {mask : Finset ℕ}
    {rs : List (ℕ × ℕ)} (h : Ranges mask rs) (hne : mask.Nonempty) (ncpu : ℤ) :
    possible_cpus py (some (cpulist rs)) cpu_count = .ok ncpu ↔ Agrees ncpu mask.card := by
  rw [possible_cpus_cpulist py cpu_count h hne]
  constructor
  · intro heq
    cases heq
    exact agrees mask.card
  · intro hagrees
    rw [hagrees.eq (Finset.card_pos.mpr hne)]

example : cpulist [(0, 3), (8, 9)] = "0-3,8-9\n" := by decide +kernel

def digits : Literal where
  int s := .ok (Nat.ofDigitChars 10 s.toList 0)
  int_ascii _ _ _ _ := rfl

lemma ranges_gap : Ranges {0, 1, 2, 3, 8, 9} [(0, 3), (8, 9)] where
  ordered := by decide
  apart := by decide
  small := by decide
  covers c := by
    simp only [Finset.mem_insert, Finset.mem_singleton, List.mem_cons, List.not_mem_nil, or_false,
      exists_eq_or_imp, exists_eq_left]
    omega

/-- With `8-9` not there at the moment, four CPUs are online; their number would not do. -/
theorem sized_by_list_gap :
    possible_cpus digits (some (cpulist [(0, 3), (8, 9)])) (some 4) = .ok 6 ∧ ¬ Agrees 4 6 := by
  have hsix := (sized_by_list digits (some 4) ranges_gap ⟨0, by decide⟩ 6).mpr (agrees 6)
  refine ⟨hsix, fun hfour => ?_⟩
  have hother := (sized_by_list digits (some 4) ranges_gap ⟨0, by decide⟩ 4).mpr hfour
  rw [hsix] at hother
  cases hother

end Lookout.Slots

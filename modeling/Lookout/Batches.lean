import Lookout.Effects
import Lookout.Structs
import Mathlib.Data.List.Nodup
import Mathlib.Data.List.Perm.Basic

/-!
`bpfmap.py`: reading every entry of a map, in batches or key by key.

A batch call writes entries over the front of two buffers, which are used again for the next call,
and says in `count` how many. The call that reaches the end fails with `ENOENT` and still brings
its entries. What the kernel does is a machine that has to keep to what is documented; the loops
have fuel, and enough of it always suffices.
-/

namespace Lookout.Batches

open Lookout.Effects Lookout.Effects.Prog Lookout.Structs

variable {α β σ : Type}

/-! ### The program -/

def EPERM : ℕ := 1
def ENOENT : ℕ := 2
def EACCES : ℕ := 13
def EINVAL : ℕ := 22
def ERANGE : ℕ := 34
def ENOTSUPP : ℕ := 524

structure BpfError where
  errno : ℕ
  msg : String

/-- How a method ends; `unfinished` stands for a loop whose fuel has run out. -/
inductive Outcome (α : Type)
  | returned (a : α)
  | raised (e : BpfError)
  | unfinished

structure BpfMap where
  path : String
  key_size : ℕ
  value_size : ℕ

/-- A key and its value. -/
abbrev Entry := Bytes × Bytes

/-- What a batch call leaves: `err` when it fails, `count`, and the three buffers. -/
structure Batch where
  err : Option ℕ
  count : ℕ
  keys : Bytes
  vals : Bytes
  token_out : Bytes

/-- The commands of `bpf(2)`. Where a call fails the answer is `errno`. -/
inductive Op
  | get_next_key (key : Option Bytes)
  | lookup_elem (key : Option Bytes) (flags : ℕ)
  | lookup_batch (in_batch : Option Bytes) (keys vals : Bytes) (count flags : ℕ)

@[reducible] def Ans : Op → Type
  | .get_next_key _ => Except ℕ Bytes
  | .lookup_elem .. => Except ℕ Bytes
  | .lookup_batch .. => Batch

abbrev calls : Sig := ⟨Op, Ans⟩

abbrev Call := Prog calls

/-- What `_raise` raises. -/
def bpf_error (strerror : ℕ → String) (op what : String) (err : ℕ) : BpfError :=
  let hint :=
    if err = EPERM ∨ err = EACCES then " (run with sudo)"
    else if err = ENOENT then " (is the firewall loaded? sudo ./bin/fwload -i veth-fw)"
    else ""
  ⟨err, op ++ " " ++ what ++ ": " ++ strerror err ++ hint⟩

/-- The key `_elem` passes; an empty one is none. -/
def elem_key (key : Option Bytes) : Option Bytes := key.filter fun k => !k.isEmpty

/-- Going on with what was returned. -/
def Outcome.bind (r : Outcome α) (f : α → Call (Outcome β)) : Call (Outcome β) :=
  match r with
  | .returned a => f a
  | .raised e => return .raised e
  | .unfinished => return .unfinished

section

variable (strerror : ℕ → String) (m : BpfMap)

def lookup (key : Bytes) (flags : ℕ) : Call (Outcome (Option Bytes)) := do
  match ← op (S := calls) (.lookup_elem (elem_key (some key)) flags) with
  | .ok val => return .returned (some val)
  | .error err =>
    if err = ENOENT then return .returned none
    else return .raised (bpf_error strerror "lookup in" m.path err)

def runaway : BpfError := ⟨ERANGE, m.path ++ ": runaway key walk"⟩

def keys_loop : ℕ → Option Bytes → List Bytes → Call (Outcome (List Bytes))
  | 0, _, _ => return .unfinished
  | fuel + 1, cur, out => do
    match ← op (S := calls) (.get_next_key (elem_key cur)) with
    | .error err =>
      if err = ENOENT then return .returned out
      else return .raised (bpf_error strerror "walk" m.path err)
    | .ok nxt =>
      if 1 <<< 20 < (out ++ [nxt]).length then return .raised (runaway m)
      else keys_loop fuel (some nxt) (out ++ [nxt])

def keys (fuel : ℕ) : Call (Outcome (List Bytes)) := keys_loop strerror m fuel none []

/-- The loop of `items` over the keys. -/
def lookups (flags : ℕ) : List Bytes → List Entry → Call (Outcome (List Entry))
  | [], out => return .returned out
  | key :: ks, out => do
    let r ← lookup strerror m key flags
    r.bind fun
      | some val => lookups flags ks (out ++ [(key, val)])
      | none => lookups flags ks out

/-- `items`, key by key. -/
def walk (fuel flags : ℕ) : Call (Outcome (List Entry)) := do
  let r ← keys strerror m fuel
  r.bind fun ks => lookups strerror m flags ks []

/-- `raw[i * size:(i + 1) * size]` -/
def cell (size i : ℕ) (raw : Bytes) : Bytes := (raw.drop (i * size)).take size

/-- The entries in the buffers. -/
def entries (a : Batch) : List Entry :=
  (List.range a.count).map fun i => (cell m.key_size i a.keys, cell m.value_size i a.vals)

def batch_loop (flags chunk : ℕ) : ℕ → Bool → Bytes → Bytes → Bytes → List Entry →
    Call (Outcome (Option (List Entry)))
  | 0, _, _, _, _, _ => return .unfinished
  | fuel + 1, first, token_in, keys, vals, out => do
    -- `count` has 32 bits
    let a ← op (S := calls)
      (.lookup_batch (if first then none else some token_in) keys vals (chunk % 2 ^ 32) flags)
    let out := out ++ entries m a
    match a.err with
    | some err =>
      if err = ENOENT then return .returned (some out)
      else if first ∧ (err = EINVAL ∨ err = ENOTSUPP) then return .returned none
      else return .raised (bpf_error strerror "batch read of" m.path err)
    | none => batch_loop flags chunk fuel false a.token_out a.keys a.vals out

/-- `_batch` -/
def batch (fuel flags chunk : ℕ) : Call (Outcome (Option (List Entry))) :=
  batch_loop strerror m flags chunk fuel true (List.replicate 8 0)
    (List.replicate (m.key_size * chunk) 0) (List.replicate (m.value_size * chunk) 0) []

def items (fuel flags : ℕ) : Call (Outcome (List Entry)) := do
  let r ← batch strerror m fuel flags 4096
  r.bind fun
    | some out => return .returned out
    | none => walk strerror m fuel flags

end

/-! ### What the kernel documents -/

/-- The key after `k` in a walk. -/
def next_key : Option Bytes → Except ℕ Bytes
  | some k => .ok k
  | none => .error ENOENT

/-- An answer to a batch call for `count` entries from position `start` on. The entries stand at the
front of the buffers; what is behind them is anything. The call fails with `ENOENT` when it has come
to the end; otherwise it leads to the position after its entries, and there are some if any were
asked for. -/
structure Answers (pos : Bytes → ℕ) (es : List Entry) (start count : ℕ) (a : Batch) : Prop where
  le_count : a.count ≤ count
  le_length : start + a.count ≤ es.length
  keys : ∃ rest, a.keys = (((es.drop start).take a.count).map Prod.fst).flatten ++ rest
  vals : ∃ rest, a.vals = (((es.drop start).take a.count).map Prod.snd).flatten ++ rest
  last : a.err = some ENOENT → start + a.count = es.length
  err : a.err = some ENOENT ∨ a.err = none
  more : a.err = none → pos a.token_out = start + a.count ∧ (0 < count → 0 < a.count)

/-- A kernel on which the map holds the entries `es` all the time. A walk finds the keys in the
order of `es'`. A token stands for a position, given by `pos`. -/
structure Documented (m : BpfMap) (es es' : List Entry) (supported : Bool) (pos : Bytes → ℕ)
    (R : Machine calls σ) : Prop where
  answers : ∀ s o, ∃ a t, R s o a t
  nodup : (es.map Prod.fst).Nodup
  perm : es'.Perm es
  sizes : ∀ e ∈ es, e.1.length = m.key_size ∧ e.2.length = m.value_size
  key_pos : 0 < m.key_size
  first_key : ∀ s a t, R s (.get_next_key none) a t → a = next_key (es'.map Prod.fst)[0]?
  later_key : ∀ s i k a t, (es'.map Prod.fst)[i]? = some k → R s (.get_next_key (some k)) a t →
    a = next_key (es'.map Prod.fst)[i + 1]?
  lookup_elem : ∀ s e flags a t, e ∈ es → R s (.lookup_elem (some e.1) flags) a t → a = .ok e.2
  first_batch : ∀ s keys vals count flags a t, supported = true →
    R s (.lookup_batch none keys vals count flags) a t → Answers pos es 0 count a
  later_batch : ∀ s token keys vals count flags a t, supported = true → pos token ≤ es.length →
    R s (.lookup_batch (some token) keys vals count flags) a t → Answers pos es (pos token) count a
  unsupported : ∀ s in_batch keys vals count flags a t, supported = false →
    R s (.lookup_batch in_batch keys vals count flags) a t →
    a.err = some EINVAL ∨ a.err = some ENOTSUPP

/-! ### Buffers -/

/-- The record at `i` of records of one size, whatever is behind them. -/
lemma cell_flatten {size : ℕ} {l : List Bytes} (h : ∀ x ∈ l, x.length = size) (rest : Bytes)
    {i : ℕ} {x : Bytes} (hx : l[i]? = some x) : cell size i (l.flatten ++ rest) = x := by
  induction l generalizing i with
  | nil => simp at hx
  | cons y l ih =>
    have hy : y.length = size := h y List.mem_cons_self
    rw [List.flatten_cons, List.append_assoc, cell]
    cases i with
    | zero =>
      obtain rfl := Option.some.inj hx
      rw [Nat.zero_mul, List.drop_zero, List.take_left' hy]
    | succ i =>
      have hdrop : (i + 1) * size = y.length + i * size := by
        rw [hy, Nat.succ_mul, Nat.add_comm]
      rw [hdrop, List.drop_length_add_append]
      exact ih (fun z hz => h z (List.mem_cons_of_mem y hz)) hx

variable {m : BpfMap} {es es' : List Entry} {supported : Bool} {pos : Bytes → ℕ}
  {R : Machine calls σ}

/-- What is sliced out of the buffers is what the kernel has put there. -/
lemma entries_eq {start count : ℕ} {a : Batch}
    (hsizes : ∀ e ∈ es, e.1.length = m.key_size ∧ e.2.length = m.value_size)
    (h : Answers pos es start count a) : entries m a = (es.drop start).take a.count := by
  obtain ⟨rest, hkeys⟩ := h.keys
  obtain ⟨rest', hvals⟩ := h.vals
  have hlen : ((es.drop start).take a.count).length = a.count := by
    have hle := h.le_length
    rw [List.length_take, List.length_drop]
    omega
  have hmem : ∀ e ∈ (es.drop start).take a.count, e ∈ es := fun e he =>
    List.mem_of_mem_drop (List.mem_of_mem_take he)
  generalize (es.drop start).take a.count = l at hkeys hvals hlen hmem
  have hk : ∀ x ∈ l.map Prod.fst, x.length = m.key_size := by
    intro x hx
    obtain ⟨e, he, rfl⟩ := List.mem_map.mp hx
    exact (hsizes e (hmem e he)).1
  have hv : ∀ x ∈ l.map Prod.snd, x.length = m.value_size := by
    intro x hx
    obtain ⟨e, he, rfl⟩ := List.mem_map.mp hx
    exact (hsizes e (hmem e he)).2
  apply List.ext_getElem?
  intro i
  rw [entries, List.getElem?_map, hkeys, hvals]
  by_cases hi : i < a.count
  · have hget : l[i]? = some (l.get ⟨i, by omega⟩) := List.getElem?_eq_getElem _
    generalize l.get ⟨i, by omega⟩ = e at hget
    rw [hget, List.getElem?_range hi, Option.map_some,
      cell_flatten hk rest (by rw [List.getElem?_map, hget]; rfl),
      cell_flatten hv rest' (by rw [List.getElem?_map, hget]; rfl)]
  · have hnone : l[i]? = none := List.getElem?_eq_none (by omega)
    have hrange : (List.range a.count)[i]? = none :=
      List.getElem?_eq_none (by rw [List.length_range]; omega)
    rw [hnone, hrange]
    rfl

/-! ### Batches -/

variable {strerror : ℕ → String}

/-- One call of the loop, which has read the entries before `start`. -/
lemma take_entries {start count : ℕ} {a : Batch} (hR : Documented m es es' supported pos R)
    (h : Answers pos es start count a) :
    es.take start ++ entries m a = es.take (start + a.count) := by
  rw [entries_eq hR.sizes h, List.take_add]

/-- What a call answers, the first one and each later one. -/
lemma answer_batch (hR : Documented m es es' true pos R) {first : Bool} {start count flags : ℕ}
    {token_in keys vals : Bytes} (hstart : start ≤ es.length) (hfirst : first = true → start = 0)
    (hpos : first = false → pos token_in = start) {s t : σ} {a : Batch}
    (hop : R s (.lookup_batch (if first then none else some token_in) keys vals count flags) a t) :
    Answers pos es start count a := by
  cases first with
  | true =>
    rw [hfirst rfl]
    exact hR.first_batch _ _ _ _ _ _ _ rfl hop
  | false =>
    have hle : pos token_in ≤ es.length := by rwa [hpos rfl]
    rw [← hpos rfl]
    exact hR.later_batch _ _ _ _ _ _ _ _ rfl hle hop

lemma wp_batch_loop (hR : Documented m es es' true pos R) (flags : ℕ) {chunk : ℕ}
    (hchunk : 0 < chunk % 2 ^ 32) {fuel : ℕ} {first : Bool} {token_in keys vals : Bytes}
    {start : ℕ} {s : σ} (hstart : start ≤ es.length) (hfuel : es.length - start < fuel)
    (hfirst : first = true → start = 0) (hpos : first = false → pos token_in = start) :
    wp R (batch_loop strerror m flags chunk fuel first token_in keys vals (es.take start))
      (fun r _ => r = .returned (some es)) s := by
  induction fuel generalizing first token_in keys vals start s with
  | zero => omega
  | succ fuel ih =>
    rw [batch_loop, wp_op_bind]
    intro a t hop
    have hans := answer_batch hR hstart hfirst hpos hop
    have hle := hans.le_length
    dsimp only
    rw [take_entries hR hans]
    rcases hans.err with herr | herr
    · rw [herr]
      dsimp only
      rw [if_pos rfl, hans.last herr, List.take_length]
      rfl
    · -- the rest is shorter, since some entries were asked for
      obtain ⟨htoken, hmore⟩ := hans.more herr
      have hsome := hmore hchunk
      rw [herr]
      exact ih hle (by omega) nofun fun _ => htoken

/-- Where batches are not supported the first call says so, and nothing that was left in the buffers
is returned. -/
lemma wp_batch_loop_unsupported (hR : Documented m es es' false pos R) (flags chunk fuel : ℕ)
    (token_in keys vals : Bytes) (out : List Entry) (s : σ) :
    wp R (batch_loop strerror m flags chunk (fuel + 1) true token_in keys vals out)
      (fun r _ => r = .returned none) s := by
  rw [batch_loop, wp_op_bind]
  intro a t hop
  have herr := hR.unsupported _ _ _ _ _ _ _ _ rfl hop
  dsimp only
  rcases herr with herr | herr
  · rw [herr]
    exact rfl
  · rw [herr]
    exact rfl

/-! ### Keys -/

lemma elem_key_some {k : Bytes} (h : 0 < k.length) : elem_key (some k) = some k := by
  cases k with
  | nil => cases h
  | cons b k => rfl

/-- The keys in the order of the walk. -/
lemma length_walk (hR : Documented m es es' supported pos R) :
    (es'.map Prod.fst).length = es.length := by
  rw [List.length_map, hR.perm.length_eq]

lemma key_length (hR : Documented m es es' supported pos R) {k : Bytes}
    (hk : k ∈ es'.map Prod.fst) : 0 < k.length := by
  obtain ⟨e, he, rfl⟩ := List.mem_map.mp hk
  rw [(hR.sizes e (hR.perm.mem_iff.mp he)).1]
  exact hR.key_pos

/-- What the walk ends in: the keys, or the guard against a walk that does not end. -/
def walked (m : BpfMap) (ks : List Bytes) : Outcome (List Bytes) :=
  if ks.length ≤ 1 <<< 20 then .returned ks else .raised (runaway m)

/-- The key after the first `i` ones, asked for by the last of them. -/
lemma answer_key (hR : Documented m es es' supported pos R) {i : ℕ} {cur : Option Bytes}
    (hi : i ≤ es.length) (hfirst : i = 0 → cur = none)
    (hlater : ∀ j, i = j + 1 → (es'.map Prod.fst)[j]? = cur) {s t : σ} {a : Except ℕ Bytes}
    (hop : R s (.get_next_key (elem_key cur)) a t) : a = next_key (es'.map Prod.fst)[i]? := by
  have hlen := length_walk hR
  cases i with
  | zero =>
    rw [hfirst rfl] at hop
    exact hR.first_key _ _ _ hop
  | succ j =>
    obtain ⟨k, hk⟩ : ∃ k, (es'.map Prod.fst)[j]? = some k :=
      ⟨_, List.getElem?_eq_getElem (by omega : j < (es'.map Prod.fst).length)⟩
    rw [← hlater j rfl, hk, elem_key_some (key_length hR (List.mem_of_getElem? hk))] at hop
    exact hR.later_key _ _ _ _ _ hk hop

lemma wp_keys_loop (hR : Documented m es es' supported pos R) {fuel i : ℕ} {cur : Option Bytes}
    {s : σ} (hi : i ≤ es.length) (hfuel : es.length - i < fuel) (hmax : i ≤ 1 <<< 20)
    (hfirst : i = 0 → cur = none)
    (hlater : ∀ j, i = j + 1 → (es'.map Prod.fst)[j]? = cur) :
    wp R (keys_loop strerror m fuel cur ((es'.map Prod.fst).take i))
      (fun r _ => r = walked m (es'.map Prod.fst)) s := by
  have hlen := length_walk hR
  induction fuel generalizing i cur s with
  | zero => omega
  | succ fuel ih =>
    rw [keys_loop, wp_op_bind]
    intro a t hop
    have ha := answer_key hR hi hfirst hlater hop
    cases hk : (es'.map Prod.fst)[i]? with
    | none =>
      have hend : (es'.map Prod.fst).length ≤ i := List.getElem?_eq_none_iff.mp hk
      rw [hk] at ha
      subst ha
      rw [List.take_of_length_le hend, walked, if_pos (hend.trans hmax)]
      exact rfl
    | some k =>
      have hlt : i < (es'.map Prod.fst).length := (List.getElem?_eq_some_iff.mp hk).1
      have hsnoc : (es'.map Prod.fst).take i ++ [k] = (es'.map Prod.fst).take (i + 1) := by
        rw [List.take_add_one, hk]
        rfl
      rw [hk] at ha
      subst ha
      dsimp only [next_key]
      rw [hsnoc, List.length_take, Nat.min_eq_left hlt]
      split_ifs with hmore
      · rw [walked, if_neg (by omega)]
        exact rfl
      · refine ih (by omega) (by omega) (by omega) (by omega) ?_
        intro j hj
        obtain rfl : i = j := by omega
        exact hk

/-! ### Key by key -/

lemma wp_lookups (hR : Documented m es es' supported pos R) (flags : ℕ) {l : List Entry}
    (hl : ∀ e ∈ l, e ∈ es) (out : List Entry) (s : σ) :
    wp R (lookups strerror m flags (l.map Prod.fst) out)
      (fun r _ => r = .returned (out ++ l)) s := by
  induction l generalizing out s with
  | nil => exact congrArg Outcome.returned (List.append_nil out).symm
  | cons e l ih =>
    have hkey : 0 < e.1.length := by
      rw [(hR.sizes e (hl e List.mem_cons_self)).1]
      exact hR.key_pos
    rw [List.map_cons, lookups, wp_bind, lookup, wp_op_bind, elem_key_some hkey]
    intro a t hop
    obtain rfl := hR.lookup_elem _ _ _ _ _ (hl e List.mem_cons_self) hop
    have hrest := ih (fun e' he' => hl e' (List.mem_cons_of_mem e he')) (out ++ [e]) t
    rw [List.append_assoc] at hrest
    exact hrest

/-- What the walk returns. -/
def listed (m : BpfMap) (es : List Entry) : Outcome (List Entry) :=
  if es.length ≤ 1 <<< 20 then .returned es else .raised (runaway m)

lemma wp_walk (hR : Documented m es es' supported pos R) {fuel : ℕ} (hfuel : es.length < fuel)
    (flags : ℕ) (s : σ) :
    wp R (walk strerror m fuel flags) (fun r _ => r = listed m es') s := by
  have hlen := length_walk hR
  have hkeys : wp R (keys_loop strerror m fuel none ((es'.map Prod.fst).take 0))
      (fun r _ => r = walked m (es'.map Prod.fst)) s :=
    wp_keys_loop hR (Nat.zero_le _) (by omega) (Nat.zero_le _) (fun _ => rfl) nofun
  rw [walk, wp_bind]
  refine wp_mono hkeys ?_
  rintro r t rfl
  rw [walked, listed, List.length_map]
  split_ifs with hmax
  · exact wp_lookups hR flags (fun e he => hR.perm.mem_iff.mp he) [] t
  · exact rfl

/-! ### The whole method -/

lemma wp_batch (hR : Documented m es es' true pos R) {fuel : ℕ} (hfuel : es.length < fuel)
    (flags : ℕ) {chunk : ℕ} (hchunk : 0 < chunk % 2 ^ 32) (s : σ) :
    wp R (batch strerror m fuel flags chunk) (fun r _ => r = .returned (some es)) s := by
  have hstart : 0 ≤ es.length := Nat.zero_le _
  exact wp_batch_loop hR flags hchunk hstart (by omega) (fun _ => rfl) nofun

lemma wp_batch_unsupported (hR : Documented m es es' false pos R) {fuel : ℕ} (hfuel : 0 < fuel)
    (flags chunk : ℕ) (s : σ) :
    wp R (batch strerror m fuel flags chunk) (fun r _ => r = .returned none) s := by
  obtain ⟨k, rfl⟩ := Nat.exists_eq_succ_of_ne_zero (Nat.ne_of_gt hfuel)
  exact wp_batch_loop_unsupported hR flags chunk k _ _ _ [] s

lemma wp_items (hR : Documented m es es' supported pos R) {fuel : ℕ} (hfuel : es.length < fuel)
    (flags : ℕ) (s : σ) :
    wp R (items strerror m fuel flags)
      (fun r _ => r = if supported = true then .returned es else listed m es') s := by
  rw [items, wp_bind]
  cases supported with
  | true =>
    refine wp_mono (wp_batch hR hfuel flags (by decide) s) ?_
    rintro r t rfl
    exact rfl
  | false =>
    refine wp_mono (wp_batch_unsupported hR (by omega) flags 4096 s) ?_
    rintro r t rfl
    exact wp_walk hR hfuel flags t

/-- **Batches bring every entry once, with its value**, whatever the size of the map and of the
batches, and so does the walk over the keys, up to the number of keys at which it gives up. Both
come to an end. -/
theorem entries_once (strerror : ℕ → String) (hR : Documented m es es' supported pos R) {fuel : ℕ}
    (hfuel : es.length < fuel) (flags : ℕ) (s : σ) :
    (supported = true → ∀ chunk, 0 < chunk % 2 ^ 32 →
        Ends R s (batch strerror m fuel flags chunk) (.returned (some es))) ∧
      (supported = false → ∀ chunk, Ends R s (batch strerror m fuel flags chunk) (.returned none)) ∧
      (es.length ≤ 1 <<< 20 → Ends R s (walk strerror m fuel flags) (.returned es') ∧ es'.Perm es) ∧
      (1 <<< 20 < es.length → Ends R s (walk strerror m fuel flags) (.raised (runaway m))) ∧
      Ends R s (items strerror m fuel flags)
        (if supported = true then .returned es else listed m es') := by
  have hlen := hR.perm.length_eq
  have hwalk : Ends R s (walk strerror m fuel flags) (listed m es') :=
    ends_of_wp hR.answers (wp_walk hR hfuel flags s)
  refine ⟨?_, ?_, ?_, ?_, ends_of_wp hR.answers (wp_items hR hfuel flags s)⟩
  · rintro rfl chunk hchunk
    exact ends_of_wp hR.answers (wp_batch hR hfuel flags hchunk s)
  · rintro rfl chunk
    exact ends_of_wp hR.answers (wp_batch_unsupported hR (by omega) flags chunk s)
  · intro hmax
    rw [listed, if_pos (by omega)] at hwalk
    exact ⟨hwalk, hR.perm⟩
  · intro hmax
    rwa [listed, if_neg (by omega)] at hwalk

/-! ### A kernel -/

/-- A batch that is filled as far as the entries go; the token is the position after it. -/
def batch_at (es : List Entry) (start : ℕ) (keys vals : Bytes) (count : ℕ) : Batch :=
  let l := (es.drop start).take count
  { err := if start + l.length = es.length then some ENOENT else none
    count := l.length
    keys := (l.map Prod.fst).flatten ++ keys.drop (l.map Prod.fst).flatten.length
    vals := (l.map Prod.snd).flatten ++ vals.drop (l.map Prod.snd).flatten.length
    token_out := le 8 (start + l.length) }

/-- A call that is not supported leaves `count` and the buffers untouched. -/
def untouched (keys vals : Bytes) (count : ℕ) : Batch where
  err := some EINVAL
  count := count
  keys := keys
  vals := vals
  token_out := List.replicate 8 0

/-- The answers of a kernel that keeps the entries in this order. -/
def answer (supported : Bool) (es : List Entry) : (o : Op) → Ans o
  | .get_next_key none => next_key (es.map Prod.fst)[0]?
  | .get_next_key (some k) => next_key (es.map Prod.fst)[(es.map Prod.fst).idxOf k + 1]?
  | .lookup_elem key _ =>
    match es.find? fun e => some e.1 = key with
    | some e => .ok e.2
    | none => .error ENOENT
  | .lookup_batch none keys vals count _ =>
    if supported then batch_at es 0 keys vals count else untouched keys vals count
  | .lookup_batch (some token) keys vals count _ =>
    if supported then batch_at es (of_le token) keys vals count else untouched keys vals count

def table (supported : Bool) (es : List Entry) : Machine calls Unit :=
  fun _ o a _ => a = answer supported es o

/-- The keys 0 .. n - 1, each with itself as value. -/
def numbered (n : ℕ) : List Entry := (List.range n).map fun i => (le 4 i, le 4 i)

def numbers : BpfMap := ⟨"/sys/fs/bpf/numbers", 4, 4⟩

lemma length_numbered (n : ℕ) : (numbered n).length = n := by
  rw [numbered, List.length_map, List.length_range]

lemma nodup_numbered {n : ℕ} (h : n ≤ 256 ^ 4) : ((numbered n).map Prod.fst).Nodup := by
  rw [numbered, List.map_map]
  refine List.Nodup.map_on ?_ List.nodup_range
  intro i hi j hj heq
  have hi' := List.mem_range.mp hi
  have hj' := List.mem_range.mp hj
  have hle : le 4 i = le 4 j := heq
  rw [← of_le_le 4 (by omega : i < 256 ^ 4), hle, of_le_le 4 (by omega)]

lemma sizes_numbered {n : ℕ} {e : Entry} (h : e ∈ numbered n) :
    e.1.length = 4 ∧ e.2.length = 4 := by
  obtain ⟨i, -, rfl⟩ := List.mem_map.mp h
  exact ⟨length_le 4 i, length_le 4 i⟩

lemma find_numbered {n : ℕ} (h : n ≤ 256 ^ 4) {e : Entry} (he : e ∈ numbered n) :
    (numbered n).find? (fun e' => some e'.1 = some e.1) = some e := by
  cases hf : (numbered n).find? fun e' => some e'.1 = some e.1 with
  | none =>
    have hnone := List.find?_eq_none.mp hf e he
    simp at hnone
  | some e' =>
    have hkey : e'.1 = e.1 := by simpa using List.find?_some hf
    have hmem := List.mem_of_find?_eq_some hf
    exact congrArg some (List.inj_on_of_nodup_map (nodup_numbered h) hmem he hkey)

lemma answers_batch_at {start : ℕ} (hlt : es.length < 256 ^ 8) (hstart : start ≤ es.length)
    (keys vals : Bytes) (count : ℕ) :
    Answers of_le es start count (batch_at es start keys vals count) := by
  have hlen : ((es.drop start).take count).length = min count (es.length - start) := by
    rw [List.length_take, List.length_drop]
  have htake : (es.drop start).take (batch_at es start keys vals count).count =
      (es.drop start).take count := by
    change (es.drop start).take ((es.drop start).take count).length = _
    rw [List.length_take, ← List.take_eq_take_min]
  have hcount : (batch_at es start keys vals count).count = min count (es.length - start) := hlen
  have htoken : of_le (batch_at es start keys vals count).token_out =
      start + (batch_at es start keys vals count).count := of_le_le 8 (by omega)
  have herr : (batch_at es start keys vals count).err =
      if start + (batch_at es start keys vals count).count = es.length then some ENOENT
      else none := rfl
  refine ⟨by omega, by omega, ?keys, ?vals, ?last, ?err, ?more⟩
  case keys =>
    rw [htake]
    exact ⟨_, rfl⟩
  case vals =>
    rw [htake]
    exact ⟨_, rfl⟩
  case last =>
    intro h
    by_contra hne
    rw [herr, if_neg hne] at h
    cases h
  case err =>
    rw [herr]
    split_ifs
    · exact Or.inl rfl
    · exact Or.inr rfl
  case more =>
    intro h
    refine ⟨htoken, fun hpos => ?_⟩
    by_contra hzero
    have hend : start + (batch_at es start keys vals count).count = es.length := by omega
    rw [herr, if_pos hend] at h
    cases h

lemma documented_numbered (supported : Bool) {n : ℕ} (hn : n ≤ 256 ^ 4) :
    Documented numbers (numbered n) (numbered n) supported of_le
      (table supported (numbered n)) where
  answers s o := ⟨_, s, rfl⟩
  nodup := nodup_numbered hn
  perm := .refl _
  sizes e he := sizes_numbered he
  key_pos := by decide
  first_key s a t h := h
  later_key s i k a t hk h := by
    obtain ⟨hi, hget⟩ := List.getElem?_eq_some_iff.mp hk
    have hidx := (nodup_numbered hn).idxOf_getElem i hi
    rw [hget] at hidx
    have ha : a = answer supported (numbered n) (.get_next_key (some k)) := h
    rw [ha, answer, hidx]
  lookup_elem s e flags a t he h := by
    have ha : a = answer supported (numbered n) (.lookup_elem (some e.1) flags) := h
    rw [ha, answer, find_numbered hn he]
  first_batch s keys vals count flags a t hs h := by
    subst hs
    have ha : a = batch_at (numbered n) 0 keys vals count := h
    rw [ha]
    exact answers_batch_at (by rw [length_numbered]; omega) (Nat.zero_le _) keys vals count
  later_batch s token keys vals count flags a t hs hpos h := by
    subst hs
    have ha : a = batch_at (numbered n) (of_le token) keys vals count := h
    rw [ha]
    exact answers_batch_at (by rw [length_numbered]; omega) hpos keys vals count
  unsupported s in_batch keys vals count flags a t hs h := by
    subst hs
    have ha : a = untouched keys vals count := by
      cases in_batch <;> exact h
    rw [ha]
    exact Or.inl rfl

theorem entries_once_three :
    (true = true → ∀ chunk, 0 < chunk % 2 ^ 32 →
        Ends (table true (numbered 3)) () (batch (fun _ => "") numbers 4 0 chunk)
          (.returned (some (numbered 3)))) ∧
      (true = false → ∀ chunk,
        Ends (table true (numbered 3)) () (batch (fun _ => "") numbers 4 0 chunk)
          (.returned none)) ∧
      ((numbered 3).length ≤ 1 <<< 20 →
        Ends (table true (numbered 3)) () (walk (fun _ => "") numbers 4 0)
          (.returned (numbered 3)) ∧ (numbered 3).Perm (numbered 3)) ∧
      (1 <<< 20 < (numbered 3).length →
        Ends (table true (numbered 3)) () (walk (fun _ => "") numbers 4 0)
          (.raised (runaway numbers))) ∧
      Ends (table true (numbered 3)) () (items (fun _ => "") numbers 4 0)
        (if true = true then .returned (numbered 3) else listed numbers (numbered 3)) := by
  have hn : 3 ≤ 256 ^ 4 := by decide
  have hfuel : (numbered 3).length < 4 := by decide
  exact entries_once (fun _ => "") (documented_numbered true hn) hfuel 0 ()

/-! ### Where the two ways differ -/

/-- A request for no entries is no progress: `count` is 0 for every multiple of 2^32. -/
lemma wp_batch_loop_zero {es : List Entry} (hne : es ≠ []) (flags : ℕ) {chunk : ℕ}
    (hchunk : chunk % 2 ^ 32 = 0) (fuel : ℕ) (first : Bool) {token_in : Bytes}
    (htoken : of_le token_in = 0) (keys vals : Bytes) (out : List Entry) (s : Unit) :
    wp (table true es) (batch_loop strerror m flags chunk fuel first token_in keys vals out)
      (fun r _ => r = .unfinished) s := by
  induction fuel generalizing first token_in keys vals out s with
  | zero => exact rfl
  | succ fuel ih =>
    rw [batch_loop, wp_op_bind, hchunk]
    intro a t hop
    have ha : a = batch_at es 0 keys vals 0 := by
      cases first with
      | true => exact hop
      | false =>
        have hsome : a = batch_at es (of_le token_in) keys vals 0 := hop
        rwa [htoken] at hsome
    have hlen : 0 ≠ es.length := fun h => hne (List.length_eq_zero_iff.mp h.symm)
    have herr : (batch_at es 0 keys vals 0).err = none := if_neg hlen
    dsimp only
    rw [ha, herr]
    exact ih false (of_le_le 8 (by decide)) _ _ _ _

/-- One entry more than the walk takes. -/
def too_many : ℕ := 1 <<< 20 + 1

/-- The walk raises where batches return the whole map, and a batch size of 2^32 never comes to an
end. -/
theorem walk_gives_up :
    Documented numbers (numbered too_many) (numbered too_many) true of_le
        (table true (numbered too_many)) ∧
      Ends (table true (numbered too_many)) () (batch (fun _ => "") numbers (too_many + 1) 0 4096)
        (.returned (some (numbered too_many))) ∧
      Ends (table true (numbered too_many)) () (walk (fun _ => "") numbers (too_many + 1) 0)
        (.raised (runaway numbers)) ∧
      Documented numbers (numbered 1) (numbered 1) true of_le (table true (numbered 1)) ∧
      ∀ fuel, Ends (table true (numbered 1)) () (batch (fun _ => "") numbers fuel 0 (2 ^ 32))
        .unfinished := by
  have hmax : too_many = 1048577 := rfl
  have hmany := documented_numbered true (n := too_many) (by omega)
  have hone := documented_numbered true (n := 1) (by omega)
  have hfuel : (numbered too_many).length < too_many + 1 := by
    rw [length_numbered]
    omega
  refine ⟨hmany, ?_, ?_, hone, fun fuel => ?_⟩
  · exact ends_of_wp hmany.answers (wp_batch hmany hfuel 0 (by decide) ())
  · have hwalk : Ends (table true (numbered too_many)) () (walk (fun _ => "") numbers _ 0) _ :=
      ends_of_wp hmany.answers (wp_walk hmany hfuel 0 ())
    rwa [listed, length_numbered, if_neg (by omega)] at hwalk
  · refine ends_of_wp hone.answers (wp_batch_loop_zero ?_ 0 rfl fuel true rfl _ _ [] ())
    exact List.cons_ne_nil _ _

end Lookout.Batches

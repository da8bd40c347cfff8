import Lookout.Fwctl
import Lookout.Layouts
import Lookout.Rules
import Mathlib.Data.List.DropRight
import Mathlib.Tactic.IntervalCases

/-!
Networks as texts, as the bytes of a trie key, and as sets of addresses.

`ipaddress.IPv4Network` reads the text, `struct.pack` writes the key with the length as a
little-endian number and the address as it stands in a packet, and the kernel compares keys bit by
bit. The program looks a source up under the bytes of its packet, which it never swaps.
-/

namespace Lookout.Networks

open Lookout.Effects Lookout.Effects.Prog Lookout.Dicts Lookout.Lpm Lookout.Lpm.Covering
open Lookout.Common Lookout.Packet Lookout.Kernel Lookout.Firewall Lookout.Fwctl Lookout.Structs
open Lookout.Layouts

variable {n : ℕ}

/-! ### Texts -/

/-- `str.isspace` of one character. -/
def isspace (c : Char) : Bool :=
  let n := c.toNat
  (0x09 ≤ n && n ≤ 0x0D) || (0x1C ≤ n && n ≤ 0x20) || n = 0x85 || n = 0xA0 || n = 0x1680 ||
    (0x2000 ≤ n && n ≤ 0x200A) || n = 0x2028 || n = 0x2029 || n = 0x202F || n = 0x205F ||
    n = 0x3000

/-- `str.strip`. -/
def strip (l : List Char) : List Char := (l.dropWhile isspace).rdropWhile isspace

/-- `_parse_octet`: up to three digits, without leading zeros. -/
def parse_octet (l : List Char) : Option ℕ :=
  if l = [] then none
  else if l.all Char.isDigit = false then none
  else if 3 < l.length then none
  else if l ≠ ['0'] ∧ l.head? = some '0' then none
  else if 255 < Nat.ofDigitChars 10 l 0 then none
  else some (Nat.ofDigitChars 10 l 0)

/-- The address of four octets, the first one on top. -/
def from_bytes (a b c d : ℕ) : Addr :=
  (BitVec.ofNat 8 a ++ BitVec.ofNat 8 b) ++ (BitVec.ofNat 8 c ++ BitVec.ofNat 8 d)

/-- `_ip_int_from_string`. -/
def ip_int_from_string (l : List Char) : Option Addr :=
  match l.splitOn '.' with
  | [a, b, c, d] => do
    let a ← parse_octet a
    let b ← parse_octet b
    let c ← parse_octet c
    let d ← parse_octet d
    return from_bytes a b c d
  | _ => none

/-- `_prefix_from_prefix_string`; `int` takes 4300 digits at most. -/
def prefix_from_prefix_string (l : List Char) : Option (Fin 33) :=
  if l = [] ∨ l.all Char.isDigit = false ∨ 4300 < l.length then none
  else if h : Nat.ofDigitChars 10 l 0 < 33 then some ⟨Nat.ofDigitChars 10 l 0, h⟩
  else none

/-- `_count_righthand_zero_bits`. -/
def righthand_zero_bits (x : Addr) : ℕ :=
  ((List.range 32).takeWhile fun i => !x.getLsbD i).length

/-- `_prefix_from_ip_int`: the ones of a netmask come first. -/
def prefix_from_ip_int (x : Addr) : Option (Fin 33) :=
  let prefixlen := 32 - righthand_zero_bits x
  if (x >>> righthand_zero_bits x).toNat = 2 ^ prefixlen - 1 then
    some ⟨prefixlen, Nat.lt_succ_of_le (Nat.sub_le 32 _)⟩
  else none

/-- `_prefix_from_ip_string`: a netmask, or else a hostmask. -/
def prefix_from_ip_string (l : List Char) : Option (Fin 33) :=
  (ip_int_from_string l).bind fun x => prefix_from_ip_int x <|> prefix_from_ip_int (~~~x)

/-- `_make_netmask`. -/
def make_netmask (l : List Char) : Option (Fin 33) :=
  prefix_from_prefix_string l <|> prefix_from_ip_string l

/-- What the text says, before the host bits are cleared. -/
def written (l : List Char) : Option Cidr :=
  match l.splitOn '/' with
  | [a] => (ip_int_from_string a).map Cidr.plain
  | [a, m] => do
    let x ← ip_int_from_string a
    let m ← make_netmask m
    return ⟨x, m.val, Nat.le_of_lt_succ m.isLt⟩
  | _ => none

/-- `parse_cidr`: the network, with the host bits cleared. -/
def parse_cidr (py : Str) (cidr : String) : Except PyError LpmKey :=
  match written (strip cidr.toList) with
  | some c => .ok (Fwctl.lpm_key c)
  | none => .error (.ValueError ("not an IPv4 address or prefix: " ++ py.repr cidr))

/-- `network_address.packed`. -/
def packed (a : Addr) : Bytes :=
  [a.extractLsb' 24 8, a.extractLsb' 16 8, a.extractLsb' 8 8, a.extractLsb' 0 8]

/-- Values that do not fit their format raise. -/
def fits : Option Bytes → Except PyError Bytes
  | some l => .ok l
  | none => .error .struct_error

/-- `lpm_key`. -/
def lpm_key (py : Str) (cidr : String) : Except PyError Bytes :=
  (parse_cidr py cidr).bind fun net => fits (pack_lpm_key net.prefixlen (packed net.addr))

/-- `socket.inet_ntoa`, of bytes. -/
def ntoa : Bytes → Option String
  | [a, b, c, d] =>
    some (toString a.toNat ++ "." ++ toString b.toNat ++ "." ++ toString c.toNat ++ "." ++
      toString d.toNat)
  | _ => none

/-- `unpack_cidr`. -/
def unpack_cidr (key : Bytes) : Option String :=
  match unpack_lpm_key key with
  | some (.int plen, .bytes addr) => (ntoa addr).map fun s => s ++ "/" ++ toString plen
  | _ => none

example : (written "10.0.0.5/0.0.0.255".toList).map (fun c => (c.addr, c.prefixlen)) =
    some (0x0A000005, 24) := by decide +kernel

example : (written "10.0.0.05".toList).isNone := by decide +kernel

/-! ### The kernel's tries -/

/-- The length of a key, a number of the host. -/
def trie_prefixlen (key : Bytes) : ℕ := of_le (key.take 4)

/-- Bit `i` of a key's data, from the most significant bit of the first byte on. -/
def trie_bit (key : Bytes) (i : ℕ) : Bool := ((key.drop 4).getD (i / 8) 0).getMsbD (i % 8)

/-- An entry covers a key that is as long and has the same bits. -/
def trie_covers (entry key : Bytes) : Prop :=
  trie_prefixlen entry ≤ trie_prefixlen key ∧
    ∀ i < trie_prefixlen entry, trie_bit entry i = trie_bit key i

/-- The members of a `struct lpm_key`; `addr` is the word, as the machine reads it. -/
def lpm_values (prefixlen addr : ℕ) : Values
  | "prefixlen" => prefixlen
  | "addr" => addr
  | _ => 0

/-- The key `xdp_firewall` looks up. The word it reads from the header, which starts at `nh`, is
left as it is. -/
def lookup_key (f : Frame) (nh : ℕ) : Bytes :=
  image (lpm_values 32 (of_le ((f.bytes.drop (nh + 12)).take 4))) (layout Layouts.lpm_key)

lemma layout_lpm_key :
    layout Layouts.lpm_key = [.field (u32 "prefixlen"), .field (u32 "addr")] := by
  decide +kernel

lemma image_lpm_key (prefixlen addr : ℕ) :
    image (lpm_values prefixlen addr) (layout Layouts.lpm_key) = le 4 prefixlen ++ le 4 addr := by
  rw [layout_lpm_key]
  simp [image, u32, lpm_values]

/-! ### Bits and bytes -/

lemma getMsbD_mask (n i : ℕ) (h : n ≤ 32) : (mask n).getMsbD i = decide (i < n) := by
  rw [mask, BitVec.getMsbD_shiftLeft, BitVec.getMsbD_allOnes, decide_eq_decide]
  omega

/-- Clearing the host bits of two addresses gives the same network if their first bits agree. -/
lemma and_mask_eq_iff {a b : Addr} {n : ℕ} (h : n ≤ 32) :
    a &&& mask n = b &&& mask n ↔ ∀ i < n, a.getMsbD i = b.getMsbD i := by
  constructor
  · intro heq i hi
    have hbit := congrArg (fun x => x.getMsbD i) heq
    simpa only [BitVec.getMsbD_and, getMsbD_mask n i h, hi, decide_true, Bool.and_true] using hbit
  · intro hbits
    apply BitVec.eq_of_getMsbD_eq
    intro i _
    rw [BitVec.getMsbD_and, BitVec.getMsbD_and, getMsbD_mask n i h]
    by_cases hi : i < n
    · rw [hbits i hi]
    · simp [hi]

lemma packed_append (b0 b1 b2 b3 : BitVec 8) :
    packed ((b0 ++ b1) ++ (b2 ++ b3)) = [b0, b1, b2, b3] := by
  have h0 : ((b0 ++ b1) ++ (b2 ++ b3)).extractLsb' 24 8 = b0 := by
    rw [BitVec.extractLsb'_append_eq_of_le (by omega), BitVec.extractLsb'_append_eq_left]
  have h1 : ((b0 ++ b1) ++ (b2 ++ b3)).extractLsb' 16 8 = b1 := by
    rw [BitVec.extractLsb'_append_eq_of_le (by omega),
      BitVec.extractLsb'_append_eq_of_add_le (by omega)]
    exact BitVec.extractLsb'_eq_self
  have h2 : ((b0 ++ b1) ++ (b2 ++ b3)).extractLsb' 8 8 = b2 := by
    rw [BitVec.extractLsb'_append_eq_of_add_le (by omega), BitVec.extractLsb'_append_eq_left]
  have h3 : ((b0 ++ b1) ++ (b2 ++ b3)).extractLsb' 0 8 = b3 := by
    rw [BitVec.extractLsb'_append_eq_of_add_le (by omega),
      BitVec.extractLsb'_append_eq_of_add_le (by omega)]
    exact BitVec.extractLsb'_eq_self
  rw [packed, h0, h1, h2, h3]

lemma getMsbD_extract (a : Addr) {j r : ℕ} (hj : j < 4) (hr : r < 8) :
    (a.extractLsb' (24 - 8 * j) 8).getMsbD r = a.getMsbD (8 * j + r) := by
  rw [BitVec.getMsbD_extractLsb']
  have hle : 24 - 8 * j + 8 - r ≤ 32 := by omega
  have hidx : 32 - (24 - 8 * j + 8 - r) = 8 * j + r := by omega
  simp only [hr, hle, hidx, decide_true, Bool.true_and]

/-- The bits of an address, read from its bytes in network order. -/
lemma getMsbD_packed (a : Addr) {i : ℕ} (h : i < 32) :
    ((packed a).getD (i / 8) 0).getMsbD (i % 8) = a.getMsbD i := by
  have hj : i / 8 < 4 := by omega
  have hget : (packed a).getD (i / 8) 0 = a.extractLsb' (24 - 8 * (i / 8)) 8 := by
    generalize i / 8 = j at hj
    interval_cases j <;> rfl
  have hi : 8 * (i / 8) + i % 8 = i := Nat.div_add_mod i 8
  rw [hget, getMsbD_extract a hj (Nat.mod_lt i (by omega)), hi]

/-! ### Keys -/

/-- A key as both sides lay it out: a little-endian length, the address in network order. -/
def key (len : ℕ) (a : Addr) : Bytes := le 4 len ++ packed a

lemma trie_prefixlen_key (a : Addr) {len : ℕ} (h : len ≤ 32) :
    trie_prefixlen (key len a) = len := by
  have hlt : len < 256 ^ 4 := by omega
  rw [trie_prefixlen, key, List.take_left' (length_le 4 len), of_le_le 4 hlt]

lemma trie_bit_key (len : ℕ) (a : Addr) {i : ℕ} (h : i < 32) :
    trie_bit (key len a) i = a.getMsbD i := by
  rw [trie_bit, key, List.drop_left' (length_le 4 len), getMsbD_packed a h]

lemma trie_covers_key {a b : Addr} {len : ℕ} (h : len ≤ 32) :
    trie_covers (key len a) (key 32 b) ↔ ∀ i < len, a.getMsbD i = b.getMsbD i := by
  rw [trie_covers, trie_prefixlen_key a h, trie_prefixlen_key b le_rfl]
  constructor
  · intro ⟨_, hbits⟩ i hi
    have hbit := hbits i hi
    rwa [trie_bit_key len a (by omega), trie_bit_key 32 b (by omega)] at hbit
  · intro hbits
    refine ⟨h, fun i hi => ?_⟩
    rw [trie_bit_key len a (by omega), trie_bit_key 32 b (by omega)]
    exact hbits i hi

lemma take_four {f : Frame} {i : ℕ} (h : i + 4 ≤ f.pkt_len) :
    (f.bytes.drop i).take 4 = packed (f.be32 i h) := by
  have hlen : i + 4 ≤ f.bytes.length := h
  rw [Frame.be32, Frame.be16, Frame.be16, packed_append]
  rw [List.drop_eq_getElem_cons (by omega), List.drop_eq_getElem_cons (by omega),
    List.drop_eq_getElem_cons (by omega), List.drop_eq_getElem_cons (by omega)]
  rfl

/-- What the program looks a frame up under. -/
lemma lookup_key_eq {f : Frame} {h_proto : U16} {nh : ℕ} {ip : IpHdr}
    (heth : parse_eth f = some (h_proto, nh)) (hip : parse_l3 f = .ipv4 ip) :
    lookup_key f nh = key 32 ip.saddr := by
  unfold parse_l3 at hip
  rw [heth] at hip
  by_cases hproto : h_proto = ETH_P_IP
  · simp only [hproto, ne_eq, not_true_eq_false, if_false] at hip
    unfold parse_ip at hip
    by_cases hlen : nh + 20 ≤ f.pkt_len
    · rw [dif_pos hlen] at hip
      simp only at hip
      split_ifs at hip
      obtain rfl := (L3.ipv4.injEq ..).mp hip
      rw [lookup_key, take_four (by omega), image_lpm_key, key]
      exact congrArg (le 4 32 ++ ·) (le_of_le (packed (f.be32 (nh + 12) (by omega))))
    · rw [dif_neg hlen] at hip
      cases hip
  · simp only [ne_eq, hproto, not_false_eq_true, if_true] at hip
    cases hip

/-! ### Texts read back -/

/-- The digits of the four octets, with the dots. -/
def dotted (a : Addr) : List Char :=
  Nat.toDigits 10 (a.extractLsb' 24 8).toNat ++ '.' ::
    (Nat.toDigits 10 (a.extractLsb' 16 8).toNat ++ '.' ::
      (Nat.toDigits 10 (a.extractLsb' 8 8).toNat ++ '.' ::
        Nat.toDigits 10 (a.extractLsb' 0 8).toNat))

lemma toList_unpack_cidr (k : LpmKey) :
    (Firewall.unpack_cidr k).toList = dotted k.addr ++ '/' :: Nat.toDigits 10 k.prefixlen := by
  simp [Firewall.unpack_cidr, inet_ntoa, dotted]

lemma notMem_toDigits {c : Char} (h : c.isDigit = false) (n : ℕ) : c ∉ Nat.toDigits 10 n := by
  intro hc
  rw [Nat.isDigit_of_mem_toDigits (by omega) (by omega) hc] at h
  cases h

/-- An octet is read back from its digits, of which there are three at most, and no zero first. -/
lemma parse_octet_toDigits (b : BitVec 8) :
    parse_octet (Nat.toDigits 10 b.toNat) = some b.toNat := by
  have hall : (List.range 256).all fun n => parse_octet (Nat.toDigits 10 n) = some n := by
    decide +kernel
  rw [List.all_eq_true] at hall
  exact of_decide_eq_true (hall b.toNat (List.mem_range.mpr b.isLt))

lemma from_bytes_extract (a : Addr) :
    from_bytes (a.extractLsb' 24 8).toNat (a.extractLsb' 16 8).toNat (a.extractLsb' 8 8).toNat
      (a.extractLsb' 0 8).toNat = a := by
  simp only [from_bytes, BitVec.ofNat_toNat, BitVec.setWidth_eq]
  exact octets_append a

lemma ip_int_dotted (a : Addr) : ip_int_from_string (dotted a) = some a := by
  have hdot := notMem_toDigits (c := '.') (by decide)
  rw [ip_int_from_string, dotted, List.splitOn_append_cons_self_of_not_mem (hdot _),
    List.splitOn_append_cons_self_of_not_mem (hdot _),
    List.splitOn_append_cons_self_of_not_mem (hdot _), List.splitOn_eq_singleton (hdot _)]
  simp only [parse_octet_toDigits]
  exact congrArg some (from_bytes_extract a)

lemma make_netmask_toDigits (m : Fin 33) : make_netmask (Nat.toDigits 10 m.val) = some m := by
  have hall : (List.finRange 33).all fun m =>
      prefix_from_prefix_string (Nat.toDigits 10 m.val) = some m := by decide +kernel
  rw [List.all_eq_true] at hall
  rw [make_netmask, of_decide_eq_true (hall m (List.mem_finRange m))]
  rfl

lemma notMem_dotted {c : Char} (h : c.isDigit = false) (hdot : c ≠ '.') (a : Addr) :
    c ∉ dotted a := by
  simp only [dotted, List.mem_append, List.mem_cons, not_or]
  exact ⟨notMem_toDigits h _, hdot, notMem_toDigits h _, hdot, notMem_toDigits h _, hdot,
    notMem_toDigits h _⟩

lemma written_dotted (a : Addr) {len : ℕ} (h : len ≤ 32) :
    written (dotted a ++ '/' :: Nat.toDigits 10 len) = some ⟨a, len, h⟩ := by
  have hslash := notMem_toDigits (c := '/') (by decide)
  rw [written, List.splitOn_append_cons_self_of_not_mem (notMem_dotted (by decide) (by decide) a),
    List.splitOn_eq_singleton (hslash _)]
  simp only [ip_int_dotted, make_netmask_toDigits ⟨len, Nat.lt_succ_of_le h⟩]
  rfl

lemma not_isspace_of_isDigit {c : Char} (h : c.isDigit = true) : isspace c = false := by
  obtain ⟨hlow, hhigh⟩ := Char.isDigit_iff_toNat.mp h
  have hzero : '0'.toNat = 48 := rfl
  have hnine : '9'.toNat = 57 := rfl
  simp only [isspace, Bool.or_eq_false_iff, Bool.and_eq_false_iff, decide_eq_false_iff_not]
  omega

lemma strip_eq_self {l : List Char} (h : ∀ c ∈ l, isspace c = false) : strip l = l := by
  have hfront : l.dropWhile isspace = l := by
    rw [List.dropWhile_eq_self_iff]
    intro hl
    rw [h _ (List.getElem_mem hl)]
    exact Bool.false_ne_true
  rw [strip, hfront, List.rdropWhile_eq_self_iff]
  intro hl
  rw [h _ (List.getLast_mem hl)]
  exact Bool.false_ne_true

lemma not_isspace_dotted {a : Addr} {c : Char} (h : c ∈ dotted a) : isspace c = false := by
  by_contra hs
  rw [Bool.not_eq_false] at hs
  have hdigit : c.isDigit = false := by
    by_contra hd
    rw [not_isspace_of_isDigit (by simpa using hd)] at hs
    cases hs
  have hdot : c ≠ '.' := by
    intro hc
    rw [hc] at hs
    revert hs
    decide
  exact notMem_dotted hdigit hdot a h

/-- The text of a network is read back as that network. -/
theorem parse_unpack_cidr (py : Str) (net : LpmKey) :
    parse_cidr py (Firewall.unpack_cidr net) = .ok net := by
  have hstrip : strip (Firewall.unpack_cidr net).toList = (Firewall.unpack_cidr net).toList := by
    apply strip_eq_self
    intro c hc
    rw [toList_unpack_cidr, List.mem_append, List.mem_cons] at hc
    rcases hc with hc | hc | hc
    · exact not_isspace_dotted hc
    · rw [hc]
      decide
    · exact not_isspace_of_isDigit (Nat.isDigit_of_mem_toDigits (by omega) (by omega) hc)
  rw [parse_cidr, hstrip, toList_unpack_cidr, written_dotted net.addr net.le]
  obtain ⟨len, a, hle, hclear⟩ := net
  simp only [Fwctl.lpm_key, LpmKey.net, hclear]

/-! ### Keys made and read -/

lemma le_packed (a : Addr) : le 4 (of_le (packed a)) = packed a := le_of_le (packed a)

lemma image_key (len : ℕ) (a : Addr) :
    image (lpm_values len (of_le (packed a))) (layout Layouts.lpm_key) = key len a := by
  rw [image_lpm_key, le_packed, key]

lemma inRange_lpm_key {len : ℕ} (h : len ≤ 32) (a : Addr) :
    InRange (lpm_values len (of_le (packed a))) (layout Layouts.lpm_key) := by
  refine inRange_of_members layout_lpm_key fun m hm => ?_
  simp only [Layouts.lpm_key, List.mem_cons, List.not_mem_nil, or_false] at hm
  rcases hm with rfl | rfl
  · change len < 256 ^ 4
    omega
  · exact of_le_lt (packed a)

lemma pack_key (net : LpmKey) :
    pack_lpm_key net.prefixlen (packed net.addr) = some (key net.prefixlen net.addr) := by
  have h := (packs (lpm_values net.prefixlen (of_le (packed net.addr)))).lpm_key
    (inRange_lpm_key net.le net.addr)
  rw [image_key] at h
  rw [← h]
  exact congrArg (pack_lpm_key net.prefixlen) (le_packed net.addr).symm

lemma unpack_lpm_key_key (net : LpmKey) :
    unpack_lpm_key (key net.prefixlen net.addr) =
      some (.int net.prefixlen, .bytes (packed net.addr)) := by
  have hholds := holds_image (lpm_values net.prefixlen (of_le (packed net.addr)))
    (layout Layouts.lpm_key)
  rw [image_key] at hholds
  have h := (reads _ _).lpm_key (inRange_lpm_key net.le net.addr) hholds
  simp only [lpm_values, le_packed] at h
  exact h

lemma unpack_cidr_of_unpack {l : Bytes} {len : ℕ} {a : Addr}
    (h : unpack_lpm_key l = some (.int len, .bytes (packed a))) :
    unpack_cidr l = some (inet_ntoa a ++ "/" ++ toString len) := by
  have hlen : toString (len : ℤ) = toString len := rfl
  rw [unpack_cidr, h]
  simp only [packed, ntoa, Option.map_some, hlen, inet_ntoa]

lemma unpack_key (net : LpmKey) :
    unpack_cidr (key net.prefixlen net.addr) = some (Firewall.unpack_cidr net) := by
  rw [unpack_cidr_of_unpack (unpack_lpm_key_key net), Firewall.unpack_cidr]

lemma lpm_key_eq {py : Str} {cidr : String} {net : LpmKey} (h : parse_cidr py cidr = .ok net) :
    lpm_key py cidr = .ok (key net.prefixlen net.addr) := by
  rw [lpm_key, h, Except.bind, pack_key, fits]

/-- What an accepted text says, and the network it is. -/
lemma written_of_parse {py : Str} {cidr : String} {net : LpmKey}
    (h : parse_cidr py cidr = .ok net) :
    ∃ c, written (strip cidr.toList) = some c ∧ Fwctl.lpm_key c = net := by
  unfold parse_cidr at h
  cases hc : written (strip cidr.toList) with
  | none =>
    rw [hc] at h
    cases h
  | some c =>
    rw [hc] at h
    exact ⟨c, rfl, Except.ok.inj h⟩

/-- The address belongs to the network that was written. -/
def Belongs (a : Addr) (c : Cidr) : Prop := ∀ i < c.prefixlen, a.getMsbD i = c.addr.getMsbD i

lemma covers_iff_belongs {a : Addr} {c : Cidr} :
    covers (Fwctl.lpm_key c) a = true ↔ Belongs a c := by
  rw [covers_iff]
  exact and_mask_eq_iff c.le

/-- The bytes of a key cover what the network they stand for covers. -/
lemma trie_covers_iff {net : LpmKey} {a : Addr} :
    trie_covers (key net.prefixlen net.addr) (key 32 a) ↔ covers net a = true := by
  rw [trie_covers_key net.le, covers_iff, ← and_mask_eq_iff net.le, net.host_clear]
  exact eq_comm

lemma key_inj {net net' : LpmKey}
    (h : key net.prefixlen net.addr = key net'.prefixlen net'.addr) : net = net' := by
  have hlen : net.prefixlen = net'.prefixlen := by
    rw [← trie_prefixlen_key net.addr net.le, h, trie_prefixlen_key net'.addr net'.le]
  have haddr : net.addr = net'.addr := by
    apply BitVec.eq_of_getMsbD_eq
    intro i hi
    rw [← trie_bit_key net.prefixlen net.addr hi, h, trie_bit_key net'.prefixlen net'.addr hi]
  obtain ⟨len, a, hle, hclear⟩ := net
  obtain ⟨len', a', hle', hclear'⟩ := net'
  simp only at hlen haddr
  subst hlen haddr
  rfl

/-- Networks of two lengths do not cover the same addresses: one that the longer one covers leaves
it when the first bit is flipped that only this one compares. -/
lemma prefixlen_le_of_covers {net net' : LpmKey}
    (h : ∀ a : Addr, covers net a = true → covers net' a = true) :
    net'.prefixlen ≤ net.prefixlen := by
  by_contra hlt
  rw [not_le] at hlt
  have hle := net'.le
  have hself : covers net net.addr = true := (covers_iff net net.addr).mpr net.host_clear
  have hflip : covers net (net.addr ^^^ BitVec.twoPow 32 (31 - net.prefixlen)) = true := by
    rw [covers_iff]
    refine ((and_mask_eq_iff net.le).mpr fun i hi => ?_).trans net.host_clear
    rw [BitVec.getMsbD_xor, BitVec.getMsbD_twoPow]
    have hne : ¬ i = 32 - (31 - net.prefixlen) - 1 := by omega
    simp [hne]
  have h1 := (covers_iff net' _).mp (h _ hself)
  have h2 := (covers_iff net' _).mp (h _ hflip)
  have hbit := (and_mask_eq_iff net'.le).mp (h1.trans h2.symm) net.prefixlen hlt
  rw [BitVec.getMsbD_xor, BitVec.getMsbD_twoPow] at hbit
  have heq : net.prefixlen = 32 - (31 - net.prefixlen) - 1 := by omega
  have hlow : 31 - net.prefixlen < 32 := by omega
  simp [← heq, hlow] at hbit

/-- Networks with the same addresses are the same. -/
theorem net_ext {net net' : LpmKey}
    (h : ∀ a : Addr, covers net a = true ↔ covers net' a = true) : net = net' := by
  have hself : covers net net.addr = true := (covers_iff net net.addr).mpr net.host_clear
  have hlen : net.prefixlen = net'.prefixlen :=
    le_antisymm (prefixlen_le_of_covers fun a => (h a).mpr)
      (prefixlen_le_of_covers fun a => (h a).mp)
  exact eq_of_len hself ((h net.addr).mp hself) hlen

lemma belongs_iff_of_eq {c c' : Cidr} (h : Fwctl.lpm_key c' = Fwctl.lpm_key c) (a : Addr) :
    Belongs a c' ↔ Belongs a c := by
  rw [← covers_iff_belongs, ← covers_iff_belongs, h]

lemma eq_of_belongs {c c' : Cidr} (h : ∀ a, Belongs a c' ↔ Belongs a c) :
    Fwctl.lpm_key c' = Fwctl.lpm_key c := by
  apply net_ext
  intro a
  rw [covers_iff_belongs, covers_iff_belongs]
  exact h a

/-! ### Listing and deleting -/

/-- What `list_allowed` yields. -/
structure AllowEntry where
  cidr : String
  hits : ℕ

/-- `list_allowed`, from the items of the map on. -/
def list_allowed (items : List (LpmKey × AllowVal)) : List AllowEntry :=
  items.map fun e => ⟨Firewall.unpack_cidr e.1, e.2.hits⟩

/-- What is known of an accepted text: `c` is what it says, `net` the network, and `l` the key. -/
structure StoredUnder (py : Str) (cpu : Fin n) (cidr : String) (net : LpmKey) (c : Cidr)
    (l : Bytes) : Prop where
  text : written (strip cidr.toList) = some c
  made : lpm_key py cidr = .ok l
  /-- The entry covers the sources that belong to the network. -/
  found : ∀ f h_proto nh ip, parse_eth f = some (h_proto, nh) → parse_l3 f = .ipv4 ip →
    (trie_covers l (lookup_key f nh) ↔ Belongs ip.saddr c)
  /-- The text of the key is the canonical one. -/
  shown : unpack_cidr l = some (Firewall.unpack_cidr net)
  read_back : lpm_key py (Firewall.unpack_cidr net) = .ok l
  /-- The key is the same for the texts of this network and for no other. -/
  same : ∀ cidr' c', written (strip cidr'.toList) = some c' →
    (lpm_key py cidr' = .ok l ↔ ∀ a, Belongs a c' ↔ Belongs a c)
  /-- A block is listed, and deleted by the text it is listed with. -/
  unblocks : ∀ w : World n, net ∈ w.blocklist →
    ∃ e ∈ (run (exec cpu) (list_blocked true) w).1, e.cidr = Firewall.unpack_cidr net ∧
      ∃ k, parse_cidr py e.cidr = .ok k ∧ net ∉ (run (exec cpu) (unblock k) w).2.blocklist
  unallows : ∀ w : World n, net ∈ w.allowlist →
    ∃ e ∈ list_allowed (Dict.items w.allowlist), e.cidr = Firewall.unpack_cidr net ∧
      ∃ k, parse_cidr py e.cidr = .ok k ∧ net ∉ (run (exec cpu) (unallow k) w).2.allowlist

lemma text_read_back (py : Str) (net : LpmKey) :
    lpm_key py (Firewall.unpack_cidr net) = .ok (key net.prefixlen net.addr) :=
  lpm_key_eq (parse_unpack_cidr py net)

/-- **A network is stored under one key, which covers its addresses and no others**, whatever
text it is written as; the key is listed as a text that gives the same key, so that deleting the
listed text deletes the entry. -/
theorem stored_under_text (py : Str) (cpu : Fin n) {cidr : String} {net : LpmKey}
    (h : parse_cidr py cidr = .ok net) : ∃ c l, StoredUnder py cpu cidr net c l := by
  obtain ⟨c, hc, hnet⟩ := written_of_parse h
  refine ⟨c, key net.prefixlen net.addr, hc, lpm_key_eq h, ?found, unpack_key net,
    text_read_back py net, ?same, ?unblocks, ?unallows⟩
  case found =>
    intro f h_proto nh ip heth hip
    rw [lookup_key_eq heth hip, trie_covers_iff, ← hnet, covers_iff_belongs]
  case same =>
    intro cidr' c' hc'
    have hparse : parse_cidr py cidr' = .ok (Fwctl.lpm_key c') := by
      simp only [parse_cidr, hc']
    rw [lpm_key_eq hparse, Except.ok.injEq]
    constructor
    · intro hkey
      exact belongs_iff_of_eq ((key_inj hkey).trans hnet.symm)
    · intro hall
      rw [eq_of_belongs hall, hnet]
  case unblocks =>
    intro w hmem
    obtain ⟨bv, hbv⟩ := lookup_of_mem hmem
    refine ⟨block_entry w.clock.toNat net bv, ?_, rfl, net, parse_unpack_cidr py net, ?_⟩
    · have hlisted : (net, bv) ∈ (Dict.items w.blocklist).filter fun e =>
          true || !expired w.clock.toNat e.2 := by
        simpa [Dict.mem_items] using hbv
      exact List.mem_map.mpr ⟨(net, bv), hlisted, rfl⟩
    · intro hin
      exact (AList.mem_erase.mp hin).1 rfl
  case unallows =>
    intro w hmem
    obtain ⟨av, hav⟩ := lookup_of_mem hmem
    refine ⟨⟨Firewall.unpack_cidr net, av.hits⟩, ?_, rfl, net, parse_unpack_cidr py net, ?_⟩
    · exact List.mem_map.mpr ⟨(net, av), Dict.mem_items.mpr hav, rfl⟩
    · intro hin
      exact (AList.mem_erase.mp hin).1 rfl

/-- The network of the test, written with host bits. -/
def host_bits_net : LpmKey := .net 0x0A000005 24 (Nat.le_of_ble_eq_true rfl)

theorem stored_under_text_host_bits :
    ∃ c l, StoredUnder Rules.ascii (0 : Fin 1) "10.0.0.5/24" host_bits_net c l := by
  have h : parse_cidr Rules.ascii "10.0.0.5/24" = .ok host_bits_net := by decide +kernel
  exact stored_under_text Rules.ascii 0 h

example : lpm_key Rules.ascii "10.0.0.5/24" = .ok [24, 0, 0, 0, 10, 0, 0, 0] := by decide +kernel

end Lookout.Networks

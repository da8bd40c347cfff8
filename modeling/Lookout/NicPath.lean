import Lookout.Headers
import Lookout.OnesComplement

/-!
`nic_path.bpf.c`, built with `SPREAD`: a new source address, and the checksums that cover it.

The program reads and writes the header in the order of the machine and never recomputes a
checksum. It only takes the old address out of it and puts the new one in.
-/

namespace Lookout.NicPath

open Lookout.OnesComplement Lookout.Common Lookout.Packet Lookout.Headers

abbrev Bytes := List (BitVec 8)

/-! ### The program -/

/-- The five words `csum_fix` adds up. -/
def csum_add (check : U16) (from_ to_ : U32) : U32 :=
  let sum := (~~~check).setWidth 32
  let sum := sum + (((~~~(from_ >>> 16)).setWidth 16).setWidth 32 +
    ((~~~(from_ &&& (0xffff : U32))).setWidth 16).setWidth 32)
  sum + ((to_ >>> 16) + (to_ &&& (0xffff : U32)))

/-- One fold. -/
def csum_fold (sum : U32) : U32 := (sum &&& (0xffff : U32)) + (sum >>> 16)

def csum_fix (check : U16) (from_ to_ : U32) : U16 :=
  (~~~csum_fold (csum_fold (csum_add check from_ to_))).setWidth 16

/-- `*(__u16 *)(data + i)` -/
def load16 (o : Order) (f : Bytes) (i : ℕ) : U16 :=
  match o with
  | .little => f.getD (i + 1) 0 ++ f.getD i 0
  | .big => f.getD i 0 ++ f.getD (i + 1) 0

def load32 (o : Order) (f : Bytes) (i : ℕ) : U32 :=
  match o with
  | .little => load16 o f (i + 2) ++ load16 o f i
  | .big => load16 o f i ++ load16 o f (i + 2)

/-- The bytes of a word in memory. -/
def bytes16 (o : Order) (x : U16) : Bytes :=
  match o with
  | .little => [x.extractLsb' 0 8, x.extractLsb' 8 8]
  | .big => [x.extractLsb' 8 8, x.extractLsb' 0 8]

def bytes32 (o : Order) (x : U32) : Bytes :=
  match o with
  | .little => bytes16 o (x.extractLsb' 0 16) ++ bytes16 o (x.extractLsb' 16 16)
  | .big => bytes16 o (x.extractLsb' 16 16) ++ bytes16 o (x.extractLsb' 0 16)

def store16 (o : Order) (f : Bytes) (i : ℕ) (x : U16) : Bytes := splice i (bytes16 o x) f

def store32 (o : Order) (f : Bytes) (i : ℕ) (x : U32) : Bytes := splice i (bytes32 o x) f

/-- A field in network order, as `bpf_ntohs` gives it. -/
def ntohs (f : Bytes) (i : ℕ) : U16 := load16 .big f i

/-- `ip->ihl` -/
def ihl (f : Bytes) : ℕ := (f.getD 14 0 &&& 0x0F).toNat

/-- `ip->protocol` -/
def protocol (f : Bytes) : Byte := f.getD 23 0

/-- The frame `xdp_redirect_to_nic` redirects, when `to_` is the address it has picked. The header
starts at 14: its checksum is at 24, the source at 26. The next one starts at 34, and its checksum
is at 50 for TCP and at 40 for UDP. -/
def rewrite (o : Order) (to_ : U32) (f : Bytes) : Bytes :=
  if 34 ≤ f.length ∧ ntohs f 12 = ETH_P_IP ∧ ihl f = 5 then
    let from_ := load32 o f 26
    let f := store32 o f 26 to_
    let f := store16 o f 24 (csum_fix (load16 o f 24) from_ to_)
    if protocol f = IPPROTO_TCP ∧ 54 ≤ f.length then
      store16 o f 50 (csum_fix (load16 o f 50) from_ to_)
    else if protocol f = IPPROTO_UDP ∧ 42 ≤ f.length ∧ load16 o f 40 ≠ 0 then
      let check := csum_fix (load16 o f 40) from_ to_
      store16 o f 40 (if check ≠ 0 then check else 0xffff)
    else f
  else f

/-- `bpf_htonl` -/
def htonl (o : Order) (x : U32) : U32 := load32 o (bytes32 .big x) 0

def xdp_redirect_to_nic (o : Order) (spread prandom : U32) (f : Bytes) : Bytes :=
  rewrite o (htonl o (0xc6120000 + 1 + prandom % spread)) f

/-! ### The arithmetic of `csum_fix` -/

/-- The words of a 32-bit number. -/
def hi (x : U32) : ℕ := x.toNat / 65536
def lo (x : U32) : ℕ := x.toNat % 65536

lemma hi_lt (x : U32) : hi x < 65536 := by
  have h := x.isLt
  unfold hi
  omega

lemma toNat_shift (x : U32) : (x >>> 16).toNat = hi x := by
  rw [BitVec.toNat_ushiftRight, Nat.shiftRight_eq_div_pow]
  rfl

lemma toNat_mask (x : U32) : (x &&& (0xffff : U32)).toNat = lo x := by
  rw [BitVec.toNat_and]
  exact Nat.and_two_pow_sub_one_eq_mod x.toNat 16

lemma toNat_not16 {x : U32} (h : x.toNat < 65536) :
    (((~~~x).setWidth 16).setWidth 32).toNat = 65535 - x.toNat := by
  rw [BitVec.toNat_setWidth, BitVec.toNat_setWidth, BitVec.toNat_not]
  omega

/-- **The sum does not overflow.** -/
theorem toNat_csum_add (check : U16) (from_ to_ : U32) :
    (csum_add check from_ to_).toNat =
      (65535 - check.toNat) + ((65535 - hi from_) + (65535 - lo from_)) + (hi to_ + lo to_) := by
  have hcheck := check.isLt
  have hfrom := hi_lt from_
  have hto := hi_lt to_
  have hlo : lo from_ < 65536 ∧ lo to_ < 65536 := ⟨Nat.mod_lt _ (by omega), Nat.mod_lt _ (by omega)⟩
  have hnot : ((~~~check).setWidth 32).toNat = 65535 - check.toNat := by
    rw [BitVec.toNat_setWidth, BitVec.toNat_not]
    omega
  have h1 := toNat_not16 (x := from_ >>> 16) (by rw [toNat_shift]; exact hfrom)
  have h2 := toNat_not16 (x := from_ &&& (0xffff : U32)) (by rw [toNat_mask]; exact hlo.1)
  rw [toNat_shift] at h1
  rw [toNat_mask] at h2
  simp only [csum_add, BitVec.toNat_add, hnot, h1, h2, toNat_shift, toNat_mask]
  omega

lemma toNat_csum_fold (sum : U32) :
    (csum_fold sum).toNat = sum.toNat % 65536 + sum.toNat / 65536 := by
  have h := sum.isLt
  rw [csum_fold, BitVec.toNat_add, toNat_mask, toNat_shift, lo, hi]
  omega

/-- **Two folds leave 16 bits.** -/
theorem csum_fold_lt (check : U16) (from_ to_ : U32) :
    (csum_fold (csum_fold (csum_add check from_ to_))).toNat < 65536 := by
  have hlo : lo to_ < 65536 := Nat.mod_lt _ (by omega)
  have hhi : hi to_ < 65536 := hi_lt to_
  rw [toNat_csum_fold, toNat_csum_fold, toNat_csum_add]
  omega

/-- **The checksum and the address together keep their residue.** -/
theorem csum_fix_mod (check : U16) (from_ to_ : U32) :
    ((csum_fix check from_ to_).toNat + (hi to_ + lo to_)) % 65535 =
      (check.toNat + (hi from_ + lo from_)) % 65535 := by
  have hcheck := check.isLt
  have hlo : lo from_ < 65536 := Nat.mod_lt _ (by omega)
  have hhi : hi from_ < 65536 := hi_lt from_
  have hlt := csum_fold_lt check from_ to_
  have hfold : (csum_fold (csum_fold (csum_add check from_ to_))).toNat % 65535 =
      (csum_add check from_ to_).toNat % 65535 := by
    rw [toNat_csum_fold, toNat_csum_fold]
    omega
  have hfix : (csum_fix check from_ to_).toNat =
      65535 - (csum_fold (csum_fold (csum_add check from_ to_))).toNat := by
    rw [csum_fix, BitVec.toNat_setWidth, BitVec.toNat_not]
    omega
  rw [toNat_csum_add] at hfold
  rw [hfix]
  omega

/-! ### Words in memory -/

lemma sum_bytes16 (o : Order) (x : U16) : sum o (bytes16 o x) = x.toNat := by
  have h := x.isLt
  cases o <;>
    simp only [bytes16, sum, words, word, List.sum_cons, List.sum_nil, BitVec.extractLsb'_toNat,
      Nat.shiftRight_eq_div_pow] <;> omega

@[simp] lemma length_bytes16 (o : Order) (x : U16) : (bytes16 o x).length = 2 := by
  cases o <;> rfl

@[simp] lemma length_bytes32 (o : Order) (x : U32) : (bytes32 o x).length = 4 := by
  cases o <;> rfl

lemma sum_bytes32 (o : Order) (x : U32) : sum o (bytes32 o x) = hi x + lo x := by
  have hlow : (x.extractLsb' 0 16).toNat = lo x := by
    rw [BitVec.extractLsb'_toNat]
    rfl
  have hhigh : (x.extractLsb' 16 16).toNat = hi x := by
    have h := x.isLt
    rw [BitVec.extractLsb'_toNat, Nat.shiftRight_eq_div_pow, hi]
    omega
  have hlen : ∀ y : U16, (bytes16 o y).length % 2 = 0 := by
    intro y
    rw [length_bytes16]
  cases o <;> simp only [bytes32] <;>
    rw [sum_append _ (hlen _), sum_bytes16, sum_bytes16, hlow, hhigh]
  omega

lemma toNat_load16 (o : Order) (f : Bytes) (i : ℕ) :
    (load16 o f i).toNat = word o (f.getD i 0) (f.getD (i + 1) 0) := by
  cases o <;> simp only [load16, word, toNat_append] <;> omega

/-- A word is what its bytes add up to. -/
lemma sum_load16 (o : Order) {f : Bytes} {i : ℕ} (h : i + 2 ≤ f.length) :
    sum o (window f i 2) = (load16 o f i).toNat := by
  rw [window_cons 1 (by omega), window_cons 0 (by omega), sum_cons_cons, toNat_load16]
  simp [window, sum, words]

lemma sum_load32 (o : Order) {f : Bytes} {i : ℕ} (h : i + 4 ≤ f.length) :
    sum o (window f i 4) = hi (load32 o f i) + lo (load32 o f i) := by
  have hword : ∀ x y : U16, hi (x ++ y) = x.toNat ∧ lo (x ++ y) = y.toNat := by
    intro x y
    have hx := x.isLt
    have hy := y.isLt
    rw [hi, lo, toNat_append]
    omega
  have hsplit : sum o (window f i 4) = (load16 o f i).toNat + (load16 o f (i + 2)).toNat := by
    rw [toNat_load16, toNat_load16, window_cons 3 (by omega), window_cons 2 (by omega),
      window_cons 1 (by omega), window_cons 0 (by omega), sum_cons_cons, sum_cons_cons]
    simp [window, sum, words]
  rw [hsplit]
  cases o <;> simp only [load32, hword]
  exact Nat.add_comm _ _

/-! ### The checksums of a packet -/

/-- `ip->tot_len` -/
def tot_len (f : Bytes) : ℕ := (ntohs f 16).toNat

/-- Where the header after IPv4 starts. -/
def l4 (f : Bytes) : ℕ := 14 + 4 * ihl f

/-- What the packet carries. -/
def payload_len (f : Bytes) : ℕ := tot_len f - 4 * ihl f

/-- `udp->len` -/
def udp_len (f : Bytes) : ℕ := (ntohs f (l4 f + 4)).toNat

/-- `udp->check` -/
def udp_check (f : Bytes) : U16 := ntohs f (l4 f + 6)

/-- An IPv4 packet that is whole in its frame. -/
structure Whole (f : Bytes) : Prop where
  h_proto : ntohs f 12 = ETH_P_IP
  ihl : 5 ≤ ihl f
  header : 4 * NicPath.ihl f ≤ tot_len f
  fits : 14 + tot_len f ≤ f.length

def HasTcp (f : Bytes) : Prop := protocol f = IPPROTO_TCP ∧ 20 ≤ payload_len f

def HasUdp (f : Bytes) : Prop :=
  protocol f = IPPROTO_UDP ∧ 8 ≤ udp_len f ∧ udp_len f ≤ payload_len f

/-- The pseudo-header of `len` bytes: both addresses, the protocol, the length. -/
def pseudo (f : Bytes) (len : ℕ) : Bytes :=
  window f 26 8 ++ ([0, protocol f] ++ bytes16 .big (BitVec.ofNat 16 len))

/-- Every checksum of the packet is right: the one of the IPv4 header, and the one of TCP or UDP,
which covers a pseudo-header. UDP may do without. -/
structure Checksums (f : Bytes) : Prop where
  ip : Valid (window f 14 (4 * ihl f))
  tcp : HasTcp f → Valid (pseudo f (payload_len f) ++ window f (l4 f) (payload_len f))
  udp : HasUdp f → udp_check f ≠ 0 → Valid (pseudo f (udp_len f) ++ window f (l4 f) (udp_len f))

/-! ### What the program writes -/

/-- The addresses and checksums apart, the headers are the same. -/
structure Same (f g : Bytes) : Prop where
  length : g.length = f.length
  byte : ∀ j, j < 24 ∨ 30 ≤ j ∧ j < 40 → g.getD j 0 = f.getD j 0

variable {o : Order} {f g : Bytes}

lemma Same.trans {e : Bytes} (h : Same e f) (h' : Same f g) : Same e g :=
  ⟨h'.length.trans h.length, fun j hj => (h'.byte j hj).trans (h.byte j hj)⟩

lemma Same.ntohs_eq (h : Same f g) {i : ℕ} (hi : i < 23 ∨ 30 ≤ i ∧ i < 39) :
    ntohs g i = ntohs f i := by
  have h1 := h.byte i (by omega)
  have h2 := h.byte (i + 1) (by omega)
  simp only [ntohs, load16, h1, h2]

lemma Same.ihl_eq (h : Same f g) : ihl g = ihl f := by
  rw [ihl, ihl, h.byte 14 (by omega)]

lemma Same.protocol_eq (h : Same f g) : protocol g = protocol f := h.byte 23 (by omega)

lemma Same.tot_len_eq (h : Same f g) : tot_len g = tot_len f :=
  congrArg BitVec.toNat (h.ntohs_eq (by omega))

lemma Same.payload_len_eq (h : Same f g) : payload_len g = payload_len f := by
  rw [payload_len, payload_len, h.tot_len_eq, h.ihl_eq]

lemma Same.udp_len_eq (h : Same f g) (hihl : ihl f = 5) : udp_len g = udp_len f := by
  rw [udp_len, udp_len, l4, l4, h.ihl_eq, hihl, h.ntohs_eq (by omega)]

lemma Same.whole (h : Same f g) (hw : Whole f) : Whole g where
  h_proto := by rw [h.ntohs_eq (by omega), hw.h_proto]
  ihl := by
    rw [h.ihl_eq]
    exact hw.ihl
  header := by
    rw [h.ihl_eq, h.tot_len_eq]
    exact hw.header
  fits := by
    rw [h.tot_len_eq, h.length]
    exact hw.fits

lemma Same.hasTcp_iff (h : Same f g) : HasTcp g ↔ HasTcp f := by
  rw [HasTcp, HasTcp, h.protocol_eq, h.payload_len_eq]

lemma Same.hasUdp_iff (h : Same f g) (hihl : ihl f = 5) : HasUdp g ↔ HasUdp f := by
  rw [HasUdp, HasUdp, h.protocol_eq, h.payload_len_eq, h.udp_len_eq hihl]

lemma same_store16 {i : ℕ} (x : U16) (hi : i = 24 ∨ 40 ≤ i) (h : i + 2 ≤ f.length) :
    Same f (store16 o f i x) := by
  have hfit : i + (bytes16 o x).length ≤ f.length := by rwa [length_bytes16]
  refine ⟨length_splice hfit, fun j hj => getD_splice hfit ?_⟩
  rw [length_bytes16]
  omega

lemma same_store32 (x : U32) (h : 34 ≤ f.length) : Same f (store32 o f 26 x) := by
  have hfit : 26 + (bytes32 o x).length ≤ f.length := by
    rw [length_bytes32]
    omega
  refine ⟨length_splice hfit, fun j hj => getD_splice hfit ?_⟩
  rw [length_bytes32]
  omega

lemma window_store16 {i a b : ℕ} (x : U16) (h : i + 2 ≤ f.length)
    (hab : i + 2 ≤ a ∨ a + b ≤ i) : window (store16 o f i x) a b = window f a b :=
  window_outside (by rwa [length_bytes16]) (by rwa [length_bytes16])

/-- Writing a word over another one. -/
lemma sum_store16 {i a b : ℕ} (x : U16) (h : i + 2 ≤ f.length) (ha : a ≤ i) (hb : i + 2 ≤ a + b)
    (heven : (i - a) % 2 = 0) :
    sum o (window (store16 o f i x) a b) + (load16 o f i).toNat =
      sum o (window f a b) + x.toNat := by
  have hsum : sum o (window (splice i (bytes16 o x) f) a b) +
        sum o (window f i (bytes16 o x).length) =
      sum o (window f a b) + sum o (bytes16 o x) :=
    sum_window_splice o heven (by rw [length_bytes16]) (by rwa [length_bytes16]) ha
      (by rwa [length_bytes16])
  rwa [length_bytes16, sum_bytes16, sum_load16 o h] at hsum

/-- Writing an address over another one. -/
lemma sum_store32 {a b : ℕ} (x : U32) (h : 34 ≤ f.length) (ha : a ≤ 26) (hb : 30 ≤ a + b)
    (heven : (26 - a) % 2 = 0) :
    sum o (window (store32 o f 26 x) a b) + (hi (load32 o f 26) + lo (load32 o f 26)) =
      sum o (window f a b) + (hi x + lo x) := by
  have hsum : sum o (window (splice 26 (bytes32 o x) f) a b) +
        sum o (window f 26 (bytes32 o x).length) =
      sum o (window f a b) + sum o (bytes32 o x) :=
    sum_window_splice o heven (by rw [length_bytes32]) (by rw [length_bytes32]; omega) ha
      (by rw [length_bytes32]; omega)
  rwa [length_bytes32, sum_bytes32, sum_load32 o (by omega)] at hsum

/-- The new source address and the new checksum of the IPv4 header. -/
def readdress (o : Order) (to_ : U32) (f : Bytes) : Bytes :=
  store16 o (store32 o f 26 to_) 24
    (csum_fix (load16 o (store32 o f 26 to_) 24) (load32 o f 26) to_)

lemma same_readdress (to_ : U32) (h : 34 ≤ f.length) : Same f (readdress o to_ f) := by
  have h1 : Same f (store32 o f 26 to_) := same_store32 to_ h
  refine h1.trans (same_store16 _ (Or.inl rfl) ?_)
  rw [h1.length]
  omega

/-- What follows the header is left alone. -/
lemma window_readdress (to_ : U32) (h : 34 ≤ f.length) {a : ℕ} (ha : 30 ≤ a) (b : ℕ) :
    window (readdress o to_ f) a b = window f a b := by
  have hlen := (same_store32 (o := o) to_ h).length
  rw [readdress, window_store16 _ (by omega) (Or.inl (by omega)), store32]
  exact window_outside (by rw [length_bytes32]; omega) (Or.inl (by rw [length_bytes32]; omega))

lemma ntohs_readdress (to_ : U32) (h : 42 ≤ f.length) :
    ntohs (readdress o to_ f) 40 = ntohs f 40 := by
  have hlen := (same_readdress (o := o) to_ (by omega : 34 ≤ f.length)).length
  have hword := window_readdress (o := o) to_ (by omega : 34 ≤ f.length) (by omega : 30 ≤ 40) 2
  have hsum := congrArg (sum .big) hword
  rw [sum_load16 .big (by omega), sum_load16 .big (by omega)] at hsum
  exact BitVec.eq_of_toNat_eq hsum

/-- The header has lost the old address and got the new one, and the checksum makes up for it. -/
lemma sum_header (to_ : U32) (h : 34 ≤ f.length) :
    sum o (window (readdress o to_ f) 14 20) % 65535 = sum o (window f 14 20) % 65535 := by
  have hlen := (same_store32 (o := o) to_ h).length
  have h1 := sum_store32 (o := o) (a := 14) (b := 20) to_ h (by omega) (by omega) rfl
  have h2 := sum_store16 (o := o) (f := store32 o f 26 to_) (i := 24) (a := 14) (b := 20)
    (csum_fix (load16 o (store32 o f 26 to_) 24) (load32 o f 26) to_) (by omega) (by omega)
    (by omega) rfl
  have hmod := csum_fix_mod (load16 o (store32 o f 26 to_) 24) (load32 o f 26) to_
  rw [readdress]
  omega

/-- The addresses of the pseudo-header. -/
lemma sum_addresses (to_ : U32) (h : 34 ≤ f.length) :
    sum o (window (readdress o to_ f) 26 8) + (hi (load32 o f 26) + lo (load32 o f 26)) =
      sum o (window f 26 8) + (hi to_ + lo to_) := by
  have hlen := (same_store32 (o := o) to_ h).length
  rw [readdress, window_store16 _ (by omega) (Or.inl le_rfl)]
  exact sum_store32 to_ h le_rfl (by omega) rfl

lemma sum_cover (h : 34 ≤ f.length) (len : ℕ) (l : Bytes) :
    sum o (pseudo f len ++ l) =
      sum o (window f 26 8) + sum o ([0, protocol f] ++ bytes16 .big (BitVec.ofNat 16 len)) +
        sum o l := by
  have hwindow : (window f 26 8).length = 8 := length_window (by omega)
  have hrest : ([0, protocol f] ++ bytes16 .big (BitVec.ofNat 16 len)).length = 4 := rfl
  rw [pseudo, sum_append o (by rw [List.length_append, hwindow, hrest]),
    sum_append o (by rw [hwindow])]

/-- A checksum that covers the pseudo-header stays right if it makes up for the new address. -/
lemma valid_cover {from_ to_ : U32} {len c x : ℕ} {l l' : Bytes} (h : 34 ≤ f.length)
    (hsame : Same f g) (hproto : protocol f ≠ 0)
    (haddr : sum o (window g 26 8) + (hi from_ + lo from_) =
      sum o (window f 26 8) + (hi to_ + lo to_))
    (hl : sum o l' + c = sum o l + x)
    (hx : (x + (hi to_ + lo to_)) % 65535 = (c + (hi from_ + lo from_)) % 65535)
    (hvalid : Valid (pseudo f len ++ l)) : Valid (pseudo g len ++ l') := by
  have hg : 34 ≤ g.length := by rwa [hsame.length]
  refine valid_of_mod o hvalid ?_ ?_
  · rw [sum_cover h, sum_cover hg, hsame.protocol_eq]
    omega
  · have hmem : protocol g ∈ pseudo g len ++ l' := by simp [pseudo]
    exact sum_pos o hmem (by rwa [hsame.protocol_eq])

/-- A header with a length is not all zero. -/
lemma valid_header (h : 34 ≤ f.length) (hsame : Same f g) (hihl : ihl f = 5)
    (hsum : sum o (window g 14 20) % 65535 = sum o (window f 14 20) % 65535)
    (hvalid : Valid (window f 14 20)) : Valid (window g 14 20) := by
  refine valid_of_mod o hvalid hsum (sum_pos o (getD_mem_window (j := 14) le_rfl (by omega) ?_) ?_)
  · rw [hsame.length]
    omega
  · intro hzero
    rw [← hsame.ihl_eq, ihl, hzero] at hihl
    revert hihl
    decide

/-! ### The whole program -/

lemma load16_eq_zero {i : ℕ} : load16 o f i = 0 ↔ ntohs f i = 0 := by
  have hzero : ∀ o', load16 o' f i = 0 ↔ (f.getD i 0).toNat = 0 ∧ (f.getD (i + 1) 0).toNat = 0 := by
    intro o'
    have hnat : (0 : U16).toNat = 0 := rfl
    rw [← BitVec.toNat_inj, toNat_load16, hnat]
    cases o' <;> simp only [word] <;> omega
  rw [ntohs, hzero, hzero]

/-- The third write: nothing, or the checksum at `i`. -/
inductive Last (o : Order) (to_ : U32) (f : Bytes) : Bytes → Prop
  | tcp (hproto : protocol f = IPPROTO_TCP) (hlen : 54 ≤ f.length) (x : U16)
      (hx : (x.toNat + (hi to_ + lo to_)) % 65535 =
        ((load16 o (readdress o to_ f) 50).toNat +
          (hi (load32 o f 26) + lo (load32 o f 26))) % 65535) :
      Last o to_ f (store16 o (readdress o to_ f) 50 x)
  | udp (hproto : protocol f = IPPROTO_UDP) (hlen : 42 ≤ f.length) (x : U16) (hx0 : x ≠ 0)
      (hcheck : ntohs f 40 ≠ 0)
      (hx : (x.toNat + (hi to_ + lo to_)) % 65535 =
        ((load16 o (readdress o to_ f) 40).toNat +
          (hi (load32 o f 26) + lo (load32 o f 26))) % 65535) :
      Last o to_ f (store16 o (readdress o to_ f) 40 x)
  | none (htcp : protocol f = IPPROTO_TCP → f.length < 54)
      (hudp : protocol f = IPPROTO_UDP → 42 ≤ f.length → ntohs f 40 = 0) :
      Last o to_ f (readdress o to_ f)

lemma rewrite_cases (to_ : U32) (h : 34 ≤ f.length) (heth : ntohs f 12 = ETH_P_IP)
    (hihl : ihl f = 5) : Last o to_ f (rewrite o to_ f) := by
  have hsame := same_readdress (o := o) to_ h
  have hwrite : rewrite o to_ f =
      if protocol (readdress o to_ f) = IPPROTO_TCP ∧ 54 ≤ (readdress o to_ f).length then
        store16 o (readdress o to_ f) 50
          (csum_fix (load16 o (readdress o to_ f) 50) (load32 o f 26) to_)
      else if protocol (readdress o to_ f) = IPPROTO_UDP ∧ 42 ≤ (readdress o to_ f).length ∧
          load16 o (readdress o to_ f) 40 ≠ 0 then
        store16 o (readdress o to_ f) 40
          (if csum_fix (load16 o (readdress o to_ f) 40) (load32 o f 26) to_ ≠ 0 then
            csum_fix (load16 o (readdress o to_ f) 40) (load32 o f 26) to_ else 0xffff)
      else readdress o to_ f := by
    rw [rewrite, if_pos ⟨h, heth, hihl⟩]
    rfl
  rw [hwrite, hsame.protocol_eq, hsame.length]
  split_ifs with htcp hudp hx
  · exact .tcp htcp.1 htcp.2 _ (csum_fix_mod _ _ _)
  · have hcheck := mt load16_eq_zero.mpr hudp.2.2
    rw [ntohs_readdress to_ hudp.2.1] at hcheck
    exact .udp hudp.1 hudp.2.1 _ hx hcheck (csum_fix_mod _ _ _)
  · have hcheck := mt load16_eq_zero.mpr hudp.2.2
    rw [ntohs_readdress to_ hudp.2.1] at hcheck
    have hmod := csum_fix_mod (load16 o (readdress o to_ f) 40) (load32 o f 26) to_
    rw [not_not] at hx
    rw [hx] at hmod
    -- 0 and 0xffff are the same residue
    refine .udp hudp.1 hudp.2.1 _ (by decide) hcheck ?_
    have hffff : (0xffff : U16).toNat = 65535 := rfl
    have hzero : (0 : U16).toNat = 0 := rfl
    rw [← hmod, hffff, hzero]
    omega
  · refine .none (fun hp => ?_) fun hp hlen => ?_
    · by_contra hlt
      exact htcp ⟨hp, by omega⟩
    · by_contra hne
      rw [← ntohs_readdress (o := o) to_ hlen, ← load16_eq_zero (o := o)] at hne
      exact hudp ⟨hp, hlen, hne⟩

lemma Last.same {to_ : U32} (h : Last o to_ f g) (hlen : 34 ≤ f.length) : Same f g := by
  have hsame := same_readdress (o := o) to_ hlen
  cases h with
  | tcp _ hlen' x _ =>
    refine hsame.trans (same_store16 x (Or.inr (by omega)) ?_)
    rw [hsame.length]
    omega
  | udp _ hlen' x _ _ _ =>
    refine hsame.trans (same_store16 x (Or.inr le_rfl) ?_)
    rw [hsame.length]
    omega
  | none => exact hsame

/-- The last write is behind the IPv4 header. -/
lemma Last.window_eq {to_ : U32} (h : Last o to_ f g) (hlen : 34 ≤ f.length) {a b : ℕ}
    (hab : a + b ≤ 40) : window g a b = window (readdress o to_ f) a b := by
  have hsame := same_readdress (o := o) to_ hlen
  cases h with
  | tcp _ hlen' x _ =>
    refine window_store16 x ?_ (Or.inr (by omega))
    rw [hsame.length]
    omega
  | udp _ hlen' x _ _ _ =>
    refine window_store16 x ?_ (Or.inr hab)
    rw [hsame.length]
    omega
  | none => rfl

lemma Last.valid_ip {to_ : U32} (h : Last o to_ f g) (hlen : 34 ≤ f.length) (hihl : ihl f = 5)
    (hvalid : Valid (window f 14 20)) : Valid (window g 14 20) := by
  refine valid_header (o := o) hlen (h.same hlen) hihl ?_ hvalid
  rw [h.window_eq hlen (by omega)]
  exact sum_header to_ hlen

lemma Last.addresses {to_ : U32} (h : Last o to_ f g) (hlen : 34 ≤ f.length) :
    sum o (window g 26 8) + (hi (load32 o f 26) + lo (load32 o f 26)) =
      sum o (window f 26 8) + (hi to_ + lo to_) := by
  rw [h.window_eq hlen (by omega)]
  exact sum_addresses to_ hlen

/-- What the program writes at `i` makes up for the new address in a segment of `k` bytes. -/
lemma Last.valid_segment {to_ : U32} {i k : ℕ} {x : U16}
    (h : Last o to_ f (store16 o (readdress o to_ f) i x)) (hlen : 34 ≤ f.length)
    (hproto : protocol f ≠ 0) (hfirst : 34 ≤ i) (hlast : i + 2 ≤ 34 + k)
    (heven : (i - 34) % 2 = 0) (hfits : 34 + k ≤ f.length)
    (hx : (x.toNat + (hi to_ + lo to_)) % 65535 =
      ((load16 o (readdress o to_ f) i).toNat +
        (hi (load32 o f 26) + lo (load32 o f 26))) % 65535)
    (hvalid : Valid (pseudo f k ++ window f 34 k)) :
    Valid (pseudo (store16 o (readdress o to_ f) i x) k ++
      window (store16 o (readdress o to_ f) i x) 34 k) := by
  have hsame := same_readdress (o := o) to_ hlen
  have hfit : i + 2 ≤ (readdress o to_ f).length := by
    rw [hsame.length]
    omega
  have hsum := sum_store16 (o := o) (a := 34) (b := k) x hfit hfirst hlast heven
  rw [window_readdress to_ hlen (by omega)] at hsum
  exact valid_cover hlen (h.same hlen) hproto (h.addresses hlen) hsum hx hvalid

/-- The segment of TCP, with its pseudo-header. -/
lemma Last.valid_tcp {to_ : U32} (h : Last o to_ f g) (hlen : 34 ≤ f.length) {k : ℕ}
    (hproto : protocol f = IPPROTO_TCP) (hk : 20 ≤ k) (hfits : 34 + k ≤ f.length)
    (hvalid : Valid (pseudo f k ++ window f 34 k)) : Valid (pseudo g k ++ window g 34 k) := by
  have hne : protocol f ≠ 0 := by
    rw [hproto]
    decide
  cases h with
  | tcp hp hlen' x hx =>
    have hlast : Last o to_ f (store16 o (readdress o to_ f) 50 x) := .tcp hp hlen' x hx
    exact hlast.valid_segment hlen hne (by omega) (by omega) rfl hfits hx hvalid
  | udp hudp => exact absurd (hproto.symm.trans hudp) (by decide)
  | none htcp =>
    have := htcp hproto
    omega

/-- The datagram of UDP, with its pseudo-header, where there is a checksum. -/
lemma Last.valid_udp {to_ : U32} (h : Last o to_ f g) (hlen : 34 ≤ f.length) {k : ℕ}
    (hproto : protocol f = IPPROTO_UDP) (hk : 8 ≤ k) (hfits : 34 + k ≤ f.length)
    (hcheck : ntohs f 40 ≠ 0) (hvalid : Valid (pseudo f k ++ window f 34 k)) :
    Valid (pseudo g k ++ window g 34 k) := by
  have hne : protocol f ≠ 0 := by
    rw [hproto]
    decide
  cases h with
  | tcp htcp => exact absurd (htcp.symm.trans hproto) (by decide)
  | udp hp hlen' x hx0 hc hx =>
    have hlast : Last o to_ f (store16 o (readdress o to_ f) 40 x) := .udp hp hlen' x hx0 hc hx
    exact hlast.valid_segment hlen hne (by omega) (by omega) rfl hfits hx hvalid
  | none _ hudp => exact absurd (hudp hproto (by omega)) hcheck

/-- A checksum of UDP that was not there is not made, and one that was there does not vanish. -/
lemma Last.udp_check {to_ : U32} (h : Last o to_ f g) (hproto : protocol f = IPPROTO_UDP)
    (hlen : 42 ≤ f.length) : ntohs g 40 = 0 ↔ ntohs f 40 = 0 := by
  have hsame := same_readdress (o := o) (f := f) to_ (by omega)
  cases h with
  | tcp htcp => exact absurd (htcp.symm.trans hproto) (by decide)
  | udp _ _ x hx0 hcheck _ =>
    have hfit : 40 + 2 ≤ (readdress o to_ f).length := by
      rw [hsame.length]
      omega
    have hsum := sum_store16 (o := o) (f := readdress o to_ f) (a := 40) (b := 2) x hfit le_rfl
      le_rfl rfl
    have hlen' := (same_store16 (o := o) x (Or.inr le_rfl) hfit).length
    rw [sum_load16 o hfit, sum_load16 o (by rw [hlen']; exact hfit)] at hsum
    have hx : load16 o (store16 o (readdress o to_ f) 40 x) 40 = x :=
      BitVec.eq_of_toNat_eq (by omega)
    rw [← load16_eq_zero (o := o), hx]
    exact iff_of_false hx0 hcheck
  | none _ hudp =>
    rw [ntohs_readdress to_ hlen]

/-- What holds of the frame `g` made of `f`. -/
structure Kept (f g : Bytes) : Prop where
  whole : Whole g
  tcp : HasTcp g ↔ HasTcp f
  udp : HasUdp g ↔ HasUdp f
  checksums : Checksums g
  /-- A datagram with a checksum has one that is not 0, and one without stays without. -/
  udp_check : HasUdp f → (udp_check g = 0 ↔ udp_check f = 0)

lemma Kept.refl (hw : Whole f) (h : Checksums f) : Kept f f :=
  ⟨hw, Iff.rfl, Iff.rfl, h, fun _ => Iff.rfl⟩

/-- The frame has right checksums again. -/
lemma Last.checksums {to_ : U32} (hlast : Last o to_ f g) (hw : Whole f) (h : Checksums f)
    (hihl : NicPath.ihl f = 5) : Checksums g := by
  obtain ⟨-, -, hheader, hfits⟩ := hw
  have hlen : 34 ≤ f.length := by omega
  have hsame := hlast.same hlen
  have hihl' : NicPath.ihl g = 5 := by rw [hsame.ihl_eq, hihl]
  have hl4 : l4 f = 34 := by rw [l4, hihl]
  have hl4' : l4 g = 34 := by rw [l4, hihl']
  have hroom : 34 + payload_len f ≤ f.length := by
    rw [payload_len, hihl]
    omega
  refine ⟨?ip, fun ht => ?tcp, fun hu hcheck => ?udp⟩
  case ip =>
    have hip := h.ip
    rw [hihl] at hip
    rw [hihl']
    exact hlast.valid_ip hlen hihl hip
  case tcp =>
    rw [hsame.hasTcp_iff] at ht
    have hvalid := h.tcp ht
    rw [hl4] at hvalid
    rw [hl4', hsame.payload_len_eq]
    exact hlast.valid_tcp hlen ht.1 ht.2 hroom hvalid
  case udp =>
    rw [hsame.hasUdp_iff hihl] at hu
    obtain ⟨hproto, hmin, hmax⟩ := hu
    rw [NicPath.udp_check, hl4'] at hcheck
    have hcheck' : ntohs f 40 ≠ 0 := mt (hlast.udp_check hproto (by omega)).mpr hcheck
    have hvalid := h.udp ⟨hproto, hmin, hmax⟩ (by rwa [NicPath.udp_check, hl4])
    rw [hl4] at hvalid
    rw [hl4', hsame.udp_len_eq hihl]
    exact hlast.valid_udp hlen hproto hmin (by omega) hcheck' hvalid

lemma Last.kept {to_ : U32} (hlast : Last o to_ f g) (hw : Whole f) (h : Checksums f)
    (hihl : NicPath.ihl f = 5) : Kept f g := by
  have hheader := hw.header
  have hfits := hw.fits
  have hlen : 34 ≤ f.length := by omega
  have hsame := hlast.same hlen
  refine ⟨hsame.whole hw, hsame.hasTcp_iff, hsame.hasUdp_iff hihl, hlast.checksums hw h hihl, ?_⟩
  rintro ⟨hproto, hmin, hmax⟩
  have hroom : 42 ≤ f.length := by
    rw [payload_len] at hmax
    omega
  rw [NicPath.udp_check, NicPath.udp_check, l4, l4, hsame.ihl_eq, hihl]
  exact hlast.udp_check hproto hroom

/-- **A packet with right checksums is redirected with right checksums**, whatever its new source
address and on a machine of either byte order; the arithmetic does not overflow, and two folds
suffice. -/
theorem checksums_kept (o : Order) (to_ : U32) {f : Bytes} (hw : Whole f) (h : Checksums f) :
    Kept f (rewrite o to_ f) ∧
      (∀ spread prandom, Kept f (xdp_redirect_to_nic o spread prandom f)) ∧
      (∀ check from_, (csum_add check from_ to_).toNat =
          (65535 - check.toNat) + ((65535 - hi from_) + (65535 - lo from_)) + (hi to_ + lo to_) ∧
        (csum_fold (csum_fold (csum_add check from_ to_))).toNat < 65536) := by
  have hall : ∀ x, Kept f (rewrite o x f) := by
    intro x
    have hlen : 34 ≤ f.length := by
      have hihl := hw.ihl
      have hheader := hw.header
      have hfits := hw.fits
      omega
    by_cases hihl : ihl f = 5
    · exact (rewrite_cases x hlen hw.h_proto hihl).kept hw h hihl
    · rw [rewrite, if_neg fun hc => hihl hc.2.2]
      exact Kept.refl hw h
  exact ⟨hall to_, fun _ _ => hall _,
    fun check from_ => ⟨toNat_csum_add check from_ to_, csum_fold_lt check from_ to_⟩⟩

/-- One byte for a name server, from 10.0.0.1. -/
def query_frame : Bytes :=
  List.replicate 12 0 ++ [0x08, 0x00] ++
    [0x45, 0, 0, 29, 0, 1, 0x40, 0, 64, 17, 0x26, 0xCD, 10, 0, 0, 1, 10, 0, 0, 2] ++
    [0x30, 0x39, 0, 53, 0, 9, 0x7A, 0x6B, 0x41]

lemma whole_query_frame : Whole query_frame :=
  ⟨by decide, by decide, by decide, by decide⟩

lemma checksums_query_frame : Checksums query_frame where
  ip := by decide +kernel
  tcp h := absurd h.1 (by decide)
  udp _ _ := by decide +kernel

theorem checksums_kept_query :
    Kept query_frame (rewrite .little 0x010012C6 query_frame) ∧
      (∀ spread prandom,
        Kept query_frame (xdp_redirect_to_nic .little spread prandom query_frame)) ∧
      (∀ check from_, (csum_add check from_ 0x010012C6).toNat =
          (65535 - check.toNat) + ((65535 - hi from_) + (65535 - lo from_)) +
            (hi 0x010012C6 + lo 0x010012C6) ∧
        (csum_fold (csum_fold (csum_add check from_ 0x010012C6))).toNat < 65536) :=
  checksums_kept .little 0x010012C6 whole_query_frame checksums_query_frame

example : window (xdp_redirect_to_nic .little 1 0 query_frame) 24 6 =
    [0x6A, 0xBA, 198, 18, 0, 1] := by decide +kernel

end Lookout.NicPath

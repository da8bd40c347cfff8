import Lookout.Packet

/-!
IPv4 packets as they are on the wire.

A packet is its header fields, each in the width it has there; what is not a packet of this kind
cannot be written down. Its encoding puts the fields in network order, one header after the other,
and the parser of the program finds them again.
-/

namespace Lookout.Headers

open Lookout.Common Lookout.Packet

/-! ### Fields on the wire -/

def octets16 (x : U16) : List Byte := [x.extractLsb' 8 8, x.extractLsb' 0 8]

def octets32 (x : U32) : List Byte :=
  [x.extractLsb' 24 8, x.extractLsb' 16 8, x.extractLsb' 8 8, x.extractLsb' 0 8]

lemma toNat_append {m n : ℕ} (x : BitVec m) (y : BitVec n) :
    (x ++ y).toNat = 2 ^ n * x.toNat + y.toNat := by
  rw [BitVec.toNat_append, ← Nat.shiftLeft_add_eq_or_of_lt y.isLt, Nat.shiftLeft_eq, Nat.mul_comm]

lemma toNat_high (x y : BitVec 4) : ((x ++ y : Byte) >>> 4).toNat = x.toNat := by
  have hy := y.isLt
  rw [BitVec.toNat_ushiftRight, toNat_append, Nat.shiftRight_eq_div_pow]
  omega

lemma toNat_low (x y : BitVec 4) : ((x ++ y : Byte) &&& 0x0F).toNat = y.toNat := by
  have hy := y.isLt
  have hmask : (0x0F : Byte).toNat = 2 ^ 4 - 1 := rfl
  rw [BitVec.toNat_and, toNat_append, hmask, Nat.and_two_pow_sub_one_eq_mod]
  omega

/-- The flags stand above the fragment offset. -/
lemma toNat_offset (x : BitVec 3) (y : BitVec 13) : ((x ++ y : U16) &&& 0x1FFF).toNat = y.toNat := by
  have hy := y.isLt
  have hmask : (0x1FFF : U16).toNat = 2 ^ 13 - 1 := rfl
  rw [BitVec.toNat_and, toNat_append, hmask, Nat.and_two_pow_sub_one_eq_mod]
  omega

/-! ### Ethernet -/

/-- An 802.1Q tag, or an 802.1ad tag if `service`. -/
structure Tag where
  service : Bool
  tci : U16

def Tag.tpid (t : Tag) : U16 := if t.service then ETH_P_8021AD else ETH_P_8021Q

structure Ethernet where
  dest : Fin 6 → Byte
  source : Fin 6 → Byte
  tag : Option Tag

def mac (a : Fin 6 → Byte) : List Byte := [a 0, a 1, a 2, a 3, a 4, a 5]

/-- The header of a frame that carries IPv4. -/
def Ethernet.encode (e : Ethernet) : List Byte :=
  mac e.dest ++ mac e.source ++
    match e.tag with
    | none => octets16 ETH_P_IP
    | some t => octets16 t.tpid ++ octets16 t.tci ++ octets16 ETH_P_IP

/-! ### IPv4 -/

structure Ipv4 where
  tos : Byte
  tot_len : U16
  id : U16
  flags : BitVec 3
  frag_off : BitVec 13
  ttl : Byte
  proto : Byte
  check : U16
  saddr : Addr
  daddr : Addr
  options : List Byte
  options_dvd : 4 ∣ options.length
  options_le : options.length ≤ 40
  tot_len_ge : 20 + options.length ≤ tot_len.toNat
  ttl_ne : ttl ≠ 0

/-- The length of the header in words. -/
def Ipv4.ihl (h : Ipv4) : BitVec 4 := BitVec.ofNat 4 (5 + h.options.length / 4)

def Ipv4.encode (h : Ipv4) : List Byte :=
  [(4 : BitVec 4) ++ h.ihl, h.tos] ++ octets16 h.tot_len ++ octets16 h.id ++
    octets16 (h.flags ++ h.frag_off) ++ [h.ttl, h.proto] ++ octets16 h.check ++
    octets32 h.saddr ++ octets32 h.daddr ++ h.options

lemma Ipv4.ihl_toNat (h : Ipv4) : h.ihl.toNat * 4 = 20 + h.options.length := by
  have hdvd := h.options_dvd
  have hle := h.options_le
  rw [Ipv4.ihl, BitVec.toNat_ofNat]
  omega

lemma Ipv4.length_encode (h : Ipv4) : h.encode.length = 20 + h.options.length := by
  simp only [Ipv4.encode, octets16, octets32, List.length_append, List.length_cons,
    List.length_nil]

/-! ### The header after it -/

structure Tcp where
  source : U16
  dest : U16
  seq : U32
  ack_seq : U32
  doff : BitVec 4
  res : BitVec 4
  flags : Byte
  window : U16
  check : U16
  urg_ptr : U16
  doff_ge : 5 ≤ doff.toNat

def Tcp.encode (h : Tcp) : List Byte :=
  octets16 h.source ++ octets16 h.dest ++ octets32 h.seq ++ octets32 h.ack_seq ++
    [h.doff ++ h.res, h.flags] ++ octets16 h.window ++ octets16 h.check ++ octets16 h.urg_ptr

structure Udp where
  source : U16
  dest : U16
  len : U16
  check : U16
  len_ge : 8 ≤ len.toNat

def Udp.encode (h : Udp) : List Byte :=
  octets16 h.source ++ octets16 h.dest ++ octets16 h.len ++ octets16 h.check

structure Icmp where
  type : Byte
  code : Byte
  check : U16

def Icmp.encode (h : Icmp) : List Byte := [h.type, h.code] ++ octets16 h.check

/-- What follows the IPv4 header, for a fragment offset and a protocol. Only the first fragment
has the header of its protocol. -/
inductive Upper : BitVec 13 → Byte → Type
  | fragment {frag_off : BitVec 13} {proto : Byte} (later : frag_off ≠ 0)
    (payload : List Byte) : Upper frag_off proto
  | tcp (h : Tcp) (payload : List Byte) : Upper 0 IPPROTO_TCP
  | udp (h : Udp) (payload : List Byte) : Upper 0 IPPROTO_UDP
  | icmp (h : Icmp) (payload : List Byte) : Upper 0 IPPROTO_ICMP
  | other {proto : Byte} (h : proto ≠ IPPROTO_TCP ∧ proto ≠ IPPROTO_UDP ∧ proto ≠ IPPROTO_ICMP)
    (payload : List Byte) : Upper 0 proto

def Upper.encode {frag_off : BitVec 13} {proto : Byte} : Upper frag_off proto → List Byte
  | fragment _ payload => payload
  | tcp h payload => h.encode ++ payload
  | udp h payload => h.encode ++ payload
  | icmp h payload => h.encode ++ payload
  | other _ payload => payload

/-- The port, what a port rule matches, and the flag byte. -/
def Upper.l4 {frag_off : BitVec 13} {proto : Byte} : Upper frag_off proto → L4Hdr
  | fragment .. => ⟨0, 0, 0⟩
  | tcp h _ => ⟨h.dest, h.dest, h.flags⟩
  | udp h _ => ⟨h.dest, h.dest, 0⟩
  | icmp h _ => ⟨0, h.type.setWidth 16, 0⟩
  | other .. => ⟨0, 0, 0⟩

/-! ### Packets -/

structure Datagram where
  eth : Ethernet
  ip : Ipv4
  upper : Upper ip.frag_off ip.proto
  fits : (eth.encode ++ (ip.encode ++ upper.encode)).length < 2 ^ 32

/-- The encoding. -/
def Datagram.frame (d : Datagram) : Frame := ⟨d.eth.encode ++ (d.ip.encode ++ d.upper.encode), d.fits⟩

/-! ### Where the fields are -/

/-- The bytes `l` stand in the frame from the offset `i` on. -/
def At (f : Frame) (i : ℕ) (l : List Byte) : Prop :=
  ∃ before rest, f.bytes = before ++ (l ++ rest) ∧ before.length = i

variable {f : Frame} {i k : ℕ} {l l' : List Byte}

lemma At.append (h : At f i (l ++ l')) : At f i l ∧ At f (i + l.length) l' := by
  obtain ⟨before, rest, hf, hi⟩ := h
  refine ⟨⟨before, l' ++ rest, ?_, hi⟩, ⟨before ++ l, rest, ?_, ?_⟩⟩
  · rw [hf, List.append_assoc]
  · rw [hf, List.append_assoc, List.append_assoc]
  · rw [List.length_append, hi]

lemma At.length_le (h : At f i l) : i + l.length ≤ f.pkt_len := by
  obtain ⟨before, rest, hf, hi⟩ := h
  simp only [Frame.pkt_len, hf, List.length_append]
  omega

lemma At.byte (h : At f i l) {b : Byte} (hb : l[k]? = some b) {j : ℕ} (hj : j = i + k)
    (hlt : j < f.pkt_len) : f.byte j hlt = b := by
  obtain ⟨before, rest, hf, hi⟩ := h
  have hk : k < l.length := (List.getElem?_eq_some_iff.mp hb).1
  have hget : f.bytes[j]? = some b := by
    rw [hf, List.getElem?_append_right (by omega), List.getElem?_append_left (by omega), ← hb]
    congr 1
    omega
  exact Option.some.inj ((List.getElem?_eq_getElem hlt).symm.trans hget)

lemma At.be16 (h : At f i l) {x : U16} (h0 : l[k]? = some (x.extractLsb' 8 8))
    (h1 : l[k + 1]? = some (x.extractLsb' 0 8)) {j : ℕ} (hj : j = i + k)
    (hle : j + 2 ≤ f.pkt_len) : f.be16 j hle = x := by
  unfold Frame.be16
  rw [h.byte h0 hj, h.byte h1 (by omega),
    BitVec.extractLsb'_append_extractLsb'_eq_extractLsb' (by decide)]
  simp

lemma At.be32 (h : At f i l) {x : U32} (h0 : l[k]? = some (x.extractLsb' 24 8))
    (h1 : l[k + 1]? = some (x.extractLsb' 16 8)) (h2 : l[k + 2]? = some (x.extractLsb' 8 8))
    (h3 : l[k + 3]? = some (x.extractLsb' 0 8)) {j : ℕ} (hj : j = i + k)
    (hle : j + 4 ≤ f.pkt_len) : f.be32 j hle = x := by
  unfold Frame.be32 Frame.be16
  rw [h.byte h0 hj, h.byte h1 (by omega), h.byte h2 (by omega), h.byte h3 (by omega)]
  exact octets_append x

/-! ### The parser finds them -/

/-- Where the IPv4 header starts. -/
def Ethernet.size (e : Ethernet) : ℕ := if e.tag.isSome then 18 else 14

lemma Ethernet.length_encode (e : Ethernet) : e.encode.length = e.size := by
  unfold Ethernet.encode Ethernet.size
  cases e.tag <;> rfl

lemma Tag.tpid_eq (t : Tag) : t.tpid = ETH_P_8021Q ∨ t.tpid = ETH_P_8021AD := by
  unfold Tag.tpid
  split_ifs
  · exact Or.inr rfl
  · exact Or.inl rfl

lemma parse_eth_encode {e : Ethernet} (h : At f 0 e.encode) :
    parse_eth f = some (ETH_P_IP, e.size) := by
  obtain ⟨dest, source, tag⟩ := e
  have hlen := h.length_le
  rw [Ethernet.length_encode] at hlen
  unfold parse_eth
  cases tag with
  | none =>
    have hlen' : 14 ≤ f.pkt_len := by simpa [Ethernet.size] using hlen
    have hproto : f.be16 12 hlen' = ETH_P_IP := h.be16 (k := 12) rfl rfl rfl hlen'
    have hno : ¬ (ETH_P_IP = ETH_P_8021Q ∨ ETH_P_IP = ETH_P_8021AD) := by decide
    rw [dif_pos hlen', hproto]
    exact if_neg hno
  | some t =>
    have hlen' : 18 ≤ f.pkt_len := by simpa [Ethernet.size] using hlen
    have htag : f.be16 12 (by omega) = t.tpid := h.be16 (k := 12) rfl rfl rfl (by omega)
    have hproto : f.be16 16 hlen' = ETH_P_IP := h.be16 (k := 16) rfl rfl rfl hlen'
    rw [dif_pos (by omega), dif_pos hlen', htag, hproto]
    exact if_pos t.tpid_eq

/-- What the program keeps of the header. -/
def Ipv4.hdr (h : Ipv4) (nh : ℕ) : IpHdr where
  l4 := nh + (20 + h.options.length)
  saddr := h.saddr
  proto := h.proto
  frag_off := h.flags ++ h.frag_off

lemma parse_ip_encode {h : Ipv4} {nh : ℕ} (hat : At f nh h.encode) :
    parse_ip f nh = .ipv4 (h.hdr nh) := by
  have hlen := hat.length_le
  rw [h.length_encode] at hlen
  have hle := h.options_le
  have htot := h.tot_len_ge
  have hvihl : f.byte nh (by omega) = (4 : BitVec 4) ++ h.ihl := hat.byte (k := 0) rfl rfl _
  have hversion : (f.byte nh (by omega)) >>> 4 = 4 := by
    rw [hvihl, ← BitVec.toNat_inj, toNat_high]
    rfl
  have hihl : (f.byte nh (by omega) &&& 0x0F).toNat * 4 = 20 + h.options.length := by
    rw [hvihl, toNat_low, h.ihl_toNat]
  have htot_len : f.be16 (nh + 2) (by omega) = h.tot_len := hat.be16 (k := 2) rfl rfl rfl _
  have hfrag : f.be16 (nh + 6) (by omega) = h.flags ++ h.frag_off := hat.be16 (k := 6) rfl rfl rfl _
  have httl : f.byte (nh + 8) (by omega) = h.ttl := hat.byte (k := 8) rfl rfl _
  have hproto : f.byte (nh + 9) (by omega) = h.proto := hat.byte (k := 9) rfl rfl _
  have hsaddr : f.be32 (nh + 12) (by omega) = h.saddr :=
    hat.be32 (k := 12) rfl rfl rfl rfl rfl _
  unfold parse_ip
  rw [dif_pos (by omega)]
  simp only [hversion, hihl, htot_len, hfrag, httl, hproto, hsaddr]
  rw [if_neg (by decide), if_neg (by omega), if_neg (by omega), if_neg (by omega),
    if_neg h.ttl_ne]
  rfl

lemma parse_tcp_encode {h : Tcp} (hat : At f i h.encode) :
    parse_tcp f i = some ⟨h.dest, h.dest, h.flags⟩ := by
  have hlen : i + 20 ≤ f.pkt_len := hat.length_le
  have hge := h.doff_ge
  have hdest : f.be16 (i + 2) (by omega) = h.dest := hat.be16 (k := 2) rfl rfl rfl _
  have hflags : f.byte (i + 13) (by omega) = h.flags := hat.byte (k := 13) rfl rfl _
  have hoff : f.byte (i + 12) (by omega) = h.doff ++ h.res := hat.byte (k := 12) rfl rfl _
  have hdoff : ¬ (h.doff ++ h.res : Byte) >>> 4 < 5 := by
    rw [BitVec.lt_def, toNat_high]
    exact not_lt.mpr hge
  unfold parse_tcp
  rw [dif_pos hlen]
  simp only [hdest, hflags, hoff]
  exact if_neg hdoff

lemma parse_udp_encode {h : Udp} (hat : At f i h.encode) :
    parse_udp f i = some ⟨h.dest, h.dest, 0⟩ := by
  have hlen : i + 8 ≤ f.pkt_len := hat.length_le
  have hge := h.len_ge
  have hdest : f.be16 (i + 2) (by omega) = h.dest := hat.be16 (k := 2) rfl rfl rfl _
  have hudp : f.be16 (i + 4) (by omega) = h.len := hat.be16 (k := 4) rfl rfl rfl _
  unfold parse_udp
  rw [dif_pos hlen]
  simp only [hdest, hudp]
  exact if_neg (by omega)

lemma parse_icmp_encode {h : Icmp} (hat : At f i h.encode) :
    parse_icmp f i = some ⟨0, h.type.setWidth 16, 0⟩ := by
  have hlen : i + 4 ≤ f.pkt_len := hat.length_le
  have htype : f.byte i (by omega) = h.type := hat.byte (k := 0) rfl rfl _
  unfold parse_icmp
  rw [dif_pos hlen, htype]

lemma is_frag_hdr (h : Ipv4) (nh : ℕ) : (h.hdr nh).is_frag = decide (h.frag_off ≠ 0) := by
  have hoff : (h.flags ++ h.frag_off : U16) &&& 0x1FFF = 0 ↔ h.frag_off = 0 := by
    rw [← BitVec.toNat_inj, ← BitVec.toNat_inj, toNat_offset]
    rfl
  change ((h.flags ++ h.frag_off : U16) &&& 0x1FFF != 0) = _
  rw [Bool.eq_iff_iff, bne_iff_ne, decide_eq_true_iff, ne_eq, ne_eq, hoff]

lemma parse_l4_encode {frag_off : BitVec 13} {proto : Byte} (u : Upper frag_off proto)
    {ip : IpHdr} (hat : At f ip.l4 u.encode) (hproto : ip.proto = proto)
    (hfrag : ip.is_frag = decide (frag_off ≠ 0)) : parse_l4 f ip = some u.l4 := by
  unfold parse_l4
  cases u with
  | fragment later payload => rw [hfrag, if_pos (decide_eq_true later)]; rfl
  | tcp h payload =>
    rw [hfrag, if_neg (by decide), hproto, if_pos rfl]
    exact parse_tcp_encode hat.append.1
  | udp h payload =>
    rw [hfrag, if_neg (by decide), hproto, if_neg (by decide), if_pos rfl]
    exact parse_udp_encode hat.append.1
  | icmp h payload =>
    rw [hfrag, if_neg (by decide), hproto, if_neg (by decide), if_neg (by decide), if_pos rfl]
    exact parse_icmp_encode hat.append.1
  | other h payload =>
    obtain ⟨h1, h2, h3⟩ := h
    rw [hfrag, if_neg (by decide), hproto, if_neg h1, if_neg h2, if_neg h3]
    rfl

namespace Datagram

variable (d : Datagram)

/-- The header the parser returns. -/
def hdr : IpHdr := d.ip.hdr d.eth.size

lemma at_frame : At d.frame 0 d.eth.encode ∧ At d.frame d.eth.size d.ip.encode ∧
    At d.frame d.hdr.l4 d.upper.encode := by
  have hall : At d.frame 0 (d.eth.encode ++ (d.ip.encode ++ d.upper.encode)) :=
    ⟨[], [], by simp [frame], rfl⟩
  obtain ⟨heth, hrest⟩ := hall.append
  obtain ⟨hip, hupper⟩ := hrest.append
  rw [Nat.zero_add, d.eth.length_encode] at hip hupper
  rw [d.ip.length_encode] at hupper
  exact ⟨heth, hip, hupper⟩

/-- **The parser inverts the encoding**, as far as it reads. -/
theorem parse_l3_frame : parse_l3 d.frame = .ipv4 d.hdr := by
  obtain ⟨heth, hip, -⟩ := d.at_frame
  unfold parse_l3
  rw [parse_eth_encode heth]
  exact parse_ip_encode hip

theorem parse_l4_frame : parse_l4 d.frame d.hdr = some d.upper.l4 :=
  parse_l4_encode d.upper d.at_frame.2.2 rfl (is_frag_hdr d.ip d.eth.size)

end Datagram

end Lookout.Headers

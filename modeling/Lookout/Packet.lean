import Lookout.Common
import Mathlib.Tactic.NormNum

/-!
The bytes of a frame and the headers `xdp_firewall` reads from them.

A read takes the proof that it lies inside the frame, as the verifier asks of the program:
each header is compared with `data_end` before it is read.
-/

namespace Lookout.Packet

open Lookout.Common

/-- `data .. data_end`; both are 32-bit offsets in `struct xdp_md`. -/
structure Frame where
  bytes : List Byte
  lt : bytes.length < 2 ^ 32

namespace Frame

/-- `data_end - data`. -/
def pkt_len (f : Frame) : ℕ := f.bytes.length

def byte (f : Frame) (i : ℕ) (h : i < f.pkt_len) : Byte := f.bytes.get ⟨i, h⟩

/-- Two bytes in network order, as `bpf_ntohs` reads them. -/
def be16 (f : Frame) (i : ℕ) (h : i + 2 ≤ f.pkt_len) : U16 :=
  f.byte i (by omega) ++ f.byte (i + 1) (by omega)

def be32 (f : Frame) (i : ℕ) (h : i + 4 ≤ f.pkt_len) : U32 :=
  f.be16 i (by omega) ++ f.be16 (i + 2) (by omega)

end Frame

/-- A word is put together again from its bytes, the first one on top. -/
lemma octets_append (x : U32) :
    (x.extractLsb' 24 8 ++ x.extractLsb' 16 8) ++ (x.extractLsb' 8 8 ++ x.extractLsb' 0 8) = x := by
  rw [BitVec.extractLsb'_append_extractLsb'_eq_extractLsb' (by decide),
    BitVec.extractLsb'_append_extractLsb'_eq_extractLsb' (by decide),
    BitVec.extractLsb'_append_extractLsb'_eq_extractLsb' (by decide)]
  simp

def ETH_P_IP : U16 := 0x0800
def ETH_P_8021Q : U16 := 0x8100
def ETH_P_8021AD : U16 := 0x88A8

def IPPROTO_ICMP : Byte := 1
def IPPROTO_TCP : Byte := 6
def IPPROTO_UDP : Byte := 17

def TCP_FIN : Byte := 0x01
def TCP_SYN : Byte := 0x02
def TCP_RST : Byte := 0x04
def TCP_PSH : Byte := 0x08
def TCP_ACK : Byte := 0x10
def TCP_URG : Byte := 0x20

/-! ### Ethernet and IPv4 -/

/-- What the program keeps of the IPv4 header; `l4` is where the next header starts. -/
structure IpHdr where
  l4 : ℕ
  saddr : Addr
  proto : Byte
  frag_off : U16
  deriving DecidableEq

inductive L3
  | malformed
  | non_ipv4
  | ipv4 (ip : IpHdr)
  deriving DecidableEq

/-- The protocol and the offset after the Ethernet header and at most one VLAN tag. -/
def parse_eth (f : Frame) : Option (U16 × ℕ) :=
  if h : 14 ≤ f.pkt_len then
    let h_proto := f.be16 12 h
    if h_proto = ETH_P_8021Q ∨ h_proto = ETH_P_8021AD then
      if h' : 18 ≤ f.pkt_len then some (f.be16 16 h', 18) else none
    else some (h_proto, 14)
  else none

def parse_ip (f : Frame) (nh : ℕ) : L3 :=
  if h : nh + 20 ≤ f.pkt_len then
    let version := f.byte nh (by omega) >>> 4
    let ihl_bytes := (f.byte nh (by omega) &&& 0x0F).toNat * 4
    if version ≠ 4 then .malformed
    else if ihl_bytes < 20 ∨ 60 < ihl_bytes then .malformed
    else if f.pkt_len < nh + ihl_bytes then .malformed
    else if (f.be16 (nh + 2) (by omega)).toNat < ihl_bytes then .malformed
    else if f.byte (nh + 8) (by omega) = 0 then .malformed
    else .ipv4
      { l4 := nh + ihl_bytes
        saddr := f.be32 (nh + 12) (by omega)
        proto := f.byte (nh + 9) (by omega)
        frag_off := f.be16 (nh + 6) (by omega) }
  else .malformed

def parse_l3 (f : Frame) : L3 :=
  match parse_eth f with
  | none => .malformed
  | some (h_proto, nh) => if h_proto ≠ ETH_P_IP then .non_ipv4 else parse_ip f nh

/-! ### The header after it -/

/-- Not the first fragment: there is no L4 header. -/
def IpHdr.is_frag (ip : IpHdr) : Bool := ip.frag_off &&& 0x1FFF != 0

/-- The locals the L4 parsing sets. -/
structure L4Hdr where
  dport : U16
  rule_port : U16
  tcp_flags : Byte
  deriving DecidableEq

def parse_tcp (f : Frame) (l4 : ℕ) : Option L4Hdr :=
  if h : l4 + 20 ≤ f.pkt_len then
    let dport := f.be16 (l4 + 2) (by omega)
    let tcp_flags := f.byte (l4 + 13) (by omega)
    let doff := f.byte (l4 + 12) (by omega) >>> 4
    if doff < 5 then none else some ⟨dport, dport, tcp_flags⟩
  else none

def parse_udp (f : Frame) (l4 : ℕ) : Option L4Hdr :=
  if h : l4 + 8 ≤ f.pkt_len then
    let dport := f.be16 (l4 + 2) (by omega)
    if (f.be16 (l4 + 4) (by omega)).toNat < 8 then none else some ⟨dport, dport, 0⟩
  else none

/-- A port rule for ICMP matches the type. -/
def parse_icmp (f : Frame) (l4 : ℕ) : Option L4Hdr :=
  if h : l4 + 4 ≤ f.pkt_len then some ⟨0, (f.byte l4 (by omega)).setWidth 16, 0⟩ else none

/-- `none` is a malformed header. -/
def parse_l4 (f : Frame) (ip : IpHdr) : Option L4Hdr :=
  if ip.is_frag then some ⟨0, 0, 0⟩
  else if ip.proto = IPPROTO_TCP then parse_tcp f ip.l4
  else if ip.proto = IPPROTO_UDP then parse_udp f ip.l4
  else if ip.proto = IPPROTO_ICMP then parse_icmp f ip.l4
  else some ⟨0, 0, 0⟩

/-- Flag combinations no real TCP stack sends are not sane. -/
def tcp_flags_sane (f : Byte) : Bool :=
  if f = 0 then false
  else if f &&& (TCP_SYN ||| TCP_FIN) = TCP_SYN ||| TCP_FIN then false
  else if f &&& (TCP_SYN ||| TCP_RST) = TCP_SYN ||| TCP_RST then false
  else if f &&& (TCP_FIN ||| TCP_RST) = TCP_FIN ||| TCP_RST then false
  else if f &&& (TCP_FIN ||| TCP_PSH ||| TCP_URG) = TCP_FIN ||| TCP_PSH ||| TCP_URG then false
  else true

/-! ### A smallest frame -/

/-- An IPv4 header from `saddr` with nothing after it, of a protocol the program does not look
into. -/
def header_from (saddr : Addr) : Frame where
  bytes := List.replicate 12 0 ++ [0x08, 0x00] ++
    [0x45, 0, 0, 20, 0, 0, 0, 0, 64, 253, 0, 0] ++
    [saddr.extractLsb' 24 8, saddr.extractLsb' 16 8, saddr.extractLsb' 8 8,
      saddr.extractLsb' 0 8] ++ [10, 0, 0, 1]
  lt := by
    simp only [List.length_append, List.length_replicate, List.length_cons, List.length_nil]
    norm_num

example : parse_l3 (header_from 0x0A000064) =
    .ipv4 { l4 := 34, saddr := 0x0A000064, proto := 253, frag_off := 0 } := by decide

end Lookout.Packet

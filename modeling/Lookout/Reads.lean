import Lookout.Effects
import Lookout.Packet

/-!
The reads of `xdp_firewall`, one byte at a time.

The parser is written again as a program that knows the length of the frame and asks for bytes.
It asks for bytes inside the frame only, whatever it is told, and told the bytes of a frame it
finds what the parser does.
-/

namespace Lookout.Reads

open Lookout.Effects Lookout.Effects.Prog Lookout.Common Lookout.Packet

/-- One operation for each offset; the answer is the byte there. -/
abbrev reads : Sig := ⟨ℕ, fun _ => Byte⟩

abbrev Read := Prog reads

def byte (i : ℕ) : Read Byte := op (S := reads) i

def be16 (i : ℕ) : Read U16 := do
  let hi ← byte i
  let lo ← byte (i + 1)
  return hi ++ lo

def be32 (i : ℕ) : Read U32 := do
  let hi ← be16 i
  let lo ← be16 (i + 2)
  return hi ++ lo

/-! ### The parser -/

def parse_eth (len : ℕ) : Read (Option (U16 × ℕ)) :=
  if 14 ≤ len then do
    let h_proto ← be16 12
    if h_proto = ETH_P_8021Q ∨ h_proto = ETH_P_8021AD then
      if 18 ≤ len then do
        let h_proto ← be16 16
        return some (h_proto, 18)
      else return none
    else return some (h_proto, 14)
  else return none

/-- The fields that are read when nothing is wrong with the header. -/
def ip_fields (nh ihl_bytes : ℕ) : Read L3 := do
  let saddr ← be32 (nh + 12)
  let proto ← byte (nh + 9)
  let frag_off ← be16 (nh + 6)
  return .ipv4 { l4 := nh + ihl_bytes, saddr, proto, frag_off }

def parse_ip (len nh : ℕ) : Read L3 :=
  if nh + 20 ≤ len then do
    let vihl ← byte nh
    let ihl_bytes := (vihl &&& 0x0F).toNat * 4
    if vihl >>> 4 ≠ 4 then return .malformed
    else if ihl_bytes < 20 ∨ 60 < ihl_bytes then return .malformed
    else if len < nh + ihl_bytes then return .malformed
    else do
      let tot_len ← be16 (nh + 2)
      if tot_len.toNat < ihl_bytes then return .malformed
      else do
        let ttl ← byte (nh + 8)
        if ttl = 0 then return .malformed else ip_fields nh ihl_bytes
  else return .malformed

def parse_l3 (len : ℕ) : Read L3 := do
  match ← parse_eth len with
  | none => return .malformed
  | some (h_proto, nh) => if h_proto ≠ ETH_P_IP then return .non_ipv4 else parse_ip len nh

def parse_tcp (len l4 : ℕ) : Read (Option L4Hdr) :=
  if l4 + 20 ≤ len then do
    let dport ← be16 (l4 + 2)
    let tcp_flags ← byte (l4 + 13)
    let doff ← byte (l4 + 12)
    if doff >>> 4 < 5 then return none else return some ⟨dport, dport, tcp_flags⟩
  else return none

def parse_udp (len l4 : ℕ) : Read (Option L4Hdr) :=
  if l4 + 8 ≤ len then do
    let dport ← be16 (l4 + 2)
    let len ← be16 (l4 + 4)
    if len.toNat < 8 then return none else return some ⟨dport, dport, 0⟩
  else return none

def parse_icmp (len l4 : ℕ) : Read (Option L4Hdr) :=
  if l4 + 4 ≤ len then do
    let type ← byte l4
    return some ⟨0, type.setWidth 16, 0⟩
  else return none

def parse_l4 (len : ℕ) (ip : IpHdr) : Read (Option L4Hdr) :=
  if ip.is_frag then return some ⟨0, 0, 0⟩
  else if ip.proto = IPPROTO_TCP then parse_tcp len ip.l4
  else if ip.proto = IPPROTO_UDP then parse_udp len ip.l4
  else if ip.proto = IPPROTO_ICMP then parse_icmp len ip.l4
  else return some ⟨0, 0, 0⟩

/-! ### Inside the frame -/

variable {α β : Type}

/-- Whatever bytes it is told, `p` only reads inside a frame of this length. -/
def Inside (len : ℕ) (p : Read α) : Prop := Uses (S := reads) (fun i : ℕ => i < len) p

variable {len : ℕ}

lemma inside_ret (a : α) : Inside len (pure a : Read α) := trivial

lemma inside_bind {p : Read α} {g : α → Read β} (hp : Inside len p)
    (hg : ∀ a, Inside len (g a)) : Inside len (p >>= g) :=
  uses_bind hp hg

lemma inside_byte {i : ℕ} (h : i < len) : Inside len (byte i) := uses_op h

lemma inside_be16 {i : ℕ} (h : i + 2 ≤ len) : Inside len (be16 i) :=
  inside_bind (inside_byte (by omega)) fun _ =>
    inside_bind (inside_byte (by omega)) fun _ => inside_ret _

lemma inside_be32 {i : ℕ} (h : i + 4 ≤ len) : Inside len (be32 i) :=
  inside_bind (inside_be16 (by omega)) fun _ =>
    inside_bind (inside_be16 (by omega)) fun _ => inside_ret _

lemma inside_parse_eth (len : ℕ) : Inside len (parse_eth len) := by
  unfold parse_eth
  split
  · refine inside_bind (inside_be16 (by omega)) fun h_proto => ?_
    split
    · split
      · exact inside_bind (inside_be16 (by omega)) fun _ => inside_ret _
      · exact inside_ret _
    · exact inside_ret _
  · exact inside_ret _

lemma inside_parse_ip (len nh : ℕ) : Inside len (parse_ip len nh) := by
  unfold parse_ip ip_fields
  split
  · refine inside_bind (inside_byte (by omega)) fun vihl => ?_
    dsimp only
    split_ifs
    · exact inside_ret _
    · exact inside_ret _
    · exact inside_ret _
    · refine inside_bind (inside_be16 (by omega)) fun tot_len => ?_
      split
      · exact inside_ret _
      · refine inside_bind (inside_byte (by omega)) fun ttl => ?_
        split
        · exact inside_ret _
        · exact inside_bind (inside_be32 (by omega)) fun _ =>
            inside_bind (inside_byte (by omega)) fun _ =>
              inside_bind (inside_be16 (by omega)) fun _ => inside_ret _
  · exact inside_ret _

lemma inside_parse_l3 (len : ℕ) : Inside len (parse_l3 len) := by
  refine inside_bind (inside_parse_eth len) fun r => ?_
  cases r with
  | none => exact inside_ret _
  | some r =>
    dsimp only
    split
    · exact inside_ret _
    · exact inside_parse_ip len r.2

lemma inside_parse_tcp (len l4 : ℕ) : Inside len (parse_tcp len l4) := by
  unfold parse_tcp
  split
  · refine inside_bind (inside_be16 (by omega)) fun _ =>
      inside_bind (inside_byte (by omega)) fun _ =>
        inside_bind (inside_byte (by omega)) fun doff => ?_
    split <;> exact inside_ret _
  · exact inside_ret _

lemma inside_parse_udp (len l4 : ℕ) : Inside len (parse_udp len l4) := by
  unfold parse_udp
  split
  · refine inside_bind (inside_be16 (by omega)) fun _ =>
      inside_bind (inside_be16 (by omega)) fun n => ?_
    split <;> exact inside_ret _
  · exact inside_ret _

lemma inside_parse_l4 (len : ℕ) (ip : IpHdr) : Inside len (parse_l4 len ip) := by
  unfold parse_l4 parse_icmp
  split
  · exact inside_ret _
  split
  · exact inside_parse_tcp len ip.l4
  split
  · exact inside_parse_udp len ip.l4
  split
  · split
    · exact inside_bind (inside_byte (by omega)) fun _ => inside_ret _
    · exact inside_ret _
  · exact inside_ret _

/-! ### The bytes of a frame -/

/-- The byte of the frame; there is none outside. -/
def answer (f : Frame) (_ : Unit) (i : ℕ) : Byte × Unit :=
  (if h : i < f.pkt_len then f.byte i h else 0, ())

/-- What a program that reads `f` finds. -/
def value (f : Frame) (p : Read α) : α := (run (answer f) p ()).1

variable {f : Frame}

@[simp] lemma value_pure (a : α) : value f (pure a : Read α) = a := rfl

lemma value_bind (p : Read α) (g : α → Read β) : value f (p >>= g) = value f (g (value f p)) :=
  congrArg Prod.fst (run_bind (f := answer f) p g ())

@[simp] lemma value_byte {i : ℕ} (h : i < f.pkt_len) : value f (byte i) = f.byte i h :=
  dif_pos h

@[simp] lemma value_be16 {i : ℕ} (h : i + 2 ≤ f.pkt_len) : value f (be16 i) = f.be16 i h := by
  unfold be16
  rw [value_bind, value_bind, value_byte (by omega), value_byte (by omega)]
  rfl

@[simp] lemma value_be32 {i : ℕ} (h : i + 4 ≤ f.pkt_len) : value f (be32 i) = f.be32 i h := by
  unfold be32
  rw [value_bind, value_bind, value_be16 (by omega), value_be16 (by omega)]
  rfl

lemma value_ite {P : Prop} [Decidable P] (p q : Read α) :
    value f (if P then p else q) = if P then value f p else value f q := by
  split_ifs <;> rfl

lemma value_parse_eth (f : Frame) : value f (parse_eth f.pkt_len) = Packet.parse_eth f := by
  unfold parse_eth Packet.parse_eth
  by_cases h : 14 ≤ f.pkt_len
  · rw [if_pos h, dif_pos h, value_bind, value_be16 h, value_ite]
    by_cases h' : 18 ≤ f.pkt_len
    · rw [if_pos h', dif_pos h', value_bind, value_be16 h']
      rfl
    · rw [if_neg h', dif_neg h']
      rfl
  · rw [if_neg h, dif_neg h]
    rfl

lemma value_ip_fields {nh : ℕ} (ihl_bytes : ℕ) (hsaddr : nh + 12 + 4 ≤ f.pkt_len)
    (hproto : nh + 9 < f.pkt_len) (hfrag : nh + 6 + 2 ≤ f.pkt_len) :
    value f (ip_fields nh ihl_bytes) = .ipv4
      { l4 := nh + ihl_bytes
        saddr := f.be32 (nh + 12) hsaddr
        proto := f.byte (nh + 9) hproto
        frag_off := f.be16 (nh + 6) hfrag } := by
  unfold ip_fields
  rw [value_bind, value_bind, value_bind, value_be32 hsaddr, value_byte hproto,
    value_be16 hfrag, value_pure]

lemma value_parse_ip (f : Frame) (nh : ℕ) :
    value f (parse_ip f.pkt_len nh) = Packet.parse_ip f nh := by
  unfold parse_ip Packet.parse_ip
  by_cases h : nh + 20 ≤ f.pkt_len
  · have hsaddr : nh + 12 + 4 ≤ f.pkt_len := by omega
    have hproto : nh + 9 < f.pkt_len := by omega
    have hfrag : nh + 6 + 2 ≤ f.pkt_len := by omega
    rw [if_pos h, dif_pos h, value_bind, value_byte (by omega)]
    simp only [value_ite, value_bind, value_be16 (by omega : nh + 2 + 2 ≤ f.pkt_len),
      value_byte (by omega : nh + 8 < f.pkt_len), value_ip_fields _ hsaddr hproto hfrag,
      value_pure]
  · rw [if_neg h, dif_neg h]
    rfl

/-- **The bytes that are asked for are the bytes the parser reads.** -/
theorem value_parse_l3 (f : Frame) : value f (parse_l3 f.pkt_len) = Packet.parse_l3 f := by
  unfold parse_l3 Packet.parse_l3
  rw [value_bind, value_parse_eth]
  cases Packet.parse_eth f with
  | none => rfl
  | some r =>
    dsimp only
    rw [value_ite, value_parse_ip]
    rfl

lemma value_parse_tcp (f : Frame) (l4 : ℕ) :
    value f (parse_tcp f.pkt_len l4) = Packet.parse_tcp f l4 := by
  unfold parse_tcp Packet.parse_tcp
  by_cases h : l4 + 20 ≤ f.pkt_len
  · rw [if_pos h, dif_pos h, value_bind, value_bind, value_bind, value_be16 (by omega),
      value_byte (by omega), value_byte (by omega), value_ite]
    rfl
  · rw [if_neg h, dif_neg h]
    rfl

lemma value_parse_udp (f : Frame) (l4 : ℕ) :
    value f (parse_udp f.pkt_len l4) = Packet.parse_udp f l4 := by
  unfold parse_udp Packet.parse_udp
  by_cases h : l4 + 8 ≤ f.pkt_len
  · rw [if_pos h, dif_pos h, value_bind, value_bind, value_be16 (by omega), value_be16 (by omega),
      value_ite]
    rfl
  · rw [if_neg h, dif_neg h]
    rfl

lemma value_parse_icmp (f : Frame) (l4 : ℕ) :
    value f (parse_icmp f.pkt_len l4) = Packet.parse_icmp f l4 := by
  unfold parse_icmp Packet.parse_icmp
  by_cases h : l4 + 4 ≤ f.pkt_len
  · rw [if_pos h, dif_pos h, value_bind, value_byte (by omega)]
    rfl
  · rw [if_neg h, dif_neg h]
    rfl

theorem value_parse_l4 (f : Frame) (ip : IpHdr) :
    value f (parse_l4 f.pkt_len ip) = Packet.parse_l4 f ip := by
  unfold parse_l4 Packet.parse_l4
  simp only [value_ite, value_parse_tcp, value_parse_udp, value_parse_icmp, value_pure]

end Lookout.Reads

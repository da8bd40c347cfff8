import Lookout.Lpm

/-!
The map layouts of `common.h`, shared by the XDP program and the Python control plane.

Fields whose width matters — clock readings, tokens, rates, flag words — have it. Counters
are natural numbers: a 64-bit counter that goes up by one every nanosecond takes 584 years
to wrap. The padding words, which nobody reads, are left out.
-/

namespace Lookout.Common

open Lookout.Lpm

abbrev Byte := BitVec 8
abbrev U16 := BitVec 16
abbrev U32 := BitVec 32
abbrev U64 := BitVec 64

/-- An IPv4 address: its four bytes in network order, the first one on top. -/
abbrev Addr := BitVec 32

def MAX_ALLOWLIST : ℕ := 1024
def MAX_BLOCKLIST : ℕ := 4096
def MAX_PORT_RULES : ℕ := 1024
def MAX_TRACKED : ℕ := 32768

/-! ### `enum fw_action`, `enum block_reason` and the feature bits -/

def ACTION_ALLOW : U32 := 0
def ACTION_DENY : U32 := 1

def BLOCK_MANUAL : U32 := 0
def BLOCK_AUTO : U32 := 1

def FEAT_ALLOWLIST : U32 := 1
def FEAT_BLOCKLIST : U32 := 2
def FEAT_PROTO_SANITY : U32 := 4
def FEAT_RATELIMIT : U32 := 8
def FEAT_TRACK_STATE : U32 := 16
def FEAT_DROP_FRAGS : U32 := 32
def FEAT_PORT_RULES : U32 := 64

def FEAT_DEFAULT : U32 :=
  FEAT_ALLOWLIST ||| FEAT_BLOCKLIST ||| FEAT_PROTO_SANITY ||| FEAT_RATELIMIT |||
    FEAT_TRACK_STATE ||| FEAT_PORT_RULES

/-- `feat & bit` as a C condition. -/
def has (feat bit : U32) : Bool := feat &&& bit != 0

/-! ### Keys of the tries -/

/-- The netmask of `n` leading ones. -/
def mask (n : ℕ) : Addr := BitVec.allOnes 32 <<< (32 - n)

/-- `struct lpm_key`. The trie compares only the first `prefixlen` bits, so a key is kept in
its one canonical form, with the host bits clear. -/
structure LpmKey where
  prefixlen : ℕ
  addr : Addr
  le : prefixlen ≤ 32
  host_clear : addr &&& mask prefixlen = addr
  deriving DecidableEq

lemma and_mask_idem (a : Addr) (n : ℕ) : a &&& mask n &&& mask n = a &&& mask n := by
  rw [BitVec.and_assoc, BitVec.and_self]

/-- The network of length `n` that `a` belongs to. -/
def LpmKey.net (a : Addr) (n : ℕ) (h : n ≤ 32) : LpmKey :=
  ⟨n, a &&& mask n, h, and_mask_idem a n⟩

lemma and_mask_32 (a : Addr) : a &&& mask 32 = a := by
  rw [mask, Nat.sub_self, BitVec.shiftLeft_zero, BitVec.and_allOnes]

/-- The key of a single address. -/
def LpmKey.single (a : Addr) : LpmKey := ⟨32, a, le_rfl, and_mask_32 a⟩

instance : Covering LpmKey Addr where
  covers k a := a &&& mask k.prefixlen == k.addr
  len k := k.prefixlen
  eq_of_len := by
    intro k k' a h h' hlen
    obtain ⟨n, b, hle, hb⟩ := k
    obtain ⟨n', b', hle', hb'⟩ := k'
    simp only [beq_iff_eq] at h h' hlen
    subst hlen
    rw [h] at h'
    subst h'
    rfl

@[simp] lemma covers_iff (k : LpmKey) (a : Addr) :
    Covering.covers k a = true ↔ a &&& mask k.prefixlen = k.addr := by
  simp [Covering.covers]

@[simp] lemma covers_single (a b : Addr) :
    Covering.covers (LpmKey.single a) b = true ↔ b = a := by
  simp [LpmKey.single, and_mask_32]

lemma longest_single {V : Type} (m : Store LpmKey V) (a : Addr) :
    Longest m a (LpmKey.single a) :=
  fun k _ _ => k.le

/-! ### Values -/

structure AllowVal where
  hits : ℕ
  flags : U32
  deriving DecidableEq

structure BlockVal where
  expires_ns : U64
  hits : ℕ
  reason : U32
  deriving DecidableEq

/-- `struct port_key`; the padding byte is zero on both sides. -/
structure PortKey where
  proto : Byte
  port : U16
  deriving DecidableEq

structure PortVal where
  hits : ℕ
  action : U32
  deriving DecidableEq

structure SrcState where
  tokens : U64
  last_refill_ns : U64
  last_seen_ns : U64
  packets : ℕ
  bytes : ℕ
  dropped : ℕ
  syn : ℕ
  fin : ℕ
  rst : ℕ
  udp : ℕ
  icmp : ℕ
  port_bitmap : U64
  deriving DecidableEq

structure FwConfig where
  rate_pps : U64
  burst_pkts : U64
  features : U32
  aggressiveness : U32
  default_policy : U32
  deriving DecidableEq

/-- `enum stat_index`, in the order of the per-CPU array and of `STAT_NAMES`. -/
inductive Stat
  | rx_packets | rx_bytes
  | pass_allowlist | pass_rule | pass_default | pass_non_ipv4
  | drop_blocklist | drop_port_rule | drop_default | drop_proto
  | drop_ratelimit | drop_malformed | drop_fragment
  | state_full
  deriving DecidableEq

def STAT_NAMES : List Stat :=
  [.rx_packets, .rx_bytes, .pass_allowlist, .pass_rule, .pass_default, .pass_non_ipv4,
    .drop_blocklist, .drop_port_rule, .drop_default, .drop_proto, .drop_ratelimit,
    .drop_malformed, .drop_fragment, .state_full]

/-- `k.startswith("pass_")`. -/
def Stat.is_pass : Stat → Bool
  | .pass_allowlist | .pass_rule | .pass_default | .pass_non_ipv4 => true
  | _ => false

/-- `k.startswith("drop_")`. -/
def Stat.is_drop : Stat → Bool
  | .drop_blocklist | .drop_port_rule | .drop_default | .drop_proto | .drop_ratelimit
  | .drop_malformed | .drop_fragment => true
  | _ => false

/-- The counters of the packets that reached the rate limiter. -/
def LIMITER_INPUT : List Stat := [.pass_rule, .pass_default, .drop_ratelimit]

inductive Verdict
  | pass
  | drop
  deriving DecidableEq

end Lookout.Common

import Lookout.Kernel

/-!
`xdp_firewall`, stage by stage, in the order of the source.

A stage that may decide the packet takes the rest of the program as an argument and goes on
with it when it does not decide.
-/

namespace Lookout.Xdp

open Lookout.Effects Lookout.Effects.Prog Lookout.Common Lookout.Packet Lookout.Limiter
open Lookout.Kernel

def stat_add (idx : Stat) (n : ℕ) : Call Unit := op (S := calls) (.stat_add idx n)

def stat_inc (idx : Stat) : Call Unit := stat_add idx 1

/-- `stat_inc(reason); return verdict;` -/
def finish (reason : Stat) (verdict : Verdict) : Call Verdict := do
  stat_inc reason
  return verdict

/-- A source on the allowlist passes. -/
def allowlist_stage (feat : U32) (saddr : Addr) (next : Call Verdict) : Call Verdict :=
  if has feat FEAT_ALLOWLIST then do
    match ← op (S := calls) (.allow_lookup saddr) with
    | some (k, _) =>
      op (S := calls) (.allow_hit k)
      finish .pass_allowlist .pass
    | none => next
  else next

/-- The expiry check of a block. -/
def active (bv : BlockVal) (now : U64) : Bool :=
  decide (bv.expires_ns = 0 ∨ bv.expires_ns > now)

/-- A source on the blocklist is dropped until the entry expires. -/
def blocklist_stage (feat : U32) (saddr : Addr) (now : U64) (next : Call Verdict) :
    Call Verdict :=
  if has feat FEAT_BLOCKLIST then do
    match ← op (S := calls) (.block_lookup saddr) with
    | some (k, bv) =>
      if active bv now then do
        op (S := calls) (.block_hit k)
        finish .drop_blocklist .drop
      else next
    | none => next
  else next

/-- Port rules, then the default policy for anything without a rule. -/
def port_stage (feat policy : U32) (proto : Byte) (rule_port : U16) : Call (Verdict × Stat) :=
  if has feat FEAT_PORT_RULES then do
    match ← op (S := calls) (.port_lookup ⟨proto, rule_port⟩) with
    | some pv =>
      op (S := calls) (.port_hit ⟨proto, rule_port⟩)
      if pv.action = ACTION_DENY then return (.drop, .drop_port_rule)
      else return (.pass, .pass_rule)
    | none =>
      if policy = ACTION_DENY then return (.drop, .drop_default)
      else return (.pass, .pass_default)
  else return (.pass, .pass_default)

/-- The verdict and its reason at the label `update_state`. -/
def verdict_stage (cfg : FwConfig) (ip : IpHdr) (l4 : L4Hdr) : Call (Verdict × Stat) :=
  if ip.is_frag then
    if has cfg.features FEAT_DROP_FRAGS then return (.drop, .drop_fragment)
    else if has cfg.features FEAT_PORT_RULES ∧ cfg.default_policy = ACTION_DENY then
      return (.drop, .drop_default)
    else return (.pass, .pass_default)
  else if has cfg.features FEAT_PROTO_SANITY ∧ ip.proto = IPPROTO_TCP ∧
      tcp_flags_sane l4.tcp_flags = false then
    return (.drop, .drop_proto)
  else port_stage cfg.features cfg.default_policy ip.proto l4.rule_port

/-- From `bpf_spin_lock(&st->lock)` to the end. -/
def locked_stage (st : ℕ) (p : Pending) : Call Verdict := do
  let r ← op (S := calls) (.state_locked st p)
  finish r.2 r.1

/-- The source cannot be tracked: keep the verdict. -/
def state_full (p : Pending) : Call Verdict := do
  stat_inc .state_full
  finish p.reason p.verdict

/-- Everything from the label `update_state`. -/
def update_state (p : Pending) : Call Verdict := do
  op (S := calls) (.update_state_label p.verdict p.reason)
  if has p.feat FEAT_TRACK_STATE then do
    match ← op (S := calls) (.state_lookup p.saddr) with
    | some st => locked_stage st p
    | none => do
      if ← op (S := calls) (.state_insert p.saddr (init p)) then state_full p
      else do
        match ← op (S := calls) (.state_lookup p.saddr) with
        | some st => locked_stage st p
        | none => state_full p
  else finish p.reason p.verdict

/-- After the source lists: the L4 header, the verdict, the state. -/
def l4_stage (f : Frame) (now : U64) (cfg : FwConfig) (ip : IpHdr) : Call Verdict :=
  match parse_l4 f ip with
  | none => finish .drop_malformed .drop
  | some l4 => do
    let r ← verdict_stage cfg ip l4
    update_state
      { now, rate := cfg.rate_pps, burst := cfg.burst_pkts, feat := cfg.features,
        saddr := ip.saddr, proto := ip.proto, tcp_flags := l4.tcp_flags, dport := l4.dport,
        pkt_len := f.pkt_len, verdict := r.1, reason := r.2 }

/-- From the configuration on. -/
def config_stage (f : Frame) (now : U64) (cfg : FwConfig) : Call Verdict :=
  match parse_l3 f with
  | .malformed => finish .drop_malformed .drop
  | .non_ipv4 => finish .pass_non_ipv4 .pass
  | .ipv4 ip =>
    allowlist_stage cfg.features ip.saddr <|
      blocklist_stage cfg.features ip.saddr now <| l4_stage f now cfg ip

def xdp_firewall (f : Frame) : Call Verdict := do
  let now ← op (S := calls) .ktime_get_ns
  stat_inc .rx_packets
  stat_add .rx_bytes f.pkt_len
  match ← op (S := calls) .config_lookup with
  | none => return .pass
  | some cfg => config_stage f now cfg

end Lookout.Xdp

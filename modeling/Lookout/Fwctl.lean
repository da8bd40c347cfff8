import Lookout.Firewall

/-!
`fwctl.py`: the operator's commands that write the blocklist, the port rules and the
configuration, and its self-test, without what they print.
-/

namespace Lookout.Fwctl

open Lookout.Effects Lookout.Effects.Prog Lookout.Common Lookout.Kernel Lookout.Firewall

/-! ### `fwctl block` -/

/-- An argument `a.b.c.d/n`. -/
structure Cidr where
  addr : Addr
  prefixlen : ℕ
  le : prefixlen ≤ 32

/-- An argument without a length. -/
def Cidr.plain (a : Addr) : Cidr := ⟨a, 32, (LpmKey.single a).le⟩

/-- The host bits are cleared. -/
def lpm_key (c : Cidr) : LpmKey := .net c.addr c.prefixlen c.le

/-- `block add`: an allowlisted argument is refused. -/
def block_add (duration : Option ℕ) : List Cidr → Py Unit
  | [] => return ()
  | c :: cs => do
    if ← is_allowed c.addr then block_add duration cs
    else do
      block (lpm_key c) duration BLOCK_MANUAL
      block_add duration cs

/-- `block del`. -/
def block_del : List Cidr → Call Unit
  | [] => return ()
  | c :: cs => do
    let _ ← unblock (lpm_key c)
    block_del cs

/-- `block flush`. -/
def block_flush : Call Unit := do
  let _ ← clear_blocks
  return ()

/-! ### `fwctl policy` -/

inductive Policy
  | allow
  | deny
  deriving DecidableEq

def Policy.action : Policy → U32
  | .allow => ACTION_ALLOW
  | .deny => ACTION_DENY

def cmd_policy (policy : Policy) : Py Unit := do
  let _ ← update_config { default_policy := some policy.action }
  return ()

/-! ### `fwctl port` -/

/-- `port allow` and `port deny`. -/
def port_set (py : Str) (action : Policy) (proto : String) : List ℤ → Py Unit
  | [] => return ()
  | port :: ports => do
    set_port_rule py proto port action.action
    port_set py action proto ports

def port_del (py : Str) (proto : String) : List ℤ → Py Unit
  | [] => return ()
  | port :: ports => do
    let _ ← del_port_rule py proto port
    port_del py proto ports

def port_flush : Call Unit := do
  let _ ← clear_port_rules
  return ()

/-! ### `fwctl config set` -/

/-- The options of `config set`; a feature name is its bit. -/
structure ConfigArgs where
  enable : List U32
  disable : List U32
  rate : Option ℤ
  burst : Option ℤ
  aggressiveness : Option ℤ

/-- The feature bits after `--enable` and `--disable`. -/
def ConfigArgs.features (args : ConfigArgs) (feats : U32) : U32 :=
  args.disable.foldl (fun f bit => f &&& ~~~bit) (args.enable.foldl (fun f bit => f ||| bit) feats)

def cmd_config_set (args : ConfigArgs) : Py Unit := do
  let cfg ← read_config
  if ¬ (0 ≤ args.rate.getD 0 ∧ args.rate.getD 0 ≤ 100000000) then
    Exc.raise (.ValueError "--rate must be between 0 (no limit) and 100000000")
  else if args.burst.getD 1 < 1 then
    Exc.raise (.ValueError "--burst must be at least 1")
  else do
    let _ ← update_config
      { features := some (args.features cfg.features), rate_pps := args.rate,
        burst_pkts := args.burst, aggressiveness := args.aggressiveness }
    return ()

/-! ### `fwctl selftest` -/

/-- 203.0.113.42 -/
def test_ip : Addr := 0xCB00712A

lemma le_prefix_24 : 24 ≤ 32 := by decide

/-- 198.51.100.0/24 -/
def test_net : LpmKey := .net 0xC6336400 24 le_prefix_24

/-- 198.51.100.7 -/
def test_member : Addr := 0xC6336407

/-- Bytes for each packet that a source can have sent. -/
def sane (st : SrcState) : Bool :=
  st.packets = 0 ||
    decide ((20 : ℚ) ≤ st.bytes / st.packets ∧ (st.bytes / st.packets : ℚ) ≤ 65536)

/-- The exit code says whether every check has passed. -/
def cmd_selftest (py : Str) (program : Option String) : Py ℕ := do
  let cfg ← read_config
  let config := decide (cfg.burst_pkts > 0)
  block (.single test_ip) (some (5 * 1000000000)) BLOCK_MANUAL
  let blocked ← list_blocked false
  let entry := blocked.find? fun e => e.cidr.startsWith (inet_ntoa test_ip)
  let clock :=
    match entry.bind BlockEntry.remaining_s with
    | some left => decide (4 < left ∧ left ≤ 5)
    | none => false
  let order :=
    match entry with
    | some entry => entry.cidr == inet_ntoa test_ip ++ "/32"
    | none => false
  let _ ← unblock (.single test_ip)
  allow test_net
  let prefix_found ← is_allowed test_member
  let _ ← unallow test_net
  let had : List (String × ℕ) := (← list_port_rules).map fun r => (r.proto, r.port)
  set_port_rule py "udp" 65001 ACTION_DENY
  let rules ← list_port_rules
  let port :=
    match rules.find? fun r => r.proto == "udp" && r.port == 65001 with
    | some rule => rule.action == "deny"
    | none => false
  let _ ← (if ("udp", 65001) ∉ had then del_port_rule py "udp" 65001 else pure false : Py Bool)
  let s ← read_stats
  let identity := decide (s.passes_total + s.drops_total ≤ s.count .rx_packets)
  let states ← read_states
  let sizes := states.items.all fun e => sane e.2
  let name ← prog_info program
  let ok := config && clock && order && prefix_found && port && identity && sizes &&
    name == "xdp_firewall"
  return (if ok then 0 else 1)

end Lookout.Fwctl

import Lookout.Dicts
import Lookout.Kernel

/-!
`firewall.py`: the control plane's access to the maps.

A method is a program of system calls that may raise. Python's integers are unbounded, so
whatever a method packs into a map is checked against the width of its field first.
-/

namespace Lookout.Firewall

open Lookout.Effects Lookout.Effects.Prog Lookout.Dicts Lookout.Common Lookout.Kernel

/-- The exceptions; a `BpfError` names the map whose call failed. -/
inductive PyError
  | ValueError (msg : String)
  | TypeError
  | IndexError
  | struct_error
  | BpfError (path : String)
  deriving DecidableEq

abbrev Py (α : Type) := Exc calls PyError α

/-- `CLOCK_MONOTONIC`, the clock of `bpf_ktime_get_ns`. -/
def ktime_ns : Call ℕ := do
  let now ← op (S := calls) .ktime_get_ns
  return now.toNat

/-- `struct.pack` of an unsigned field of `w` bits. -/
@[irreducible] def pack (w : ℕ) (x : ℤ) : Py (BitVec w) :=
  if 0 ≤ x ∧ x < 2 ^ w then pure (BitVec.ofInt w x) else Exc.raise .struct_error

lemma pack_ok {w : ℕ} {x : ℤ} (h : 0 ≤ x ∧ x < 2 ^ w) :
    pack w x = pure (BitVec.ofInt w x) := by
  rw [pack, if_pos h]

lemma pack_error {w : ℕ} {x : ℤ} (h : ¬ (0 ≤ x ∧ x < 2 ^ w)) :
    pack w x = Exc.raise .struct_error := by
  rw [pack, if_neg h]

def PIN_DIR : String := "/sys/fs/bpf/adaptfw"

/-- `BpfMap.update`, after the system call. -/
def updated (name : String) (failed : Bool) : Py Unit :=
  if failed then Exc.raise (.BpfError (PIN_DIR ++ "/" ++ name)) else pure ()

/-! ### The allowlist -/

def allow (k : LpmKey) : Py Unit := do
  let failed ← op (S := calls) (.allow_update k ⟨0, 0⟩)
  updated "allowlist" failed

def unallow (k : LpmKey) : Call Bool := op (S := calls) (.allow_delete k)

/-- The trie does the prefix match, so the lookup finds a covering prefix too. -/
def is_allowed (a : Addr) : Call Bool := do
  let e ← op (S := calls) (.allow_lookup a)
  return e.isSome

/-! ### The blocklist -/

/-- The deadline of a block of `duration` nanoseconds; `none` is a duration of 0 or less, and
such a block is permanent. The caller's seconds come as `int(duration_s * 1e9)`. -/
def deadline : Option ℕ → Call ℕ
  | some ns => do
    let now ← ktime_ns
    return now + ns
  | none => return 0

def block (k : LpmKey) (duration : Option ℕ) (reason : U32) : Py Unit := do
  let expires ← deadline duration
  let expires_ns ← pack 64 expires
  let failed ← op (S := calls) (.block_update k { expires_ns, hits := 0, reason })
  updated "blocklist" failed

/-- What `block` does once it has the deadline. -/
def store (k : LpmKey) (reason : U32) (expires : ℕ) : Py Unit := do
  let expires_ns ← pack 64 expires
  let failed ← op (S := calls) (.block_update k { expires_ns, hits := 0, reason })
  updated "blocklist" failed

lemma block_some (k : LpmKey) (ns : ℕ) (reason : U32) :
    block k (some ns) reason =
      Prog.call Op.ktime_get_ns fun now : U64 => store k reason (now.toNat + ns) := rfl

lemma block_none (k : LpmKey) (reason : U32) : block k none reason = store k reason 0 := rfl

/-- `BpfMap.update` of the blocklist. -/
def put_block (k : LpmKey) (bv : BlockVal) : Py Unit := do
  let failed ← op (S := calls) (.block_update k bv)
  updated "blocklist" failed

/-- The deadline has to fit its field. -/
lemma store_fits (k : LpmKey) (reason : U32) {expires : ℕ} (h : expires < 2 ^ 64) :
    store k reason expires = put_block k ⟨BitVec.ofNat 64 expires, 0, reason⟩ := by
  have hfits : (0 : ℤ) ≤ expires ∧ (expires : ℤ) < 2 ^ 64 := ⟨by omega, by exact_mod_cast h⟩
  unfold store
  rw [pack_ok hfits, BitVec.ofInt_natCast]
  rfl

lemma store_not_fits (k : LpmKey) (reason : U32) {expires : ℕ} (h : ¬ expires < 2 ^ 64) :
    store k reason expires = Exc.raise .struct_error := by
  unfold store
  rw [pack_error fun hfits => h (by exact_mod_cast hfits.2)]
  rfl

def unblock (k : LpmKey) : Call Bool := op (S := calls) (.block_delete k)

/-- Whether an entry counts, as the control plane reads it. -/
def is_blocked (a : Addr) : Call Bool := do
  match ← op (S := calls) (.block_lookup a) with
  | none => return false
  | some (_, bv) =>
    if bv.expires_ns = 0 then return true
    else do
      let now ← ktime_ns
      return decide (bv.expires_ns.toNat > now)

def delete_blocks : List LpmKey → Call Unit
  | [] => return ()
  | k :: ks => do
    let _ ← op (S := calls) (.block_delete k)
    delete_blocks ks

def clear_blocks : Call ℕ := do
  let keys := (← op (S := calls) .block_items).map Prod.fst
  delete_blocks keys
  return keys.length

/-- `0 < expires <= now`. -/
def expired (now : ℕ) (bv : BlockVal) : Bool :=
  decide (0 < bv.expires_ns.toNat ∧ bv.expires_ns.toNat ≤ now)

def remove_expired_blocks : Call ℕ := do
  let now ← ktime_ns
  let doomed := ((← op (S := calls) .block_items).filter fun e => expired now e.2).map Prod.fst
  delete_blocks doomed
  return doomed.length

/-- `socket.inet_ntoa`. -/
def inet_ntoa (a : Addr) : String :=
  toString (a.extractLsb' 24 8).toNat ++ "." ++ toString (a.extractLsb' 16 8).toNat ++ "." ++
    toString (a.extractLsb' 8 8).toNat ++ "." ++ toString (a.extractLsb' 0 8).toNat

def unpack_cidr (k : LpmKey) : String := inet_ntoa k.addr ++ "/" ++ toString k.prefixlen

def BLOCK_REASONS : List (U32 × String) := [(BLOCK_MANUAL, "manual"), (BLOCK_AUTO, "auto")]

/-- What `list_blocked` yields; a permanent block has no remaining time. -/
structure BlockEntry where
  cidr : String
  hits : ℕ
  reason : String
  remaining_s : Option ℚ
  expired : Bool

def block_entry (now : ℕ) (k : LpmKey) (bv : BlockVal) : BlockEntry where
  cidr := unpack_cidr k
  hits := bv.hits
  reason := (BLOCK_REASONS.lookup bv.reason).getD (toString bv.reason.toNat)
  remaining_s :=
    if bv.expires_ns = 0 then none
    else some (((bv.expires_ns.toNat - now : ℕ) : ℚ) / 1000000000)
  expired := expired now bv

def list_blocked (include_expired : Bool) : Call (List BlockEntry) := do
  let now ← ktime_ns
  let items ← op (S := calls) .block_items
  return (items.filter fun e => include_expired || !expired now e.2).map
    fun e => block_entry now e.1 e.2

/-! ### Port rules -/

/-- The methods of `str` that go by the interpreter's character tables. On ASCII they are fixed;
an `int` of more than 4300 digits may be refused. -/
structure Str where
  lower : String → String
  isdigit : String → Bool
  /-- The error is the text of the `ValueError`. -/
  int : String → Except String ℕ
  repr : String → String
  lower_ascii : ∀ s : String, (∀ c ∈ s.toList, c.toNat < 128) →
    lower s = String.ofList (s.toList.map Char.toLower)
  isdigit_ascii : ∀ s : String, (∀ c ∈ s.toList, c.toNat < 128) →
    isdigit s = (s != "" && s.toList.all Char.isDigit)
  int_ascii : ∀ s : String, s ≠ "" → s.toList.all Char.isDigit = true → s.length ≤ 4300 →
    int s = .ok (Nat.ofDigitChars 10 s.toList 0)

def PROTOCOLS : List (String × ℕ) := [("icmp", 1), ("tcp", 6), ("udp", 17)]

def unknown_protocol (py : Str) (name : String) : PyError :=
  .ValueError ("unknown protocol " ++ py.repr name ++ " (use tcp, udp, icmp or a number)")

def parse_proto (py : Str) (name : String) : Except PyError ℕ :=
  let name := py.lower name
  match PROTOCOLS.lookup name with
  | some num => .ok num
  | none =>
    if py.isdigit name then
      match py.int name with
      | .ok num => if num ≤ 255 then .ok num else .error (unknown_protocol py name)
      | .error msg => .error (.ValueError msg)
    else .error (unknown_protocol py name)

def proto_name (num : ℕ) : String :=
  match PROTOCOLS.find? fun e => e.2 = num with
  | some e => e.1
  | none => toString num

/-- The largest port of a rule; for ICMP it is the largest type. -/
def port_limit (num : ℕ) : ℤ := if num = 1 then 255 else 65535

def out_of_range (num : ℕ) (port : ℤ) : PyError :=
  .ValueError ("port " ++ toString port ++ " out of range for " ++ proto_name num)

def port_key (py : Str) (proto : String) (port : ℤ) : Py PortKey := do
  let num ← (.ret (parse_proto py proto) : Py ℕ)
  if 0 ≤ port ∧ port ≤ port_limit num then do
    let proto ← pack 8 num
    let port ← pack 16 port
    return { proto, port }
  else Exc.raise (out_of_range num port)

/-- Every CPU gets its own copy of the rule. -/
def set_port_rule (py : Str) (proto : String) (port : ℤ) (action : U32) : Py Unit := do
  let k ← port_key py proto port
  let failed ← op (S := calls) (.port_update k { hits := 0, action })
  updated "portrules" failed

def del_port_rule (py : Str) (proto : String) (port : ℤ) : Py Bool := do
  let k ← port_key py proto port
  op (S := calls) (.port_delete k)

def delete_port_rules : List PortKey → Call Unit
  | [] => return ()
  | k :: ks => do
    let _ ← op (S := calls) (.port_delete k)
    delete_port_rules ks

def clear_port_rules : Call ℕ := do
  let keys := (← op (S := calls) .port_items).map Prod.fst
  delete_port_rules keys
  return keys.length

def ACTIONS : List (U32 × String) := [(ACTION_ALLOW, "allow"), (ACTION_DENY, "deny")]

/-- What `list_port_rules` yields. -/
structure PortRule where
  proto : String
  port : ℕ
  action : String
  hits : ℕ
  deriving DecidableEq

/-- The entry of a key and its copies. The first CPU's copy says what the rule does. -/
def port_rule (k : PortKey) : List PortVal → Except PyError PortRule
  | [] => .error .IndexError
  | c :: cs => .ok
    { proto := proto_name k.proto.toNat
      port := k.port.toNat
      action := (ACTIONS.lookup c.action).getD (toString c.action.toNat)
      hits := ((c :: cs).map PortVal.hits).sum }

def list_port_rules : Py (List PortRule) := do
  let items ← op (S := calls) .port_items
  .ret (items.mapM fun e => port_rule e.1 e.2)

/-! ### Per-source state -/

/-- Every entry, read under its lock. -/
def read_states : Call (Dict Addr SrcState) := do
  let items ← op (S := calls) .state_items
  return .ofItems items

def IDLE_TIMEOUT_S : ℕ := 60

def delete_states : List Addr → Call Unit
  | [] => return ()
  | a :: as => do
    let _ ← op (S := calls) (.state_delete a)
    delete_states as

def remove_idle_states : Call ℕ := do
  let cutoff : ℤ := (← ktime_ns) - (IDLE_TIMEOUT_S * 1000000000 : ℕ)
  let doomed := ((← read_states).filterMap fun _ st =>
    if st.last_seen_ns.toNat < cutoff then some st else none).keys
  delete_states doomed
  return doomed.length

/-! ### The counters -/

/-- What `read_stats` returns. -/
structure Stats where
  count : Stat → ℕ
  drops_total : ℕ
  passes_total : ℕ

def sum_percpu : List Stat → Call (List (Stat × ℕ))
  | [] => return []
  | s :: l => do
    let x ← op (S := calls) (.stat_sum s)
    let rest ← sum_percpu l
    return (s, x) :: rest

def read_stats : Call Stats := do
  let out ← sum_percpu STAT_NAMES
  return {
    count := fun s => (out.lookup s).getD 0
    drops_total := ((out.filter fun e => e.1.is_drop).map Prod.snd).sum
    passes_total := ((out.filter fun e => e.1.is_pass).map Prod.snd).sum }

/-- The name of the pinned program, as the kernel tells it; the call may fail. -/
def prog_info (name : Option String) : Py String :=
  match name with
  | some name => pure name
  | none => Exc.raise (.BpfError (PIN_DIR ++ "/" ++ "xdp_firewall"))

/-! ### What the cleanup and the readers do -/

/-- The operations of `remove_expired_blocks` and `remove_idle_states`. -/
def CleanUpOp : Op → Prop
  | .ktime_get_ns | .block_items | .block_delete _ | .state_items | .state_delete _ => True
  | _ => False

lemma uses_pack (P : Op → Prop) (w : ℕ) (x : ℤ) : Uses P (pack w x) := by
  unfold pack
  split_ifs <;> trivial

lemma uses_ktime_ns {P : Op → Prop} (h : P .ktime_get_ns) : Uses P ktime_ns :=
  uses_bind (uses_op h) fun _ => trivial

lemma uses_updated (P : Op → Prop) (name : String) (failed : Bool) :
    Uses P (updated name failed) := by
  cases failed <;> trivial

lemma uses_read_states {P : Op → Prop} (h : P .state_items) : Uses P read_states :=
  uses_bind (uses_op h) fun _ => trivial

lemma uses_delete_blocks (ks : List LpmKey) : Uses CleanUpOp (delete_blocks ks) := by
  induction ks with
  | nil => trivial
  | cons k ks ih => exact uses_bind (uses_op trivial) fun _ => ih

lemma uses_remove_expired_blocks : Uses CleanUpOp remove_expired_blocks :=
  uses_bind (uses_ktime_ns trivial) fun _ => uses_bind (uses_op trivial) fun _ =>
    uses_bind (uses_delete_blocks _) fun _ => trivial

lemma uses_delete_states (as : List Addr) : Uses CleanUpOp (delete_states as) := by
  induction as with
  | nil => trivial
  | cons a as ih => exact uses_bind (uses_op trivial) fun _ => ih

lemma uses_remove_idle_states : Uses CleanUpOp remove_idle_states :=
  uses_bind (uses_ktime_ns trivial) fun _ => uses_bind (uses_read_states trivial) fun _ =>
    uses_bind (uses_delete_states _) fun _ => trivial

/-- The operations that only read. -/
def ReadOp : Op → Prop
  | .ktime_get_ns | .stat_sum _ | .state_items => True
  | _ => False

lemma uses_sum_percpu (l : List Stat) : Uses ReadOp (sum_percpu l) := by
  induction l with
  | nil => trivial
  | cons s l ih => exact uses_bind (uses_op trivial) fun _ => uses_bind ih fun _ => trivial

lemma uses_read_stats : Uses ReadOp read_stats := uses_bind (uses_sum_percpu _) fun _ => trivial

/-! ### The configuration -/

/-- The dictionary of `read_config`. Its integers are the operator's or the map's; the feature
bits and the policy are computed from the map's own by masks. -/
structure Config where
  rate_pps : ℤ
  burst_pkts : ℤ
  features : U32
  aggressiveness : ℤ
  default_policy : U32

/-- The fields a call of `update_config` names. -/
structure Changes where
  rate_pps : Option ℤ := none
  burst_pkts : Option ℤ := none
  features : Option U32 := none
  aggressiveness : Option ℤ := none
  default_policy : Option U32 := none

def Config.update (cfg : Config) (ch : Changes) : Config where
  rate_pps := ch.rate_pps.getD cfg.rate_pps
  burst_pkts := ch.burst_pkts.getD cfg.burst_pkts
  features := ch.features.getD cfg.features
  aggressiveness := ch.aggressiveness.getD cfg.aggressiveness
  default_policy := ch.default_policy.getD cfg.default_policy

def unpack_config (c : FwConfig) : Config where
  rate_pps := c.rate_pps.toNat
  burst_pkts := c.burst_pkts.toNat
  features := c.features
  aggressiveness := c.aggressiveness.toNat
  default_policy := c.default_policy

def pack_config (cfg : Config) : Py FwConfig := do
  let rate_pps ← pack 64 cfg.rate_pps
  let burst_pkts ← pack 64 cfg.burst_pkts
  let aggressiveness ← pack 32 cfg.aggressiveness
  return { rate_pps, burst_pkts, features := cfg.features, aggressiveness,
           default_policy := cfg.default_policy }

/-- The entry `struct.pack` makes when every field fits. -/
def packed (cfg : Config) : FwConfig where
  rate_pps := BitVec.ofInt 64 cfg.rate_pps
  burst_pkts := BitVec.ofInt 64 cfg.burst_pkts
  features := cfg.features
  aggressiveness := BitVec.ofInt 32 cfg.aggressiveness
  default_policy := cfg.default_policy

def Fits (cfg : Config) : Prop :=
  (0 ≤ cfg.rate_pps ∧ cfg.rate_pps < 2 ^ 64) ∧ (0 ≤ cfg.burst_pkts ∧ cfg.burst_pkts < 2 ^ 64) ∧
    (0 ≤ cfg.aggressiveness ∧ cfg.aggressiveness < 2 ^ 32)

instance (cfg : Config) : Decidable (Fits cfg) := by unfold Fits; infer_instance

lemma pack_config_eq (cfg : Config) :
    pack_config cfg = if Fits cfg then pure (packed cfg) else Exc.raise .struct_error := by
  unfold pack_config
  by_cases h1 : 0 ≤ cfg.rate_pps ∧ cfg.rate_pps < 2 ^ 64
  · by_cases h2 : 0 ≤ cfg.burst_pkts ∧ cfg.burst_pkts < 2 ^ 64
    · by_cases h3 : 0 ≤ cfg.aggressiveness ∧ cfg.aggressiveness < 2 ^ 32
      · rw [pack_ok h1, pack_ok h2, pack_ok h3, if_pos ⟨h1, h2, h3⟩]
        rfl
      · rw [pack_ok h1, pack_ok h2, pack_error h3, if_neg fun h => h3 h.2.2]
        rfl
    · rw [pack_ok h1, pack_error h2, if_neg fun h => h2 h.2.1]
      rfl
  · rw [pack_error h1, if_neg fun h => h1 h.1]
    rfl

/-- `struct.unpack` of a missing entry raises; the one entry of an array is never missing. -/
def read_config : Py Config := do
  match ← op (S := calls) .config_lookup with
  | some c => pure (unpack_config c)
  | none => Exc.raise .TypeError

def update_config (changes : Changes) : Py Config := do
  let cfg ← read_config
  let cfg := cfg.update changes
  let c ← pack_config cfg
  op (S := calls) (.config_update c)
  return cfg

/-- What `update_config` goes on to do with the entry it has read. -/
def after_read (changes : Changes) : Option FwConfig → Prog calls (Except PyError Config)
  | none => .ret (.error .TypeError)
  | some c =>
    if Fits ((unpack_config c).update changes) then
      .call (.config_update (packed ((unpack_config c).update changes)))
        fun _ => .ret (.ok ((unpack_config c).update changes))
    else .ret (.error .struct_error)

lemma after_read_fits {changes : Changes} {c : FwConfig}
    (h : Fits ((unpack_config c).update changes)) :
    after_read changes (some c) =
      .call (.config_update (packed ((unpack_config c).update changes)))
        fun _ => .ret (.ok ((unpack_config c).update changes)) :=
  if_pos h

lemma after_read_not_fits {changes : Changes} {c : FwConfig}
    (h : ¬ Fits ((unpack_config c).update changes)) :
    after_read changes (some c) = .ret (.error .struct_error) :=
  if_neg h

/-- **`update_config` is one read and, if the fields fit, one write** of the whole entry. -/
theorem update_config_eq (changes : Changes) :
    (update_config changes : Prog calls (Except PyError Config)) =
      .call .config_lookup (after_read changes) := by
  refine congrArg (Prog.call _) (funext fun c => ?_)
  cases c with
  | none => rfl
  | some c =>
    have hpack := pack_config_eq ((unpack_config c).update changes)
    by_cases hfit : Fits ((unpack_config c).update changes)
    · rw [if_pos hfit] at hpack
      rw [after_read_fits hfit]
      change (pack_config ((unpack_config c).update changes) >>= _ : Py Config) = _
      rw [hpack]
      rfl
    · rw [if_neg hfit] at hpack
      rw [after_read_not_fits hfit]
      change (pack_config ((unpack_config c).update changes) >>= _ : Py Config) = _
      rw [hpack]
      rfl

lemma run_update_config {n : ℕ} (cpu : Fin n) (changes : Changes) (w : World n) :
    run (exec cpu) (update_config changes) w =
      if Fits ((unpack_config w.config).update changes) then
        (.ok ((unpack_config w.config).update changes),
          { w with config := packed ((unpack_config w.config).update changes) })
      else (.error .struct_error, w) := by
  rw [update_config_eq]
  change run (exec cpu) (after_read changes (some w.config)) w = _
  split_ifs with hfit
  · rw [after_read_fits hfit]
    rfl
  · rw [after_read_not_fits hfit]
    rfl

end Lookout.Firewall

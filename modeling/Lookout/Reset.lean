import Lookout.Loader
import Lookout.Networks
import Lookout.Sessions

/-!
`fwctl reset --all`, and a firewall that was just loaded.

The command clears one map after another: the counters by their index, the sources, the blocks and
the port rules by their keys, the allowlist by the texts it lists. The settings it writes are
spelled out in Python, and in C in the loader.
-/

namespace Lookout.Reset

open Lookout.Effects Lookout.Effects.Prog Lookout.Dicts Lookout.Lpm Lookout.Common Lookout.Handles
open Lookout.Kernel Lookout.Firewall Lookout.Sessions Lookout.Networks Lookout.Structs
open Lookout.Layouts

variable {n : ℕ} {α : Type}

/-! ### The command -/

/-- The system calls of the other methods, and two more. An update of a per-CPU map writes the
values of all CPUs. -/
inductive Op
  | sys (o : Kernel.Op)
  | stat_update (i : ℕ) (raw : Bytes)
  | allow_items

@[reducible] def Ans : Op → Type
  | .sys o => Kernel.Ans o
  | .stat_update .. => Bool
  | .allow_items => List (LpmKey × AllowVal)

abbrev calls : Sig := ⟨Op, Ans⟩

abbrev Py (α : Type) := Exc calls PyError α

def sys : Call α → Prog calls α
  | .ret a => .ret a
  | .call o k => .call (.sys o) fun b => sys (k b)

def write_stats (zero : Bytes) : List ℕ → Py Unit
  | [] => pure ()
  | i :: l => do
    let failed ← op (S := calls) (.stat_update i zero)
    let _ ← (sys (updated "stats" failed) : Py Unit)
    write_stats zero l

/-- `reset_stats`, on a machine with `n` CPUs. -/
def reset_stats (n : ℕ) : Py Unit :=
  write_stats (List.replicate (value_size 8 n true) 0) (List.range STAT_NAMES.length)

def clear_states : Call ℕ := do
  let keys := (← op (S := Kernel.calls) .state_items).map Prod.fst
  delete_states keys
  return keys.length

/-- `unallow`, of a text. -/
def unallow (py : Str) (cidr : String) : Py Bool :=
  match parse_cidr py cidr with
  | .ok k => Exc.lift (sys (Firewall.unallow k))
  | .error e => Exc.raise e

/-- The loop of `cmd_reset` over the allowlist; `removed` is its count. -/
def unallow_all (py : Str) (removed : ℕ) : List AllowEntry → Py ℕ
  | [] => pure removed
  | e :: es => do
    let done ← unallow py e.cidr
    unallow_all py (removed + done.toNat) es

def FEATURES : List (String × U32) :=
  [("allowlist", 1 <<< 0), ("blocklist", 1 <<< 1), ("proto", 1 <<< 2), ("ratelimit", 1 <<< 3),
    ("state", 1 <<< 4), ("frags", 1 <<< 5), ("ports", 1 <<< 6)]

/-- `sum(FEATURES.values()) & ~FEATURES["frags"]` -/
def all_but_frags : Option U32 :=
  (FEATURES.lookup "frags").map fun frags => (FEATURES.map Prod.snd).foldl (· + ·) 0 &&& ~~~frags

/-- What `reset --all` sets. -/
def defaults : Changes where
  rate_pps := some 20000
  burst_pkts := some 40000
  aggressiveness := some 0
  default_policy := some ACTION_ALLOW
  features := all_but_frags

structure ResetArgs where
  blocks : Bool
  all : Bool

/-- The numbers that are printed. -/
structure Report where
  sources : ℕ
  blocks : Option ℕ
  allowed : Option ℕ
  port_rules : Option ℕ
  deriving DecidableEq

def cmd_reset (py : Str) (n : ℕ) (args : ResetArgs) : Py Report := do
  reset_stats n
  let sources ← Exc.lift (sys clear_states)
  let blocks ← if args.blocks || args.all then Exc.lift (sys (some <$> clear_blocks)) else pure none
  if args.all then do
    let items ← op (S := calls) .allow_items
    let allowed ← unallow_all py 0 (list_allowed items)
    let port_rules ← Exc.lift (sys clear_port_rules)
    let _ ← (sys (update_config defaults) : Py Config)
    return ⟨sources, blocks, some allowed, some port_rules⟩
  else return ⟨sources, blocks, none, none⟩

/-! ### The machine -/

/-- One operation, of a tool on `cpu`. -/
def exec (cpu : Fin n) (w : World n) : (o : Op) → Ans o × World n
  | .sys o => Kernel.exec cpu w o
  | .stat_update i raw =>
    match STAT_NAMES[i]? with
    | some idx =>
      (false, { w with stats := fun c s => if s = idx then unpack_from raw c else w.stats c s })
    | none => (true, w)
  | .allow_items => (Dict.items w.allowlist, w)

lemma run_sys (cpu : Fin n) (p : Call α) (w : World n) :
    run (exec cpu) (sys p) w = run (Kernel.exec cpu) p w := by
  induction p generalizing w with
  | ret a => rfl
  | call o k ih => exact ih _ _

lemma run_sys_exc {p : Firewall.Py α} {cpu : Fin n} {w : World n} {r : Except PyError α × World n}
    (h : run (Kernel.exec cpu) p w = r) : run (exec cpu) (sys p : Py α) w = r :=
  (run_sys cpu p w).trans h

lemma run_lift_sys {p : Call α} {cpu : Fin n} {w w' : World n} {a : α}
    (h : run (Kernel.exec cpu) p w = (a, w')) :
    run (exec cpu) (Exc.lift (sys p) : Py α) w = (.ok a, w') := by
  rw [Exc.run_lift, run_sys, h]

/-! ### The counters -/

lemma of_le_zeros (k : ℕ) : of_le (List.replicate k 0) = 0 := by
  induction k with
  | zero => rfl
  | succ k ih =>
    rw [List.replicate_succ, of_le, ih]
    rfl

/-- Every CPU reads zero from the buffer of zeros. -/
lemma unpack_from_zeros (m i : ℕ) : unpack_from (List.replicate m 0) i = 0 := by
  rw [unpack_from, List.drop_replicate, List.take_replicate, of_le_zeros]

/-- The counters after those of the indices in `l` were set to zero. -/
def zeroed (w : World n) (l : List ℕ) : World n :=
  { w with stats := fun c s => if s ∈ l.filterMap (STAT_NAMES[·]?) then 0 else w.stats c s }

lemma run_write_stats (cpu : Fin n) (m : ℕ) {l : List ℕ} (hl : ∀ i ∈ l, i < STAT_NAMES.length)
    (w : World n) :
    run (exec cpu) (write_stats (List.replicate m 0) l) w = (.ok (), zeroed w l) := by
  induction l generalizing w with
  | nil => rfl
  | cons i l ih =>
    have hi : i < STAT_NAMES.length := hl i List.mem_cons_self
    have hget := List.getElem?_eq_getElem hi
    generalize STAT_NAMES[i] = idx at hget
    have hop : exec cpu w (.stat_update i (List.replicate m 0)) = (false, zeroed w [i]) := by
      simp only [exec, zeroed, hget, unpack_from_zeros, List.filterMap_cons, List.filterMap_nil,
        List.mem_singleton]
    have hrest := ih (fun j hj => hl j (List.mem_cons_of_mem _ hj)) (zeroed w [i])
    have hzeroed : zeroed (zeroed w [i]) l = zeroed w (i :: l) := by
      simp only [zeroed, hget, List.filterMap_cons, List.filterMap_nil, List.mem_cons,
        List.not_mem_nil, or_false, World.mk.injEq, true_and, and_true]
      funext c s
      split_ifs with h1 h2 h2 <;> tauto
    rw [← hzeroed, ← hrest]
    have hlift : run (exec cpu)
        (Exc.lift (op (S := calls) (.stat_update i (List.replicate m 0))) : Py Bool) w =
        (.ok false, zeroed w [i]) := by
      rw [Exc.run_lift, op_eq, run_call, hop]
      rfl
    refine (Exc.run_bind_ok hlift).trans ?_
    exact Exc.run_bind_ok (run_sys_exc rfl)

/-- No counter is left out. -/
lemma mem_STAT_NAMES (s : Stat) :
    s ∈ (List.range STAT_NAMES.length).filterMap (STAT_NAMES[·]?) := by
  cases s <;> decide

lemma run_reset_stats (cpu : Fin n) (w : World n) :
    run (exec cpu) (reset_stats n) w = (.ok (), { w with stats := fun _ _ => 0 }) := by
  have hrun := run_write_stats cpu (value_size 8 n true) (l := List.range STAT_NAMES.length)
    (fun i hi => List.mem_range.mp hi) w
  rw [reset_stats, hrun]
  simp only [zeroed, mem_STAT_NAMES, if_true]

/-! ### The other maps -/

/-- The sources after some were forgotten. -/
def forget (m : RefMap Addr SrcState) (as : List Addr) : RefMap Addr SrcState :=
  as.foldl RefMap.erase m

lemma run_delete_states (cpu : Fin n) (as : List Addr) (w : World n) :
    run (Kernel.exec cpu) (delete_states as) w =
      ((), { w with srcstate := forget w.srcstate as }) := by
  induction as generalizing w with
  | nil => rfl
  | cons a as ih => exact ih { w with srcstate := w.srcstate.erase a }

lemma index_forget (m : RefMap Addr SrcState) (as : List Addr) :
    (forget m as).index = Dict.eraseAll m.index as := by
  induction as generalizing m with
  | nil => rfl
  | cons a as ih => exact ih (m.erase a)

lemma mem_states {m : RefMap Addr SrcState} {a : Addr} :
    a ∈ (states m).map Prod.fst ↔ a ∈ m.index := by
  rw [states, Dict.map_fst_items, ← AList.mem_keys, ← AList.lookup_isSome, ← AList.lookup_isSome,
    Dict.lookup_filterMap]
  cases hr : m.index.lookup a with
  | none => rfl
  | some r =>
    obtain ⟨st, hst⟩ := RefMap.deref_of_find hr
    rw [Option.bind_some, hst]
    rfl

/-- Every source is read, and read once. -/
lemma length_states (m : RefMap Addr SrcState) : ((states m).map Prod.fst).length = m.size := by
  have hnodup : ((states m).map Prod.fst).Nodup := by
    rw [states, Dict.map_fst_items]
    exact AList.keys_nodup _
  refine List.Perm.length_eq ((List.perm_ext_iff_of_nodup hnodup m.index.keys_nodup).mpr ?_)
  intro a
  rw [mem_states, AList.mem_keys]

/-- The sources after `clear_states`. -/
def forgotten (m : RefMap Addr SrcState) : RefMap Addr SrcState :=
  forget m ((states m).map Prod.fst)

lemma get_forgotten (m : RefMap Addr SrcState) (a : Addr) : (forgotten m).get a = none := by
  have hindex : (forgotten m).index = ∅ := by
    rw [forgotten, index_forget]
    exact Dict.eraseAll_keys fun _ => mem_states
  rw [RefMap.get_eq_none, RefMap.find, hindex]
  exact AList.lookup_empty a

lemma run_clear_states (cpu : Fin n) (w : World n) :
    run (Kernel.exec cpu) clear_states w =
      (w.srcstate.size, { w with srcstate := forgotten w.srcstate }) := by
  rw [clear_states, run_bind, run_bind, run_delete_states, ← length_states]
  rfl

lemma run_delete_port_rules (cpu : Fin n) (ks : List PortKey) (w : World n) :
    run (Kernel.exec cpu) (delete_port_rules ks) w =
      ((), { w with portrules := Dict.eraseAll w.portrules ks }) := by
  induction ks generalizing w with
  | nil => rfl
  | cons k ks ih => exact ih { w with portrules := w.portrules.erase k }

lemma run_clear_blocks (cpu : Fin n) (w : World n) :
    run (Kernel.exec cpu) clear_blocks w =
      (w.blocklist.keys.length, { w with blocklist := ∅ }) := by
  rw [clear_blocks, run_bind, run_bind, run_delete_blocks, ← Dict.map_fst_items,
    ← Dict.eraseAll_items w.blocklist]
  rfl

lemma run_clear_port_rules (cpu : Fin n) (w : World n) :
    run (Kernel.exec cpu) clear_port_rules w =
      (w.portrules.keys.length, { w with portrules := ∅ }) := by
  have hkeys : ((Dict.items w.portrules).map fun e => (e.1, List.ofFn e.2)).map Prod.fst =
      (Dict.items w.portrules).map Prod.fst := by
    rw [List.map_map]
    rfl
  rw [clear_port_rules, run_bind, run_bind, run_delete_port_rules, ← Dict.map_fst_items,
    ← Dict.eraseAll_items w.portrules, ← hkeys]
  rfl

/-! ### The allowlist -/

lemma run_unallow (py : Str) (cpu : Fin n) (k : LpmKey) (w : World n) :
    run (exec cpu) (unallow py (Firewall.unpack_cidr k)) w =
      (.ok (decide (k ∈ w.allowlist)), { w with allowlist := w.allowlist.erase k }) := by
  rw [unallow, parse_unpack_cidr]
  exact run_lift_sys rfl

/-- The listed texts are read back as the keys, so that every entry is deleted and counted. -/
lemma run_unallow_all (py : Str) (cpu : Fin n) (removed : ℕ) {l : List (LpmKey × AllowVal)}
    (hnodup : (l.map Prod.fst).Nodup) {w : World n} (hl : ∀ e ∈ l, e.1 ∈ w.allowlist) :
    run (exec cpu) (unallow_all py removed (list_allowed l)) w =
      (.ok (removed + l.length),
        { w with allowlist := Dict.eraseAll w.allowlist (l.map Prod.fst) }) := by
  induction l generalizing removed w with
  | nil => rfl
  | cons e l ih =>
    rw [List.map_cons, List.nodup_cons] at hnodup
    have hrun := run_unallow py cpu e.1 w
    rw [decide_eq_true (hl e List.mem_cons_self)] at hrun
    have hrest := ih (removed + 1) hnodup.2 (w := { w with allowlist := w.allowlist.erase e.1 })
      fun e' he' => AList.mem_erase.mpr
        ⟨fun heq => hnodup.1 (heq ▸ List.mem_map_of_mem he'), hl e' (List.mem_cons_of_mem _ he')⟩
    refine (Exc.run_bind_ok hrun).trans (hrest.trans ?_)
    rw [List.length_cons, Nat.add_assoc, Nat.add_comm 1]
    rfl

lemma run_unallow_listed (py : Str) (cpu : Fin n) (w : World n) :
    run (exec cpu) (unallow_all py 0 (list_allowed (Dict.items w.allowlist))) w =
      (.ok w.allowlist.keys.length, { w with allowlist := ∅ }) := by
  have hnodup : ((Dict.items w.allowlist).map Prod.fst).Nodup := by
    rw [Dict.map_fst_items]
    exact AList.keys_nodup w.allowlist
  have hmem : ∀ e ∈ Dict.items w.allowlist, e.1 ∈ w.allowlist := by
    intro e he
    exact mem_of_lookup (Dict.mem_items.mp he)
  have hlen : (Dict.items w.allowlist).length = w.allowlist.keys.length := by
    rw [← Dict.map_fst_items, List.length_map]
  have hrun := run_unallow_all py cpu 0 hnodup hmem
  rwa [Dict.eraseAll_items, Nat.zero_add, hlen] at hrun

/-! ### The settings -/

/-- The feature table gives the macro of the loader. -/
lemma all_but_frags_eq : all_but_frags = some FEAT_DEFAULT := by decide

lemma run_defaults (cpu : Fin n) (w : World n) :
    run (Kernel.exec cpu) (update_config defaults) w =
      (.ok (Firewall.unpack_config default_config), { w with config := default_config }) := by
  have hupdate : (Firewall.unpack_config w.config).update defaults =
      Firewall.unpack_config default_config := by
    simp only [Config.update, defaults, all_but_frags_eq, Option.getD_some]
    rfl
  have hfits : Fits (Firewall.unpack_config default_config) := by decide
  have hpacked : packed (Firewall.unpack_config default_config) = default_config := by decide
  rw [run_update_config, hupdate, if_pos hfits, hpacked]

/-- The options leave the limits alone. -/
def Default : Loader.Opt → Prop
  | .r _ | .b _ => False
  | _ => True

lemma cfg_opt {o : Loader.Opt} {st st' : Loader.Settings} (ho : Default o)
    (h : st.opt o = .ok st') : st'.cfg = st.cfg := by
  cases o with
  | r _ | b _ => exact ho.elim
  | h | unknown => cases h
  | _ =>
    cases h
    rfl

lemma cfg_foldlM {opts : List Loader.Opt} (hdef : ∀ o ∈ opts, Default o) {st st' : Loader.Settings}
    (h : opts.foldlM Loader.Settings.opt st = .ok st') : st'.cfg = st.cfg := by
  induction opts generalizing st with
  | nil =>
    cases h
    rfl
  | cons o opts ih =>
    rw [List.foldlM_cons] at h
    cases ho : st.opt o with
    | error code =>
      rw [ho] at h
      cases h
    | ok st1 =>
      rw [ho] at h
      have hrest := ih (fun o' ho' => hdef o' (List.mem_cons_of_mem o ho')) h
      rw [hrest, cfg_opt (hdef o List.mem_cons_self) ho]

/-- What the loader writes when it is given no limits. -/
lemma cfg_getopts {opts : List Loader.Opt} {st : Loader.Settings}
    (h : Loader.getopts opts = .ok st) (hdef : ∀ o ∈ opts, Default o) : st.cfg = default_config :=
  cfg_foldlM hdef h

/-! ### The whole command -/

/-- The six maps hold the same. -/
structure SameMaps (w w' : World n) : Prop where
  allowlist : w.allowlist = w'.allowlist
  blocklist : w.blocklist = w'.blocklist
  portrules : w.portrules = w'.portrules
  srcstate : ∀ a, w.srcstate.get a = w'.srcstate.get a
  stats : w.stats = w'.stats
  config : w.config = w'.config

/-- The maps as a load makes them, with the settings it writes. -/
def fresh (n : ℕ) (cfg : FwConfig) : World n := { World.loaded n with config := cfg }

/-- What there was to remove. -/
def counts (w : World n) : Report where
  sources := w.srcstate.size
  blocks := some w.blocklist.keys.length
  allowed := some w.allowlist.keys.length
  port_rules := some w.portrules.keys.length

/-- The world after `reset --all`. -/
def wiped (w : World n) : World n :=
  { w with
    allowlist := ∅
    blocklist := ∅
    portrules := ∅
    srcstate := forgotten w.srcstate
    stats := fun _ _ => 0
    config := default_config }

lemma run_cmd_reset (py : Str) (cpu : Fin n) (blocks : Bool) (w : World n) :
    run (exec cpu) (cmd_reset py n ⟨blocks, true⟩) w = (.ok (counts w), wiped w) := by
  let w1 : World n := { w with stats := fun _ _ => 0 }
  let w2 : World n := { w1 with srcstate := forgotten w.srcstate }
  let w3 : World n := { w2 with blocklist := ∅ }
  let w4 : World n := { w3 with allowlist := ∅ }
  let w5 : World n := { w4 with portrules := ∅ }
  have hstats : run (exec cpu) (reset_stats n) w = (.ok (), w1) := run_reset_stats cpu w
  have hsources := run_lift_sys (run_clear_states cpu w1)
  have hblocks : run (exec cpu) (Exc.lift (sys (some <$> clear_blocks)) : Py (Option ℕ)) w2 =
      (.ok (some w.blocklist.keys.length), w3) := by
    apply run_lift_sys
    refine (run_bind clear_blocks (fun k => .ret (some k)) w2).trans ?_
    rw [run_clear_blocks]
    rfl
  have hitems : run (exec cpu)
      (Exc.lift (op (S := calls) .allow_items) : Py (List (LpmKey × AllowVal))) w3 =
      (.ok (Dict.items w.allowlist), w3) := Exc.run_lift _ w3
  have hallowed : run (exec cpu) (unallow_all py 0 (list_allowed (Dict.items w.allowlist))) w3 =
      (.ok w.allowlist.keys.length, w4) := run_unallow_listed py cpu w3
  have hports := run_lift_sys (run_clear_port_rules cpu w4)
  have hconfig := run_sys_exc (run_defaults cpu w5)
  refine (Exc.run_bind_ok hstats).trans ((Exc.run_bind_ok hsources).trans ?_)
  rw [if_pos (Bool.or_true blocks)]
  refine (Exc.run_bind_ok hblocks).trans ((Exc.run_bind_ok hitems).trans ?_)
  refine (Exc.run_bind_ok hallowed).trans ((Exc.run_bind_ok hports).trans ?_)
  exact Exc.run_bind_ok hconfig

lemma sameMaps_wiped (w : World n) : SameMaps (wiped w) (fresh n default_config) where
  allowlist := rfl
  blocklist := rfl
  portrules := rfl
  srcstate a := get_forgotten w.srcstate a
  stats := rfl
  config := rfl

/-- **`reset --all` leaves the maps as a load without limits makes them**, and says how many entries
it has removed. -/
theorem reset_all_fresh (py : Str) (cpu : Fin n) (blocks : Bool) (w : World n)
    {opts : List Loader.Opt} {st : Loader.Settings} (hst : Loader.getopts opts = .ok st)
    (hdef : ∀ o ∈ opts, Default o) :
    ∃ w', run (exec cpu) (cmd_reset py n ⟨blocks, true⟩) w = (.ok (counts w), w') ∧
      SameMaps w' (fresh n st.cfg) := by
  refine ⟨wiped w, run_cmd_reset py cpu blocks w, ?_⟩
  rw [cfg_getopts hst hdef]
  exact sameMaps_wiped w

/-- A firewall in use: an address is allowed, and packets were counted. -/
def in_use : World 2 :=
  { World.loaded 2 with
    allowlist := AList.insert (.single 7) ⟨3, 0⟩ ∅
    stats := fun _ _ => 9 }

theorem reset_all_fresh_in_use :
    ∃ w', run (exec 0) (cmd_reset Rules.ascii 2 ⟨false, true⟩) in_use = (.ok (counts in_use), w') ∧
      SameMaps w' (fresh 2 default_config) := by
  have hst : Loader.getopts [.i "eth0"] = .ok { iface := some "eth0" } := rfl
  have hdef : ∀ o ∈ [Loader.Opt.i "eth0"], Default o := by
    intro o ho
    rw [List.mem_singleton.mp ho]
    trivial
  exact reset_all_fresh Rules.ascii 0 false in_use hst hdef

/-- **Without a flag the lists, the rules and the settings are kept.** -/
theorem reset_keeps_rules (py : Str) (cpu : Fin n) (w : World n) :
    run (exec cpu) (cmd_reset py n ⟨false, false⟩) w =
      (.ok ⟨w.srcstate.size, none, none, none⟩,
        { w with stats := fun _ _ => 0, srcstate := forgotten w.srcstate }) := by
  have hstats := run_reset_stats cpu w
  have hsources := run_lift_sys (run_clear_states cpu { w with stats := fun _ _ => 0 })
  exact (Exc.run_bind_ok hstats).trans (Exc.run_bind_ok hsources)

end Lookout.Reset

import Lookout.Dicts
import Lookout.Effects
import Lookout.Handles
import Lookout.Limiter
import Mathlib.Algebra.BigOperators.Fin
import Mathlib.Data.Rat.Defs

/-!
The maps the kernel keeps, and the operations on them: the helper calls of the XDP program
and the `bpf(2)` calls of the Python tools.

Both sides are programs over one signature. Between two operations of one program any other
may run; what one operation does is atomic, as a helper call, a system call and a section
under the spin lock are.
-/

namespace Lookout.Kernel

open Lookout.Effects Lookout.Dicts Lookout.Lpm Lookout.Handles Lookout.Common Lookout.Limiter

/-- Machines of one cpu, and of two. -/
instance one_cpu : NeZero 1 := ⟨Nat.one_ne_zero⟩

instance two_cpus : NeZero 2 := ⟨Nat.succ_ne_zero 1⟩

inductive Op
  -- helper calls, and accesses through the pointers they return
  | ktime_get_ns
  | stat_add (idx : Stat) (n : ℕ)
  | config_lookup
  | allow_lookup (a : Addr)
  | allow_hit (k : LpmKey)
  | block_lookup (a : Addr)
  | block_hit (k : LpmKey)
  | port_lookup (k : PortKey)
  | port_hit (k : PortKey)
  | update_state_label (verdict : Verdict) (reason : Stat)
  | state_lookup (a : Addr)
  | state_insert (a : Addr) (init : SrcState)
  | state_locked (st : ℕ) (p : Pending)
  -- system calls of the Python tools
  | time
  | strftime
  | stat_sum (idx : Stat)
  | config_update (cfg : FwConfig)
  | allow_update (k : LpmKey) (v : AllowVal)
  | allow_delete (k : LpmKey)
  | block_update (k : LpmKey) (v : BlockVal)
  | block_delete (k : LpmKey)
  | block_items
  | port_update (k : PortKey) (v : PortVal)
  | port_delete (k : PortKey)
  | port_items
  | state_items
  | state_delete (a : Addr)

/-- The answers. A pointer into a trie or an array is the key it was found under, with the
value read through it; a pointer into `srcstate` is the reference of the entry. A call that
can fail answers `true` when it does. -/
@[reducible] def Ans : Op → Type
  | .ktime_get_ns => U64
  | .stat_add .. => Unit
  | .config_lookup => Option FwConfig
  | .allow_lookup _ => Option (LpmKey × AllowVal)
  | .allow_hit _ => Unit
  | .block_lookup _ => Option (LpmKey × BlockVal)
  | .block_hit _ => Unit
  | .port_lookup _ => Option PortVal
  | .port_hit _ => Unit
  | .update_state_label .. => Unit
  | .state_lookup _ => Option ℕ
  | .state_insert .. => Bool
  | .state_locked .. => Verdict × Stat
  | .time => ℚ
  | .strftime => String
  | .stat_sum _ => ℕ
  | .config_update _ => Unit
  | .allow_update .. => Bool
  | .allow_delete _ => Bool
  | .block_update .. => Bool
  | .block_delete _ => Bool
  | .block_items => List (LpmKey × BlockVal)
  | .port_update .. => Bool
  | .port_delete _ => Bool
  | .port_items => List (PortKey × List PortVal)
  | .state_items => List (Addr × SrcState)
  | .state_delete _ => Bool

abbrev calls : Sig := ⟨Op, Ans⟩

abbrev Call := Prog calls

/-- The six maps and the clocks, on a machine with `n` CPUs. -/
structure World (n : ℕ) where
  clock : U64
  wall : ℚ
  localtime : String
  allowlist : Store LpmKey AllowVal
  blocklist : Store LpmKey BlockVal
  portrules : Store PortKey (Fin n → PortVal)
  srcstate : RefMap Addr SrcState
  stats : Fin n → Stat → ℕ
  config : FwConfig

variable {n : ℕ}

/-- The configuration `fwload` writes when it is given none. -/
def default_config : FwConfig where
  rate_pps := 20000
  burst_pkts := 40000
  features := FEAT_DEFAULT
  aggressiveness := 0
  default_policy := ACTION_ALLOW

/-- The maps as `fwload` leaves them. -/
def World.loaded (n : ℕ) : World n where
  clock := 0
  wall := 0
  localtime := ""
  allowlist := ∅
  blocklist := ∅
  portrules := ∅
  srcstate := .empty
  stats := fun _ _ => 0
  config := default_config

/-- `*v += x` in one CPU's copy of one counter. -/
def bump (stats : Fin n → Stat → ℕ) (cpu : Fin n) (idx : Stat) (x : ℕ) : Fin n → Stat → ℕ :=
  fun c s => if c = cpu ∧ s = idx then stats c s + x else stats c s

/-- A counter summed over the CPUs. -/
def World.total (w : World n) (idx : Stat) : ℕ := ∑ c, w.stats c idx

def World.passes_total (w : World n) : ℕ := ((STAT_NAMES.filter Stat.is_pass).map w.total).sum

def World.drops_total (w : World n) : ℕ := ((STAT_NAMES.filter Stat.is_drop).map w.total).sum

/-- Changing a stored value in place. -/
def modify {K V : Type} [DecidableEq K] (m : Store K V) (k : K) (f : V → V) : Store K V :=
  match m.lookup k with
  | none => m
  | some v => m.insert k (f v)

lemma lookup_modify {K V : Type} [DecidableEq K] (m : Store K V) (k : K) (f : V → V) (k' : K) :
    (modify m k f).lookup k' = if k' = k then (m.lookup k).map f else m.lookup k' := by
  unfold modify
  split
  · next hk =>
    split_ifs with heq
    · rw [heq, hk]
      rfl
    · rfl
  · next v hk =>
    split_ifs with heq
    · rw [heq, hk, AList.lookup_insert]
      rfl
    · exact AList.lookup_insert_ne heq

/-- A change of the values that does not show through `f`. -/
lemma alike_modify {K V D : Type} [DecidableEq K] {f : V → D} {g : V → V}
    (hg : ∀ v, f (g v) = f v) (m : Store K V) (k : K) : Alike f m (modify m k g) := by
  intro k'
  rw [lookup_modify]
  split_ifs with heq
  · subst heq
    rw [Option.map_map]
    exact congrArg (Option.map · _) (funext hg)
  · rfl

/-- A new key needs room; a stored one is overwritten. -/
def update {K V : Type} [DecidableEq K] (max : ℕ) (m : Store K V) (k : K) (v : V) :
    Bool × Store K V :=
  if k ∈ m ∨ m.keys.length < max then (false, m.insert k v) else (true, m)

/-- The entries of `srcstate`, each read under its lock. -/
def states (m : RefMap Addr SrcState) : List (Addr × SrcState) :=
  (Dict.filterMap (fun _ r => m.deref r) m.index).items

lemma lookup_states (m : RefMap Addr SrcState) (a : Addr) :
    (Dict.ofItems (states m)).lookup a = m.get a := by
  unfold states
  rw [Dict.ofItems_items, Dict.lookup_filterMap]
  rfl

/-- `BPF_NOEXIST`: fails when the key is there, and when the map is full. -/
def insert_noexist (m : RefMap Addr SrcState) (a : Addr) (st : SrcState) :
    Bool × RefMap Addr SrcState :=
  if (m.find a).isSome ∨ MAX_TRACKED ≤ m.size then (true, m) else (false, m.insert a st)

/-- The locked section, on the entry the reference leads to. -/
def update_locked (m : RefMap Addr SrcState) (r : ℕ) (p : Pending) :
    (Verdict × Stat) × RefMap Addr SrcState :=
  match m.deref r with
  | none => ((p.verdict, p.reason), m)
  | some st => ((locked p st).2, m.set r (locked p st).1)

/-- One operation of a program that runs on `cpu`. -/
def exec (cpu : Fin n) (w : World n) : (o : Op) → Ans o × World n
  | .ktime_get_ns => (w.clock, w)
  | .stat_add idx x => ((), { w with stats := bump w.stats cpu idx x })
  | .config_lookup => (some w.config, w)
  | .allow_lookup a => (find w.allowlist a, w)
  | .allow_hit k =>
    ((), { w with allowlist := modify w.allowlist k fun v => { v with hits := v.hits + 1 } })
  | .block_lookup a => (find w.blocklist a, w)
  | .block_hit k =>
    ((), { w with blocklist := modify w.blocklist k fun v => { v with hits := v.hits + 1 } })
  | .port_lookup k => ((w.portrules.lookup k).map fun v => v cpu, w)
  | .port_hit k =>
    ((), { w with portrules := modify w.portrules k fun v c =>
            if c = cpu then { v c with hits := (v c).hits + 1 } else v c })
  | .update_state_label .. => ((), w)
  | .state_lookup a => (w.srcstate.find a, w)
  | .state_insert a st =>
    let r := insert_noexist w.srcstate a st
    (r.1, { w with srcstate := r.2 })
  | .state_locked r p =>
    let r := update_locked w.srcstate r p
    (r.1, { w with srcstate := r.2 })
  | .time => (w.wall, w)
  | .strftime => (w.localtime, w)
  | .stat_sum idx => (w.total idx, w)
  | .config_update cfg => ((), { w with config := cfg })
  | .allow_update k v =>
    let r := update MAX_ALLOWLIST w.allowlist k v
    (r.1, { w with allowlist := r.2 })
  | .allow_delete k =>
    (decide (k ∈ w.allowlist), { w with allowlist := w.allowlist.erase k })
  | .block_update k v =>
    let r := update MAX_BLOCKLIST w.blocklist k v
    (r.1, { w with blocklist := r.2 })
  | .block_delete k =>
    (decide (k ∈ w.blocklist), { w with blocklist := w.blocklist.erase k })
  | .block_items => (Dict.items w.blocklist, w)
  | .port_update k v =>
    let r := update MAX_PORT_RULES w.portrules k fun _ => v
    (r.1, { w with portrules := r.2 })
  | .port_delete k =>
    (decide (k ∈ w.portrules), { w with portrules := w.portrules.erase k })
  | .port_items => ((Dict.items w.portrules).map fun e => (e.1, List.ofFn e.2), w)
  | .state_items => (states w.srcstate, w)
  | .state_delete a =>
    ((w.srcstate.find a).isSome, { w with srcstate := w.srcstate.erase a })

/-- The configuration after an operation. -/
def config_after (o : Op) (c : FwConfig) : FwConfig :=
  match o with
  | .config_update cfg => cfg
  | _ => c

lemma exec_config (cpu : Fin n) (w : World n) (o : Op) :
    (exec cpu w o).2.config = config_after o w.config := by
  cases o <;> rfl

/-- No operation moves the clock. -/
lemma exec_clock (cpu : Fin n) (w : World n) (o : Op) : (exec cpu w o).2.clock = w.clock := by
  cases o <;> rfl

/-- The kernel as one program sees it: before each operation the others do any `E`. -/
abbrev kernel (E : World n → World n → Prop) (cpu : Fin n) : Machine calls (World n) :=
  Prog.among (S := calls) E (exec cpu)

/-- Nobody else writes the configuration; anything else may change. -/
def Quiet (w w' : World n) : Prop := w'.config = w.config

/-- An operation that does not write the configuration leaves it alone. -/
lemma kernel_config {cpu : Fin n} {c : FwConfig} (w : World n) (o : Op) (b : Ans o)
    (w' : World n) (ho : ∀ cfg, o ≠ .config_update cfg) (h : kernel Quiet cpu w o b w')
    (hc : w.config = c) : w'.config = c := by
  obtain ⟨w1, hw, hx⟩ := h
  have hcfg := exec_config cpu w1 o
  rw [hx, hw, hc] at hcfg
  rw [hcfg]
  cases o with
  | config_update cfg => exact absurd rfl (ho cfg)
  | _ => rfl

end Lookout.Kernel

import Lookout.Counting
import Lookout.Movers
import Lookout.Traffic

/-!
Packets on several CPUs at the same time, as if handled one after another.

Of what a packet does to the maps only the section under the spin lock depends on what other
packets have done: the lists are read for their keys, deadlines and actions, and hits and
counters are added to. So a packet is settled when it holds the lock of its entry, or when it
ends, and the packets can be put in that order.
-/

namespace Lookout.Atomic

open Lookout.Effects Lookout.Effects.Prog Lookout.Runs Lookout.Movers Lookout.Lpm
open Lookout.Lpm.Covering Lookout.Handles Lookout.Common Lookout.Packet Lookout.Limiter
open Lookout.Kernel Lookout.Xdp Lookout.Traffic

variable {n : ℕ}

/-! ### What is not told apart -/

/-- The stores answer alike. -/
def SameLookups {K V : Type} [DecidableEq K] (m m' : Store K V) : Prop :=
  ∀ k, m.lookup k = m'.lookup k

/-- The maps are the same, up to the order in which a store lists its entries. -/
structure SameContents (w w' : World n) : Prop where
  config : w.config = w'.config
  allowlist : SameLookups w.allowlist w'.allowlist
  blocklist : SameLookups w.blocklist w'.blocklist
  portrules : SameLookups w.portrules w'.portrules
  srcstate : w.srcstate = w'.srcstate
  stats : w.stats = w'.stats

lemma SameContents.refl (w : World n) : SameContents w w :=
  ⟨rfl, fun _ => rfl, fun _ => rfl, fun _ => rfl, rfl, rfl⟩

lemma SameContents.symm {w w' : World n} (h : SameContents w w') : SameContents w' w :=
  ⟨h.config.symm, fun k => (h.allowlist k).symm, fun k => (h.blocklist k).symm,
    fun k => (h.portrules k).symm, h.srcstate.symm, h.stats.symm⟩

lemma SameContents.trans {w w' w'' : World n} (h : SameContents w w')
    (h' : SameContents w' w'') : SameContents w w'' :=
  ⟨h.config.trans h'.config, fun k => (h.allowlist k).trans (h'.allowlist k),
    fun k => (h.blocklist k).trans (h'.blocklist k),
    fun k => (h.portrules k).trans (h'.portrules k), h.srcstate.trans h'.srcstate,
    h.stats.trans h'.stats⟩

/-- The answers a packet goes on alike after: it does not look at the hits. -/
def SameAnswer : (o : Op) → Ans o → Ans o → Prop
  | .allow_lookup _, b, b' => b.map Prod.fst = b'.map Prod.fst
  | .block_lookup _, b, b' =>
    b.map (fun e => (e.1, e.2.expires_ns)) = b'.map fun e => (e.1, e.2.expires_ns)
  | .port_lookup _, b, b' => b.map PortVal.action = b'.map PortVal.action
  | _, b, b' => b = b'

/-! ### What the operations of a packet do -/

/-- The operations of packets whose source has its entry. -/
inductive PacketOp : Op → Prop
  | ktime_get_ns : PacketOp .ktime_get_ns
  | stat_add (idx : Stat) (x : ℕ) : PacketOp (.stat_add idx x)
  | config_lookup : PacketOp .config_lookup
  | allow_lookup (a : Addr) : PacketOp (.allow_lookup a)
  | allow_hit (k : LpmKey) : PacketOp (.allow_hit k)
  | block_lookup (a : Addr) : PacketOp (.block_lookup a)
  | block_hit (k : LpmKey) : PacketOp (.block_hit k)
  | port_lookup (k : PortKey) : PacketOp (.port_lookup k)
  | port_hit (k : PortKey) : PacketOp (.port_hit k)
  | update_state_label (v : Verdict) (r : Stat) : PacketOp (.update_state_label v r)
  | state_lookup (a : Addr) : PacketOp (.state_lookup a)
  | state_locked (st : ℕ) (p : Pending) : PacketOp (.state_locked st p)

/-- All but the first. -/
def AfterClock (o : Op) : Prop := PacketOp o ∧ o ≠ .ktime_get_ns

/-- Any of them but the section under the lock. -/
def mover : Op → Bool
  | .state_locked .. => false
  | _ => true

def allow_after (o : Op) (m : Store LpmKey AllowVal) : Store LpmKey AllowVal :=
  match o with
  | .allow_hit k => modify m k fun v => { v with hits := v.hits + 1 }
  | _ => m

def block_after (o : Op) (m : Store LpmKey BlockVal) : Store LpmKey BlockVal :=
  match o with
  | .block_hit k => modify m k fun v => { v with hits := v.hits + 1 }
  | _ => m

/-- One CPU's hit on a rule. -/
def hit_on (cpu : Fin n) (v : Fin n → PortVal) : Fin n → PortVal := fun c =>
  if c = cpu then { v c with hits := (v c).hits + 1 } else v c

def ports_after (cpu : Fin n) (o : Op) (m : Store PortKey (Fin n → PortVal)) :
    Store PortKey (Fin n → PortVal) :=
  match o with
  | .port_hit k => modify m k (hit_on cpu)
  | _ => m

def states_after (o : Op) (m : RefMap Addr SrcState) : RefMap Addr SrcState :=
  match o with
  | .state_locked r p => (update_locked m r p).2
  | _ => m

def stats_after (cpu : Fin n) (o : Op) (s : Fin n → Stat → ℕ) : Fin n → Stat → ℕ :=
  match o with
  | .stat_add idx x => bump s cpu idx x
  | _ => s

/-- Each map by itself. -/
lemma exec_after (cpu : Fin n) (w : World n) {o : Op} (ho : PacketOp o) :
    (exec cpu w o).2 =
      { w with
        allowlist := allow_after o w.allowlist
        blocklist := block_after o w.blocklist
        portrules := ports_after cpu o w.portrules
        srcstate := states_after o w.srcstate
        stats := stats_after cpu o w.stats } := by
  cases ho <;> rfl

lemma exec_after_clock (cpu : Fin n) (w : World n) (now : U64) {o : Op} (ho : PacketOp o) :
    (exec cpu { w with clock := now } o).2 = { (exec cpu w o).2 with clock := now } := by
  rw [exec_after cpu _ ho, exec_after cpu _ ho]

section

variable {K V : Type} [DecidableEq K]

lemma SameLookups.alike {m m' : Store K V} (h : SameLookups m m') : Alike id m m' :=
  fun k => by rw [h k]

lemma SameLookups.find_eq {A : Type} [Covering K A] {m m' : Store K V} (h : SameLookups m m')
    (a : A) : find m a = find m' a := by
  have hkey := find_alike_key h.alike a
  simpa using hkey.symm

lemma SameLookups.modify {m m' : Store K V} (h : SameLookups m m') (k : K) (f : V → V) :
    SameLookups (modify m k f) (Kernel.modify m' k f) := by
  intro k'
  rw [lookup_modify, lookup_modify, h k, h k']

/-- Two changes in place can be exchanged, when their functions can. -/
lemma modify_comm (m : Store K V) (k k' : K) {f g : V → V} (hfg : ∀ v, f (g v) = g (f v)) :
    SameLookups (modify (modify m k f) k' g) (modify (modify m k' g) k f) := by
  intro x
  simp only [lookup_modify]
  split_ifs with h1 h2 h3 h4 h5
  all_goals subst_vars
  all_goals simp_all [Function.comp_def]

end

/-! ### The maps one by one -/

lemma SameLookups.allow_after {m m' : Store LpmKey AllowVal} (h : SameLookups m m') (o : Op) :
    SameLookups (allow_after o m) (Atomic.allow_after o m') := by
  cases o with
  | allow_hit k => exact h.modify k _
  | _ => exact h

lemma SameLookups.block_after {m m' : Store LpmKey BlockVal} (h : SameLookups m m') (o : Op) :
    SameLookups (block_after o m) (Atomic.block_after o m') := by
  cases o with
  | block_hit k => exact h.modify k _
  | _ => exact h

lemma SameLookups.ports_after {m m' : Store PortKey (Fin n → PortVal)} (h : SameLookups m m')
    (cpu : Fin n) (o : Op) : SameLookups (ports_after cpu o m) (Atomic.ports_after cpu o m') := by
  cases o with
  | port_hit k => exact h.modify k _
  | _ => exact h

lemma allow_after_comm (o o' : Op) (m : Store LpmKey AllowVal) :
    SameLookups (allow_after o' (allow_after o m)) (allow_after o (allow_after o' m)) := by
  cases o with
  | allow_hit k =>
    cases o' with
    | allow_hit k' => exact modify_comm m k k' fun _ => rfl
    | _ => exact fun _ => rfl
  | _ => exact fun _ => rfl

lemma block_after_comm (o o' : Op) (m : Store LpmKey BlockVal) :
    SameLookups (block_after o' (block_after o m)) (block_after o (block_after o' m)) := by
  cases o with
  | block_hit k =>
    cases o' with
    | block_hit k' => exact modify_comm m k k' fun _ => rfl
    | _ => exact fun _ => rfl
  | _ => exact fun _ => rfl

lemma hit_on_comm (c c' : Fin n) (v : Fin n → PortVal) :
    hit_on c (hit_on c' v) = hit_on c' (hit_on c v) := by
  funext x
  unfold hit_on
  split_ifs <;> rfl

lemma ports_after_comm (c c' : Fin n) (o o' : Op) (m : Store PortKey (Fin n → PortVal)) :
    SameLookups (ports_after c' o' (ports_after c o m)) (ports_after c o (ports_after c' o' m)) := by
  cases o with
  | port_hit k =>
    cases o' with
    | port_hit k' => exact modify_comm m k k' (hit_on_comm c c')
    | _ => exact fun _ => rfl
  | _ => exact fun _ => rfl

lemma states_after_mover {o : Op} (h : mover o = true) (m : RefMap Addr SrcState) :
    states_after o m = m := by
  cases o with
  | state_locked r p => cases h
  | _ => rfl

lemma states_after_comm {o o' : Op} (h : mover o = true ∨ mover o' = true)
    (m : RefMap Addr SrcState) :
    states_after o' (states_after o m) = states_after o (states_after o' m) := by
  rcases h with h | h
  · rw [states_after_mover h, states_after_mover h]
  · rw [states_after_mover h, states_after_mover h]

lemma find_states_after (o : Op) (m : RefMap Addr SrcState) (a : Addr) :
    (states_after o m).find a = m.find a := by
  cases o with
  | state_locked r p =>
    unfold states_after update_locked
    dsimp only
    split <;> rfl
  | _ => rfl

lemma stats_after_comm (c c' : Fin n) (o o' : Op) (s : Fin n → Stat → ℕ) :
    stats_after c' o' (stats_after c o s) = stats_after c o (stats_after c' o' s) := by
  cases o with
  | stat_add idx x =>
    cases o' with
    | stat_add idx' x' =>
      funext d i
      simp only [stats_after, bump]
      split_ifs <;> omega
    | _ => rfl
  | _ => rfl

/-! ### The setting -/

variable {ι : Type}

/-- Packet `i` on the CPU `cpu i`, with `now i` for its reading of the clock. -/
def packets (cpu : ι → Fin n) (now : ι → U64) : Setting calls (World n) ι where
  f i w o := exec (cpu i) { w with clock := now i } o
  mover := mover
  sim := SameContents
  same := SameAnswer

lemma same_trans {o : Op} {a b c : Ans o} (h : SameAnswer o a b) (h' : SameAnswer o b c) :
    SameAnswer o a c := by
  cases o <;> exact Eq.trans h h'

lemma same_symm {o : Op} {a b : Ans o} (h : SameAnswer o a b) : SameAnswer o b a := by
  cases o <;> exact Eq.symm h

lemma same_refl (o : Op) (a : Ans o) : SameAnswer o a a := by
  cases o <;> rfl

/-- The same contents give the same answers. -/
lemma answer_same (cpu : Fin n) {w w' : World n} {o : Op} (ho : PacketOp o)
    (hclock : o = .ktime_get_ns → w.clock = w'.clock) (h : SameContents w w') :
    SameAnswer o (exec cpu w o).1 (exec cpu w' o).1 := by
  cases ho with
  | ktime_get_ns => exact hclock rfl
  | stat_add => rfl
  | config_lookup => exact congrArg some h.config
  | allow_lookup a => exact congrArg (Option.map Prod.fst) (h.allowlist.find_eq a)
  | allow_hit => rfl
  | block_lookup a =>
    exact congrArg (Option.map fun e => (e.1, e.2.expires_ns)) (h.blocklist.find_eq a)
  | block_hit => rfl
  | port_lookup k =>
    exact congrArg (fun v => (v.map fun v => v cpu).map PortVal.action) (h.portrules k)
  | port_hit => rfl
  | update_state_label => rfl
  | state_lookup a => exact congrArg (RefMap.find · a) h.srcstate
  | state_locked st p => exact congrArg (fun m => (update_locked m st p).1) h.srcstate

lemma contents_same (cpu : Fin n) {w w' : World n} {o : Op} (ho : PacketOp o)
    (h : SameContents w w') : SameContents (exec cpu w o).2 (exec cpu w' o).2 := by
  rw [exec_after cpu _ ho, exec_after cpu _ ho]
  exact ⟨h.config, h.allowlist.allow_after o, h.blocklist.block_after o,
    h.portrules.ports_after cpu o, congrArg (states_after o) h.srcstate,
    congrArg (stats_after cpu o) h.stats⟩

/-- The clocks are not among the contents. -/
lemma SameContents.clocked {w w' : World n} (h : SameContents w w') (now now' : U64) :
    SameContents { w with clock := now } { w' with clock := now' } :=
  ⟨h.config, h.allowlist, h.blocklist, h.portrules, h.srcstate, h.stats⟩

lemma alike_allow_after (o : Op) (m : Store LpmKey AllowVal) :
    Alike AllowVal.flags m (allow_after o m) := by
  cases o with
  | allow_hit k => exact alike_modify (by intro v; rfl) m k
  | _ => exact fun _ => rfl

lemma alike_block_after (o : Op) (m : Store LpmKey BlockVal) :
    Alike BlockVal.expires_ns m (block_after o m) := by
  cases o with
  | block_hit k => exact alike_modify (by intro v; rfl) m k
  | _ => exact fun _ => rfl

lemma action_ports_after (cpu c : Fin n) (o : Op) (m : Store PortKey (Fin n → PortVal))
    (k : PortKey) :
    (((ports_after cpu o m).lookup k).map fun v => v c).map PortVal.action =
      ((m.lookup k).map fun v => v c).map PortVal.action := by
  cases o with
  | port_hit k' =>
    rw [Option.map_map, Option.map_map]
    refine alike_modify (fun v => ?_) m k' k
    simp only [Function.comp, hit_on]
    split_ifs <;> rfl
  | _ => rfl

/-- An operation of another packet does not show in the answer. -/
lemma answer_exchange (cpu cpu' : Fin n) (w : World n) (now : U64) {o o' : Op} (ho : PacketOp o)
    (ho' : PacketOp o') (hm : mover o = true ∨ mover o' = true) :
    SameAnswer o' (exec cpu' { (exec cpu w o).2 with clock := now } o').1
      (exec cpu' { w with clock := now } o').1 := by
  rw [exec_after cpu w ho]
  cases ho' with
  | ktime_get_ns => rfl
  | stat_add => rfl
  | config_lookup => rfl
  | allow_lookup a =>
    have hkey := congrArg (Option.map Prod.fst) (find_alike_key (alike_allow_after o w.allowlist) a)
    rwa [Option.map_map, Option.map_map] at hkey
  | allow_hit => rfl
  | block_lookup a => exact find_alike_key (alike_block_after o w.blocklist) a
  | block_hit => rfl
  | port_lookup k => exact action_ports_after cpu cpu' o w.portrules k
  | port_hit => rfl
  | update_state_label => rfl
  | state_lookup a => exact find_states_after o w.srcstate a
  | state_locked st p =>
    have hmover : mover o = true := hm.resolve_right Bool.false_ne_true
    exact congrArg (fun m => (update_locked m st p).1) (states_after_mover hmover w.srcstate)

/-- **Packets commute**, the sections under the locks apart. -/
theorem commutes (cpu : ι → Fin n) (now : ι → U64) : (packets cpu now).Commutes PacketOp where
  refl := SameContents.refl
  symm := SameContents.symm
  trans := SameContents.trans
  same_trans := same_trans
  same_symm := same_symm
  respects i _ _ _ ho h :=
    ⟨answer_same (cpu i) ho (fun _ => rfl) (h.clocked _ _), contents_same (cpu i) ho (h.clocked _ _)⟩
  exchange {i j} o o' w _ ho ho' hm := by
    refine ⟨?_, ?_⟩
    · have h := answer_exchange (cpu i) (cpu j) { w with clock := now i } (now j) ho ho' hm
      exact h
    · change SameContents (exec (cpu j) { (exec (cpu i) { w with clock := now i } o).2 with
          clock := now j } o').2 (exec (cpu i) { (exec (cpu j) { w with clock := now j } o').2 with
          clock := now i } o).2
      rw [exec_after (cpu i) _ ho, exec_after (cpu j) _ ho', exec_after (cpu j) _ ho',
        exec_after (cpu i) _ ho]
      exact ⟨rfl, allow_after_comm o o' _, block_after_comm o o' _,
        ports_after_comm (cpu i) (cpu j) o o' _, states_after_comm hm _,
        stats_after_comm (cpu i) (cpu j) o o' _⟩

/-! ### The program -/

/-- The program after its clock reading. -/
def rest (f : Frame) (now : U64) : Call Verdict := do
  stat_inc .rx_packets
  stat_add .rx_bytes f.pkt_len
  match ← op (S := calls) .config_lookup with
  | none => return .pass
  | some cfg => config_stage f now cfg

section

variable {A : Event calls → Prop} {G : Op → Prop} {cfg : FwConfig}

/-- The operations after the clock reading have `G`, but for the lock. -/
def Free (G : Op → Prop) : Prop := ∀ o, AfterClock o → mover o = true → G o

/-- As long as the answers have `A`, the packets of a source may lock the entry they find, and
make one if they find none. -/
structure Finds (A : Event calls → Prop) (G : Op → Prop) (a : Addr) : Prop where
  insert : A ⟨.state_lookup a, none⟩ → ∀ st, G (.state_insert a st)
  lock : ∀ st, A ⟨.state_lookup a, some st⟩ → ∀ p, G (.state_locked st p)

variable (hG : Free G)

include hG

lemma under_finish (r : Stat) (v : Verdict) : Under A G (finish r v) :=
  ⟨hG _ ⟨.stat_add r 1, nofun⟩ rfl, fun _ _ => trivial⟩

lemma under_state_full (p : Pending) : Under A G (state_full p) :=
  ⟨hG _ ⟨.stat_add _ _, nofun⟩ rfl, fun _ _ => under_finish hG _ _⟩

lemma under_update_state {p : Pending} (hp : has p.feat FEAT_TRACK_STATE = true → Finds A G p.saddr) :
    Under A G (update_state p) := by
  unfold update_state
  refine ⟨hG _ ⟨.update_state_label _ _, nofun⟩ rfl, fun _ _ => ?_⟩
  simp only [op_eq, call_bind, ret_bind]
  split_ifs with htrack
  · refine ⟨hG _ ⟨.state_lookup _, nofun⟩ rfl, fun st hst => ?_⟩
    cases st with
    | some st => exact ⟨(hp htrack).lock st hst p, fun _ _ => under_finish hG _ _⟩
    | none =>
      refine ⟨(hp htrack).insert hst _, fun failed _ => ?_⟩
      cases failed with
      | true => exact under_state_full hG p
      | false =>
        refine ⟨hG _ ⟨.state_lookup _, nofun⟩ rfl, fun st hst => ?_⟩
        cases st with
        | some st => exact ⟨(hp htrack).lock st hst p, fun _ _ => under_finish hG _ _⟩
        | none => exact under_state_full hG p
  · exact under_finish hG _ _

lemma under_allowlist_stage {feat : U32} {a : Addr} {next : Call Verdict} (h : Under A G next) :
    Under A G (allowlist_stage feat a next) := by
  unfold allowlist_stage
  split_ifs
  · refine ⟨hG _ ⟨.allow_lookup a, nofun⟩ rfl, fun e _ => ?_⟩
    cases e with
    | some e => exact ⟨hG _ ⟨.allow_hit e.1, nofun⟩ rfl, fun _ _ => under_finish hG _ _⟩
    | none => exact h
  · exact h

lemma under_blocklist_stage {feat : U32} {a : Addr} {now : U64} {next : Call Verdict}
    (h : Under A G next) : Under A G (blocklist_stage feat a now next) := by
  unfold blocklist_stage
  simp only [op_eq, call_bind, ret_bind]
  split_ifs
  · refine ⟨hG _ ⟨.block_lookup a, nofun⟩ rfl, fun e _ => ?_⟩
    cases e with
    | none => exact h
    | some e =>
      dsimp only
      split_ifs
      · exact ⟨hG _ ⟨.block_hit e.1, nofun⟩ rfl, fun _ _ => under_finish hG _ _⟩
      · exact h
  · exact h

lemma under_port_stage (feat policy : U32) (proto : Byte) (rule_port : U16) :
    Under A G (port_stage feat policy proto rule_port) := by
  unfold port_stage
  by_cases hfeat : has feat FEAT_PORT_RULES = true
  · rw [if_pos hfeat]
    refine ⟨hG _ ⟨.port_lookup _, nofun⟩ rfl, fun pv _ => ?_⟩
    cases pv with
    | none => split_ifs <;> trivial
    | some pv =>
      exact ⟨hG _ ⟨.port_hit _, nofun⟩ rfl, fun _ _ => by dsimp only; split_ifs <;> trivial⟩
  · rw [if_neg hfeat]
    trivial

lemma under_verdict_stage (ip : IpHdr) (l4 : L4Hdr) : Under A G (verdict_stage cfg ip l4) := by
  unfold verdict_stage
  split_ifs
  · trivial
  · trivial
  · trivial
  · trivial
  · exact under_port_stage hG _ _ _ _

lemma under_config_stage {f : Frame} (now : U64)
    (hf : has cfg.features FEAT_TRACK_STATE = true →
      ∀ ip, parse_l3 f = .ipv4 ip → Finds A G ip.saddr) :
    Under A G (config_stage f now cfg) := by
  unfold config_stage
  cases hip : parse_l3 f with
  | malformed => exact under_finish hG _ _
  | non_ipv4 => exact under_finish hG _ _
  | ipv4 ip =>
    refine under_allowlist_stage hG (under_blocklist_stage hG ?_)
    unfold l4_stage
    cases parse_l4 f ip with
    | none => exact under_finish hG _ _
    | some l4 =>
      exact under_bind (under_verdict_stage hG ip l4) fun r =>
        under_update_state hG fun ht => hf ht ip hip

/-- **After the clock reading** a packet performs what `G` allows. -/
theorem under_rest {f : Frame} (now : U64) (hcfg : ∀ c, A ⟨.config_lookup, c⟩ → c = some cfg)
    (hf : has cfg.features FEAT_TRACK_STATE = true →
      ∀ ip, parse_l3 f = .ipv4 ip → Finds A G ip.saddr) :
    Under A G (rest f now) := by
  refine ⟨hG _ ⟨.stat_add _ _, nofun⟩ rfl, fun _ _ => ⟨hG _ ⟨.stat_add _ _, nofun⟩ rfl, fun _ _ =>
    ⟨hG _ ⟨.config_lookup, nofun⟩ rfl, fun c hc => ?_⟩⟩⟩
  rw [hcfg c hc]
  exact under_config_stage hG now hf

end

/-- The answers of a quiet kernel: the configuration is `cfg`, the entries are where `ref` says. -/
def Answers (cfg : FwConfig) (ref : Addr → Option ℕ) : Event calls → Prop
  | ⟨.config_lookup, c⟩ => c = some cfg
  | ⟨.state_lookup a, r⟩ => r = ref a
  | _ => True

section

variable {cfg : FwConfig} {ref : Addr → Option ℕ}

lemma free_afterClock : Free AfterClock := fun _ ho _ => ho

lemma no_answer_none {a : Addr} (h : (ref a).isSome = true) :
    ¬ Answers cfg ref ⟨.state_lookup a, none⟩ := by
  intro hnone
  have href : none = ref a := hnone
  rw [← href] at h
  cases h

lemma finds_of_isSome {a : Addr} (h : (ref a).isSome = true) :
    Finds (Answers cfg ref) AfterClock a where
  insert hnone := absurd hnone (no_answer_none h)
  lock st _ p := ⟨.state_locked st p, nofun⟩

/-- It reads the clock first, and only then. -/
lemma clock_first {f : Frame} {l : List (Event calls)} {q : Call Verdict}
    (hf : has cfg.features FEAT_TRACK_STATE = true →
      ∀ ip, parse_l3 f = .ipv4 ip → (ref ip.saddr).isSome = true)
    (h : Trace (xdp_firewall f) l q) (hA : ∀ e ∈ l, Answers cfg ref e) :
    l = [] ∨ ∃ t l', l = ⟨.ktime_get_ns, t⟩ :: l' ∧ ∀ e ∈ l', AfterClock e.1 := by
  rcases trace_call.mp h with ⟨rfl, -⟩ | ⟨t, l', rfl, h'⟩
  · exact Or.inl rfl
  · have hrest : Trace (rest f t) l' q := h'
    have hunder : Under (Answers cfg ref) AfterClock (rest f t) :=
      under_rest free_afterClock t (fun _ hc => hc) fun ht ip hip => finds_of_isSome (hf ht ip hip)
    exact Or.inr ⟨t, l', rfl, hrest.under hunder fun e he => hA e (List.mem_cons_of_mem _ he)⟩

lemma under_xdp_firewall {f : Frame}
    (hf : has cfg.features FEAT_TRACK_STATE = true →
      ∀ ip, parse_l3 f = .ipv4 ip → (ref ip.saddr).isSome = true) :
    Under (Answers cfg ref) PacketOp (xdp_firewall f) :=
  ⟨.ktime_get_ns, fun t _ => (under_rest free_afterClock t (fun _ hc => hc) fun ht ip hip =>
    finds_of_isSome (hf ht ip hip)).mono fun _ ho => ho.1⟩

end

/-! ### What the program does not see -/

lemma blind_finish (r : Stat) (v : Verdict) : Blind SameAnswer (finish r v) :=
  ⟨fun _ _ _ => rfl, fun _ => trivial⟩

lemma blind_locked_stage (st : ℕ) (p : Pending) : Blind SameAnswer (locked_stage st p) := by
  refine ⟨?_, fun _ => blind_finish _ _⟩
  rintro b _ rfl
  rfl

lemma blind_state_full (p : Pending) : Blind SameAnswer (state_full p) :=
  ⟨fun _ _ _ => rfl, fun _ => blind_finish _ _⟩

lemma blind_update_state (p : Pending) : Blind SameAnswer (update_state p) := by
  unfold update_state
  refine ⟨fun _ _ _ => rfl, fun _ => ?_⟩
  simp only [op_eq, call_bind, ret_bind]
  split_ifs
  · refine ⟨?_, fun st => ?_⟩
    · rintro b _ rfl
      rfl
    · cases st with
      | some st => exact blind_locked_stage st p
      | none =>
        refine ⟨?_, fun failed => ?_⟩
        · rintro b _ rfl
          rfl
        · cases failed with
          | true => exact blind_state_full p
          | false =>
            refine ⟨?_, fun st => ?_⟩
            · rintro b _ rfl
              rfl
            · cases st with
              | some st => exact blind_locked_stage st p
              | none => exact blind_state_full p
  · exact blind_finish _ _

lemma blind_allowlist_stage {feat : U32} {a : Addr} {next : Call Verdict}
    (h : Blind SameAnswer next) : Blind SameAnswer (allowlist_stage feat a next) := by
  unfold allowlist_stage
  simp only [op_eq, call_bind, ret_bind]
  split_ifs
  · refine ⟨?_, fun e => ?_⟩
    · rintro (_ | e) (_ | e') he
      · rfl
      · cases he
      · cases he
      · obtain ⟨k, v⟩ := e
        obtain ⟨k', v'⟩ := e'
        obtain rfl : k = k' := Option.some.inj he
        rfl
    · cases e with
      | some e => exact ⟨fun _ _ _ => rfl, fun _ => blind_finish _ _⟩
      | none => exact h
  · exact h

lemma blind_blocklist_stage {feat : U32} {a : Addr} {now : U64} {next : Call Verdict}
    (h : Blind SameAnswer next) : Blind SameAnswer (blocklist_stage feat a now next) := by
  unfold blocklist_stage
  simp only [op_eq, call_bind, ret_bind]
  split_ifs
  · refine ⟨?_, fun e => ?_⟩
    · rintro (_ | e) (_ | e') he
      · rfl
      · cases he
      · cases he
      · obtain ⟨hkey, hexp⟩ := Prod.mk.inj (Option.some.inj he)
        have hactive : active e.2 now = active e'.2 now := by
          unfold active
          rw [hexp]
        dsimp only
        rw [hkey, hactive]
    · cases e with
      | none => exact h
      | some e =>
        dsimp only
        split_ifs
        · exact ⟨fun _ _ _ => rfl, fun _ => blind_finish _ _⟩
        · exact h
  · exact h

lemma blind_port_stage (feat policy : U32) (proto : Byte) (rule_port : U16) :
    Blind SameAnswer (port_stage feat policy proto rule_port) := by
  unfold port_stage
  by_cases hfeat : has feat FEAT_PORT_RULES = true
  · rw [if_pos hfeat]
    simp only [op_eq, call_bind, ret_bind]
    refine ⟨?_, fun pv => ?_⟩
    · rintro (_ | pv) (_ | pv') he
      · rfl
      · cases he
      · cases he
      · have haction : pv.action = pv'.action := Option.some.inj he
        dsimp only
        rw [haction]
    · cases pv with
      | none => split_ifs <;> trivial
      | some pv => exact ⟨fun _ _ _ => rfl, fun _ => by dsimp only; split_ifs <;> trivial⟩
  · rw [if_neg hfeat]
    trivial

lemma blind_verdict_stage (cfg : FwConfig) (ip : IpHdr) (l4 : L4Hdr) :
    Blind SameAnswer (verdict_stage cfg ip l4) := by
  unfold verdict_stage
  split_ifs
  · trivial
  · trivial
  · trivial
  · trivial
  · exact blind_port_stage _ _ _ _

lemma blind_rest (f : Frame) (now : U64) : Blind SameAnswer (rest f now) := by
  refine ⟨fun _ _ _ => rfl, fun _ => ⟨fun _ _ _ => rfl, fun _ => ⟨?_, ?_⟩⟩⟩
  · rintro b _ rfl
    rfl
  · rintro (_ | cfg)
    · trivial
    · change Blind SameAnswer (config_stage f now cfg)
      unfold config_stage
      cases parse_l3 f with
      | malformed => exact blind_finish _ _
      | non_ipv4 => exact blind_finish _ _
      | ipv4 ip =>
        refine blind_allowlist_stage (blind_blocklist_stage ?_)
        unfold l4_stage
        cases parse_l4 f ip with
        | none => exact blind_finish _ _
        | some l4 => exact blind_bind (blind_verdict_stage _ _ _) fun r => blind_update_state _

/-- **The program goes on alike** whatever the hits are. -/
theorem blind_xdp_firewall (f : Frame) : Blind SameAnswer (xdp_firewall f) := by
  refine ⟨?_, fun now => blind_rest f now⟩
  rintro b _ rfl
  rfl

/-! ### The runs -/

variable [DecidableEq ι]

/-- Time passes, and nobody but the packets touches the maps. -/
def Ticks (w w' : World n) : Prop :=
  w' = { w with clock := w'.clock, wall := w'.wall, localtime := w'.localtime }

/-- The packets handled in turn, each in one go: the verdicts, and the maps at the end. -/
def in_turn (cpu : ι → Fin n) (frames : ι → Frame) (now : ι → U64) :
    List ι → World n → List (ι × Verdict) × World n
  | [], w => ([], w)
  | i :: is, w =>
    let r := handle (cpu i) (frames i) { w with clock := now i }
    let rest := in_turn cpu frames now is r.2
    ((i, r.1) :: rest.1, rest.2)

omit [DecidableEq ι] in
lemma run_packets {α : Type} (cpu : ι → Fin n) (now : ι → U64) (i : ι) (p : Call α) (w : World n)
    (hw : w.clock = now i) : run ((packets cpu now).f i) p w = run (exec (cpu i)) p w := by
  induction p generalizing w with
  | ret a => rfl
  | call o k ih =>
    have hset : { w with clock := now i } = w := by rw [← hw]
    have hf : (packets cpu now).f i w o = exec (cpu i) w o := congrArg (exec (cpu i) · o) hset
    rw [run_call, run_call, hf]
    exact ih _ _ ((exec_clock _ _ _).trans hw)

omit [DecidableEq ι] in
/-- The machine of a packet sets the clock before each operation; once is enough. -/
lemma one_by_one_packets (cpu : ι → Fin n) (frames : ι → Frame) (now : ι → U64) (is : List ι)
    (w : World n) :
    one_by_one (packets cpu now) (fun i => xdp_firewall (frames i)) is w =
      in_turn cpu frames now is w := by
  induction is generalizing w with
  | nil => rfl
  | cons i is ih =>
    have hrun : run ((packets cpu now).f i) (xdp_firewall (frames i)) w =
        handle (cpu i) (frames i) { w with clock := now i } :=
      run_packets cpu now i (xdp_firewall (frames i)) { w with clock := now i } rfl
    rw [one_by_one, in_turn, hrun, ih]

/-- What a packet read from the clock, its first operation. -/
def reading : List (Event calls) → U64
  | ⟨.ktime_get_ns, t⟩ :: _ => t
  | _ => 0

/-- The order, with the clock readings, in which the packets of a run might as well have been
handled one at a time. -/
structure InTurn (cpu : ι → Fin n) (frames : ι → Frame) (v : ι → Verdict) (w w' : World n)
    (tr : Turns calls (World n) Verdict ι) (is : List ι) (now : ι → U64) : Prop where
  nodup : is.Nodup
  handled : ∀ i, i ∈ is ↔ own i tr ≠ []
  clocks : ∀ i t, ⟨.ktime_get_ns, t⟩ ∈ own i tr → now i = t
  verdicts : (in_turn cpu frames now is w).1 = is.map fun i => (i, v i)
  maps : SameContents (in_turn cpu frames now is w).2 w'
  /-- At every moment the packets are divided: those in front have begun, those behind are not
  done. -/
  in_time : ∀ tr1 tr2, tr = tr1 ++ tr2 → ∃ is1 is2, is = is1 ++ is2 ∧
    (∀ i ∈ is1, own i tr1 ≠ []) ∧ ∀ i ∈ is2, own i tr2 ≠ []

variable {cpu : ι → Fin n} {frames : ι → Frame} {w w' : World n} {q : ι → Call Verdict}
  {tr : Turns calls (World n) Verdict ι}

/-- The sources of all packets have entries, if entries are kept at all. -/
def Known (frames : ι → Frame) (w : World n) : Prop :=
  has w.config.features FEAT_TRACK_STATE = true →
    ∀ i ip, parse_l3 (frames i) = .ipv4 ip → (w.srcstate.find ip.saddr).isSome = true

/-- The configuration and the entries' places have not changed since `w`. -/
def Stays (w w1 : World n) : Prop :=
  w1.config = w.config ∧ ∀ a, w1.srcstate.find a = w.srcstate.find a

lemma stays_step {cpu : Fin n} {w w1 w2 : World n} {o : Op} {b : Ans o} (ho : PacketOp o)
    (h : Stays w w1) (hx : kernel Ticks cpu w1 o b w2) :
    Answers w.config w.srcstate.find ⟨o, b⟩ ∧ Stays w w2 := by
  obtain ⟨w1', hticks, hexec⟩ := hx
  have h' : Stays w w1' := by
    rw [hticks]
    exact h
  have hans : (exec cpu w1' o).1 = b := by rw [hexec]
  have hpost := exec_after cpu w1' ho
  rw [hexec] at hpost
  refine ⟨?_, ?_⟩
  · cases ho with
    | config_lookup => exact hans.symm.trans (congrArg some h'.1)
    | state_lookup a => exact hans.symm.trans (h'.2 a)
    | _ => trivial
  · have hw2 : w2 = _ := hpost
    rw [hw2]
    exact ⟨h'.1, fun a => (find_states_after o w1'.srcstate a).trans (h'.2 a)⟩

/-- All along the run the answers are those of a quiet kernel, and the operations those of
packets whose sources have entries. -/
lemma quiet_run (h : Path (turn fun i => kernel Ticks (cpu i))
      (w, fun i => xdp_firewall (frames i)) tr (w', q)) (hknown : Known frames w) :
    ∀ x ∈ tr, Answers w.config w.srcstate.find x.ev.2 := by
  have hprog : ∀ i, Under (Answers w.config w.srcstate.find) PacketOp
      (xdp_firewall (frames i)) := fun i => under_xdp_firewall fun ht => hknown ht i
  have hrely := rely (I := Stays w) h (fun x _ b t hI hG hx => stays_step hG hI hx)
    ⟨rfl, fun _ => rfl⟩ hprog
  exact fun x hx => (hrely.2.2 x hx).1

lemma mem_own_ev {x : Trans (Pool calls (World n) Verdict ι) (ι × Event calls)} (hx : x ∈ tr) :
    x.ev.2 ∈ own x.ev.1 tr := mem_own.mpr ⟨x, hx, rfl⟩

lemma first_reading {f : Frame} {ref : Addr → Option ℕ} {cfg : FwConfig} {l : List (Event calls)}
    {p : Call Verdict}
    (hf : has cfg.features FEAT_TRACK_STATE = true →
      ∀ ip, parse_l3 f = .ipv4 ip → (ref ip.saddr).isSome = true)
    (h : Trace (xdp_firewall f) l p) (hA : ∀ e ∈ l, Answers cfg ref e) :
    (∀ e ∈ l, PacketOp e.1) ∧ ∀ t, ⟨.ktime_get_ns, t⟩ ∈ l → reading l = t := by
  rcases clock_first hf h hA with rfl | ⟨t, l', rfl, hl'⟩
  · exact ⟨nofun, fun _ ht => absurd ht List.not_mem_nil⟩
  · refine ⟨List.forall_mem_cons.mpr ⟨.ktime_get_ns, fun e he => (hl' e he).1⟩, fun t' ht => ?_⟩
    rcases List.mem_cons.mp ht with ht | ht
    · cases ht
      rfl
    · exact absurd rfl (hl' _ ht).2

lemma own_reading (h : Path (turn fun i => kernel Ticks (cpu i))
      (w, fun i => xdp_firewall (frames i)) tr (w', q)) (hknown : Known frames w) (i : ι) :
    (∀ e ∈ own i tr, PacketOp e.1) ∧
      ∀ t, ⟨.ktime_get_ns, t⟩ ∈ own i tr → reading (own i tr) = t := by
  have hall : ∀ e ∈ own i tr, Answers w.config w.srcstate.find e := by
    intro e he
    obtain ⟨y, hy, hye⟩ := mem_own.mp he
    have hA := quiet_run h hknown y hy
    rw [hye] at hA
    exact hA
  exact first_reading (fun ht => hknown ht i) (own_trace h i) hall

lemma follows_run (h : Path (turn fun i => kernel Ticks (cpu i))
      (w, fun i => xdp_firewall (frames i)) tr (w', q)) (hknown : Known frames w) :
    Follows (packets cpu fun i => reading (own i tr)) PacketOp tr := by
  rintro ⟨pre, ⟨i, o, b⟩, post⟩ hx
  obtain ⟨hops, hclock⟩ := own_reading h hknown i
  have hmem : (⟨o, b⟩ : Event calls) ∈ own i tr := mem_own_ev hx
  have hG : PacketOp o := hops _ hmem
  obtain ⟨k, -, ⟨w1, hticks, hexec⟩, -⟩ := h.step_of_mem hx
  have hcontents : ∀ now : U64, SameContents w1 { pre.1 with clock := now } := by
    intro now
    rw [hticks]
    exact ⟨rfl, fun _ => rfl, fun _ => rfl, fun _ => rfl, rfl, rfl⟩
  have hb : b = (exec (cpu i) w1 o).1 := congrArg Prod.fst hexec.symm
  have hu : post.1 = (exec (cpu i) w1 o).2 := congrArg Prod.snd hexec.symm
  refine ⟨hG, ?_, ?_⟩
  · dsimp only
    rw [hb]
    refine answer_same (cpu i) hG (fun ho => ?_) (hcontents _)
    subst ho
    have hread := hclock b hmem
    rw [hb] at hread
    exact hread.symm
  · dsimp only
    rw [hu]
    exact (contents_same (cpu i) hG (hcontents _)).symm

/-- A packet holds one lock at most. -/
lemma turning_le_one (h : Path (turn fun i => kernel Ticks (cpu i))
      (w, fun i => xdp_firewall (frames i)) tr (w', q)) (i : ι) : turning mover i tr ≤ 1 := by
  have hall : ∀ e ∈ own i tr, Counting.Answers (fun _ _ => True) e := by
    rintro ⟨o, b⟩ -
    cases o with
    | state_lookup a => cases b <;> trivial
    | _ => trivial
  have hlocks : ∀ l : List (Event calls),
      l.countP (fun e => !mover e.1) = (l.filterMap Counting.lock_of).length := by
    intro l
    induction l with
    | nil => rfl
    | cons e l ih =>
      obtain ⟨o, b⟩ := e
      rw [List.countP_cons, ih]
      cases o <;> rfl
  exact (hlocks _).trans_le (Counting.fair_so_far (own_trace h i) hall).2.1

/-- The order in which the packets hold their locks, or end without, is one in which they might as
well have been handled. -/
theorem inTurn_order (h : Path (turn fun i => kernel Ticks (cpu i))
      (w, fun i => xdp_firewall (frames i)) tr (w', q)) (hknown : Known frames w)
    {v : ι → Verdict} (hdone : ∀ i, own i tr ≠ [] → q i = .ret (v i)) :
    InTurn cpu frames v w w' tr (order mover tr) fun i => reading (own i tr) := by
  have hfollows := follows_run h hknown
  obtain ⟨hverdicts, hmaps⟩ := reduction (commutes cpu fun i => reading (own i tr)) h hfollows
    (turning_le_one h) (fun i => blind_xdp_firewall (frames i)) hdone
  rw [one_by_one_packets] at hverdicts hmaps
  refine ⟨(settled h).nodup, mem_order h hdone, fun i => (own_reading h hknown i).2, hverdicts,
    hmaps, fun tr1 tr2 htr => ?_⟩
  obtain ⟨is, his, hown⟩ : ∃ is, order Atomic.mover (tr1 ++ tr2) = order Atomic.mover tr1 ++ is ∧
      ∀ i ∈ is, own i tr2 ≠ [] := order_append tr1 tr2
  rw [htr] at h ⊢
  obtain ⟨c, h1, -⟩ := h.cut
  exact ⟨order Atomic.mover tr1, is, his, (settled h1).began, hown⟩

/-- **Packets on several CPUs are handled as if one after another.** Where all sources have their
entries and nobody writes to the maps meanwhile, any interleaving of the executions gives each
packet the verdict, and leaves in the maps the contents, that handling them in one go in some
order gives: an order that respects which of them was done before which began, each with the
clock reading it made. -/
theorem handled_in_turn (h : Path (turn fun i => kernel Ticks (cpu i))
      (w, fun i => xdp_firewall (frames i)) tr (w', q)) (hknown : Known frames w)
    {v : ι → Verdict} (hdone : ∀ i, own i tr ≠ [] → q i = .ret (v i)) :
    ∃ is now, InTurn cpu frames v w w' tr is now :=
  ⟨_, _, inTurn_order h hknown hdone⟩

/-- A source with one token left. -/
def one_token : World 2 :=
  { World.loaded 2 with
    srcstate := RefMap.empty.insert 0x0A000007 ⟨1, 0, 0, 9, 900, 0, 0, 0, 0, 9, 0, 0⟩ }

/-- Two queries of the source on two CPUs: the first is about to take the lock when the second
comes and goes. -/
def overtaken : Turns calls (World 2) Verdict (Fin 2) × Pool calls (World 2) Verdict (Fin 2) :=
  play (fun i => exec i) (List.replicate 9 0 ++ List.replicate 11 1 ++ List.replicate 2 0)
    (one_token, fun _ => xdp_firewall Counting.dns_query)

theorem handled_in_turn_overtaken : ∃ is now,
    InTurn (fun i : Fin 2 => i) (fun _ => Counting.dns_query)
      (fun i => if i = 0 then .drop else .pass) one_token overtaken.2.1 overtaken.1 is now := by
  have hrun : Path (turn fun i => kernel Ticks i)
      (one_token, fun _ : Fin 2 => xdp_firewall Counting.dns_query) overtaken.1 overtaken.2 := by
    have hE : ∀ w : World 2, Ticks w w := fun _ => rfl
    exact path_play hE _ _ _
  have hknown : Known (fun _ : Fin 2 => Counting.dns_query) one_token := by
    rintro - i ip hip
    have hparse : parse_l3 Counting.dns_query = .ipv4 ⟨34, 0x0A000007, 17, 0⟩ := by decide +kernel
    rw [hparse] at hip
    cases hip
    decide
  have hend : ∀ i, (overtaken.2.2 i).result = some (if i = 0 then .drop else .pass) := by
    decide +kernel
  exact handled_in_turn hrun hknown fun i _ => result_eq_some.mp (hend i)

end Lookout.Atomic

import Lookout.Fwctl
import Lookout.Rules

/-!
What the self-test leaves behind.

It writes a block, an allowlist prefix and a port rule of its own and takes them out again. The
operator may have entries under the same keys. The test looks for the port rule before it writes
one; a block or a prefix that was there is deleted with the test's own.
-/

namespace Lookout.Selftest

open Lookout.Effects Lookout.Effects.Prog Lookout.Lpm Lookout.Dicts Lookout.Common Lookout.Kernel
open Lookout.Firewall Lookout.Fwctl Lookout.Rules

variable {n : ℕ}

/-! ### What the maps say -/

/-- The keys, the deadlines and the actions of the three maps. -/
@[ext] structure View (n : ℕ) where
  allowed : LpmKey → Bool
  deadline : LpmKey → Option U64
  action : PortKey → Option (Fin n → U32)

def view (w : World n) : View n where
  allowed k := (w.allowlist.lookup k).isSome
  deadline k := (w.blocklist.lookup k).map BlockVal.expires_ns
  action k := (w.portrules.lookup k).map fun v c => (v c).action

/-- The key of the test's port rule. -/
def test_rule : PortKey := key 17 65001

/-- The view with another entry under a key of the test, or none. -/
def View.set_allowed (v : View n) (b : Bool) : View n :=
  ⟨Function.update v.allowed test_net b, v.deadline, v.action⟩

def View.set_deadline (v : View n) (d : Option U64) : View n :=
  ⟨v.allowed, Function.update v.deadline (.single test_ip) d, v.action⟩

def View.set_action (v : View n) (a : Option (Fin n → U32)) : View n :=
  ⟨v.allowed, v.deadline, Function.update v.action test_rule a⟩

@[simp] lemma View.set_allowed_set_allowed (v : View n) (b b' : Bool) :
    (v.set_allowed b).set_allowed b' = v.set_allowed b' := by
  unfold set_allowed
  rw [Function.update_idem]

@[simp] lemma View.set_deadline_set_deadline (v : View n) (d d' : Option U64) :
    (v.set_deadline d).set_deadline d' = v.set_deadline d' := by
  unfold set_deadline
  rw [Function.update_idem]

@[simp] lemma View.set_action_set_action (v : View n) (a a' : Option (Fin n → U32)) :
    (v.set_action a).set_action a' = v.set_action a' := by
  unfold set_action
  rw [Function.update_idem]

/-- Nobody else writes the three maps; packets count their hits and time passes. Anything else may
change. -/
def Passing (w w' : World n) : Prop := view w' = view w ∧ w.clock ≤ w'.clock

/-- The deadline, of an entry that has not expired. -/
def unexpired (now : ℕ) (d : Option U64) : Option U64 :=
  d.filter fun d => !decide (0 < d.toNat ∧ d.toNat ≤ now)

/-- The maps are as before, but for the entries that had expired. -/
structure Restored (w w' : World n) : Prop where
  allowed : (view w').allowed = (view w).allowed
  deadline : ∀ k, unexpired w.clock.toNat ((view w').deadline k) =
    unexpired w.clock.toNat ((view w).deadline k)
  action : (view w').action = (view w).action

/-- The maps have room for the entries of the test. -/
structure Room (w : World n) : Prop where
  allowed : test_net ∈ w.allowlist ∨ w.allowlist.keys.length < MAX_ALLOWLIST
  blocked : LpmKey.single test_ip ∈ w.blocklist ∨ w.blocklist.keys.length < MAX_BLOCKLIST
  ruled : test_rule ∈ w.portrules ∨ w.portrules.keys.length < MAX_PORT_RULES

/-- The operator has nothing under the keys of the test that it would lose: no such prefix, no
block that has not expired, and no rule but one that denies on every CPU. -/
structure Spared (w : World n) : Prop where
  allowed : test_net ∉ w.allowlist
  blocked : unexpired w.clock.toNat ((view w).deadline (.single test_ip)) = none
  ruled : ∀ v, w.portrules.lookup test_rule = some v → ∀ c, (v c).action = ACTION_DENY

/-! ### The view after an operation -/

/-- The operations that only look. -/
def Looks : Op → Prop
  | .ktime_get_ns | .config_lookup | .block_items | .allow_lookup _ | .port_items | .stat_sum _
  | .state_items => True
  | _ => False

lemma view_looks {cpu : Fin n} {w w' : World n} {o : Op} {b : Ans o} (ho : Looks o)
    (h : kernel Passing cpu w o b w') : view w' = view w := by
  obtain ⟨w1, hpass, hx⟩ := h
  rw [← hpass.1]
  cases o <;> first | exact ho.elim | (cases hx; rfl)

/-- A part of the test that only looks. -/
lemma view_of_looks {α : Type} {cpu : Fin n} {w w' : World n} {p : Call α} {a : α}
    (hp : Uses Looks p) (h : Exec (kernel Passing cpu) w p a w') : view w' = view w :=
  hp.exec (I := fun w' => view w' = view w)
    (fun _ _ _ _ ho hop hv => (view_looks ho hop).trans hv) h rfl

/-- Whatever is read of an entry, after a store of another one. -/
lemma read_insert {K V D : Type} [DecidableEq K] (g : Option V → D) (m : Store K V) (k : K)
    (v : V) : (fun k' => g ((m.insert k v).lookup k')) =
      Function.update (fun k' => g (m.lookup k')) k (g (some v)) := by
  funext k'
  by_cases hk : k' = k
  · subst hk
    rw [Function.update_self, AList.lookup_insert]
  · rw [Function.update_of_ne hk, AList.lookup_insert_ne hk]

lemma read_erase {K V D : Type} [DecidableEq K] (g : Option V → D) (m : Store K V) (k : K) :
    (fun k' => g ((m.erase k).lookup k')) =
      Function.update (fun k' => g (m.lookup k')) k (g none) := by
  funext k'
  by_cases hk : k' = k
  · subst hk
    rw [Function.update_self, AList.lookup_erase]
  · rw [Function.update_of_ne hk, AList.lookup_erase_ne hk]

lemma isSome_of_map {α β : Type} {f : α → β} {a b : Option α} (h : a.map f = b.map f) :
    a.isSome = b.isSome := by
  have hsome := congrArg Option.isSome h
  rwa [Option.isSome_map, Option.isSome_map] at hsome

/-- Stores with the same keys have the same room. -/
lemma update_room {K V : Type} [DecidableEq K] {m m' : Store K V} {k : K} (max : ℕ) (v : V)
    (hsame : ∀ k, (m'.lookup k).isSome = (m.lookup k).isSome)
    (hroom : k ∈ m ∨ m.keys.length < max) : update max m' k v = (false, m'.insert k v) := by
  have hmem : ∀ k, k ∈ m' ↔ k ∈ m := by
    intro k
    rw [← AList.lookup_isSome, ← AList.lookup_isSome, hsame k]
  have hlen : m'.keys.length = m.keys.length :=
    ((List.perm_ext_iff_of_nodup m'.nodupKeys m.nodupKeys).mpr hmem).length_eq
  have hroom' : k ∈ m' ∨ m'.keys.length < max := by rwa [hmem k, hlen]
  exact if_pos hroom'

variable {cpu : Fin n} {w0 w w' : World n}

/-- The test's prefix is stored. -/
lemma exec_allow {r : Except PyError Unit} (hroom : Room w0)
    (hsame : (view w).allowed = (view w0).allowed)
    (h : Exec (kernel Passing cpu) w (allow test_net) r w') :
    r = .ok () ∧
      view w' = (view w).set_allowed true := by
  obtain ⟨failed, w1, hop, hup⟩ := Exc.lift_bind_inv h
  obtain ⟨failed', w2, ⟨w3, hpass, hx⟩, hret⟩ := exec_call.mp hop
  obtain ⟨rfl, rfl⟩ := exec_ret.mp hret
  have hkeys : ∀ k, (w3.allowlist.lookup k).isSome = (w0.allowlist.lookup k).isSome :=
    fun k => congrFun ((congrArg View.allowed hpass.1).trans hsame) k
  have hstored := update_room MAX_ALLOWLIST ⟨0, 0⟩ hkeys hroom.allowed
  unfold exec at hx
  dsimp only at hx
  rw [hstored] at hx
  cases hx
  obtain ⟨rfl, rfl⟩ := exec_ret.mp hup
  refine ⟨rfl, ?_⟩
  rw [← hpass.1]
  exact View.ext (read_insert Option.isSome _ _ _) rfl rfl

lemma exec_unallow {found : Bool} (h : Exec (kernel Passing cpu) w (unallow test_net) found w') :
    view w' = (view w).set_allowed false := by
  obtain ⟨found', w2, ⟨w3, hpass, hx⟩, hret⟩ := exec_call.mp h
  obtain ⟨rfl, rfl⟩ := exec_ret.mp hret
  cases hx
  rw [← hpass.1]
  exact View.ext (read_erase Option.isSome _ _) rfl rfl

/-- The test's block is stored, unless its end does not fit. -/
lemma exec_block {ns : ℕ} {r : Except PyError Unit} (hroom : Room w0)
    (hsame : (view w).deadline = (view w0).deadline)
    (h : Exec (kernel Passing cpu) w (block (.single test_ip) (some ns) BLOCK_MANUAL) r w') :
    (r = .error .struct_error ∧ view w' = view w ∧ ¬ w'.clock.toNat + ns < 2 ^ 64) ∨
      r = .ok () ∧ ∃ d, view w' = (view w).set_deadline (some d) := by
  rw [block_some] at h
  obtain ⟨clock, w1, ⟨w2, hpass, hclock⟩, hstore⟩ := exec_call.mp h
  cases hclock
  by_cases hfits : w1.clock.toNat + ns < 2 ^ 64
  · rw [store_fits _ _ hfits] at hstore
    obtain ⟨failed, w3, hop, hup⟩ := Exc.lift_bind_inv hstore
    obtain ⟨failed', w4, ⟨w5, hpass', hx⟩, hret⟩ := exec_call.mp hop
    obtain ⟨rfl, rfl⟩ := exec_ret.mp hret
    have hview : view w5 = view w := hpass'.1.trans hpass.1
    have hkeys : ∀ k, (w5.blocklist.lookup k).isSome = (w0.blocklist.lookup k).isSome :=
      fun k => isSome_of_map (congrFun ((congrArg View.deadline hview).trans hsame) k)
    have hstored := update_room MAX_BLOCKLIST
      ⟨BitVec.ofNat 64 (w1.clock.toNat + ns), 0, BLOCK_MANUAL⟩ hkeys hroom.blocked
    unfold exec at hx
    dsimp only at hx
    rw [hstored] at hx
    cases hx
    obtain ⟨rfl, rfl⟩ := exec_ret.mp hup
    refine Or.inr ⟨rfl, BitVec.ofNat 64 (w1.clock.toNat + ns), ?_⟩
    rw [← hview]
    exact View.ext rfl (read_insert (Option.map BlockVal.expires_ns) _ _ _) rfl
  · rw [store_not_fits _ _ hfits] at hstore
    obtain ⟨rfl, rfl⟩ := exec_ret.mp hstore
    exact Or.inl ⟨rfl, hpass.1, hfits⟩

lemma exec_unblock {found : Bool}
    (h : Exec (kernel Passing cpu) w (unblock (.single test_ip)) found w') :
    view w' = (view w).set_deadline none := by
  obtain ⟨found', w2, ⟨w3, hpass, hx⟩, hret⟩ := exec_call.mp h
  obtain ⟨rfl, rfl⟩ := exec_ret.mp hret
  cases hx
  rw [← hpass.1]
  exact View.ext rfl (read_erase (Option.map BlockVal.expires_ns) _ _) rfl

lemma parse_udp (py : Str) : parse_proto py "udp" = .ok 17 := by
  have hknown : ("udp", 17) ∈ PROTOCOLS := by decide
  exact parse_known py hknown

lemma port_key_udp (py : Str) : port_key py "udp" 65001 = .ret (.ok test_rule) := by
  rw [port_key_eq, key_of, parse_udp]
  rfl

lemma exec_set_port_rule {py : Str} {r : Except PyError Unit} (hroom : Room w0)
    (hsame : (view w).action = (view w0).action)
    (h : Exec (kernel Passing cpu) w (set_port_rule py "udp" 65001 ACTION_DENY) r w') :
    r = .ok () ∧ view w' = (view w).set_action (some fun _ => ACTION_DENY) := by
  unfold set_port_rule at h
  rw [port_key_udp] at h
  obtain ⟨failed, w1, hop, hup⟩ := Exc.lift_bind_inv h
  obtain ⟨failed', w2, ⟨w3, hpass, hx⟩, hret⟩ := exec_call.mp hop
  obtain ⟨rfl, rfl⟩ := exec_ret.mp hret
  have hkeys : ∀ k, (w3.portrules.lookup k).isSome = (w0.portrules.lookup k).isSome :=
    fun k => isSome_of_map (congrFun ((congrArg View.action hpass.1).trans hsame) k)
  have hstored := update_room MAX_PORT_RULES (fun _ : Fin n => ⟨0, ACTION_DENY⟩) hkeys
    hroom.ruled
  unfold exec at hx
  dsimp only at hx
  rw [hstored] at hx
  cases hx
  obtain ⟨rfl, rfl⟩ := exec_ret.mp hup
  refine ⟨rfl, ?_⟩
  rw [← hpass.1]
  exact View.ext rfl rfl
    (read_insert (Option.map fun (v : Fin n → PortVal) c => (v c).action) _ _ _)

lemma exec_del_port_rule {py : Str} {r : Except PyError Bool}
    (h : Exec (kernel Passing cpu) w (del_port_rule py "udp" 65001) r w') :
    (∃ found, r = .ok found) ∧ view w' = (view w).set_action none := by
  unfold del_port_rule at h
  rw [port_key_udp] at h
  obtain ⟨found, rfl, hop⟩ := Exc.lift_inv h
  obtain ⟨found', w2, ⟨w3, hpass, hx⟩, hret⟩ := exec_call.mp hop
  obtain ⟨rfl, rfl⟩ := exec_ret.mp hret
  cases hx
  refine ⟨⟨_, rfl⟩, ?_⟩
  rw [← hpass.1]
  exact View.ext rfl rfl
    (read_erase (Option.map fun (v : Fin n → PortVal) c => (v c).action) _ _)

/-- A rule is listed as `udp`, port 65001, only under the key of the test. -/
lemma port_rule_key {k : PortKey} {copies : List PortVal} {r : PortRule}
    (h : port_rule k copies = .ok r) : (r.proto, r.port) = ("udp", 65001) ↔ k = test_rule := by
  cases copies with
  | nil => cases h
  | cons c cs =>
    cases h
    constructor
    · intro heq
      obtain ⟨hname, hport⟩ := Prod.ext_iff.mp heq
      have hnum : k.proto.toNat ≤ 255 := by omega
      have hback := parse_proto_name ascii hnum
      have hname' : proto_name k.proto.toNat = "udp" := hname
      rw [hname', parse_udp] at hback
      obtain ⟨proto, port⟩ := k
      have hproto : proto = 17 := by
        apply BitVec.eq_of_toNat_eq
        exact (Except.ok.inj hback).symm
      have hport' : port = 65001 := BitVec.eq_of_toNat_eq hport
      rw [hproto, hport']
      rfl
    · rintro rfl
      rfl

/-- The listing is complete, and has the test's rule only if there is one. -/
lemma exec_list_port_rules {r : Except PyError (List PortRule)}
    (h : Exec (kernel Passing cpu) w list_port_rules r w') :
    ∃ rules, r = .ok rules ∧ view w' = view w ∧
      (("udp", 65001) ∈ rules.map (fun r => (r.proto, r.port)) ↔
        ((view w).action test_rule).isSome = true) := by
  obtain ⟨items, w1, hop, hrules⟩ := Exc.lift_bind_inv h
  obtain ⟨items', w2, ⟨w3, hpass, hx⟩, hret⟩ := exec_call.mp hop
  obtain ⟨rfl, rfl⟩ := exec_ret.mp hret
  cases hx
  obtain ⟨rfl, rfl⟩ := exec_ret.mp hrules
  have hnamed := port_rules_ok cpu w'.portrules
  obtain ⟨rules, hok, hall⟩ := mapM_ok hnamed
  refine ⟨rules, hok, hpass.1, ?_⟩
  have hsome : ((view w).action test_rule).isSome = (w'.portrules.lookup test_rule).isSome := by
    rw [← hpass.1]
    exact Option.isSome_map
  rw [hsome]
  constructor
  · intro hmem
    obtain ⟨r, hr, heq⟩ := List.mem_map.mp hmem
    obtain ⟨e, he, hf⟩ := mem_of_mapM hok hr
    obtain ⟨⟨k, rule⟩, hk, rfl⟩ := List.mem_map.mp he
    obtain rfl := (port_rule_key hf).mp heq
    rw [Dict.mem_items.mp hk]
    rfl
  · intro hin
    obtain ⟨rule, hrule⟩ := Option.isSome_iff_exists.mp hin
    have he : (test_rule, List.ofFn rule) ∈
        (Dict.items w'.portrules).map fun e => (e.1, List.ofFn e.2) :=
      List.mem_map.mpr ⟨(test_rule, rule), Dict.mem_items.mpr hrule, rfl⟩
    obtain ⟨r, hr⟩ := hnamed _ he
    exact List.mem_map.mpr ⟨r, hall _ he r hr, (port_rule_key hr).mpr rfl⟩

/-! ### The whole test -/

/-- What a test leaves that has come to the end of its writes. -/
def tested (v : View n) : View n :=
  ((v.set_deadline none).set_allowed false).set_action
    (if (v.action test_rule).isSome then some fun _ => ACTION_DENY else none)

lemma uses_read_config : Uses Looks read_config := by
  refine ⟨trivial, fun c => ?_⟩
  cases c <;> trivial

lemma uses_list_blocked (include_expired : Bool) : Uses Looks (list_blocked include_expired) :=
  uses_bind (uses_ktime_ns trivial) fun _ => uses_bind (uses_op trivial) fun _ => trivial

lemma uses_is_allowed (a : Addr) : Uses Looks (is_allowed a) :=
  uses_bind (uses_op trivial) fun _ => trivial

lemma looks_of_read {o : Op} (h : ReadOp o) : Looks o := by
  cases o <;> trivial

lemma read_config_ok {c : Except PyError Config}
    (h : Exec (kernel Passing cpu) w read_config c w') : ∃ cfg, c = .ok cfg := by
  obtain ⟨c', w1, ⟨w2, -, hx⟩, hret⟩ := exec_call.mp h
  cases hx
  obtain ⟨rfl, -⟩ := exec_ret.mp hret
  exact ⟨_, rfl⟩

/-- The part of the test that only looks. -/
lemma exec_program {program : Option String} {f : String → ℕ} {r : Except PyError ℕ}
    (h : Exec (kernel Passing cpu) w (do
      let name ← prog_info program
      return f name : Py ℕ) r w') : r ≠ .error .struct_error ∧ w' = w := by
  cases program with
  | none =>
    obtain ⟨rfl, rfl⟩ := exec_ret.mp h
    exact ⟨nofun, rfl⟩
  | some name =>
    obtain ⟨rfl, rfl⟩ := exec_ret.mp h
    exact ⟨nofun, rfl⟩

/-- The end of the test, once it has written its rule. -/
lemma exec_rest {py : Str} {had : List (String × ℕ)} {program : Option String}
    {f : Stats → Dict Addr SrcState → String → ℕ} {r : Except PyError ℕ}
    (h : Exec (kernel Passing cpu) w (do
      let _ ← (if ("udp", 65001) ∉ had then del_port_rule py "udp" 65001 else pure false : Py Bool)
      let s ← read_stats
      let states ← read_states
      let name ← prog_info program
      return f s states name : Py ℕ) r w') :
    r ≠ .error .struct_error ∧
      view w' = if ("udp", 65001) ∈ had then view w else (view w).set_action none := by
  have hlook : ∀ {w : World n}, Exec (kernel Passing cpu) w (do
      let s ← read_stats
      let states ← read_states
      let name ← prog_info program
      return f s states name : Py ℕ) r w' → r ≠ .error .struct_error ∧ view w' = view w := by
    intro w h
    obtain ⟨s, w1, hstats, h⟩ := Exc.lift_bind_inv h
    obtain ⟨states, w2, hstates, h⟩ := Exc.lift_bind_inv h
    obtain ⟨hne, rfl⟩ := exec_program h
    have h1 := view_of_looks (uses_read_stats.mono fun _ => looks_of_read) hstats
    have h2 := view_of_looks (uses_read_states trivial) hstates
    exact ⟨hne, h2.trans h1⟩
  split_ifs with hhad
  · rw [if_neg (not_not.mpr hhad)] at h
    exact hlook h
  · rw [if_pos hhad] at h
    rcases Exc.bind_inv h with ⟨found, w1, hdel, h⟩ | ⟨e, rfl, hdel⟩
    · obtain ⟨hne, hv⟩ := hlook h
      exact ⟨hne, hv.trans (exec_del_port_rule hdel).2⟩
    · obtain ⟨⟨found, hok⟩, -⟩ := exec_del_port_rule hdel
      cases hok

/-- **The self-test on the three maps.** It stops before its first write or makes all of them. -/
theorem view_selftest {py : Str} {program : Option String} {r : Except PyError ℕ}
    (hroom : Room w) (h : Exec (kernel Passing cpu) w (cmd_selftest py program) r w') :
    (r = .error .struct_error ∧ view w' = view w ∧
        ¬ w'.clock.toNat + 5 * 1000000000 < 2 ^ 64) ∨
      (r ≠ .error .struct_error ∧ view w' = tested (view w)) := by
  unfold cmd_selftest at h
  rcases Exc.bind_inv h with ⟨cfg, w1, hcfg, h⟩ | ⟨e, rfl, hcfg⟩
  swap
  · obtain ⟨cfg, hok⟩ := read_config_ok hcfg
    cases hok
  have h1 := view_of_looks uses_read_config hcfg
  rcases Exc.bind_inv h with ⟨u, w2, hblock, h⟩ | ⟨e, rfl, hblock⟩
  swap
  · rcases exec_block hroom (congrArg View.deadline h1) hblock with ⟨he, hv, hlate⟩ | ⟨hok, -⟩
    · cases he
      exact Or.inl ⟨rfl, hv.trans h1, hlate⟩
    · cases hok
  rcases exec_block hroom (congrArg View.deadline h1) hblock with ⟨he, -⟩ | ⟨-, d, h2⟩
  · cases he
  obtain ⟨blocked, w3, hlist, h⟩ := Exc.lift_bind_inv h
  have h3 := view_of_looks (uses_list_blocked false) hlist
  obtain ⟨found, w4, hunblock, h⟩ := Exc.lift_bind_inv h
  have h4 := exec_unblock hunblock
  rw [h3, h2, h1, View.set_deadline_set_deadline] at h4
  have hallowed : (view w4).allowed = (view w).allowed := by
    rw [h4]
    rfl
  rcases Exc.bind_inv h with ⟨u, w5, hallow, h⟩ | ⟨e, rfl, hallow⟩
  swap
  · have hok := (exec_allow hroom hallowed hallow).1
    cases hok
  have h5 := (exec_allow hroom hallowed hallow).2
  obtain ⟨prefix_found, w6, hfind, h⟩ := Exc.lift_bind_inv h
  have h6 := view_of_looks (uses_is_allowed test_member) hfind
  obtain ⟨found', w7, hunallow, h⟩ := Exc.lift_bind_inv h
  have h7 := exec_unallow hunallow
  rw [h6, h5, h4, View.set_allowed_set_allowed] at h7
  rcases Exc.bind_inv h with ⟨had, w8, hhad, h⟩ | ⟨e, rfl, hhad⟩
  swap
  · obtain ⟨rules, hok, -⟩ := exec_list_port_rules hhad
    cases hok
  obtain ⟨rules, hok, h8, hrule⟩ := exec_list_port_rules hhad
  cases hok
  rw [h7] at h8 hrule
  have haction : (view w8).action = (view w).action := by
    rw [h8]
    rfl
  rcases Exc.bind_inv h with ⟨u, w9, hset, h⟩ | ⟨e, rfl, hset⟩
  swap
  · have hok := (exec_set_port_rule hroom haction hset).1
    cases hok
  have h9 := (exec_set_port_rule hroom haction hset).2
  rcases Exc.bind_inv h with ⟨rules, w10, hrules, h⟩ | ⟨e, rfl, hrules⟩
  swap
  · obtain ⟨rules, hok, -⟩ := exec_list_port_rules hrules
    cases hok
  obtain ⟨rules, -, h10, -⟩ := exec_list_port_rules hrules
  rw [h9, h8] at h10
  obtain ⟨hne, hv⟩ := exec_rest h
  refine Or.inr ⟨hne, hv.trans ?_⟩
  rw [h10, View.set_action_set_action]
  unfold tested
  split_ifs with hhad' hsome hsome
  · rfl
  · exact absurd (hrule.mp hhad') hsome
  · exact absurd (hrule.mpr hsome) hhad'
  · rfl

lemma restored_of_view (hv : view w' = view w) : Restored w w' :=
  ⟨by rw [hv], fun k => by rw [hv], by rw [hv]⟩

lemma allowed_iff : (view w).allowed test_net = false ↔ test_net ∉ w.allowlist := by
  rw [← AList.lookup_isSome, Bool.not_eq_true]
  rfl

/-- A rule that denies on every CPU is the one the test writes. -/
lemma denies_iff {x : Option (Fin n → PortVal)} :
    (∀ v, x = some v → ∀ c, (v c).action = ACTION_DENY) ↔
      (if (x.map fun v c => (v c).action).isSome then some fun _ => ACTION_DENY else none) =
        x.map fun v c => (v c).action := by
  cases x with
  | none => simp
  | some v =>
    rw [Option.map_some, Option.isSome_some, if_pos rfl, Option.some_inj, funext_iff]
    constructor
    · exact fun h c => (h v rfl c).symm
    · rintro h v' ⟨⟩ c
      exact (h c).symm

lemma restored_iff_of_tested (hv : view w' = tested (view w)) : Restored w w' ↔ Spared w := by
  have hallowed : (view w').allowed = Function.update (view w).allowed test_net false := by
    rw [hv]
    rfl
  have hdeadline : (view w').deadline =
      Function.update (view w).deadline (.single test_ip) none := by
    rw [hv]
    rfl
  have haction : (view w').action = Function.update (view w).action test_rule
      (if ((view w).action test_rule).isSome then some fun _ => ACTION_DENY else none) := by
    rw [hv]
    rfl
  constructor
  · rintro ⟨ha, hd, hp⟩
    refine ⟨?_, ?_, ?_⟩
    · rw [hallowed, Function.update_eq_self_iff] at ha
      exact allowed_iff.mp ha.symm
    · have hip := hd (.single test_ip)
      rw [hdeadline, Function.update_self] at hip
      exact hip.symm
    · rw [haction, Function.update_eq_self_iff] at hp
      exact denies_iff.mpr hp
  · rintro ⟨ha, hd, hp⟩
    refine ⟨?_, fun k => ?_, ?_⟩
    · rw [hallowed, Function.update_eq_self_iff]
      exact (allowed_iff.mpr ha).symm
    · rw [hdeadline]
      by_cases hk : k = .single test_ip
      · rw [hk, Function.update_self, hd]
        rfl
      · rw [Function.update_of_ne hk]
    · rw [haction, Function.update_eq_self_iff]
      exact denies_iff.mp hp

/-- **The self-test restores the maps** exactly when the operator has nothing under its keys that
it would lose, whatever packets come meanwhile. If the end of its block does not fit it stops
before the first write. -/
theorem restored_iff_spared {py : Str} {program : Option String} {r : Except PyError ℕ}
    (hroom : Room w) (h : Exec (kernel Passing cpu) w (cmd_selftest py program) r w') :
    (r = .error .struct_error → Restored w w') ∧
      (r ≠ .error .struct_error → (Restored w w' ↔ Spared w)) := by
  rcases view_selftest hroom h with ⟨he, hv, -⟩ | ⟨hne, hv⟩
  · exact ⟨fun _ => restored_of_view hv, fun hne => absurd he hne⟩
  · exact ⟨fun he => absurd he hne, fun _ => restored_iff_of_tested hv⟩

/-- The operator allows the network of the test. -/
def office : World 1 :=
  { World.loaded 1 with allowlist := (∅ : Store LpmKey AllowVal).insert test_net ⟨0, 0⟩ }

/-- Nothing moves the clock while a program runs alone. -/
lemma clock_run {α : Type} (p : Call α) (w : World n) : (run (exec cpu) p w).2.clock = w.clock := by
  induction p generalizing w with
  | ret a => rfl
  | call o k ih => exact (ih _ _).trans (exec_clock cpu w o)

lemma room_loaded : Room (World.loaded 1) :=
  ⟨Or.inr (by decide), Or.inr (by decide), Or.inr (by decide)⟩

lemma room_office : Room office :=
  ⟨Or.inl ((AList.mem_insert _).mpr (Or.inl rfl)), Or.inr (by decide), Or.inr (by decide)⟩

/-- On maps without entries nothing is lost. -/
theorem restored_iff_spared_loaded :
    ∃ r w', Exec (kernel Passing 0) (World.loaded 1)
      (cmd_selftest ascii (some "xdp_firewall")) r w' ∧ Restored (World.loaded 1) w' := by
  have hexec := exec_run (f := exec (0 : Fin 1)) (E := Passing) (fun w => ⟨rfl, BitVec.le_refl _⟩)
    (cmd_selftest ascii (some "xdp_firewall")) (World.loaded 1)
  obtain ⟨herror, hok⟩ := restored_iff_spared room_loaded hexec
  refine ⟨_, _, hexec, ?_⟩
  by_cases he : (run (exec (0 : Fin 1)) (cmd_selftest ascii (some "xdp_firewall"))
      (World.loaded 1)).1 = .error .struct_error
  · exact herror he
  · exact (hok he).mpr ⟨nofun, rfl, nofun⟩

/-- The prefix the operator allows is no longer allowed after a self-test. -/
theorem office_not_restored :
    ∃ r w', Exec (kernel Passing 0) office (cmd_selftest ascii (some "xdp_firewall")) r w' ∧
      Room office ∧ ¬ Restored office w' := by
  have hexec := exec_run (f := exec (0 : Fin 1)) (E := Passing) (fun w => ⟨rfl, BitVec.le_refl _⟩)
    (cmd_selftest ascii (some "xdp_firewall")) office
  refine ⟨_, _, hexec, room_office, ?_⟩
  rcases view_selftest room_office hexec with ⟨-, -, hlate⟩ | ⟨-, hv⟩
  · have hclock : (run (exec (0 : Fin 1)) (cmd_selftest ascii (some "xdp_firewall"))
        office).2.clock = office.clock := clock_run _ _
    rw [hclock] at hlate
    exact absurd (by decide) hlate
  · rw [restored_iff_of_tested hv]
    exact fun hspared => hspared.allowed ((AList.mem_insert _).mpr (Or.inl rfl))

end Lookout.Selftest

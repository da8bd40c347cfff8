import Lookout.Traffic

/-!
What the limiter sees of the maps.

The verdict on a packet and the tokens it leaves depend on the configuration, on what the
lists answer, on the tokens and refill times of the sources and on how many there are. All
other counters are only written. The handling of a packet is a function on that view: the
packet leaves the program early, or comes to `update_state` with its locals.
-/

namespace Lookout.Views

open Lookout.Effects Lookout.Effects.Prog Lookout.Lpm Lookout.Handles Lookout.Common
open Lookout.Packet Lookout.Limiter Lookout.Kernel Lookout.Xdp Lookout.Accounting
open Lookout.Traffic

variable {n : ℕ}

/-- The tokens of an entry and the time of its last refill. -/
def tok (st : SrcState) : U64 × U64 := (st.tokens, st.last_refill_ns)

@[ext]
structure View (n : ℕ) where
  config : FwConfig
  allowed : Addr → Bool
  /-- The deadline of the blocklist entry that answers for an address. -/
  blocked : Addr → Option U64
  action : PortKey → Option (Fin n → U32)
  bucket : Addr → Option (U64 × U64)
  size : ℕ
  /-- The sum of `LIMITER_INPUT`. -/
  input : ℕ

def view (w : World n) : View n where
  config := w.config
  allowed a := (find w.allowlist a).isSome
  blocked a := (find w.blocklist a).map fun e => e.2.expires_ns
  action k := (w.portrules.lookup k).map fun v c => (v c).action
  bucket a := (w.srcstate.get a).map tok
  size := w.srcstate.size
  input := limiter_input w.total

/-! ### The handling of a packet, on the view -/

/-- The packet leaves the program, or comes to `update_state`. -/
inductive Way
  | out (verdict : Verdict)
  | update (p : Pending)

namespace View

/-- Counting under a reason. -/
def count (v : View n) (r : Stat) : View n :=
  { v with input := v.input + if r ∈ LIMITER_INPUT then 1 else 0 }

def port (v : View n) (cpu : Fin n) (feat policy : U32) (proto : Byte) (rule_port : U16) :
    Verdict × Stat :=
  if has feat FEAT_PORT_RULES then
    match v.action ⟨proto, rule_port⟩ with
    | some action =>
      if action cpu = ACTION_DENY then (.drop, .drop_port_rule) else (.pass, .pass_rule)
    | none => if policy = ACTION_DENY then (.drop, .drop_default) else (.pass, .pass_default)
  else (.pass, .pass_default)

def verdict (v : View n) (cpu : Fin n) (cfg : FwConfig) (ip : IpHdr) (l4 : L4Hdr) :
    Verdict × Stat :=
  if ip.is_frag then
    if has cfg.features FEAT_DROP_FRAGS then (.drop, .drop_fragment)
    else if has cfg.features FEAT_PORT_RULES ∧ cfg.default_policy = ACTION_DENY then
      (.drop, .drop_default)
    else (.pass, .pass_default)
  else if has cfg.features FEAT_PROTO_SANITY ∧ ip.proto = IPPROTO_TCP ∧
      tcp_flags_sane l4.tcp_flags = false then
    (.drop, .drop_proto)
  else v.port cpu cfg.features cfg.default_policy ip.proto l4.rule_port

def l4_way (v : View n) (cpu : Fin n) (f : Frame) (now : U64) (ip : IpHdr) : Way :=
  match parse_l4 f ip with
  | none => .out .drop
  | some l4 =>
    let r := v.verdict cpu v.config ip l4
    .update
      { now, rate := v.config.rate_pps, burst := v.config.burst_pkts, feat := v.config.features,
        saddr := ip.saddr, proto := ip.proto, tcp_flags := l4.tcp_flags, dport := l4.dport,
        pkt_len := f.pkt_len, verdict := r.1, reason := r.2 }

/-- An entry with this deadline is active. -/
def in_force (expires_ns now : U64) : Bool := decide (expires_ns = 0 ∨ expires_ns > now)

def blocks (v : View n) (a : Addr) (now : U64) : Bool := (v.blocked a).any fun e => in_force e now

def way (v : View n) (cpu : Fin n) (f : Frame) (now : U64) : Way :=
  match parse_l3 f with
  | .malformed => .out .drop
  | .non_ipv4 => .out .pass
  | .ipv4 ip =>
    if has v.config.features FEAT_ALLOWLIST ∧ v.allowed ip.saddr then .out .pass
    else if has v.config.features FEAT_BLOCKLIST ∧ v.blocks ip.saddr now then .out .drop
    else v.l4_way cpu f now ip

/-- The locked section, on the tokens alone. -/
def limit (p : Pending) (t : U64 × U64) : (U64 × U64) × Verdict × Stat :=
  let r := locked p { init p with tokens := t.1, last_refill_ns := t.2 }
  (tok r.1, r.2)

/-- After the locked section. -/
def settle (v : View n) (a : Addr) (r : (U64 × U64) × Verdict × Stat) : Verdict × View n :=
  (r.2.1, ({ v with bucket := Function.update v.bucket a (some r.1) } : View n).count r.2.2)

/-- Everything from the label `update_state`. -/
def update (v : View n) (p : Pending) : Verdict × View n :=
  if has p.feat FEAT_TRACK_STATE then
    match v.bucket p.saddr with
    | some t => v.settle p.saddr (limit p t)
    | none =>
      if v.size < MAX_TRACKED then
        ({ v with size := v.size + 1 } : View n).settle p.saddr (limit p (p.burst, p.now))
      else (p.verdict, v.count p.reason)
  else (p.verdict, v.count p.reason)

def handle (v : View n) (cpu : Fin n) (f : Frame) (now : U64) : Verdict × View n :=
  match v.way cpu f now with
  | .out verdict => (verdict, v)
  | .update p => v.update p

end View

/-! ### What the operations leave alone -/

lemma tok_count_drop (v : Verdict) (st : SrcState) : tok (count_drop v st) = tok st := by
  unfold count_drop
  split_ifs <;> rfl

lemma token_bucket_tok (p : Pending) {st st' : SrcState} (h : tok st = tok st') :
    (tok (token_bucket p st).1, (token_bucket p st).2) =
      (tok (token_bucket p st').1, (token_bucket p st').2) := by
  obtain ⟨htok, hlast⟩ := Prod.mk.inj h
  unfold token_bucket
  rw [htok, hlast]
  dsimp only
  split_ifs <;> rfl

/-- **The locked section reads the tokens alone.** -/
theorem limit_tok (p : Pending) (st : SrcState) :
    (tok (locked p st).1, (locked p st).2) = View.limit p (tok st) := by
  have htok : tok (count_packet p st) =
      tok (count_packet p { init p with tokens := st.tokens, last_refill_ns := st.last_refill_ns }) :=
    rfl
  have hbucket := token_bucket_tok p htok
  unfold View.limit locked charge
  simp only [tok_count_drop]
  split_ifs
  · exact hbucket
  · rfl

lemma view_allow_hit (cpu : Fin n) (w : World n) (k : LpmKey) :
    view (exec cpu w (.allow_hit k)).2 = view w := by
  have halike : Alike AllowVal.flags w.allowlist
      (Kernel.modify w.allowlist k fun v => { v with hits := v.hits + 1 }) :=
    alike_modify (by intro v; rfl) _ _
  refine View.ext rfl ?_ rfl rfl rfl rfl rfl
  funext a
  have h := congrArg Option.isSome (find_alike halike a)
  rwa [Option.isSome_map, Option.isSome_map] at h

lemma view_block_hit (cpu : Fin n) (w : World n) (k : LpmKey) :
    view (exec cpu w (.block_hit k)).2 = view w := by
  have halike : Alike BlockVal.expires_ns w.blocklist
      (Kernel.modify w.blocklist k fun v => { v with hits := v.hits + 1 }) :=
    alike_modify (by intro v; rfl) _ _
  exact View.ext rfl rfl (funext (find_alike halike)) rfl rfl rfl rfl

lemma view_port_hit (cpu : Fin n) (w : World n) (k : PortKey) :
    view (exec cpu w (.port_hit k)).2 = view w := by
  refine View.ext rfl rfl rfl (funext fun k' => ?_) rfl rfl rfl
  change ((Kernel.modify w.portrules k _).lookup k').map _ = _
  rw [lookup_modify]
  split_ifs with hk
  · subst hk
    rw [Option.map_map]
    congr 1
    funext v c
    simp only [Function.comp]
    split_ifs <;> rfl
  · rfl

lemma total_bump (cpu : Fin n) (w : World n) (r s : Stat) (x : ℕ) :
    (exec cpu w (.stat_add r x)).2.total s = w.total s + if s = r then x else 0 :=
  exec_total rfl s

lemma view_stat_inc (cpu : Fin n) (w : World n) (r : Stat) :
    view (exec cpu w (.stat_add r 1)).2 = (view w).count r := by
  refine View.ext rfl rfl rfl rfl rfl rfl ?_
  change limiter_input _ = limiter_input w.total + _
  unfold limiter_input
  simp only [LIMITER_INPUT, List.map_cons, List.map_nil, List.sum_cons, List.sum_nil, total_bump]
  cases r <;> simp
  all_goals omega

/-- A counter that is none of the limiter's. -/
lemma view_stat_add (cpu : Fin n) (w : World n) {r : Stat} (x : ℕ) (hr : r ∉ LIMITER_INPUT) :
    view (exec cpu w (.stat_add r x)).2 = view w := by
  refine View.ext rfl rfl rfl rfl rfl rfl ?_
  change limiter_input _ = limiter_input w.total
  unfold limiter_input
  refine congrArg List.sum (List.map_congr_left fun s hs => ?_)
  have hne : s ≠ r := fun h => hr (h ▸ hs)
  rw [total_bump, if_neg hne, Nat.add_zero]

lemma count_of_notMem {v : View n} {r : Stat} (h : r ∉ LIMITER_INPUT) : v.count r = v := by
  simp [View.count, h]

lemma run_finish (cpu : Fin n) (w : World n) (r : Stat) (v : Verdict) :
    (run (exec cpu) (finish r v) w).1 = v ∧
      view (run (exec cpu) (finish r v) w).2 = (view w).count r :=
  ⟨rfl, view_stat_inc cpu w r⟩

/-! ### Before `update_state` -/

/-- From `w`, the rest `q` of the program goes the way `x`. -/
def Goes (cpu : Fin n) (q : Call Verdict) (w : World n) : Way → Prop
  | .out v => (run (exec cpu) q w).1 = v ∧ view (run (exec cpu) q w).2 = view w
  | .update p =>
    ⟨.update_state_label p.verdict p.reason, ()⟩ ∈ events (exec cpu) q w ∧
      ∃ w', view w' = view w ∧
        run (exec cpu) q w = run (exec cpu) (Xdp.update_state p) w'

variable {cpu : Fin n} {w : World n}

lemma goes_finish {r : Stat} (v : Verdict) (hr : r ∉ LIMITER_INPUT) :
    Goes cpu (finish r v) w (.out v) := by
  obtain ⟨hv, hview⟩ := run_finish cpu w r v
  rw [count_of_notMem hr] at hview
  exact ⟨hv, hview⟩

/-- An operation that does not show. -/
lemma goes_call {o : Op} {k : Ans o → Call Verdict} {x : Way}
    (hview : view (exec cpu w o).2 = view w)
    (h : Goes cpu (k (exec cpu w o).1) (exec cpu w o).2 x) : Goes cpu (.call o k) w x := by
  cases x with
  | out v => exact ⟨h.1, h.2.trans hview⟩
  | update p =>
    obtain ⟨hmem, w', hw', hrun⟩ := h
    exact ⟨List.mem_cons_of_mem _ hmem, w', hw'.trans hview, hrun⟩

lemma goes_allowlist {feat : U32} {a : Addr} {next : Call Verdict} {x : Way}
    (h : Goes cpu next w x) :
    Goes cpu (allowlist_stage feat a next) w
      (if has feat FEAT_ALLOWLIST ∧ (view w).allowed a then .out .pass else x) := by
  unfold allowlist_stage
  by_cases hfeat : has feat FEAT_ALLOWLIST = true
  · rw [if_pos hfeat]
    simp only [op_eq, call_bind, ret_bind]
    refine goes_call rfl ?_
    cases hf : find w.allowlist a with
    | none =>
      have hans : (exec cpu w (.allow_lookup a)).1 = none := hf
      have hno : (view w).allowed a = false := congrArg Option.isSome hf
      rw [hans, if_neg (by simp [hno])]
      exact h
    | some e =>
      have hans : (exec cpu w (.allow_lookup a)).1 = some e := hf
      have hyes : (view w).allowed a = true := congrArg Option.isSome hf
      rw [hans, if_pos ⟨hfeat, hyes⟩]
      exact goes_call (view_allow_hit cpu w e.1) (goes_finish .pass (by decide))
  · rw [if_neg hfeat, if_neg fun hc => hfeat hc.1]
    exact h

lemma goes_blocklist {feat : U32} {a : Addr} {now : U64} {next : Call Verdict} {x : Way}
    (h : Goes cpu next w x) :
    Goes cpu (blocklist_stage feat a now next) w
      (if has feat FEAT_BLOCKLIST ∧ (view w).blocks a now then .out .drop else x) := by
  unfold blocklist_stage
  by_cases hfeat : has feat FEAT_BLOCKLIST = true
  · rw [if_pos hfeat]
    simp only [op_eq, call_bind, ret_bind]
    refine goes_call rfl ?_
    have hblocks : (view w).blocks a now = (find w.blocklist a).any fun e => active e.2 now :=
      Option.any_map
    cases hf : find w.blocklist a with
    | none =>
      have hans : (exec cpu w (.block_lookup a)).1 = none := hf
      rw [hans, hblocks, hf, if_neg (by simp)]
      exact h
    | some e =>
      have hans : (exec cpu w (.block_lookup a)).1 = some e := hf
      rw [hans, hblocks, hf]
      dsimp only [Option.any_some]
      by_cases hact : active e.2 now = true
      · rw [if_pos hact, if_pos ⟨hfeat, hact⟩]
        exact goes_call (view_block_hit cpu w e.1) (goes_finish .drop (by decide))
      · rw [if_neg hact, if_neg fun hc => hact hc.2]
        exact h
  · rw [if_neg hfeat, if_neg fun hc => hfeat hc.1]
    exact h

lemma run_port_stage (feat policy : U32) (proto : Byte) (rule_port : U16) :
    (run (exec cpu) (port_stage feat policy proto rule_port) w).1 =
        (view w).port cpu feat policy proto rule_port ∧
      view (run (exec cpu) (port_stage feat policy proto rule_port) w).2 = view w := by
  unfold port_stage View.port
  by_cases hfeat : has feat FEAT_PORT_RULES = true
  · rw [if_pos hfeat, if_pos hfeat]
    simp only [op_eq, call_bind, ret_bind, run_call]
    cases hf : w.portrules.lookup ⟨proto, rule_port⟩ with
    | none =>
      have hans : (exec cpu w (.port_lookup ⟨proto, rule_port⟩)).1 = none := by
        simp [exec, hf]
      have haction : (view w).action ⟨proto, rule_port⟩ = none := by
        simp [view, hf]
      rw [hans, haction]
      dsimp only
      split_ifs <;> exact ⟨rfl, rfl⟩
    | some pv =>
      have hans : (exec cpu w (.port_lookup ⟨proto, rule_port⟩)).1 = some (pv cpu) := by
        simp [exec, hf]
      have haction : (view w).action ⟨proto, rule_port⟩ = some fun c => (pv c).action := by
        simp [view, hf]
      rw [hans, haction]
      simp only [run_call]
      split_ifs <;> exact ⟨rfl, view_port_hit cpu w _⟩
  · rw [if_neg hfeat, if_neg hfeat]
    exact ⟨rfl, rfl⟩

lemma run_verdict_stage (cfg : FwConfig) (ip : IpHdr) (l4 : L4Hdr) :
    (run (exec cpu) (verdict_stage cfg ip l4) w).1 = (view w).verdict cpu cfg ip l4 ∧
      view (run (exec cpu) (verdict_stage cfg ip l4) w).2 = view w := by
  unfold verdict_stage View.verdict
  split_ifs
  · exact ⟨rfl, rfl⟩
  · exact ⟨rfl, rfl⟩
  · exact ⟨rfl, rfl⟩
  · exact ⟨rfl, rfl⟩
  · exact run_port_stage _ _ _ _

lemma goes_update {q : Call (Verdict × Stat)} {g : Verdict × Stat → Call Verdict} {p : Pending}
    (hview : view (run (exec cpu) q w).2 = view w)
    (hg : g (run (exec cpu) q w).1 = Xdp.update_state p) : Goes cpu (q >>= g) w (.update p) := by
  refine ⟨?_, _, hview, ?_⟩
  · rw [events_bind, hg]
    exact List.mem_append_right _ List.mem_cons_self
  · rw [run_bind, hg]

lemma goes_l4 (f : Frame) (now : U64) (ip : IpHdr) :
    Goes cpu (l4_stage f now w.config ip) w ((view w).l4_way cpu f now ip) := by
  unfold l4_stage View.l4_way
  cases parse_l4 f ip with
  | none => exact goes_finish .drop (by decide)
  | some l4 =>
    obtain ⟨hr, hview⟩ := run_verdict_stage (w := w) w.config ip l4
    refine goes_update hview ?_
    rw [hr]
    rfl

/-- **Up to `update_state`** the packet goes the way the view says. -/
theorem goes_way (cpu : Fin n) (f : Frame) (w : World n) :
    Goes cpu (xdp_firewall f) w ((view w).way cpu f w.clock) := by
  have hconfig : ∀ w : World n,
      Goes cpu (config_stage f w.clock w.config) w ((view w).way cpu f w.clock) := by
    intro w
    unfold config_stage View.way
    cases parse_l3 f with
    | malformed => exact goes_finish .drop (by decide)
    | non_ipv4 => exact goes_finish .pass (by decide)
    | ipv4 ip => exact goes_allowlist (goes_blocklist (goes_l4 f w.clock ip))
  have hrx := view_stat_add cpu w 1 (show Stat.rx_packets ∉ LIMITER_INPUT by decide)
  have hbytes := view_stat_add cpu (exec cpu w (.stat_add .rx_packets 1)).2 f.pkt_len
    (show Stat.rx_bytes ∉ LIMITER_INPUT by decide)
  unfold xdp_firewall
  simp only [stat_inc, stat_add, op_eq, call_bind, ret_bind]
  refine goes_call rfl (goes_call hrx (goes_call hbytes (goes_call rfl ?_)))
  rw [← hrx, ← hbytes]
  exact hconfig _

/-! ### From `update_state` on -/

lemma run_locked_stage (cpu : Fin n) {p : Pending} {r : ℕ} {st : SrcState}
    (hf : w.srcstate.find p.saddr = some r) (hst : w.srcstate.get p.saddr = some st) :
    (run (exec cpu) (locked_stage r p) w).1 =
        ((view w).settle p.saddr (View.limit p (tok st))).1 ∧
      view (run (exec cpu) (locked_stage r p) w).2 =
        ((view w).settle p.saddr (View.limit p (tok st))).2 := by
  have hview : view ({ w with srcstate := w.srcstate.set r (locked p st).1 } : World n) =
      { view w with
        bucket := Function.update (view w).bucket p.saddr (some (tok (locked p st).1)) } := by
    refine View.ext rfl rfl rfl rfl (funext fun a => ?_) rfl rfl
    change ((w.srcstate.set r (locked p st).1).get a).map tok =
      Function.update (view w).bucket p.saddr (some (tok (locked p st).1)) a
    by_cases ha : a = p.saddr
    · subst ha
      rw [Function.update_self, RefMap.get_set _ _ hf]
      rfl
    · have hne : w.srcstate.find a ≠ some r := fun h => ha (w.srcstate.inj h hf)
      rw [Function.update_of_ne ha, RefMap.get_set_ne _ _ hne]
      rfl
  unfold locked_stage
  simp only [op_eq, call_bind, ret_bind, run_call]
  rw [exec_locked hf hst, ← limit_tok]
  obtain ⟨hv, hfin⟩ := run_finish cpu
    ({ w with srcstate := w.srcstate.set r (locked p st).1 } : World n)
    (locked p st).2.2 (locked p st).2.1
  rw [hview] at hfin
  exact ⟨hv, hfin⟩

lemma run_state_full (p : Pending) :
    (run (exec cpu) (Xdp.state_full p) w).1 = p.verdict ∧
      view (run (exec cpu) (Xdp.state_full p) w).2 = (view w).count p.reason := by
  have hfull := view_stat_add cpu w 1 (show Stat.state_full ∉ LIMITER_INPUT by decide)
  obtain ⟨hv, hfin⟩ := run_finish cpu (exec cpu w (.stat_add .state_full 1)).2 p.reason p.verdict
  rw [hfull] at hfin
  exact ⟨hv, hfin⟩

lemma view_insert {a : Addr} {st : SrcState} (hnew : w.srcstate.find a = none) :
    view ({ w with srcstate := w.srcstate.insert a st } : World n) =
      { view w with
        size := (view w).size + 1
        bucket := Function.update (view w).bucket a (some (tok st)) } := by
  refine View.ext rfl rfl rfl rfl (funext fun a' => ?_) ?_ rfl
  · change ((w.srcstate.insert a st).get a').map tok =
      Function.update (view w).bucket a (some (tok st)) a'
    by_cases ha : a' = a
    · subst ha
      rw [Function.update_self, RefMap.get_insert]
      rfl
    · rw [Function.update_of_ne ha, RefMap.get_insert_ne _ _ ha]
      rfl
  · exact RefMap.size_insert st hnew

lemma settle_insert {p : Pending} (hnew : w.srcstate.find p.saddr = none)
    (r : (U64 × U64) × Verdict × Stat) :
    (view ({ w with srcstate := w.srcstate.insert p.saddr (init p) } : World n)).settle p.saddr r =
      ({ view w with size := (view w).size + 1 } : View n).settle p.saddr r := by
  rw [view_insert hnew]
  unfold View.settle
  simp only [Function.update_idem]

/-- **From `update_state` on** the packet does to the view what the view says. -/
theorem run_update_state (cpu : Fin n) (p : Pending) :
    (run (exec cpu) (Xdp.update_state p) w).1 = ((view w).update p).1 ∧
      view (run (exec cpu) (Xdp.update_state p) w).2 = ((view w).update p).2 := by
  unfold View.update
  cases htrack : has p.feat FEAT_TRACK_STATE with
  | false =>
    rw [run_untracked htrack, if_neg Bool.false_ne_true]
    exact run_finish cpu w p.reason p.verdict
  | true =>
    rw [if_pos rfl]
    cases hf : w.srcstate.find p.saddr with
    | some r =>
      obtain ⟨st, hst⟩ := RefMap.deref_of_find hf
      rw [← RefMap.get_eq hf] at hst
      have hbucket : (view w).bucket p.saddr = some (tok st) := congrArg (Option.map tok) hst
      rw [run_found htrack hf, hbucket]
      exact run_locked_stage cpu hf hst
    | none =>
      have hbucket : (view w).bucket p.saddr = none :=
        congrArg (Option.map tok) (RefMap.get_eq_none.mpr hf)
      rw [hbucket]
      by_cases hroom : w.srcstate.size < MAX_TRACKED
      · have hroom' : (view w).size < MAX_TRACKED := hroom
        have hlocked := run_locked_stage cpu (p := p)
          (w := { w with srcstate := w.srcstate.insert p.saddr (init p) })
          (RefMap.find_insert w.srcstate p.saddr (init p))
          (RefMap.get_insert w.srcstate p.saddr (init p))
        rw [settle_insert hf] at hlocked
        rw [run_created htrack hf hroom]
        dsimp only
        rw [if_pos hroom']
        exact hlocked
      · have hroom' : ¬ (view w).size < MAX_TRACKED := hroom
        rw [run_full htrack hf hroom]
        dsimp only
        rw [if_neg hroom']
        exact run_state_full p

/-- **The handling of a packet is a function on the view.** -/
theorem handle_view (cpu : Fin n) (f : Frame) (w : World n) :
    (handle cpu f w).1 = ((view w).handle cpu f w.clock).1 ∧
      view (handle cpu f w).2 = ((view w).handle cpu f w.clock).2 := by
  have hgoes := goes_way cpu f w
  unfold View.handle
  cases hway : (view w).way cpu f w.clock with
  | out v =>
    rw [hway] at hgoes
    exact hgoes
  | update p =>
    rw [hway] at hgoes
    obtain ⟨-, w', hw', hrun⟩ := hgoes
    have hup := run_update_state cpu (w := w') p
    rw [hw', ← hrun] at hup
    exact hup

end Lookout.Views

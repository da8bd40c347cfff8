import Lookout.Blocklist
import Lookout.Headers
import Lookout.Reads
import Lookout.Traffic

/-!
The pipeline, stated on the fields of a packet.

The program is given bytes; its comment speaks of sources, protocols, ports and flags. The stages
are stated here on the fields alone, and the program does to the encoding of a packet what they
say of its fields.
-/

namespace Lookout.Stages

open Lookout.Effects Lookout.Effects.Prog Lookout.Lpm Lookout.Lpm.Covering Lookout.Handles
open Lookout.Common Lookout.Packet Lookout.Limiter Lookout.Kernel Lookout.Xdp
open Lookout.Blocklist Lookout.Traffic Lookout.Headers

variable {n : ℕ}

/-- What the stages look at. -/
structure Fields where
  saddr : Addr
  proto : Byte
  fragment : Bool
  l4 : L4Hdr
  len : ℕ

def fields (d : Datagram) : Fields where
  saddr := d.ip.saddr
  proto := d.ip.proto
  fragment := decide (d.ip.frag_off ≠ 0)
  l4 := d.upper.l4
  len := d.frame.pkt_len

/-! ### The stages -/

/-- The source is on the allowlist. -/
def Listed (w : World n) (a : Addr) : Prop := ∃ k ∈ w.allowlist, covers k a

lemma listed_iff (w : World n) (a : Addr) : Listed w a ↔ (find w.allowlist a).isSome = true := by
  rw [Option.isSome_iff_ne_none, ne_eq, find_none]
  push Not
  rfl

instance (w : World n) (a : Addr) : Decidable (Listed w a) :=
  decidable_of_iff _ (listed_iff w a).symm

/-- The blocklist drops the source now. -/
def Blocked (w : World n) (a : Addr) : Prop := Drops w.blocklist a w.clock

lemma blocked_iff (w : World n) (a : Addr) :
    Blocked w a ↔ ((find w.blocklist a).any fun e => active e.2 w.clock) = true := by
  unfold Blocked Drops
  cases hf : find w.blocklist a with
  | none => simp
  | some e =>
    obtain ⟨k, bv⟩ := e
    simp

instance (w : World n) (a : Addr) : Decidable (Blocked w a) :=
  decidable_of_iff _ (blocked_iff w a).symm

/-- The flag is set. -/
def Set (f bit : Byte) : Prop := f &&& bit ≠ 0

instance (f bit : Byte) : Decidable (Set f bit) := inferInstanceAs (Decidable (_ ≠ _))

/-- Flags no TCP segment of a real connection has. -/
def Impossible (f : Byte) : Prop :=
  f = 0 ∨ Set f TCP_SYN ∧ Set f TCP_FIN ∨ Set f TCP_SYN ∧ Set f TCP_RST ∨
    Set f TCP_FIN ∧ Set f TCP_RST ∨ Set f TCP_FIN ∧ Set f TCP_PSH ∧ Set f TCP_URG

instance (f : Byte) : Decidable (Impossible f) :=
  inferInstanceAs (Decidable (_ ∨ _ ∧ _ ∨ _ ∧ _ ∨ _ ∧ _ ∨ _ ∧ _ ∧ _))

lemma not_sane_iff : ∀ f : Byte, tcp_flags_sane f = false ↔ Impossible f := by
  decide +kernel

def default_policy (w : World n) : Verdict × Stat :=
  if w.config.default_policy = ACTION_DENY then (.drop, .drop_default) else (.pass, .pass_default)

/-- The port rule for the protocol and port, or the default policy. -/
def port_rule (cpu : Fin n) (x : Fields) (w : World n) : Verdict × Stat :=
  match w.portrules.lookup ⟨x.proto, x.l4.rule_port⟩ with
  | some rule =>
    if (rule cpu).action = ACTION_DENY then (.drop, .drop_port_rule) else (.pass, .pass_rule)
  | none => default_policy w

/-- What is decided before the rate limiter, of a source on neither list. -/
def ruled (cpu : Fin n) (x : Fields) (w : World n) : Verdict × Stat :=
  let feat := w.config.features
  if x.fragment then
    if has feat FEAT_DROP_FRAGS then (.drop, .drop_fragment)
    else if has feat FEAT_PORT_RULES then default_policy w
    else (.pass, .pass_default)
  else if has feat FEAT_PROTO_SANITY ∧ x.proto = IPPROTO_TCP ∧ Impossible x.l4.tcp_flags then
    (.drop, .drop_proto)
  else if has feat FEAT_PORT_RULES then port_rule cpu x w
  else (.pass, .pass_default)

/-- The packet as the rate limiter gets it. -/
def pending (x : Fields) (w : World n) (r : Verdict × Stat) : Pending where
  now := w.clock
  rate := w.config.rate_pps
  burst := w.config.burst_pkts
  feat := w.config.features
  saddr := x.saddr
  proto := x.proto
  tcp_flags := x.l4.tcp_flags
  dport := x.l4.dport
  pkt_len := x.len
  verdict := r.1
  reason := r.2

/-- The verdict, the counter it is counted under, whether the source could not be tracked, and the
entry of the source afterwards. -/
structure Outcome where
  verdict : Verdict
  reason : Stat
  full : Bool
  entry : Option SrcState
  deriving DecidableEq

def settled (r : SrcState × Verdict × Stat) : Outcome := ⟨r.2.1, r.2.2, false, some r.1⟩

/-- A packet is counted for its source and, if it still passes, takes a token of the source. -/
def tracked (p : Pending) (w : World n) : Outcome :=
  if has p.feat FEAT_TRACK_STATE then
    match w.srcstate.get p.saddr with
    | some st => settled (locked p st)
    | none =>
      if w.srcstate.size < MAX_TRACKED then settled (locked p (init p))
      else ⟨p.verdict, p.reason, true, none⟩
  else ⟨p.verdict, p.reason, false, w.srcstate.get p.saddr⟩

/-- **The pipeline.** -/
def outcome (cpu : Fin n) (x : Fields) (w : World n) : Outcome :=
  if has w.config.features FEAT_ALLOWLIST ∧ Listed w x.saddr then
    ⟨.pass, .pass_allowlist, false, w.srcstate.get x.saddr⟩
  else if has w.config.features FEAT_BLOCKLIST ∧ Blocked w x.saddr then
    ⟨.drop, .drop_blocklist, false, w.srcstate.get x.saddr⟩
  else tracked (pending x w (ruled cpu x w)) w

/-- What the outcome adds to a counter. -/
def Outcome.adds (o : Outcome) (s : Stat) : ℕ :=
  (if s = o.reason then 1 else 0) + if o.full ∧ s = .state_full then 1 else 0

/-- What is received is counted too. -/
def received (len : ℕ) (s : Stat) : ℕ :=
  (if s = .rx_packets then 1 else 0) + if s = .rx_bytes then len else 0

/-! ### The program, from the source lists on -/

/-- From `w`, the program ends in `r`: with the verdict of `o`, the counters it adds to and the
entry it leaves the source; the other sources are as they were. -/
structure Ends (cpu : Fin n) (a : Addr) (w : World n) (r : Verdict × World n) (o : Outcome) :
    Prop where
  verdict : r.1 = o.verdict
  stats : ∀ c s, r.2.stats c s = w.stats c s + if c = cpu then o.adds s else 0
  entry : r.2.srcstate.get a = o.entry
  others : ∀ a' ≠ a, r.2.srcstate.get a' = w.srcstate.get a'

variable {cpu : Fin n} {a : Addr} {w : World n}

lemma bump_eq (stats : Fin n → Stat → ℕ) (idx : Stat) (x : ℕ) (c : Fin n) (s : Stat) :
    bump stats cpu idx x c s = stats c s + if c = cpu then if s = idx then x else 0 else 0 := by
  unfold bump
  split_ifs <;> simp_all

/-- Counting under the reason and returning the verdict. -/
lemma ends_finish (cpu : Fin n) (a : Addr) (w : World n) (reason : Stat) (verdict : Verdict) :
    Ends cpu a w (run (exec cpu) (finish reason verdict) w)
      ⟨verdict, reason, false, w.srcstate.get a⟩ := by
  refine ⟨rfl, fun c s => ?_, rfl, fun _ _ => rfl⟩
  change bump w.stats cpu reason 1 c s = _
  rw [bump_eq]
  simp [Outcome.adds]

/-- What is left of the program counts from a world that differs in the maps of rules only. -/
lemma Ends.of_same {w' : World n} {r : Verdict × World n} {o : Outcome} (h : Ends cpu a w' r o)
    (hstats : w'.stats = w.stats) (hsrc : w'.srcstate = w.srcstate) : Ends cpu a w r o := by
  obtain ⟨h1, h2, h3, h4⟩ := h
  rw [hstats] at h2
  rw [hsrc] at h4
  exact ⟨h1, h2, h3, h4⟩

lemma ends_allowlist {feat : U32} {next : Call Verdict} {o : Outcome}
    (h : Ends cpu a w (run (exec cpu) next w) o) :
    Ends cpu a w (run (exec cpu) (allowlist_stage feat a next) w)
      (if has feat FEAT_ALLOWLIST ∧ Listed w a then
        ⟨.pass, .pass_allowlist, false, w.srcstate.get a⟩ else o) := by
  unfold allowlist_stage
  by_cases hfeat : has feat FEAT_ALLOWLIST = true
  · rw [if_pos hfeat]
    simp only [op_eq, call_bind, ret_bind, run_call]
    have hans : exec cpu w (.allow_lookup a) = (find w.allowlist a, w) := rfl
    rw [hans]
    cases hf : find w.allowlist a with
    | none =>
      have hno : ¬ Listed w a := by rw [listed_iff, hf]; decide
      rw [if_neg fun hc => hno hc.2]
      exact h
    | some e =>
      have hyes : Listed w a := by rw [listed_iff, hf]; rfl
      rw [if_pos ⟨hfeat, hyes⟩]
      exact (ends_finish cpu a _ .pass_allowlist .pass).of_same rfl rfl
  · rw [if_neg hfeat, if_neg fun hc => hfeat hc.1]
    exact h

lemma ends_blocklist {feat : U32} {next : Call Verdict} {o : Outcome}
    (h : Ends cpu a w (run (exec cpu) next w) o) :
    Ends cpu a w (run (exec cpu) (blocklist_stage feat a w.clock next) w)
      (if has feat FEAT_BLOCKLIST ∧ Blocked w a then
        ⟨.drop, .drop_blocklist, false, w.srcstate.get a⟩ else o) := by
  unfold blocklist_stage
  by_cases hfeat : has feat FEAT_BLOCKLIST = true
  · rw [if_pos hfeat]
    simp only [op_eq, call_bind, ret_bind, run_call]
    have hans : exec cpu w (.block_lookup a) = (find w.blocklist a, w) := rfl
    have hiff := blocked_iff w a
    rw [hans]
    cases hf : find w.blocklist a with
    | none =>
      rw [hf] at hiff
      rw [if_neg fun hc => absurd (hiff.mp hc.2) (by simp)]
      exact h
    | some e =>
      rw [hf, Option.any_some] at hiff
      by_cases hact : active e.2 w.clock = true
      · rw [if_pos ⟨hfeat, hiff.mpr hact⟩]
        simp only [hact, if_true]
        exact (ends_finish cpu a _ .drop_blocklist .drop).of_same rfl rfl
      · rw [if_neg fun hc => hact (hiff.mp hc.2)]
        simp only [hact, Bool.false_eq_true, if_false]
        exact h
  · rw [if_neg hfeat, if_neg fun hc => hfeat hc.1]
    exact h

/-- The worlds differ in the port rules only. -/
def Same (w w' : World n) : Prop := w'.stats = w.stats ∧ w'.srcstate = w.srcstate

lemma run_port_rule (x : Fields) :
    (run (exec cpu) (port_stage w.config.features w.config.default_policy x.proto x.l4.rule_port)
        w).1 =
      (if has w.config.features FEAT_PORT_RULES then port_rule cpu x w
        else (.pass, .pass_default)) ∧
    Same w (run (exec cpu)
      (port_stage w.config.features w.config.default_policy x.proto x.l4.rule_port) w).2 := by
  unfold port_stage port_rule default_policy
  by_cases hfeat : has w.config.features FEAT_PORT_RULES = true
  · rw [if_pos hfeat, if_pos hfeat]
    simp only [op_eq, call_bind, ret_bind, run_call]
    have hans : exec cpu w (.port_lookup ⟨x.proto, x.l4.rule_port⟩) =
        ((w.portrules.lookup ⟨x.proto, x.l4.rule_port⟩).map fun v => v cpu, w) := rfl
    rw [hans]
    cases w.portrules.lookup ⟨x.proto, x.l4.rule_port⟩ with
    | none =>
      dsimp only [Option.map_none]
      split_ifs <;> exact ⟨rfl, rfl, rfl⟩
    | some rule =>
      dsimp only [Option.map_some]
      simp only [run_call]
      split_ifs <;> exact ⟨rfl, rfl, rfl⟩
  · rw [if_neg hfeat, if_neg hfeat]
    exact ⟨rfl, rfl, rfl⟩

lemma run_ruled (cpu : Fin n) (w : World n) {x : Fields} {ip : IpHdr}
    (hfrag : ip.is_frag = x.fragment) (hproto : ip.proto = x.proto) :
    (run (exec cpu) (verdict_stage w.config ip x.l4) w).1 = ruled cpu x w ∧
      Same w (run (exec cpu) (verdict_stage w.config ip x.l4) w).2 := by
  unfold verdict_stage ruled default_policy
  rw [hfrag, hproto]
  simp only [not_sane_iff]
  by_cases hf : x.fragment = true
  · rw [if_pos hf, if_pos hf]
    split_ifs <;> simp_all [Same]
  · rw [if_neg hf, if_neg hf]
    by_cases hs : has w.config.features FEAT_PROTO_SANITY = true ∧ x.proto = IPPROTO_TCP ∧
        Impossible x.l4.tcp_flags
    · rw [if_pos hs, if_pos hs]
      exact ⟨rfl, rfl, rfl⟩
    · rw [if_neg hs, if_neg hs]
      exact run_port_rule x

/-! ### The program, from `update_state` on -/

variable {p : Pending}

lemma ends_locked (cpu : Fin n) {r : ℕ} {st : SrcState} (hf : w.srcstate.find p.saddr = some r)
    (hst : w.srcstate.get p.saddr = some st) :
    Ends cpu p.saddr w (run (exec cpu) (locked_stage r p) w) (settled (locked p st)) := by
  unfold locked_stage
  simp only [op_eq, call_bind, ret_bind, run_call]
  rw [exec_locked hf hst]
  have hfin := ends_finish cpu p.saddr { w with srcstate := w.srcstate.set r (locked p st).1 }
    (locked p st).2.2 (locked p st).2.1
  refine ⟨hfin.verdict, hfin.stats, ?_, fun a' ha' => ?_⟩
  · rw [hfin.entry]
    exact RefMap.get_set _ _ hf
  · have hne : w.srcstate.find a' ≠ some r := fun h => ha' (w.srcstate.inj h hf)
    rw [hfin.others a' ha']
    exact RefMap.get_set_ne _ _ hne

lemma ends_full (hf : w.srcstate.get p.saddr = none) :
    Ends cpu p.saddr w (run (exec cpu) (state_full p) w) ⟨p.verdict, p.reason, true, none⟩ := by
  have hfin := ends_finish cpu p.saddr { w with stats := bump w.stats cpu .state_full 1 }
    p.reason p.verdict
  refine ⟨hfin.verdict, fun c s => ?_, hfin.entry.trans hf, hfin.others⟩
  refine (hfin.stats c s).trans ?_
  change bump w.stats cpu .state_full 1 c s + _ = _
  rw [bump_eq, Nat.add_assoc]
  congr 1
  by_cases hc : c = cpu
  · simp only [hc, if_true, Outcome.adds, Bool.false_eq_true, false_and, if_false, true_and]
    omega
  · simp only [hc, if_false]

/-- **From `update_state` on.** -/
theorem ends_update (cpu : Fin n) (w : World n) (p : Pending) :
    Ends cpu p.saddr w (run (exec cpu) (update_state p) w) (tracked p w) := by
  unfold tracked
  cases htrack : has p.feat FEAT_TRACK_STATE with
  | false =>
    rw [run_untracked htrack, if_neg Bool.false_ne_true]
    exact ends_finish cpu p.saddr w p.reason p.verdict
  | true =>
    rw [if_pos rfl]
    cases hf : w.srcstate.find p.saddr with
    | some r =>
      obtain ⟨st, hst⟩ := RefMap.deref_of_find hf
      rw [← RefMap.get_eq hf] at hst
      rw [run_found htrack hf, hst]
      exact ends_locked cpu hf hst
    | none =>
      have hget : w.srcstate.get p.saddr = none := RefMap.get_eq_none.mpr hf
      rw [hget]
      by_cases hroom : w.srcstate.size < MAX_TRACKED
      · have hins := ends_locked cpu
          (w := { w with srcstate := w.srcstate.insert p.saddr (init p) })
          (RefMap.find_insert w.srcstate p.saddr (init p))
          (RefMap.get_insert w.srcstate p.saddr (init p))
        rw [run_created htrack hf hroom]
        simp only [hroom, if_true]
        refine ⟨hins.verdict, hins.stats, hins.entry, fun a' ha' => ?_⟩
        rw [hins.others a' ha']
        exact RefMap.get_insert_ne _ _ ha'
      · rw [run_full htrack hf hroom]
        simp only [hroom, if_false]
        exact ends_full hget

/-! ### The whole program -/

lemma ends_l4 (cpu : Fin n) (w : World n) (d : Datagram) :
    Ends cpu d.ip.saddr w (run (exec cpu) (l4_stage d.frame w.clock w.config d.hdr) w)
      (tracked (pending (fields d) w (ruled cpu (fields d) w)) w) := by
  have hfrag : d.hdr.is_frag = (fields d).fragment := is_frag_hdr d.ip d.eth.size
  have hproto : d.hdr.proto = (fields d).proto := rfl
  obtain ⟨hval, hstats, hsrc⟩ := run_ruled cpu w hfrag hproto
  unfold l4_stage
  rw [d.parse_l4_frame]
  dsimp only
  rw [run_bind]
  have hl4 : d.upper.l4 = (fields d).l4 := rfl
  rw [hl4, hval]
  have hup := ends_update cpu (run (exec cpu) (verdict_stage w.config d.hdr (fields d).l4) w).2
    (pending (fields d) w (ruled cpu (fields d) w))
  have hsame : tracked (pending (fields d) w (ruled cpu (fields d) w))
      (run (exec cpu) (verdict_stage w.config d.hdr (fields d).l4) w).2 =
        tracked (pending (fields d) w (ruled cpu (fields d) w)) w := by
    unfold tracked
    rw [hsrc]
  rw [hsame] at hup
  exact hup.of_same hstats hsrc

lemma ends_config (cpu : Fin n) (w : World n) (d : Datagram) :
    Ends cpu d.ip.saddr w (run (exec cpu) (config_stage d.frame w.clock w.config) w)
      (outcome cpu (fields d) w) := by
  unfold config_stage outcome
  rw [d.parse_l3_frame]
  exact ends_allowlist (ends_blocklist (ends_l4 cpu w d))

/-- What comes of a packet: the verdict of the outcome, the counters, the entry of the source and
no other. -/
structure Obeys (cpu : Fin n) (x : Fields) (w : World n) (r : Verdict × World n) (o : Outcome) :
    Prop where
  verdict : r.1 = o.verdict
  stats : ∀ c s, r.2.stats c s = w.stats c s + if c = cpu then received x.len s + o.adds s else 0
  entry : r.2.srcstate.get x.saddr = o.entry
  others : ∀ a ≠ x.saddr, r.2.srcstate.get a = w.srcstate.get a

lemma obeys_handle (cpu : Fin n) (d : Datagram) (w : World n) :
    Obeys cpu (fields d) w (handle cpu d.frame w) (outcome cpu (fields d) w) := by
  have hends := ends_config cpu
    { w with stats := bump (bump w.stats cpu .rx_packets 1) cpu .rx_bytes d.frame.pkt_len } d
  refine ⟨hends.verdict, fun c s => ?_, hends.entry, hends.others⟩
  refine (hends.stats c s).trans ?_
  change bump (bump w.stats cpu .rx_packets 1) cpu .rx_bytes (fields d).len c s +
    (if c = cpu then (outcome cpu (fields d) w).adds s else 0) = _
  rw [bump_eq, bump_eq]
  by_cases hc : c = cpu
  · simp only [hc, if_true, received]
    omega
  · simp only [hc, if_false, Nat.add_zero]

/-- What a frame makes the program read: bytes inside the frame, and those the parser asks for. -/
structure Sound (f : Frame) : Prop where
  l3 : Reads.Inside f.pkt_len (Reads.parse_l3 f.pkt_len) ∧
    Reads.value f (Reads.parse_l3 f.pkt_len) = parse_l3 f
  l4 : ∀ ip, Reads.Inside f.pkt_len (Reads.parse_l4 f.pkt_len ip) ∧
    Reads.value f (Reads.parse_l4 f.pkt_len ip) = parse_l4 f ip

/-- **The program on bytes refines the pipeline on fields.** It reads inside the frame, and to the
encoding of a packet it does what the stages say of the packet's fields. -/
theorem refines_stages (cpu : Fin n) (w : World n) :
    (∀ f : Frame, Sound f) ∧
      ∀ d : Datagram, Obeys cpu (fields d) w (handle cpu d.frame w) (outcome cpu (fields d) w) := by
  refine ⟨fun f => ⟨⟨?_, ?_⟩, fun ip => ⟨?_, ?_⟩⟩, fun d => obeys_handle cpu d w⟩
  · exact Reads.inside_parse_l3 f.pkt_len
  · exact Reads.value_parse_l3 f
  · exact Reads.inside_parse_l4 f.pkt_len ip
  · exact Reads.value_parse_l4 f ip

end Lookout.Stages

import Lookout.Counting
import Mathlib.Algebra.Order.BigOperators.Group.Finset

/-!
The hits of the lists add up to the counters.

Each packet that an entry of the allowlist, the blocklist or the port rules decides is counted
twice: by the entry's hits, and under the packet's reason. While nobody writes to the lists the
two go together: at every moment, the hits are ahead of the reasons by no more than the packets
that are under way.
-/

namespace Lookout.Hits

open Lookout.Effects Lookout.Effects.Prog Lookout.Runs Lookout.Dicts Lookout.Lpm Lookout.Common
open Lookout.Packet Lookout.Limiter Lookout.Kernel Lookout.Xdp Lookout.Accounting

variable {n : ℕ}

/-! ### The hits of a list -/

/-- The values of a map, added up by `f`. -/
def sum {K V : Type} (f : V → ℕ) (m : Store K V) : ℕ := (m.entries.map fun e => f e.2).sum

lemma sum_insert {K V : Type} [DecidableEq K] (f : V → ℕ) {m : Store K V} {k : K} {v : V}
    (v' : V) (hv : m.lookup k = some v) : sum f (m.insert k v') + f v = sum f m + f v' := by
  have hsum := Dict.sum_map_kerase f k m.nodupKeys
  have hget : m.entries.dlookup k = some v := hv
  rw [hget, Option.map_some, Option.getD_some] at hsum
  unfold sum
  rw [AList.entries_insert, List.map_cons, List.sum_cons, hsum]
  dsimp only
  omega

/-- A change in place that adds `x` to one value adds it to the sum. -/
lemma sum_modify {K V : Type} [DecidableEq K] {f : V → ℕ} {g : V → V} {x : ℕ}
    (hg : ∀ v, f (g v) = f v + x) {m : Store K V} {k : K} (hk : k ∈ m) :
    sum f (Kernel.modify m k g) = sum f m + x := by
  obtain ⟨v, hv⟩ := lookup_of_mem hk
  have hinsert := sum_insert f (g v) hv
  unfold Kernel.modify
  rw [hv]
  dsimp only
  rw [hg] at hinsert
  omega

inductive Table | allowlist | blocklist | portrules
  deriving DecidableEq

/-- The hits of all entries of a list, on all CPUs. -/
def hits (w : World n) : Table → ℕ
  | .allowlist => sum AllowVal.hits w.allowlist
  | .blocklist => sum BlockVal.hits w.blocklist
  | .portrules => sum (fun v => ∑ c, (v c).hits) w.portrules

/-- What an operation adds to the hits of a list. -/
def hit (b : Table) (e : Event calls) : ℕ :=
  match e.1 with
  | .allow_hit _ => if b = .allowlist then 1 else 0
  | .block_hit _ => if b = .blocklist then 1 else 0
  | .port_hit _ => if b = .portrules then 1 else 0
  | _ => 0

/-! ### The ledger of one program -/

structure Ledger where
  hits : Table → ℕ
  count : Stat → ℕ

def Ledger.zero : Ledger := ⟨fun _ => 0, fun _ => 0⟩

def Ledger.write (t : Ledger) (e : Event calls) : Ledger :=
  ⟨fun b => t.hits b + hit b e, fun s => t.count s + amount s e⟩

lemma write_hits (t : Ledger) (e : Event calls) (b : Table) :
    (t.write e).hits b = t.hits b + hit b e := rfl

lemma write_count (t : Ledger) (e : Event calls) (s : Stat) :
    (t.write e).count s = t.count s + amount s e := rfl

lemma write_comm (t : Ledger) (e e' : Event calls) :
    (t.write e).write e' = (t.write e').write e := by
  simp only [Ledger.write, Nat.add_right_comm]

lemma foldl_write (l : List (Event calls)) (t : Ledger) :
    l.foldl Ledger.write t =
      ⟨fun b => t.hits b + (l.map (hit b)).sum, fun s => t.count s + (l.map (amount s)).sum⟩ := by
  induction l generalizing t with
  | nil => rfl
  | cons e l ih =>
    rw [List.foldl_cons, ih]
    simp only [Ledger.write, List.map_cons, List.sum_cons, Nat.add_assoc]

/-- The hits cover the reasons, and are at most `d` ahead of them. A packet that a rule lets
through may still be limited. -/
structure AddsUp (d : ℕ) (hits : Table → ℕ) (count : Stat → ℕ) : Prop where
  allowlist : count .pass_allowlist ≤ hits .allowlist ∧
    hits .allowlist ≤ count .pass_allowlist + d
  blocklist : count .drop_blocklist ≤ hits .blocklist ∧
    hits .blocklist ≤ count .drop_blocklist + d
  portrules : count .pass_rule + count .drop_port_rule ≤ hits .portrules ∧
    hits .portrules ≤ count .pass_rule + count .drop_port_rule + count .drop_ratelimit + d

lemma AddsUp.mono {d d' : ℕ} {hits : Table → ℕ} {count : Stat → ℕ} (h : AddsUp d hits count)
    (hd : d ≤ d') : AddsUp d' hits count :=
  ⟨⟨h.allowlist.1, h.allowlist.2.trans (Nat.add_le_add_left hd _)⟩,
    ⟨h.blocklist.1, h.blocklist.2.trans (Nat.add_le_add_left hd _)⟩,
    ⟨h.portrules.1, h.portrules.2.trans (Nat.add_le_add_left hd _)⟩⟩

/-- What adds up for each of several programs adds up for all of them. -/
lemma AddsUp.sum {ι : Type} [Fintype ι] {d : ι → ℕ} {hits : ι → Table → ℕ} {count : ι → Stat → ℕ}
    (h : ∀ i, AddsUp (d i) (hits i) (count i)) :
    AddsUp (∑ i, d i) (fun b => ∑ i, hits i b) (fun s => ∑ i, count i s) := by
  refine ⟨⟨?_, ?_⟩, ⟨?_, ?_⟩, ⟨?_, ?_⟩⟩
  · exact Finset.sum_le_sum fun i _ => (h i).allowlist.1
  · rw [← Finset.sum_add_distrib]
    exact Finset.sum_le_sum fun i _ => (h i).allowlist.2
  · exact Finset.sum_le_sum fun i _ => (h i).blocklist.1
  · rw [← Finset.sum_add_distrib]
    exact Finset.sum_le_sum fun i _ => (h i).blocklist.2
  · rw [← Finset.sum_add_distrib]
    exact Finset.sum_le_sum fun i _ => (h i).portrules.1
  · rw [← Finset.sum_add_distrib, ← Finset.sum_add_distrib, ← Finset.sum_add_distrib]
    exact Finset.sum_le_sum fun i _ => (h i).portrules.2

/-- Even at the end, and one ahead at most on the way there. -/
abbrev Even (p : Call Verdict) (t : Ledger) : Prop :=
  Along Ledger.write Allowed (fun t => AddsUp 1 t.hits t.count) p
    (fun _ t => AddsUp 0 t.hits t.count) t

/-- The reasons that a hit goes with. -/
def OF_HIT : List Stat := [.pass_allowlist, .drop_blocklist, .pass_rule, .drop_port_rule]

section

variable {t : Ledger}

lemma AddsUp.other {d : ℕ} (h : AddsUp d t.hits t.count) {s : Stat} (hs : s ∉ OF_HIT) (x : ℕ) :
    AddsUp d (t.write ⟨.stat_add s x, ()⟩).hits (t.write ⟨.stat_add s x, ()⟩).count := by
  obtain ⟨ha, hb, hp⟩ := h
  have hsame : ∀ r ∈ OF_HIT, (t.write ⟨.stat_add s x, ()⟩).count r = t.count r := by
    intro r hr
    have hne : r ≠ s := fun h => hs (h ▸ hr)
    have hzero : amount r ⟨.stat_add s x, ()⟩ = 0 := if_neg hne
    rw [write_count, hzero, Nat.add_zero]
  refine ⟨?_, ?_, ?_⟩
  · rwa [hsame _ (by decide)]
  · rwa [hsame _ (by decide)]
  · rw [hsame .pass_rule (by decide), hsame .drop_port_rule (by decide), write_count]
    exact ⟨hp.1, hp.2.trans (by omega)⟩

lemma even_finish {s : Stat} {v : Verdict} (h : AddsUp 1 t.hits t.count)
    (hend : AddsUp 0 (t.write ⟨.stat_add s 1, ()⟩).hits (t.write ⟨.stat_add s 1, ()⟩).count) :
    Even (finish s v) t :=
  ⟨h, fun _ _ => ⟨hend.mono (Nat.zero_le 1), hend⟩⟩

/-- A packet that no entry of a list decides. -/
lemma even_other {s : Stat} {v : Verdict} (h : AddsUp 0 t.hits t.count) (hs : s ∉ OF_HIT) :
    Even (finish s v) t :=
  even_finish (h.mono (Nat.zero_le 1)) (h.other hs 1)

/-- The packet may be counted under `s`, or as limited. -/
def Ready (s : Stat) (t : Ledger) : Prop :=
  AddsUp 1 t.hits t.count ∧ ∀ r, r = s ∨ r = .drop_ratelimit →
    AddsUp 0 (t.write ⟨.stat_add r 1, ()⟩).hits (t.write ⟨.stat_add r 1, ()⟩).count

lemma ready_other {s : Stat} (h : AddsUp 0 t.hits t.count) (hs : s ∉ OF_HIT) : Ready s t := by
  refine ⟨h.mono (Nat.zero_le 1), ?_⟩
  rintro r (rfl | rfl)
  · exact h.other hs 1
  · exact h.other (by decide) 1

/-- The packet has been counted by a port rule. -/
lemma ready_port {s : Stat} (h : AddsUp 0 t.hits t.count)
    (hs : s = .pass_rule ∨ s = .drop_port_rule) (k : PortKey) :
    Ready s (t.write ⟨.port_hit k, ()⟩) := by
  obtain ⟨ha, hb, hp⟩ := h
  refine ⟨⟨⟨ha.1, by simpa [Ledger.write, hit, amount] using ha.2.trans (Nat.le_succ _)⟩,
    ⟨hb.1, by simpa [Ledger.write, hit, amount] using hb.2.trans (Nat.le_succ _)⟩, ?_⟩, ?_⟩
  · simp [Ledger.write, hit, amount]
    omega
  · rintro r (rfl | rfl)
    · rcases hs with rfl | rfl
      · refine ⟨?_, ?_, ?_⟩ <;> simp [Ledger.write, hit, amount] <;> omega
      · refine ⟨?_, ?_, ?_⟩ <;> simp [Ledger.write, hit, amount] <;> omega
    · refine ⟨?_, ?_, ?_⟩ <;> simp [Ledger.write, hit, amount] <;> omega

/-! ### The stages -/

lemma even_idle {o : Op} {k : Ans o → Call Verdict} (h : AddsUp 0 t.hits t.count)
    (hk : ∀ b, Allowed ⟨o, b⟩ → Even (k b) (t.write ⟨o, b⟩)) : Even (.call o k) t :=
  ⟨h.mono (Nat.zero_le 1), hk⟩

lemma even_locked_stage {st : ℕ} {p : Pending} (h : Ready p.reason t) :
    Even (locked_stage st p) t := by
  refine ⟨h.1, fun r hr => ?_⟩
  rcases hr with rfl | ⟨-, rfl⟩
  · exact even_finish h.1 (h.2 _ (Or.inl rfl))
  · exact even_finish h.1 (h.2 _ (Or.inr rfl))

lemma Ready.full {s : Stat} (h : Ready s t) : Ready s (t.write ⟨.stat_add .state_full 1, ()⟩) := by
  have hfull : Stat.state_full ∉ OF_HIT := by decide
  refine ⟨h.1.other hfull 1, fun r hr => ?_⟩
  rw [write_comm]
  exact (h.2 r hr).other hfull 1

lemma even_state_full {p : Pending} (h : Ready p.reason t) : Even (state_full p) t :=
  ⟨h.1, fun _ _ => even_finish h.full.1 (h.full.2 _ (Or.inl rfl))⟩

lemma even_update_state {p : Pending} (h : Ready p.reason t) : Even (update_state p) t := by
  unfold update_state
  refine ⟨h.1, fun _ _ => ?_⟩
  simp only [op_eq, call_bind, ret_bind]
  split_ifs
  · refine ⟨h.1, fun st _ => ?_⟩
    cases st with
    | some st => exact even_locked_stage h
    | none =>
      refine ⟨h.1, fun failed _ => ?_⟩
      cases failed with
      | true => exact even_state_full h
      | false =>
        refine ⟨h.1, fun st _ => ?_⟩
        cases st with
        | some st => exact even_locked_stage h
        | none => exact even_state_full h
  · exact even_finish h.1 (h.2 _ (Or.inl rfl))

lemma even_allowlist_stage {feat : U32} {a : Addr} {next : Call Verdict}
    (h : AddsUp 0 t.hits t.count) (hnext : Even next t) : Even (allowlist_stage feat a next) t := by
  unfold allowlist_stage
  split_ifs
  · refine even_idle h fun e _ => ?_
    cases e with
    | none => exact hnext
    | some e =>
      obtain ⟨⟨ha1, ha2⟩, hb, hp⟩ := h
      refine even_idle ⟨⟨ha1, ha2⟩, hb, hp⟩ fun _ _ => even_finish ?_ ?_
      · refine ⟨?_, hb.imp_right Nat.le_succ_of_le, hp.imp_right Nat.le_succ_of_le⟩
        simp [write_hits, write_count, hit, amount]
        omega
      · refine ⟨?_, hb, hp⟩
        simp [write_hits, write_count, hit, amount]
        omega
  · exact hnext

lemma even_blocklist_stage {feat : U32} {a : Addr} {now : U64} {next : Call Verdict}
    (h : AddsUp 0 t.hits t.count) (hnext : Even next t) :
    Even (blocklist_stage feat a now next) t := by
  unfold blocklist_stage
  simp only [op_eq, call_bind, ret_bind]
  split_ifs
  · refine even_idle h fun e _ => ?_
    cases e with
    | none => exact hnext
    | some e =>
      dsimp only
      split_ifs
      · obtain ⟨ha, ⟨hb1, hb2⟩, hp⟩ := h
        refine even_idle ⟨ha, ⟨hb1, hb2⟩, hp⟩ fun _ _ => even_finish ?_ ?_
        · refine ⟨ha.imp_right Nat.le_succ_of_le, ?_, hp.imp_right Nat.le_succ_of_le⟩
          simp [write_hits, write_count, hit, amount]
          omega
        · refine ⟨ha, ?_, hp⟩
          simp [write_hits, write_count, hit, amount]
          omega
      · exact hnext
  · exact hnext

/-- A verdict on which the packet is ready. -/
abbrev Decides (p : Call (Verdict × Stat)) (t : Ledger) : Prop :=
  Along Ledger.write Allowed (fun t => AddsUp 1 t.hits t.count) p (fun r t => Ready r.2 t) t

lemma decides_other {v : Verdict} {s : Stat} (h : AddsUp 0 t.hits t.count) (hs : s ∉ OF_HIT) :
    Decides (.ret (v, s)) t :=
  ⟨h.mono (Nat.zero_le 1), ready_other h hs⟩

lemma decides_port_stage {feat policy : U32} {proto : Byte} {port : U16}
    (h : AddsUp 0 t.hits t.count) : Decides (port_stage feat policy proto port) t := by
  unfold port_stage
  by_cases hfeat : has feat FEAT_PORT_RULES = true
  · rw [if_pos hfeat]
    refine ⟨h.mono (Nat.zero_le 1), fun pv _ => ?_⟩
    cases pv with
    | none =>
      dsimp only
      split_ifs
      · exact decides_other h (by decide)
      · exact decides_other h (by decide)
    | some pv =>
      refine ⟨h.mono (Nat.zero_le 1), fun _ _ => ?_⟩
      split_ifs
      · have hready := ready_port h (Or.inr rfl) ⟨proto, port⟩
        exact ⟨hready.1, hready⟩
      · have hready := ready_port h (Or.inl rfl) ⟨proto, port⟩
        exact ⟨hready.1, hready⟩
  · rw [if_neg hfeat]
    exact decides_other h (by decide)

lemma decides_verdict_stage {cfg : FwConfig} {ip : IpHdr} {l4 : L4Hdr}
    (h : AddsUp 0 t.hits t.count) : Decides (verdict_stage cfg ip l4) t := by
  unfold verdict_stage
  split_ifs
  · exact decides_other h (by decide)
  · exact decides_other h (by decide)
  · exact decides_other h (by decide)
  · exact decides_other h (by decide)
  · exact decides_port_stage h

lemma even_config_stage {f : Frame} {now : U64} {cfg : FwConfig} (h : AddsUp 0 t.hits t.count) :
    Even (config_stage f now cfg) t := by
  unfold config_stage
  cases parse_l3 f with
  | malformed => exact even_other h (by decide)
  | non_ipv4 => exact even_other h (by decide)
  | ipv4 ip =>
    refine even_allowlist_stage h (even_blocklist_stage h ?_)
    unfold l4_stage
    cases parse_l4 f ip with
    | none => exact even_other h (by decide)
    | some l4 =>
      refine along_bind ((decides_verdict_stage h).mono fun r t hr => ?_)
      exact even_update_state hr

/-- **A packet's hits and its reason go together**, at every point of its execution. -/
theorem even_xdp_firewall (f : Frame) : Even (xdp_firewall f) .zero := by
  have hzero : AddsUp 0 Ledger.zero.hits Ledger.zero.count := by
    refine ⟨⟨?_, ?_⟩, ⟨?_, ?_⟩, ⟨?_, ?_⟩⟩ <;> exact Nat.le_refl 0
  have hrx : Stat.rx_packets ∉ OF_HIT := by decide
  have hbytes : Stat.rx_bytes ∉ OF_HIT := by decide
  refine even_idle hzero fun now _ => even_idle hzero fun _ _ => ?_
  have hone := hzero.other hrx 1
  refine even_idle hone fun _ _ => ?_
  have htwo := hone.other hbytes f.pkt_len
  refine even_idle htwo fun cfg _ => ?_
  cases cfg with
  | none => exact ⟨htwo.mono (Nat.zero_le 1), htwo⟩
  | some cfg => exact even_config_stage htwo

end

/-! ### What a program finds is stored -/

/-- The operations of a packet, the hits only on entries of `w`. -/
def Stored (w : World n) : Op → Prop
  | .allow_hit k => k ∈ w.allowlist
  | .block_hit k => k ∈ w.blocklist
  | .port_hit k => k ∈ w.portrules
  | .ktime_get_ns | .stat_add .. | .config_lookup => True
  | .allow_lookup _ | .block_lookup _ | .port_lookup _ => True
  | .update_state_label .. | .state_lookup _ | .state_insert .. | .state_locked .. => True
  | _ => False

/-- What is found in a list is an entry of `w`. -/
def FoundIn (w : World n) : Event calls → Prop
  | ⟨.allow_lookup _, some e⟩ => e.1 ∈ w.allowlist
  | ⟨.block_lookup _, some e⟩ => e.1 ∈ w.blocklist
  | ⟨.port_lookup k, some _⟩ => k ∈ w.portrules
  | _ => True

section

variable {w : World n}

lemma stored_finish (s : Stat) (v : Verdict) : Under (FoundIn w) (Stored w) (finish s v) :=
  ⟨trivial, fun _ _ => trivial⟩

lemma stored_update_state (p : Pending) : Under (FoundIn w) (Stored w) (update_state p) := by
  unfold update_state
  refine ⟨trivial, fun _ _ => ?_⟩
  simp only [op_eq, call_bind, ret_bind]
  split_ifs
  · refine ⟨trivial, fun st _ => ?_⟩
    cases st with
    | some st => exact ⟨trivial, fun _ _ => stored_finish _ _⟩
    | none =>
      refine ⟨trivial, fun failed _ => ?_⟩
      cases failed with
      | true => exact ⟨trivial, fun _ _ => stored_finish _ _⟩
      | false =>
        refine ⟨trivial, fun st _ => ?_⟩
        cases st with
        | some st => exact ⟨trivial, fun _ _ => stored_finish _ _⟩
        | none => exact ⟨trivial, fun _ _ => stored_finish _ _⟩
  · exact stored_finish _ _

lemma stored_allowlist_stage {feat : U32} {a : Addr} {next : Call Verdict}
    (h : Under (FoundIn w) (Stored w) next) :
    Under (FoundIn w) (Stored w) (allowlist_stage feat a next) := by
  unfold allowlist_stage
  split_ifs
  · refine ⟨trivial, fun e he => ?_⟩
    cases e with
    | none => exact h
    | some e => exact ⟨he, fun _ _ => stored_finish _ _⟩
  · exact h

lemma stored_blocklist_stage {feat : U32} {a : Addr} {now : U64} {next : Call Verdict}
    (h : Under (FoundIn w) (Stored w) next) :
    Under (FoundIn w) (Stored w) (blocklist_stage feat a now next) := by
  unfold blocklist_stage
  simp only [op_eq, call_bind, ret_bind]
  split_ifs
  · refine ⟨trivial, fun e he => ?_⟩
    cases e with
    | none => exact h
    | some e =>
      dsimp only
      split_ifs
      · exact ⟨he, fun _ _ => stored_finish _ _⟩
      · exact h
  · exact h

lemma stored_verdict_stage (cfg : FwConfig) (ip : IpHdr) (l4 : L4Hdr) :
    Under (FoundIn w) (Stored w) (verdict_stage cfg ip l4) := by
  unfold verdict_stage
  split_ifs
  · trivial
  · trivial
  · trivial
  · trivial
  · unfold port_stage
    by_cases hfeat : has cfg.features FEAT_PORT_RULES = true
    · rw [if_pos hfeat]
      refine ⟨trivial, fun pv hpv => ?_⟩
      cases pv with
      | none =>
        dsimp only
        split_ifs
        · trivial
        · trivial
      | some pv =>
        refine ⟨hpv, fun _ _ => ?_⟩
        split_ifs
        · trivial
        · trivial
    · rw [if_neg hfeat]
      trivial

/-- **A packet hits only what it has found.** -/
theorem stored_xdp_firewall (f : Frame) : Under (FoundIn w) (Stored w) (xdp_firewall f) := by
  refine ⟨trivial, fun now _ => ⟨trivial, fun _ _ => ⟨trivial, fun _ _ => ⟨trivial, ?_⟩⟩⟩⟩
  rintro (_ | cfg) -
  · trivial
  · change Under (FoundIn w) (Stored w) (config_stage f now cfg)
    unfold config_stage
    cases parse_l3 f with
    | malformed => exact stored_finish _ _
    | non_ipv4 => exact stored_finish _ _
    | ipv4 ip =>
      refine stored_allowlist_stage (stored_blocklist_stage ?_)
      unfold l4_stage
      cases parse_l4 f ip with
      | none => exact stored_finish _ _
      | some l4 =>
        exact under_bind (stored_verdict_stage cfg ip l4) fun r => stored_update_state _

/-! ### Runs -/

/-- The lists of `w'` have the entries of `w`. -/
structure SameEntries (w w' : World n) : Prop where
  allowlist : ∀ k, k ∈ w'.allowlist ↔ k ∈ w.allowlist
  blocklist : ∀ k, k ∈ w'.blocklist ↔ k ∈ w.blocklist
  portrules : ∀ k, k ∈ w'.portrules ↔ k ∈ w.portrules

/-- Others write neither to the lists nor to the counters. -/
structure Spares (w w' : World n) : Prop where
  allowlist : w'.allowlist = w.allowlist
  blocklist : w'.blocklist = w.blocklist
  portrules : w'.portrules = w.portrules
  stats : w'.stats = w.stats

lemma SameEntries.spares {w0 w w' : World n} (h : SameEntries w0 w) (hw : Spares w w') :
    SameEntries w0 w' := by
  obtain ⟨ha, hb, hp, -⟩ := hw
  exact ⟨by rw [ha]; exact h.allowlist, by rw [hb]; exact h.blocklist,
    by rw [hp]; exact h.portrules⟩

lemma mem_modify {K V : Type} [DecidableEq K] (m : Store K V) (k : K) (g : V → V) (k' : K) :
    k' ∈ Kernel.modify m k g ↔ k' ∈ m := by
  have halike : Alike (fun _ : V => ()) m (Kernel.modify m k g) :=
    alike_modify (g := g) (fun _ => rfl) m k
  exact halike.mem_iff

lemma hits_spares {w w' : World n} (h : Spares w w') (b : Table) : hits w' b = hits w b := by
  obtain ⟨ha, hb, hp, -⟩ := h
  cases b with
  | allowlist => exact congrArg (sum AllowVal.hits) ha
  | blocklist => exact congrArg (sum BlockVal.hits) hb
  | portrules => exact congrArg (sum fun v => ∑ c, (v c).hits) hp

/-- A hit in one CPU's copy of a rule. -/
lemma sum_port_hit (cpu : Fin n) (v : Fin n → PortVal) :
    ∑ c, (if c = cpu then { v c with hits := (v c).hits + 1 } else v c).hits =
      (∑ c, (v c).hits) + 1 := by
  have hcopy : ∀ c, (if c = cpu then { v c with hits := (v c).hits + 1 } else v c).hits =
      (v c).hits + if c = cpu then 1 else 0 := by
    intro c
    split_ifs <;> rfl
  simp only [hcopy, Finset.sum_add_distrib, Finset.sum_ite_eq', Finset.mem_univ, if_true]

/-- One operation of a packet. -/
lemma exec_hits {cpu : Fin n} {w0 w w' : World n} {o : Op} {x : Ans o}
    (h : exec cpu w o = (x, w')) (ho : Stored w0 o) (hw : SameEntries w0 w) (b : Table) :
    hits w' b = hits w b + hit b ⟨o, x⟩ := by
  cases o with
  | allow_hit k =>
    cases h
    have hk : k ∈ w.allowlist := (hw.allowlist k).mpr ho
    cases b with
    | allowlist => exact sum_modify (fun _ => rfl) hk
    | blocklist => rfl
    | portrules => rfl
  | block_hit k =>
    cases h
    have hk : k ∈ w.blocklist := (hw.blocklist k).mpr ho
    cases b with
    | allowlist => rfl
    | blocklist => exact sum_modify (fun _ => rfl) hk
    | portrules => rfl
  | port_hit k =>
    cases h
    have hk : k ∈ w.portrules := (hw.portrules k).mpr ho
    cases b with
    | allowlist => rfl
    | blocklist => rfl
    | portrules =>
      refine sum_modify (f := fun v : Fin n → PortVal => ∑ c, (v c).hits) (fun v => ?_) hk
      exact sum_port_hit cpu v
  | state_insert | state_locked | ktime_get_ns | stat_add | config_lookup | allow_lookup
  | block_lookup | port_lookup | update_state_label | state_lookup =>
    cases h
    cases b <;> rfl
  | _ => exact ho.elim

lemma exec_entries {cpu : Fin n} {w0 w w' : World n} {o : Op} {x : Ans o}
    (h : exec cpu w o = (x, w')) (ho : Stored w0 o) (hw : SameEntries w0 w) :
    FoundIn w0 ⟨o, x⟩ ∧ SameEntries w0 w' := by
  cases o with
  | allow_lookup a =>
    cases h
    refine ⟨?_, hw⟩
    cases hf : find w.allowlist a with
    | none => trivial
    | some e => exact (hw.allowlist e.1).mp (mem_of_lookup (find_some.mp hf).1)
  | block_lookup a =>
    cases h
    refine ⟨?_, hw⟩
    cases hf : find w.blocklist a with
    | none => trivial
    | some e => exact (hw.blocklist e.1).mp (mem_of_lookup (find_some.mp hf).1)
  | port_lookup k =>
    cases h
    refine ⟨?_, hw⟩
    cases hf : w.portrules.lookup k with
    | none => trivial
    | some v => exact (hw.portrules k).mp (mem_of_lookup hf)
  | allow_hit k =>
    cases h
    exact ⟨trivial, fun k' => (mem_modify _ _ _ k').trans (hw.allowlist k'), hw.blocklist,
      hw.portrules⟩
  | block_hit k =>
    cases h
    exact ⟨trivial, hw.allowlist, fun k' => (mem_modify _ _ _ k').trans (hw.blocklist k'),
      hw.portrules⟩
  | port_hit k =>
    cases h
    exact ⟨trivial, hw.allowlist, hw.blocklist,
      fun k' => (mem_modify _ _ _ k').trans (hw.portrules k')⟩
  | state_insert | state_locked | ktime_get_ns | stat_add | config_lookup | update_state_label
  | state_lookup =>
    cases h
    exact ⟨trivial, hw.allowlist, hw.blocklist, hw.portrules⟩
  | _ => exact ho.elim

variable {ι : Type} [DecidableEq ι] {cpu : ι → Fin n} {frames : ι → Frame} {w' : World n}
  {q : ι → Call Verdict} {tr : Turns calls (World n) Verdict ι}

/-- Every operation of the run is one of a packet, on entries that are still there. -/
lemma stored_run (h : Path (turn fun i => kernel Spares (cpu i))
      (w, fun i => xdp_firewall (frames i)) tr (w', q)) :
    ∀ x ∈ tr, Stored w x.ev.2.1 ∧ SameEntries w x.pre.1 := by
  have hrely := rely (A := FoundIn w) (G := Stored w) (I := SameEntries w) h
    (fun x _ b t hI hG hx => ?_) ⟨fun _ => Iff.rfl, fun _ => Iff.rfl, fun _ => Iff.rfl⟩
    fun i => stored_xdp_firewall _
  · intro x hx
    have hfound : ∀ e ∈ own x.ev.1 tr, FoundIn w e := by
      intro e he
      obtain ⟨y, hy, hye⟩ := mem_own.mp he
      have hA := (hrely.2.2 y hy).1
      rw [hye] at hA
      exact hA
    have hstored := (own_trace h x.ev.1).under (stored_xdp_firewall _) hfound
    exact ⟨hstored x.ev.2 (mem_own.mpr ⟨x, hx, rfl⟩), (hrely.2.2 x hx).2⟩
  · obtain ⟨w1, hspares, hexec⟩ := hx
    exact exec_entries hexec hG (hI.spares hspares)

/-- **The hits add up.** At every moment of any run of packets on any CPUs, the hits of the three
lists have grown as the counters of the packets' reasons have, but for the packets that are under
way. -/
theorem hits_add_up [Fintype ι] (h : Path (turn fun i => kernel Spares (cpu i))
      (w, fun i => xdp_firewall (frames i)) tr (w', q)) :
    ∃ more count, (∀ b, hits w' b = hits w b + more b) ∧
      (∀ s, w'.total s = w.total s + count s) ∧
      AddsUp (Finset.univ.filter fun i => (q i).result = none).card more count := by
  have hstored := stored_run h
  have hhits : ∀ b, hits w' b = hits w b + ∑ i, ((own i tr).map (hit b)).sum := by
    intro b
    refine path_gains (V := fun w => hits w b) h fun x hx => ?_
    obtain ⟨k, -, ⟨w1, hspares, hexec⟩, -⟩ := h.step_of_mem hx
    obtain ⟨hG, hI⟩ := hstored x hx
    exact (exec_hits hexec hG (hI.spares hspares) b).trans
      (congrArg (· + _) (hits_spares hspares b))
  have htotal : ∀ s, w'.total s = w.total s + ∑ i, ((own i tr).map (amount s)).sum := by
    intro s
    refine path_gains (V := fun w => w.total s) h fun x hx => ?_
    obtain ⟨k, -, ⟨w1, hspares, hexec⟩, -⟩ := h.step_of_mem hx
    have hsame : w1.total s = x.pre.1.total s := by
      unfold World.total
      rw [hspares.stats]
    exact (exec_total hexec s).trans (congrArg (· + _) hsame)
  refine ⟨_, _, hhits, htotal, ?_⟩
  rw [Finset.card_filter]
  refine AddsUp.sum fun i => ?_
  have hallowed : ∀ e ∈ own i tr, Allowed e := by
    intro e he
    obtain ⟨x, hx, hxe⟩ := mem_own.mp he
    obtain ⟨k, -, ⟨w1, -, hexec⟩, -⟩ := h.step_of_mem hx
    rw [hxe] at hexec
    exact exec_allowed hexec
  obtain ⟨halong, hend⟩ := (own_trace h i).along hallowed (even_xdp_firewall (frames i))
  rw [foldl_write] at halong hend
  simp only [Ledger.zero, Nat.zero_add] at halong hend
  split_ifs with hq
  · exact halong
  · obtain ⟨v, hv⟩ := Option.ne_none_iff_exists'.mp hq
    exact hend v (result_eq_some.mp hv)

end

/-- A source on the allowlist, one on the blocklist, and a rule for DNS. -/
def all_lists : World 1 :=
  { World.loaded 1 with
    allowlist := (∅ : Store LpmKey AllowVal).insert (LpmKey.single 0x0A000008) ⟨5, 0⟩
    blocklist := (∅ : Store LpmKey BlockVal).insert (LpmKey.single 0x0A000009) ⟨0, 6, 0⟩
    portrules := (∅ : Store PortKey (Fin 1 → PortVal)).insert ⟨17, 53⟩ fun _ => ⟨7, 0⟩ }

def one_for_each (i : Fin 3) : Frame :=
  if i = 0 then header_from 0x0A000008 else if i = 1 then header_from 0x0A000009
  else Counting.dns_query

/-- A packet for each; the last has not been counted yet when the run ends. -/
def hit_by_three : Turns calls (World 1) Verdict (Fin 3) × Pool calls (World 1) Verdict (Fin 3) :=
  play (fun _ => exec 0) (List.replicate 10 2 ++ List.replicate 9 1 ++ List.replicate 9 0)
    (all_lists, fun i => xdp_firewall (one_for_each i))

theorem hits_add_up_three : ∃ more count,
    (∀ b, hits hit_by_three.2.1 b = hits all_lists b + more b) ∧
      (∀ s, hit_by_three.2.1.total s = all_lists.total s + count s) ∧
      AddsUp (Finset.univ.filter fun i => (hit_by_three.2.2 i).result = none).card more count := by
  have hE : ∀ w : World 1, Spares w w := fun _ => ⟨rfl, rfl, rfl, rfl⟩
  exact hits_add_up
    (path_play hE (fun _ => exec 0) _ (all_lists, fun i => xdp_firewall (one_for_each i)))

example : (hits hit_by_three.2.1 .allowlist, hits hit_by_three.2.1 .blocklist,
    hits hit_by_three.2.1 .portrules) = (6, 7, 8) ∧
      hit_by_three.2.1.total .pass_rule = 0 := by decide +kernel

end Lookout.Hits

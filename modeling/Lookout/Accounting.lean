import Lookout.Runs
import Lookout.Xdp

/-!
Every packet is counted once.

Whatever the maps hold and whatever happens to them while a packet is handled, its execution
adds one to `rx_packets` and one to a single verdict counter, of the kind its verdict says.
The books of an execution record what it adds to each counter, and whether the packet came
to `update_state` with the verdict still `XDP_PASS`.
-/

namespace Lookout.Accounting

open Lookout.Effects Lookout.Effects.Prog Lookout.Runs Lookout.Common Lookout.Packet
open Lookout.Limiter Lookout.Kernel Lookout.Xdp

structure Books where
  stats : Stat → ℕ
  passing : ℕ

namespace Books

def add (t : Books) (idx : Stat) (x : ℕ) : Books :=
  { t with stats := fun s => if s = idx then t.stats s + x else t.stats s }

def zero : Books := ⟨fun _ => 0, 0⟩

lemma add_stats (t : Books) (idx s : Stat) (x : ℕ) :
    (t.add idx x).stats s = t.stats s + if s = idx then x else 0 := by
  simp only [add]
  split_ifs <;> rfl

def write (t : Books) (e : Event calls) : Books :=
  match e.1 with
  | .stat_add idx x => t.add idx x
  | .update_state_label .pass _ => { t with passing := t.passing + 1 }
  | _ => t

end Books

/-- The answers the kernel may give: the configuration is there, and the locked section keeps
the verdict or, for a packet the bucket decides, drops it. -/
def Allowed : Event calls → Prop
  | ⟨.config_lookup, cfg⟩ => cfg ≠ none
  | ⟨.state_locked _ p, r⟩ =>
    r = (p.verdict, p.reason) ∨ limited p = true ∧ r = (.drop, .drop_ratelimit)
  | _ => True

/-- The reason is a counter of the verdict's kind. -/
def Agrees : Verdict → Stat → Prop
  | .pass, r => r.is_pass = true
  | .drop, r => r.is_drop = true

/-- The books after the end of an execution that is counted under `r`. -/
def Books.close (t : Books) (full : Bool) (r : Stat) : Books where
  stats := ((if full then t.add .state_full 1 else t).add r 1).stats
  passing := t.passing + if r ∈ LIMITER_INPUT then 1 else 0

/-- The execution ends with the verdict `v`, counted under one of the reasons `rs`. -/
def Closed (rs : List Stat) (t : Books) (v : Verdict) (t' : Books) : Prop :=
  ∃ full, ∃ r ∈ rs, Agrees v r ∧ t' = t.close full r

/-- The reasons of the packets that the source lists have not decided. -/
def L4_REASONS : List Stat :=
  [.pass_rule, .pass_default, .drop_port_rule, .drop_default, .drop_proto, .drop_ratelimit,
    .drop_malformed, .drop_fragment]

lemma Closed.mono {rs rs' : List Stat} {t t' : Books} {v : Verdict} (h : Closed rs t v t')
    (hrs : rs ⊆ rs') : Closed rs' t v t' := by
  obtain ⟨full, r, hr, ha, he⟩ := h
  exact ⟨full, r, hrs hr, ha, he⟩

abbrev bookkeeper : Machine calls Books := books Books.write Allowed

lemma wp_finish (r : Stat) (v : Verdict) (Q : Verdict → Books → Prop) (t : Books) :
    wp bookkeeper (finish r v) Q t ↔ Q v (t.add r 1) := by
  simp [finish, stat_inc, stat_add, Books.write, Allowed]

/-- An exit before `update_state`. -/
lemma closed_exit {rs : List Stat} {r : Stat} {v : Verdict} (t : Books) (ha : Agrees v r)
    (hr : r ∉ LIMITER_INPUT) (hrs : r ∈ rs) : Closed rs t v (t.add r 1) :=
  ⟨false, r, hrs, ha, by simp [Books.close, Books.add, hr]⟩

/-! ### The stages, in any books -/

/-- The operations on the source lists and the port rules. -/
def ListOp : Op → Prop
  | .allow_lookup _ | .allow_hit _ | .block_lookup _ | .block_hit _ => True
  | .port_lookup _ | .port_hit _ => True
  | _ => False

/-- The pairs of verdict and reason at `update_state`. -/
def Pair (r : Verdict × Stat) : Prop :=
  Agrees r.1 r.2 ∧ r.2 ∈ L4_REASONS ∧ (r.2 ∈ LIMITER_INPUT ↔ r.1 = .pass)

section

variable {τ : Type} {W : τ → Event calls → τ} {A : Event calls → Prop} {Q : Verdict → τ → Prop}
  {t : τ} {feat : U32} {saddr : Addr} {next : Call Verdict}

/-- The lists do not write anything down. -/
def Skips (W : τ → Event calls → τ) : Prop := ∀ t o b, ListOp o → W t ⟨o, b⟩ = t

lemma wp_list_call {α : Type} (hW : Skips W) {o : Op} (ho : ListOp o) {k : Ans o → Call α}
    {Q : α → τ → Prop} (h : ∀ b, wp (books W A) (k b) Q t) :
    wp (books W A) (.call o k) Q t := by
  rw [wp_books_call]
  rintro b -
  rw [hW t o b ho]
  exact h b

lemma wp_allowlist_stage (hW : Skips W)
    (hpass : wp (books W A) (finish .pass_allowlist .pass) Q t) (h : wp (books W A) next Q t) :
    wp (books W A) (allowlist_stage feat saddr next) Q t := by
  unfold allowlist_stage
  split_ifs
  · simp only [op_eq, call_bind, ret_bind]
    refine wp_list_call hW (by trivial) ?_
    rintro (_ | ⟨k, v⟩)
    · exact h
    · exact wp_list_call hW (by trivial) fun _ => hpass
  · exact h

lemma wp_blocklist_stage {now : U64} (hW : Skips W)
    (hdrop : wp (books W A) (finish .drop_blocklist .drop) Q t) (h : wp (books W A) next Q t) :
    wp (books W A) (blocklist_stage feat saddr now next) Q t := by
  unfold blocklist_stage
  split_ifs
  · simp only [op_eq, call_bind, ret_bind]
    refine wp_list_call hW (by trivial) ?_
    rintro (_ | ⟨k, bv⟩)
    · exact h
    · dsimp only
      split_ifs
      · exact wp_list_call hW (by trivial) fun _ => hdrop
      · exact h
  · exact h

lemma wp_port_stage (hW : Skips W) (policy : U32) (proto : Byte) (port : U16) :
    wp (books W A) (port_stage feat policy proto port) (fun r t' => Pair r ∧ t' = t) t := by
  unfold port_stage
  by_cases hf : has feat FEAT_PORT_RULES = true
  · rw [if_pos hf]
    simp only [op_eq, call_bind, ret_bind]
    refine wp_list_call hW (by trivial) ?_
    rintro (_ | pv)
    · dsimp only
      split_ifs <;> exact ⟨⟨rfl, by decide, by decide⟩, rfl⟩
    · refine wp_list_call hW (by trivial) fun _ => ?_
      split_ifs <;> exact ⟨⟨rfl, by decide, by decide⟩, rfl⟩
  · rw [if_neg hf]
    exact ⟨⟨rfl, by decide, by decide⟩, rfl⟩

lemma wp_verdict_stage (hW : Skips W) (cfg : FwConfig) (ip : IpHdr) (l4 : L4Hdr) :
    wp (books W A) (verdict_stage cfg ip l4) (fun r t' => Pair r ∧ t' = t) t := by
  unfold verdict_stage
  split_ifs
  · exact ⟨⟨rfl, by decide, by decide⟩, rfl⟩
  · exact ⟨⟨rfl, by decide, by decide⟩, rfl⟩
  · exact ⟨⟨rfl, by decide, by decide⟩, rfl⟩
  · exact ⟨⟨rfl, by decide, by decide⟩, rfl⟩
  · exact wp_port_stage hW _ _ _

end

/-! ### The stages, in the books of counters -/

lemma skips_write : Skips Books.write := by
  intro t o b ho
  cases o <;> first | rfl | exact ho.elim

/-- The label writes down whether the packet is still passing. -/
def Books.label (t : Books) (v : Verdict) : Books :=
  { t with passing := t.passing + if v = .pass then 1 else 0 }

lemma closed_label {t : Books} {v v' : Verdict} {r r' : Stat} (hp : Pair (v, r))
    (ha : Agrees v' r') (hrs : r' ∈ L4_REASONS)
    (hr : r' ∈ LIMITER_INPUT ↔ r ∈ LIMITER_INPUT) (full : Bool) :
    Closed L4_REASONS t v'
      ((if full then (t.label v).add .state_full 1 else t.label v).add r' 1) := by
  refine ⟨full, r', hrs, ha, ?_⟩
  have hv : r' ∈ LIMITER_INPUT ↔ v = .pass := hr.trans hp.2.2
  cases full <;> by_cases h : v = .pass <;> simp [Books.close, Books.add, Books.label, h, hv]

lemma wp_state_full {p : Pending} {t : Books} (hp : Pair (p.verdict, p.reason)) :
    wp bookkeeper (state_full p) (Closed L4_REASONS t) (t.label p.verdict) := by
  unfold state_full
  simp only [stat_inc, stat_add, op_eq, call_bind, ret_bind, wp_books_call]
  rintro - -
  rw [wp_finish]
  exact closed_label hp hp.1 hp.2.1 Iff.rfl true

lemma wp_locked_stage {p : Pending} {t : Books} (hp : Pair (p.verdict, p.reason)) (st : ℕ) :
    wp bookkeeper (locked_stage st p) (Closed L4_REASONS t) (t.label p.verdict) := by
  unfold locked_stage
  simp only [op_eq, call_bind, ret_bind, wp_books_call]
  rintro r (rfl | ⟨hl, rfl⟩)
  · rw [wp_finish]
    exact closed_label hp hp.1 hp.2.1 Iff.rfl false
  · -- the bucket only decides packets that were passing
    rw [wp_finish]
    have hr : p.reason ∈ LIMITER_INPUT := hp.2.2.mpr (limited_pass hl)
    have hd : Stat.drop_ratelimit ∈ LIMITER_INPUT := by decide
    have ha : Agrees .drop .drop_ratelimit := rfl
    exact closed_label hp ha (by decide) ⟨fun _ => hr, fun _ => hd⟩ false

lemma write_label (t : Books) (v : Verdict) (r : Stat) :
    t.write ⟨.update_state_label v r, ()⟩ = t.label v := by
  cases v <;> rfl

lemma wp_update_state {p : Pending} {t : Books} (hp : Pair (p.verdict, p.reason)) :
    wp bookkeeper (update_state p) (Closed L4_REASONS t) t := by
  unfold update_state
  simp only [op_eq, call_bind, ret_bind, wp_books_call]
  rintro - -
  rw [write_label]
  split_ifs
  · simp only [wp_books_call]
    rintro (_ | st) -
    · simp only [wp_books_call]
      rintro (_ | _) -
      · simp only [Bool.false_eq_true, if_false, wp_books_call]
        rintro (_ | st) -
        · exact wp_state_full hp
        · exact wp_locked_stage hp st
      · exact wp_state_full hp
    · exact wp_locked_stage hp st
  · rw [wp_finish]
    exact closed_label hp hp.1 hp.2.1 Iff.rfl false

lemma wp_l4_stage (f : Frame) (now : U64) (cfg : FwConfig) (ip : IpHdr) (t : Books) :
    wp bookkeeper (l4_stage f now cfg ip) (Closed L4_REASONS t) t := by
  unfold l4_stage
  cases parse_l4 f ip with
  | none =>
    rw [wp_finish]
    exact closed_exit t rfl (by decide) (by decide)
  | some l4 =>
    rw [wp_bind]
    refine wp_mono (wp_verdict_stage skips_write cfg ip l4) ?_
    rintro r t' ⟨hr, rfl⟩
    exact wp_update_state hr

lemma wp_config_stage (f : Frame) (now : U64) (cfg : FwConfig) (t : Books) :
    wp bookkeeper (config_stage f now cfg) (Closed STAT_NAMES t) t := by
  unfold config_stage
  cases parse_l3 f with
  | malformed =>
    rw [wp_finish]
    exact closed_exit t rfl (by decide) (by decide)
  | non_ipv4 =>
    rw [wp_finish]
    exact closed_exit t rfl (by decide) (by decide)
  | ipv4 ip =>
    have hl4 : wp bookkeeper (l4_stage f now cfg ip) (Closed STAT_NAMES t) t :=
      wp_mono (wp_l4_stage f now cfg ip t) fun _ _ h => h.mono (by decide)
    refine wp_allowlist_stage skips_write ?_ (wp_blocklist_stage skips_write ?_ hl4)
    · rw [wp_finish]
      exact closed_exit t rfl (by decide) (by decide)
    · rw [wp_finish]
      exact closed_exit t rfl (by decide) (by decide)

/-- **What one execution writes to the books.** -/
theorem wp_xdp_firewall (f : Frame) (t : Books) :
    wp bookkeeper (xdp_firewall f)
      (Closed STAT_NAMES ((t.add .rx_packets 1).add .rx_bytes f.pkt_len)) t := by
  unfold xdp_firewall
  simp only [stat_inc, stat_add, op_eq, call_bind, ret_bind, wp_books_call]
  rintro now - - - - - (_ | cfg) hcfg
  · exact absurd rfl hcfg
  · exact wp_config_stage f now cfg _

/-! ### One packet -/

/-- What the events of an execution write to the books. -/
def written (l : List (Event calls)) : Books := l.foldl Books.write .zero

/-- A packet of `f` that got the verdict `v` is counted once, under one reason, of the kind
the verdict says. -/
structure Counted (f : Frame) (v : Verdict) (t : Books) : Prop where
  rx_packets : t.stats .rx_packets = 1
  rx_bytes : t.stats .rx_bytes = f.pkt_len
  one : ∃ r, (r.is_pass ∨ r.is_drop) ∧ t.stats r = 1 ∧ (r.is_pass ↔ v = .pass) ∧
    ∀ r', (r'.is_pass ∨ r'.is_drop) → r' ≠ r → t.stats r' = 0

/-- The reasons are not the counters every packet advances. -/
lemma agrees_reason {v : Verdict} {r : Stat} (h : Agrees v r) :
    r ≠ .rx_packets ∧ r ≠ .rx_bytes ∧ r ≠ .state_full ∧ (r.is_pass ∨ r.is_drop) ∧
      (r.is_pass ↔ v = .pass) := by
  cases v <;> cases r <;> simp_all [Agrees, Stat.is_pass, Stat.is_drop]

lemma closed_stats {f : Frame} {full : Bool} {r : Stat} (s : Stat) :
    ((((Books.zero.add .rx_packets 1).add .rx_bytes f.pkt_len).close full r).stats s) =
      (if s = .rx_packets then 1 else 0) + (if s = .rx_bytes then f.pkt_len else 0) +
        (if full ∧ s = .state_full then 1 else 0) + (if s = r then 1 else 0) := by
  cases full with
  | false =>
    simp only [Books.close, Bool.false_eq_true, if_false, Books.add_stats, Books.zero, false_and]
    omega
  | true =>
    simp only [Books.close, if_true, Books.add_stats, Books.zero, true_and]
    omega

/-- **One execution counts its packet once.** -/
theorem counted_of_closed {f : Frame} {v : Verdict} {t : Books}
    (h : Closed STAT_NAMES ((Books.zero.add .rx_packets 1).add .rx_bytes f.pkt_len) v t) :
    Counted f v t := by
  obtain ⟨full, r, -, ha, rfl⟩ := h
  obtain ⟨h1, h2, h3, hkind, hpass⟩ := agrees_reason ha
  have hr : ∀ s : Stat, s.is_pass ∨ s.is_drop →
      s ≠ .rx_packets ∧ s ≠ .rx_bytes ∧ s ≠ .state_full := by
    intro s hs
    cases s <;> simp_all [Stat.is_pass, Stat.is_drop]
  refine ⟨?_, ?_, r, hkind, ?_, hpass, fun r' hk hne => ?_⟩
  · rw [closed_stats]; simp [h1.symm]
  · rw [closed_stats]; simp [h2.symm]
  · rw [closed_stats]; simp [h1, h2, h3]
  · obtain ⟨h1', h2', h3'⟩ := hr r' hk
    rw [closed_stats]; simp [h1', h2', h3', hne]

/-- The packets that were passing at `update_state` are those under the limiter's reasons. -/
lemma limiter_of_closed {f : Frame} {v : Verdict} {t : Books}
    (h : Closed STAT_NAMES ((Books.zero.add .rx_packets 1).add .rx_bytes f.pkt_len) v t) :
    t.passing = (LIMITER_INPUT.map t.stats).sum ∧ t.passing ≤ 1 := by
  obtain ⟨full, r, -, -, rfl⟩ := h
  simp only [LIMITER_INPUT, List.map_cons, List.map_nil, closed_stats]
  cases r <;> simp [Books.close, Books.add, Books.zero, LIMITER_INPUT]

lemma kinds_of_closed {f : Frame} {v : Verdict} {t : Books}
    (h : Closed STAT_NAMES ((Books.zero.add .rx_packets 1).add .rx_bytes f.pkt_len) v t) :
    ((STAT_NAMES.filter Stat.is_pass).map t.stats).sum +
      ((STAT_NAMES.filter Stat.is_drop).map t.stats).sum = t.stats .rx_packets := by
  obtain ⟨full, r, -, ha, rfl⟩ := h
  simp only [STAT_NAMES, List.filter, Stat.is_pass, Stat.is_drop, List.map_cons, List.map_nil,
    closed_stats]
  cases v <;> cases r <;> simp_all [Agrees, Stat.is_pass, Stat.is_drop]

/-! ### The counters of the machine -/

/-- What one operation adds to a counter of its CPU. -/
def amount (s : Stat) (e : Event calls) : ℕ :=
  match e.1 with
  | .stat_add idx x => if s = idx then x else 0
  | _ => 0

lemma write_stats (t : Books) (e : Event calls) (s : Stat) :
    (t.write e).stats s = t.stats s + amount s e := by
  obtain ⟨o, b⟩ := e
  cases o with
  | stat_add idx x => exact Books.add_stats t idx s x
  | update_state_label v r => cases v <;> rfl
  | _ => rfl

lemma written_snoc (l : List (Event calls)) (e : Event calls) :
    written (l ++ [e]) = (written l).write e := by
  simp [written]

variable {n : ℕ}

lemma exec_stats {cpu : Fin n} {w w' : World n} {o : Op} {b : Ans o}
    (h : exec cpu w o = (b, w')) (c : Fin n) (s : Stat) :
    w'.stats c s = w.stats c s + if c = cpu then amount s ⟨o, b⟩ else 0 := by
  cases o with
  | stat_add idx x =>
    cases h
    simp only [bump, amount]
    split_ifs <;> simp_all
  | _ => cases h; simp [amount]

lemma exec_total {cpu : Fin n} {w w' : World n} {o : Op} {b : Ans o}
    (h : exec cpu w o = (b, w')) (s : Stat) : w'.total s = w.total s + amount s ⟨o, b⟩ := by
  unfold World.total
  simp only [exec_stats h, Finset.sum_add_distrib, Finset.sum_ite_eq', Finset.mem_univ, if_true]

/-- The kernel's answers are among those the books allow. -/
lemma exec_allowed {cpu : Fin n} {w w' : World n} {o : Op} {b : Ans o}
    (h : exec cpu w o = (b, w')) : Allowed ⟨o, b⟩ := by
  cases o with
  | config_lookup => cases h; exact Option.some_ne_none _
  | state_locked r p =>
    cases h
    simp only [Allowed, update_locked]
    split
    · exact Or.inl rfl
    · exact locked_verdict p _
  | _ => trivial

/-! ### Runs of any number of packets -/

/-- Between two operations of one execution anything else may happen to the maps and the
clocks; only the program writes the counters. -/
def Others (w w' : World n) : Prop := w'.stats = w.stats

/-- A sum of counters, each summed over the executions, is summed execution by execution. -/
lemma sum_totals {ι : Type} [Fintype ι] (l : List Stat) (g : ι → Stat → ℕ) :
    (l.map fun s => ∑ i, g i s).sum = ∑ i, (l.map (g i)).sum := by
  induction l with
  | nil => simp
  | cons s l ih => simp [ih, Finset.sum_add_distrib]

variable {ι α : Type} [DecidableEq ι] {cpu : ι → Fin n}

/-- **Each CPU's counters hold what the executions on it have written.** -/
theorem stats_eq_written [Fintype ι] {c c' : Pool calls (World n) α ι}
    {tr : Turns calls (World n) α ι}
    (h : Path (turn fun i => kernel Others (cpu i)) c tr c') (k : Fin n) (s : Stat) :
    c'.1.stats k s =
      c.1.stats k s + ∑ i with cpu i = k, (written (own i tr)).stats s := by
  induction h with
  | nil => simp [own, written, Books.zero]
  | @snoc tr t u e _ he ih =>
    obtain ⟨j, o, b⟩ := e
    obtain ⟨q, -, ⟨w, hw, hx⟩, -⟩ := he
    have hown : ∀ i, (written (own i (tr ++ [⟨t, (j, ⟨o, b⟩), u⟩]))).stats s =
        (written (own i tr)).stats s + if j = i then amount s ⟨o, b⟩ else 0 := by
      intro i
      rw [own_snoc]
      by_cases hi : j = i
      · simp [hi, written_snoc, write_stats]
      · simp [hi]
    have hpre : w.stats k s = t.1.stats k s := by rw [hw]
    rw [exec_stats hx, hpre, ih]
    simp only [hown, Finset.sum_add_distrib, Finset.sum_ite_eq, Finset.mem_filter,
      Finset.mem_univ, true_and, eq_comm (a := k), Nat.add_assoc]

/-- A counter summed over the CPUs grows by what all executions have written. -/
lemma total_eq_written [Fintype ι] {c c' : Pool calls (World n) α ι}
    {tr : Turns calls (World n) α ι}
    (h : Path (turn fun i => kernel Others (cpu i)) c tr c') (s : Stat) :
    c'.1.total s = c.1.total s + ∑ i, (written (own i tr)).stats s := by
  unfold World.total
  rw [← Finset.sum_fiberwise Finset.univ cpu, ← Finset.sum_add_distrib]
  exact Finset.sum_congr rfl fun k _ => stats_eq_written h k s

/-- Whatever the programs, every answer is one the books allow. -/
lemma own_allowed {c c' : Pool calls (World n) α ι} {tr : Turns calls (World n) α ι}
    (h : Path (turn fun i => kernel Others (cpu i)) c tr c') (i : ι) :
    ∀ e ∈ own i tr, Allowed e := by
  intro e he
  obtain ⟨x, hx, hxe⟩ := mem_own.mp he
  obtain ⟨q, -, ⟨w1, -, hex⟩, -⟩ := h.step_of_mem hx
  rw [hxe] at hex
  exact exec_allowed hex

lemma closed_of_run {frames : ι → Frame} {v : ι → Verdict} {w w' : World n}
    {tr : Turns calls (World n) Verdict ι}
    (h : Path (turn fun i => kernel Others (cpu i)) (w, fun i => xdp_firewall (frames i)) tr
      (w', fun i => .ret (v i))) (i : ι) :
    Closed STAT_NAMES ((Books.zero.add .rx_packets 1).add .rx_bytes (frames i).pkt_len) (v i)
      (written (own i tr)) :=
  (own_trace h i).wp (own_allowed h i) (wp_xdp_firewall (frames i) .zero)

/-- The execution came to `update_state` with the verdict still `XDP_PASS`. -/
def is_passing (l : List (Event calls)) : Bool :=
  l.any fun e =>
    match e.1 with
    | .update_state_label .pass _ => true
    | _ => false

lemma written_passing (l : List (Event calls)) :
    is_passing l = true ↔ 0 < (written l).passing := by
  induction l using List.reverseRecOn with
  | nil => simp [is_passing, written, Books.zero]
  | append_singleton l e ih =>
    obtain ⟨o, b⟩ := e
    have hcons : is_passing (l ++ [⟨o, b⟩]) = (is_passing l || is_passing [⟨o, b⟩]) := by
      simp [is_passing, List.any_append]
    rw [written_snoc, hcons, Bool.or_eq_true, ih]
    cases o with
    | update_state_label v r => cases v <;> simp [is_passing, Books.write]
    | _ => simp [is_passing, Books.write, Books.add]

/-- **Every packet is counted once**, whatever the frames, the CPUs, the order of the steps
and the maps; so the counters add up. -/
theorem every_packet_is_counted [Fintype ι] (frames : ι → Frame) (v : ι → Verdict) (w w' : World n)
    (tr : Turns calls (World n) Verdict ι)
    (h : Path (turn fun i => kernel Others (cpu i)) (w, fun i => xdp_firewall (frames i)) tr
      (w', fun i => .ret (v i))) :
    (∀ i, Counted (frames i) (v i) (written (own i tr))) ∧
    (∀ k s, w'.stats k s = w.stats k s + ∑ i with cpu i = k, (written (own i tr)).stats s) ∧
    ((∀ k s, w.stats k s = 0) →
      w'.passes_total + w'.drops_total = w'.total .rx_packets ∧
      (LIMITER_INPUT.map w'.total).sum = Finset.card {i | is_passing (own i tr) = true}) := by
  refine ⟨fun i => counted_of_closed (closed_of_run h i), fun k s => stats_eq_written h k s,
    fun h0 => ?_⟩
  have hw : ∀ s, w.total s = 0 := fun s => Finset.sum_eq_zero fun k _ => h0 k s
  have htot : w'.total = fun s => ∑ i, (written (own i tr)).stats s :=
    funext fun s => by rw [total_eq_written h, hw, Nat.zero_add]
  constructor
  · rw [World.passes_total, World.drops_total, htot, sum_totals, sum_totals,
      ← Finset.sum_add_distrib]
    exact Finset.sum_congr rfl fun i _ => kinds_of_closed (closed_of_run h i)
  · rw [htot, sum_totals, Finset.card_filter]
    refine Finset.sum_congr rfl fun i _ => ?_
    obtain ⟨hsum, hle⟩ := limiter_of_closed (closed_of_run h i)
    rw [← hsum]
    split_ifs with hp
    · have := (written_passing _).mp hp
      omega
    · have := mt (written_passing _).mpr hp
      omega

/-- Two packets of one new source, on two CPUs that take turns. -/
def meeting : Turns calls (World 2) Verdict (Fin 2) × Pool calls (World 2) Verdict (Fin 2) :=
  play (fun i => exec i) (List.replicate 13 [0, 1]).flatten
    (World.loaded 2, fun _ => xdp_firewall (header_from 7))

theorem meeting_is_counted :
    meeting.2.1.passes_total + meeting.2.1.drops_total = meeting.2.1.total .rx_packets := by
  have hpath : Path (turn fun i => kernel Others i)
      (World.loaded 2, fun _ : Fin 2 => xdp_firewall (header_from 7)) meeting.1
      (meeting.2.1, fun _ => .ret .pass) := by
    have hE : ∀ w : World 2, Others w w := fun _ => rfl
    have hres : ∀ i, (meeting.2.2 i).result = some .pass := by decide +kernel
    have hend : meeting.2 = (meeting.2.1, fun _ => .ret .pass) :=
      Prod.ext rfl (funext fun i => result_eq_some.mp (hres i))
    rw [← hend]
    exact path_play hE _ _ _
  exact ((every_packet_is_counted _ _ _ _ _ hpath).2.2 fun _ _ => rfl).1

end Lookout.Accounting

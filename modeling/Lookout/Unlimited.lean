import Lookout.Conforming
import Lookout.Guarantee
import Lookout.Readout

/-!
A source that keeps to the rate is left alone.

If the packets of a source come, in the order in which they hold the lock of its entry, no faster
than the settings allow, the limiter drops none of them, whatever the other sources send.
-/

namespace Lookout.Unlimited

open Lookout.Effects Lookout.Effects.Prog Lookout.Runs Lookout.Lpm Lookout.Lpm.Covering
open Lookout.Handles Lookout.Common Lookout.Packet Lookout.TokenBucket Lookout.Limiter
open Lookout.Polls Lookout.Kernel Lookout.Xdp Lookout.Accounting Lookout.Counting
open Lookout.Readout Lookout.Guarantee

variable {n : ℕ}

/-! ### What one program writes -/

/-- The entry of `a` is at `r`, and whoever holds its lock keeps the verdict. -/
def Lenient (a : Addr) (r : ℕ) : Event calls → Prop
  | ⟨.state_lookup b, st⟩ => b = a → st = some r
  | ⟨.state_locked st p, v⟩ => st = r → v = (p.verdict, p.reason)
  | _ => True

/-- Nothing has been counted as limited. -/
def NoneLimited (_ : Verdict) (t : Books) : Prop := t.stats .drop_ratelimit = 0

section

variable {a : Addr} {r : ℕ} {t : Books}

/-- The machine that keeps the books while the limiter is lenient. -/
abbrev lenient (a : Addr) (r : ℕ) : Machine calls Books := books Books.write (Lenient a r)

/-- No packet comes to the limiter with the limiter's own reason. -/
lemma not_limited_of_pair {v : Verdict} {s : Stat} (h : Pair (v, s)) : s ≠ .drop_ratelimit := by
  rintro rfl
  have hlimiter : Stat.drop_ratelimit ∈ LIMITER_INPUT := by decide
  obtain rfl : v = .pass := h.2.2.mp hlimiter
  cases h.1

lemma wp_finish_lenient {s : Stat} {v : Verdict} (hs : s ≠ .drop_ratelimit)
    (ht : t.stats .drop_ratelimit = 0) : wp (lenient a r) (finish s v) NoneLimited t := by
  unfold finish
  simp only [stat_inc, stat_add, op_eq, call_bind, ret_bind, wp_books_call]
  rintro - -
  change (t.add s 1).stats .drop_ratelimit = 0
  rw [Books.add_stats, ht, if_neg hs.symm]

lemma wp_locked_stage_lenient {p : Pending} (hp : p.reason ≠ .drop_ratelimit)
    (ht : t.stats .drop_ratelimit = 0) : wp (lenient a r) (locked_stage r p) NoneLimited t := by
  unfold locked_stage
  simp only [op_eq, call_bind, ret_bind, wp_books_call]
  rintro b hb
  rw [hb rfl]
  exact wp_finish_lenient hp ht

lemma wp_update_state_lenient {p : Pending} (hp : p.reason ≠ .drop_ratelimit)
    (ha : p.saddr = a) (ht : t.stats .drop_ratelimit = 0) :
    wp (lenient a r) (update_state p) NoneLimited t := by
  unfold update_state
  simp only [op_eq, call_bind, ret_bind, wp_books_call]
  rintro - -
  have ht : (t.write ⟨.update_state_label p.verdict p.reason, ()⟩).stats .drop_ratelimit = 0 := by
    rw [write_label]
    exact ht
  split_ifs
  · rw [wp_books_call]
    rintro st hst
    obtain rfl := hst ha
    exact wp_locked_stage_lenient hp ht
  · exact wp_finish_lenient hp ht

/-- **A packet of `a` is not counted as limited** when the limiter is lenient. -/
theorem wp_xdp_firewall_lenient {f : Frame} (hf : SentBy a f) :
    wp (lenient a r) (xdp_firewall f) NoneLimited .zero := by
  obtain ⟨ip, hip, ha⟩ := hf
  unfold xdp_firewall
  simp only [stat_inc, stat_add, op_eq, call_bind, ret_bind, wp_books_call]
  rintro now - - - - - (_ | cfg) -
  · rfl
  · have ht : ((Books.zero.add .rx_packets 1).add .rx_bytes f.pkt_len).stats .drop_ratelimit = 0 :=
      rfl
    change wp (lenient a r) (config_stage f now cfg) NoneLimited
      ((Books.zero.add .rx_packets 1).add .rx_bytes f.pkt_len)
    unfold config_stage
    rw [hip]
    refine Accounting.wp_allowlist_stage Accounting.skips_write (wp_finish_lenient (by decide) ht) ?_
    refine Accounting.wp_blocklist_stage Accounting.skips_write (wp_finish_lenient (by decide) ht) ?_
    unfold l4_stage
    cases parse_l4 f ip with
    | none => exact wp_finish_lenient (by decide) ht
    | some l4 =>
      refine (wp_bind _ _ _ _).mpr (wp_mono (wp_verdict_stage Accounting.skips_write cfg ip l4) ?_)
      rintro v _ ⟨hv, rfl⟩
      exact wp_update_state_lenient (not_limited_of_pair hv) ha ht

lemma exists_answer_lenient (o : Op) : ∃ b, Lenient a r ⟨o, b⟩ := by
  cases o with
  | state_lookup b => exact ⟨some r, fun _ => rfl⟩
  | state_locked st p => exact ⟨(p.verdict, p.reason), fun _ => rfl⟩
  | _ => exact ⟨default, trivial⟩

/-- Nor is one that is under way. -/
lemma none_limited_so_far {f : Frame} (hf : SentBy a f) {l : List (Event calls)} {q : Call Verdict}
    (h : Trace (xdp_firewall f) l q) (hA : ∀ e ∈ l, Lenient a r e) :
    (written l).stats .drop_ratelimit = 0 := by
  obtain ⟨l', v, hrest, hA'⟩ := Trace.complete (A := Lenient a r) exists_answer_lenient q
  have hall : ∀ e ∈ l ++ l', Lenient a r e := fun e he =>
    (List.mem_append.mp he).elim (hA e) (hA' e)
  have hend : (written (l ++ l')).stats .drop_ratelimit = 0 :=
    (h.append hrest).wp hall (wp_xdp_firewall_lenient hf)
  exact Nat.le_zero.mp (hend ▸ written_mono l l' .drop_ratelimit)

end

/-! ### What the entry decides -/

lemma passed_le_length (st : SrcState) (ps : List Pending) :
    passed st ps ≤ (readings ps).length := by
  induction ps generalizing st with
  | nil => exact le_rfl
  | cons p ps ih =>
    have hrest := ih (locked p st).1
    unfold readings at hrest ⊢
    cases hl : limited p with
    | true =>
      have hone := Bool.toNat_le (true && decide ((locked p st).2.1 = .pass))
      simp only [passed, List.filter_cons, hl, if_true, List.map_cons, List.length_cons]
      omega
    | false =>
      simpa only [passed, List.filter_cons, hl, Bool.false_and, Bool.toNat_false, Nat.zero_add,
        Bool.false_eq_true, if_false] using hrest

/-- A bucket that stops nobody keeps all verdicts. -/
lemma decided_of_passed {st : SrcState} {ps : List Pending}
    (h : passed st ps = (readings ps).length) : ∀ c ∈ decided st ps, c.2 = c.1.verdict := by
  induction ps generalizing st with
  | nil => exact fun _ hc => absurd hc List.not_mem_nil
  | cons p ps ih =>
    have hle := passed_le_length (locked p st).1 ps
    have hone := Bool.toNat_le (decide ((locked p st).2.1 = .pass))
    unfold readings at h hle
    have hboth : (locked p st).2.1 = p.verdict ∧
        passed (locked p st).1 ps = ((ps.filter fun p => limited p).map fun p => p.now.toNat).length := by
      cases hl : limited p with
      | true =>
        simp only [passed, List.filter_cons, hl, if_true, List.map_cons, List.length_cons,
          Bool.true_and] at h
        have hpass : (decide ((locked p st).2.1 = .pass)).toNat = 1 := by omega
        have hv : (locked p st).2.1 = .pass := by
          by_contra hne
          rw [decide_eq_false hne] at hpass
          cases hpass
        exact ⟨hv.trans (limited_pass hl).symm, by omega⟩
      | false =>
        simp only [passed, List.filter_cons, hl, Bool.false_and, Bool.toNat_false, Nat.zero_add,
          Bool.false_eq_true, if_false] at h
        exact ⟨congrArg Prod.fst (locked_decided st hl).2, h⟩
    exact List.forall_mem_cons.mpr ⟨hboth.1, ih hboth.2⟩

/-! ### Runs -/

variable {ι : Type} [DecidableEq ι] {cpu : ι → Fin n}

/-- The packets that have held the lock of `r`, in that order. -/
def lock_order (r : ℕ) (tr : Turns calls (World n) Verdict ι) : List Pending :=
  (counted r tr).map fun e => e.2.1

/-- The packets of the entry at `r` that the limiter decides come, after its last refill, no
faster than the settings `cfg` allow. -/
def KeepsRate (cfg : FwConfig) (st : SrcState) (ps : List Pending) : Prop :=
  Conforms (1000000000 / cfg.rate_pps.toNat) cfg.burst_pkts.toNat
    (paced 1000000000 (1000000000 / cfg.rate_pps.toNat) st.last_refill_ns.toNat 0 (readings ps))

/-- The bucket of the entry stops none of its packets. -/
lemma decided_of_keeps {cfg : FwConfig} {T : ℕ} {st : SrcState} {ps : List Pending}
    (hrate : RateOk cfg.rate_pps) (hdvd : cfg.rate_pps.toNat ∣ 1000000000)
    (hburst : cfg.burst_pkts.toNat + cfg.rate_pps.toNat < 2 ^ 64)
    (htok : st.tokens.toNat + cfg.rate_pps.toNat < 2 ^ 64)
    (hfull : cfg.burst_pkts.toNat ≤ st.tokens.toNat) (hps : ∀ p ∈ ps, Ruled cfg T p)
    (hkeeps : KeepsRate cfg st ps) : ∀ c ∈ decided st ps, c.2 = c.1.verdict := by
  have hsettings : Settings cfg.rate_pps cfg.burst_pkts ps :=
    fun p hp _ => ⟨(hps p hp).rate, (hps p hp).burst⟩
  have hc : 0 < 1000000000 / cfg.rate_pps.toNat :=
    Nat.div_pos (hrate.2.trans (by norm_num)) hrate.1
  have hall := conforms_run (Nat.mul_div_cancel' hdvd) hrate.1 hc (readings ps) (b := bucket st)
    hfull hkeeps
  refine decided_of_passed ?_
  rw [passed_eq_run hrate hburst ps hsettings st htok, hall]

section

variable {a : Addr} {r : ℕ} {T : ℕ} {frames : ι → Frame} {w w' : World n} {q : ι → Call Verdict}
  {tr : Turns calls (World n) Verdict ι}

/-- Where the entry keeps all verdicts, a program finds the limiter lenient. -/
lemma own_lenient (h : Path (turn fun i => kernel (Leaves a T) (cpu i))
      (w, fun i => xdp_firewall (frames i)) tr (w', q)) (hw : Holds a r w.config w)
    (hkept : ∀ c ∈ (counted r tr).map Prod.snd, c.2 = c.1.verdict) (i : ι) :
    ∀ e ∈ own i tr, Lenient a r e := by
  intro e he
  have hquiet := own_quiet h hw i e he
  obtain ⟨x, hx, hxe⟩ := mem_own.mp he
  obtain ⟨k, -, ⟨w1, -, hexec⟩, -⟩ := h.step_of_mem hx
  rw [hxe] at hexec
  have hallowed : Allowed e := exec_allowed hexec
  obtain ⟨o, b⟩ := e
  cases o with
  | state_lookup b' => exact hquiet
  | state_locked st p =>
    rintro rfl
    have hmem : (p, b.1) ∈ (counted st tr).map Prod.snd :=
      List.mem_map.mpr ⟨(i, (p, b.1)), counted_of_own (List.mem_filterMap.mpr ⟨_, he, rfl⟩), rfl⟩
    have hv : b.1 = p.verdict := hkept _ hmem
    rcases hallowed with hb | ⟨hl, hb⟩
    · exact hb
    · -- the bucket only drops packets that were passing
      rw [hb, limited_pass hl] at hv
      cases hv
  | _ => trivial

/-- **A source that keeps to the rate is never limited.** With a full bucket at the start, and as
long as the entry stays where it is, none of its packets is counted under `drop_ratelimit`, on
whatever CPUs and among whatever other packets they are handled. -/
theorem never_limited (h : Path (turn fun i => kernel (Leaves a T) (cpu i))
      (w, fun i => xdp_firewall (frames i)) tr (w', q)) (hrate : RateOk w.config.rate_pps)
    (hdvd : w.config.rate_pps.toNat ∣ 1000000000)
    (hburst : w.config.burst_pkts.toNat + w.config.rate_pps.toNat < 2 ^ 64)
    (htrack : has w.config.features FEAT_TRACK_STATE = true)
    (hallow : ∀ k ∈ w.allowlist, ¬ covers k a) {st : SrcState}
    (hr : w.srcstate.find a = some r) (hst : w.srcstate.deref r = some st)
    (htok : st.tokens.toNat + w.config.rate_pps.toNat < 2 ^ 64)
    (hfull : w.config.burst_pkts.toNat ≤ st.tokens.toNat)
    (hkeeps : KeepsRate w.config st (lock_order r tr)) :
    ∀ i, SentBy a (frames i) → (written (own i tr)).stats .drop_ratelimit = 0 := by
  have hw : Holds a r w.config w := ⟨rfl, hr, hallow⟩
  obtain ⟨ps, hps, hruled⟩ := decided_run h hw htrack hst
  have horder : lock_order r tr = ps := by
    have hfst := congrArg (List.map Prod.fst) hps
    rwa [map_fst_decided, List.map_map] at hfst
  rw [horder] at hkeeps
  have hkept := decided_of_keeps hrate hdvd hburst htok hfull hruled hkeeps
  rw [← hps] at hkept
  exact fun i hf => none_limited_so_far hf (own_trace h i) (own_lenient h hw hkept i)

end

/-- A source with two tokens, which is all it can hold. -/
def two_at_a_time : World 2 :=
  { World.loaded 2 with
    srcstate := RefMap.empty.insert 0x0A000007 ⟨2, 0, 0, 9, 900, 0, 0, 0, 0, 9, 0, 0⟩
    config := { default_config with rate_pps := 1000, burst_pkts := 2 } }

/-- Two of its packets on two CPUs, the second overtaking the first. -/
def both_pass : Turns calls (World 2) Verdict (Fin 2) × Pool calls (World 2) Verdict (Fin 2) :=
  play (fun i => exec i) (List.replicate 9 0 ++ List.replicate 11 1 ++ List.replicate 2 0)
    (two_at_a_time, fun _ => xdp_firewall dns_query)

theorem never_limited_both_pass :
    (written (own 0 both_pass.1)).stats .drop_ratelimit = 0 ∧
      (written (own 1 both_pass.1)).stats .drop_ratelimit = 0 := by
  have hrun : Path (turn fun i => kernel Eq i) (two_at_a_time, fun _ : Fin 2 => xdp_firewall dns_query)
      both_pass.1 both_pass.2 := path_play (fun _ => rfl) _ _ _
  have hclock : ∀ x ∈ both_pass.1, x.pre.1.clock.toNat ≤ 0 := by decide +kernel
  have hleaves : Path (turn fun i => kernel (Leaves 0x0A000007 0) i)
      (two_at_a_time, fun _ : Fin 2 => xdp_firewall dns_query) both_pass.1 both_pass.2 := by
    refine (hrun.strengthen (P := fun s _ _ => s.1.clock.toNat ≤ 0) hclock).mono ?_
    rintro s e t ⟨⟨k, hk, ⟨w1, rfl, hexec⟩, ht⟩, hT⟩
    exact ⟨k, hk, ⟨s.1, ⟨⟨rfl, fun _ _ h => h⟩, rfl, rfl, fun h => h, hT⟩, hexec⟩, ht⟩
  have hst : two_at_a_time.srcstate.deref 0 = some ⟨2, 0, 0, 9, 900, 0, 0, 0, 0, 9, 0, 0⟩ := by
    decide +kernel
  have hkeeps : KeepsRate two_at_a_time.config ⟨2, 0, 0, 9, 900, 0, 0, 0, 0, 9, 0, 0⟩
      (lock_order 0 both_pass.1) := by
    have htwo : paced 1000000000 1000000 0 0 (readings (lock_order 0 both_pass.1)) = [0, 0] := by
      decide +kernel
    intro s hs x y _ _
    have hle := (htwo ▸ hs : s <:+: [0, 0]).length_le
    exact hle.trans (Nat.le_add_right 2 _)
  have hsent : SentBy 0x0A000007 dns_query := Isolation.sent_by_iff.mp (by decide +kernel)
  have hnone := never_limited hleaves ⟨by decide, by decide⟩ (by decide) (by decide) (by decide)
    (fun k hk => absurd hk (AList.notMem_empty k)) (by decide) hst (by decide) (by decide) hkeeps
  exact ⟨hnone 0 hsent, hnone 1 hsent⟩

end Lookout.Unlimited

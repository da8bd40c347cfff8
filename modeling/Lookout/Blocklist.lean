import Lookout.Accounting

/-!
Who is on the blocklist.

The blocklist stage drops a packet when the longest entry that covers its source is active.
An entry that has run out still answers the lookup, so it hides any shorter one.
-/

namespace Lookout.Blocklist

open Lookout.Effects Lookout.Effects.Prog Lookout.Lpm Lookout.Lpm.Covering Lookout.Common
open Lookout.Packet Lookout.Kernel Lookout.Xdp Lookout.Accounting

variable {n : ℕ}

/-- What the blocklist stage would do to `a` at the time `t`. -/
def Drops (m : Store LpmKey BlockVal) (a : Addr) (t : U64) : Prop :=
  ∃ k bv, find m a = some (k, bv) ∧ active bv t = true

/-- The frame is dropped and counted under `drop_blocklist`. -/
def dropped_at_blocklist (cpu : Fin n) (f : Frame) (w : World n) : Prop :=
  (run (exec cpu) (xdp_firewall f) w).1 = .drop ∧
    (run (exec cpu) (xdp_firewall f) w).2.stats cpu .drop_blocklist =
      w.stats cpu .drop_blocklist + 1

/-! ### The stages after the blocklist -/

/-- The books say how far the counters are from those of `w`. -/
def Keeps (cpu : Fin n) (w w' : World n) (t : Books) : Prop :=
  ∀ s, w'.stats cpu s = w.stats cpu s + t.stats s

lemma keeps_step {cpu : Fin n} {w : World n} (w1 : World n) (t : Books) (o : Op) (b : Ans o)
    (w2 : World n) (h : Keeps cpu w w1 t) (hx : kernel Eq cpu w1 o b w2) :
    ∃ t', bookkeeper t o b t' ∧ Keeps cpu w w2 t' := by
  obtain ⟨_, rfl, hx⟩ := hx
  refine ⟨t.write ⟨o, b⟩, ⟨exec_allowed hx, rfl⟩, fun s => ?_⟩
  rw [exec_stats hx, if_pos rfl, h, write_stats, Nat.add_assoc]

/-- Nothing after the blocklist stage counts under `drop_blocklist`. -/
lemma l4_stage_keeps (cpu : Fin n) (f : Frame) (now : U64) (cfg : FwConfig) (ip : IpHdr)
    (w : World n) :
    (run (exec cpu) (l4_stage f now cfg ip) w).2.stats cpu .drop_blocklist =
      w.stats cpu .drop_blocklist := by
  have hstart : Keeps cpu w w .zero := fun _ => rfl
  have hwp := wp_sim keeps_step hstart (wp_l4_stage f now cfg ip .zero)
  obtain ⟨t', hk, full, r, hr, -, rfl⟩ := run_of_wp (fun _ => rfl) hwp
  have hne : Stat.drop_blocklist ≠ r := by rintro rfl; exact absurd hr (by decide)
  rw [hk .drop_blocklist]
  cases full <;> simp [Books.close, Books.add, Books.zero, hne]

/-! ### The blocklist stage -/

/-- A source that no allowlist entry covers goes on to the blocklist. -/
lemma run_allowlist_stage {cpu : Fin n} {feat : U32} {a : Addr} {next : Call Verdict}
    {w : World n} (hallow : ∀ k ∈ w.allowlist, ¬ covers k a) :
    run (exec cpu) (allowlist_stage feat a next) w = run (exec cpu) next w := by
  unfold allowlist_stage
  split_ifs
  · simp only [op_eq, call_bind, ret_bind, run_call, exec, find_none.mpr hallow]
  · rfl

lemma run_blocklist_hit {cpu : Fin n} {feat : U32} {a : Addr} {now : U64} {next : Call Verdict}
    {w : World n} {k : LpmKey} {bv : BlockVal} (hfeat : has feat FEAT_BLOCKLIST = true)
    (hf : find w.blocklist a = some (k, bv)) (ha : active bv now = true) :
    (run (exec cpu) (blocklist_stage feat a now next) w).1 = .drop ∧
      (run (exec cpu) (blocklist_stage feat a now next) w).2.stats cpu .drop_blocklist =
        w.stats cpu .drop_blocklist + 1 := by
  unfold blocklist_stage
  simp [hfeat, exec, hf, ha, finish, stat_inc, stat_add, bump]

lemma run_blocklist_miss {cpu : Fin n} {feat : U32} {a : Addr} {now : U64} {next : Call Verdict}
    {w : World n} (h : ∀ k bv, find w.blocklist a = some (k, bv) → active bv now = false) :
    run (exec cpu) (blocklist_stage feat a now next) w = run (exec cpu) next w := by
  unfold blocklist_stage
  split_ifs
  · cases hf : find w.blocklist a with
    | none => simp [exec, hf]
    | some e =>
      obtain ⟨k, bv⟩ := e
      simp [exec, hf, h k bv hf]
  · rfl

/-- The counters after the first operations of the program. -/
def received (cpu : Fin n) (f : Frame) (w : World n) : World n :=
  { w with stats := bump (bump w.stats cpu .rx_packets 1) cpu .rx_bytes f.pkt_len }

lemma received_stats (cpu : Fin n) (f : Frame) (w : World n) :
    (received cpu f w).stats cpu .drop_blocklist = w.stats cpu .drop_blocklist := by
  simp [received, bump]

/-- A packet with a valid header, from a source that no allowlist entry covers, comes to the
blocklist stage. -/
lemma run_xdp_firewall {cpu : Fin n} {f : Frame} {w : World n} {ip : IpHdr}
    (hip : parse_l3 f = .ipv4 ip) (hallow : ∀ k ∈ w.allowlist, ¬ covers k ip.saddr) :
    run (exec cpu) (xdp_firewall f) w =
      run (exec cpu) (blocklist_stage w.config.features ip.saddr w.clock
        (l4_stage f w.clock w.config ip)) (received cpu f w) := by
  have hstart : run (exec cpu) (xdp_firewall f) w =
      run (exec cpu) (config_stage f w.clock w.config) (received cpu f w) := rfl
  have hallow' : ∀ k ∈ (received cpu f w).allowlist, ¬ covers k ip.saddr := hallow
  rw [hstart, config_stage, hip]
  exact run_allowlist_stage hallow'

/-- **The blocklist stage drops exactly the sources whose longest entry is active.** -/
theorem dropped_iff_drops {cpu : Fin n} {f : Frame} {w : World n} {ip : IpHdr}
    (hip : parse_l3 f = .ipv4 ip) (hfeat : has w.config.features FEAT_BLOCKLIST = true)
    (hallow : ∀ k ∈ w.allowlist, ¬ covers k ip.saddr) :
    dropped_at_blocklist cpu f w ↔ Drops w.blocklist ip.saddr w.clock := by
  unfold dropped_at_blocklist
  rw [run_xdp_firewall hip hallow, ← received_stats cpu f w]
  constructor
  · rintro ⟨-, hcount⟩
    by_contra hnot
    have hmiss : ∀ k bv, find (received cpu f w).blocklist ip.saddr = some (k, bv) →
        active bv w.clock = false := by
      intro k bv hf
      by_contra ha
      exact hnot ⟨k, bv, hf, by simpa using ha⟩
    rw [run_blocklist_miss hmiss, l4_stage_keeps] at hcount
    omega
  · rintro ⟨k, bv, hf, ha⟩
    have hf' : find (received cpu f w).blocklist ip.saddr = some (k, bv) := hf
    exact run_blocklist_hit hfeat hf' ha

/-! ### One lookup against the whole list -/

/-- Some entry that covers `a` is active at `t`. -/
def Blocked (m : Store LpmKey BlockVal) (a : Addr) (t : U64) : Prop :=
  Holds m a fun bv => active bv t = true

/-- The longest entry that covers `a` has run out at `t`, and a shorter one is active. -/
def Hidden (m : Store LpmKey BlockVal) (a : Addr) (t : U64) : Prop :=
  Shadowed m a fun bv => active bv t = true

/-- **A frame is dropped exactly when its source is blocked**, if and only if no block of the
source is hidden behind an entry that has run out. -/
theorem dropped_iff_blocked (cpu : Fin n) (f : Frame) (w : World n) (ip : IpHdr)
    (hip : parse_l3 f = .ipv4 ip) (hfeat : has w.config.features FEAT_BLOCKLIST = true)
    (hallow : ∀ k ∈ w.allowlist, ¬ covers k ip.saddr) :
    (dropped_at_blocklist cpu f w ↔ Blocked w.blocklist ip.saddr w.clock) ↔
      ¬ Hidden w.blocklist ip.saddr w.clock := by
  rw [dropped_iff_drops hip hfeat hallow]
  exact find_iff_holds w.blocklist ip.saddr _

lemma not_hidden_of_drops {m : Store LpmKey BlockVal} {a : Addr} {t : U64} (h : Drops m a t) :
    ¬ Hidden m a t := by
  rintro ⟨⟨k, bv, hv, hc, hl, hn⟩, -⟩
  obtain ⟨k', bv', hf, ha⟩ := h
  rw [find_some.mpr ⟨hv, hc, hl⟩] at hf
  cases hf
  exact hn ha

/-- A subnet that is blocked for good, and a block of one of its addresses that ran out. -/
def two_blocks : World 1 :=
  { World.loaded 1 with
    clock := 10
    blocklist := AList.insert (LpmKey.single 0x0A000064) ⟨5, 0, BLOCK_AUTO⟩
      (AList.insert (.net 0x0A000000 24 (by omega)) ⟨0, 0, BLOCK_MANUAL⟩ ∅) }

theorem dropped_iff_blocked_neighbour :
    (dropped_at_blocklist 0 (header_from 0x0A000065) two_blocks ↔
      Blocked two_blocks.blocklist 0x0A000065 two_blocks.clock) := by
  have hip : parse_l3 (header_from 0x0A000065) = .ipv4 ⟨34, 0x0A000065, 253, 0⟩ := by decide
  have hdrops : Drops two_blocks.blocklist 0x0A000065 two_blocks.clock :=
    ⟨.net 0x0A000000 24 (by omega), ⟨0, 0, BLOCK_MANUAL⟩, by decide +kernel, by decide⟩
  exact (dropped_iff_blocked 0 (header_from 0x0A000065) two_blocks _ hip (by decide)
    (fun k hk => absurd hk (AList.notMem_empty k))).mpr (not_hidden_of_drops hdrops)

theorem expired_block_hides_subnet :
    ∃ ip, parse_l3 (header_from 0x0A000064) = .ipv4 ip ∧
      has two_blocks.config.features FEAT_BLOCKLIST = true ∧
      (∀ k ∈ two_blocks.allowlist, ¬ covers k ip.saddr) ∧
      ¬ (dropped_at_blocklist 0 (header_from 0x0A000064) two_blocks ↔
        Blocked two_blocks.blocklist ip.saddr two_blocks.clock) := by
  refine ⟨⟨34, 0x0A000064, 253, 0⟩, by decide, by decide,
    fun k hk => absurd hk (AList.notMem_empty k), fun h => ?_⟩
  have hblocked : Blocked two_blocks.blocklist 0x0A000064 two_blocks.clock :=
    ⟨.net 0x0A000000 24 (by omega), ⟨0, 0, BLOCK_MANUAL⟩, by decide +kernel, by decide, by decide⟩
  have hpass : (run (exec 0) (xdp_firewall (header_from 0x0A000064)) two_blocks).1 = .pass := by
    decide +kernel
  have hdrop := (h.mpr hblocked).1
  rw [hpass] at hdrop
  exact absurd hdrop (by decide)

end Lookout.Blocklist

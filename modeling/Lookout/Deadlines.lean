import Lookout.Blocklist
import Lookout.Sessions

/-!
One deadline, judged in four places.

`xdp_firewall` asks whether an entry is active, `is_blocked` and `list_blocked` ask it again in
Python, and `remove_expired_blocks` asks the opposite. Each has its own way to write the
comparison and to spare the permanent entries.
-/

namespace Lookout.Deadlines

open Lookout.Effects Lookout.Effects.Prog Lookout.Dicts Lookout.Lpm Lookout.Lpm.Covering
open Lookout.Common Lookout.Packet Lookout.Kernel Lookout.Xdp Lookout.Firewall Lookout.Blocklist
open Lookout.Sessions

variable {n : ℕ}

/-! ### The comparisons -/

/-- The Python test is the opposite of the one in the program, at the deadline too. -/
lemma expired_eq (bv : BlockVal) (t : U64) : expired t.toNat bv = !active bv t := by
  have hzero : bv.expires_ns = 0 ↔ bv.expires_ns.toNat = 0 := by
    rw [← BitVec.toNat_inj]
    rfl
  have hlt : bv.expires_ns > t ↔ t.toNat < bv.expires_ns.toNat := BitVec.lt_def
  unfold expired active
  rw [← decide_not, decide_eq_decide, hzero, hlt]
  omega

lemma run_is_blocked (cpu : Fin n) (a : Addr) (w : World n) :
    run (exec cpu) (is_blocked a) w =
      (((find w.blocklist a).map fun e => active e.2 w.clock).getD false, w) := by
  unfold is_blocked
  simp only [op_eq, call_bind, ret_bind, run_call, exec]
  cases find w.blocklist a with
  | none => rfl
  | some e =>
    obtain ⟨k, bv⟩ := e
    by_cases hzero : bv.expires_ns = 0
    · have hactive : active bv w.clock = true := decide_eq_true (Or.inl hzero)
      simp only [if_pos hzero, Option.map_some, Option.getD_some, hactive]
      rfl
    · have hactive : active bv w.clock = decide (bv.expires_ns.toNat > w.clock.toNat) :=
        decide_eq_decide.mpr (or_iff_right hzero)
      simp only [if_neg hzero, Option.map_some, Option.getD_some, hactive]
      rfl

/-- `is_blocked` answers as the blocklist stage does. -/
lemma is_blocked_iff (cpu : Fin n) (a : Addr) (w : World n) :
    (run (exec cpu) (is_blocked a) w).1 = true ↔ Drops w.blocklist a w.clock := by
  rw [run_is_blocked]
  unfold Drops
  cases find w.blocklist a with
  | none => simp
  | some e =>
    obtain ⟨k, bv⟩ := e
    simp

/-! ### The entries -/

/-- The entry would be enforced at `t` if it were the one a lookup finds: whoever it answers for,
in any maps, is dropped. -/
def Enforced (cpu : Fin n) (k : LpmKey) (bv : BlockVal) (t : U64) : Prop :=
  ∀ (w : World n) (f : Frame) (ip : IpHdr), w.clock = t → parse_l3 f = .ipv4 ip →
    has w.config.features FEAT_BLOCKLIST = true → (∀ k' ∈ w.allowlist, ¬ covers k' ip.saddr) →
    find w.blocklist ip.saddr = some (k, bv) → dropped_at_blocklist cpu f w

lemma be16_header_from (a : Addr) {i : ℕ} {x y : Byte} (h : i + 2 ≤ (header_from a).pkt_len)
    (hx : ∀ h, (header_from a).byte i h = x) (hy : ∀ h, (header_from a).byte (i + 1) h = y) :
    (header_from a).be16 i h = x ++ y := by
  rw [Frame.be16, hx, hy]

lemma parse_eth_header_from (a : Addr) : parse_eth (header_from a) = some (0x0800, 14) := by
  have hlen : 14 ≤ (header_from a).pkt_len := by
    change 14 ≤ 34
    omega
  have hproto : (header_from a).be16 12 hlen = 0x0800 := by
    rw [be16_header_from a (x := 0x08) (y := 0x00) hlen (fun _ => rfl) fun _ => rfl]
    decide
  unfold parse_eth
  rw [dif_pos hlen, hproto]
  rfl

lemma parse_header_from (a : Addr) : parse_l3 (header_from a) = .ipv4 ⟨34, a, 253, 0⟩ := by
  have hlen : (header_from a).pkt_len = 34 := rfl
  have hfirst : ∀ h, (header_from a).byte 14 h = 0x45 := fun _ => rfl
  have htot : ∀ h, (header_from a).be16 (14 + 2) h = 20 := by
    intro h
    rw [be16_header_from a (x := 0) (y := 20) h (fun _ => rfl) fun _ => rfl]
    decide
  have hfrag : ∀ h, (header_from a).be16 (14 + 6) h = 0 := by
    intro h
    rw [be16_header_from a (x := 0) (y := 0) h (fun _ => rfl) fun _ => rfl]
    decide
  have httl : ∀ h, (header_from a).byte (14 + 8) h = 64 := fun _ => rfl
  have hproto : ∀ h, (header_from a).byte (14 + 9) h = 253 := fun _ => rfl
  have hsaddr : ∀ h, (header_from a).be32 (14 + 12) h = a := fun _ => octets_append a
  unfold parse_l3
  rw [parse_eth_header_from]
  simp only [ETH_P_IP, ne_eq, not_true_eq_false, if_false]
  unfold parse_ip
  simp only [hlen, hfirst, htot, hfrag, httl, hproto, hsaddr]
  rfl

/-- A blocklist of one entry. -/
def one_block (n : ℕ) (k : LpmKey) (bv : BlockVal) (t : U64) : World n :=
  { World.loaded n with clock := t, blocklist := AList.insert k bv ∅ }

lemma has_default : has default_config.features FEAT_BLOCKLIST = true := by decide

lemma find_one_block (k : LpmKey) (bv : BlockVal) (t : U64) :
    find (one_block n k bv t).blocklist k.addr = some (k, bv) :=
  find_insert ((covers_iff k k.addr).mpr k.host_clear)
    fun _ hk => absurd hk (AList.notMem_empty _)

/-- **An entry would be enforced exactly when it is active.** -/
theorem enforces_iff_active (cpu : Fin n) (k : LpmKey) (bv : BlockVal) (t : U64) :
    Enforced cpu k bv t ↔ active bv t = true := by
  constructor
  · intro h
    have hnone : ∀ k' ∈ (one_block n k bv t).allowlist, ¬ covers k' k.addr :=
      fun k' hk => absurd hk (AList.notMem_empty k')
    have hdrop := h (one_block n k bv t) (header_from k.addr) _ rfl (parse_header_from k.addr)
      has_default hnone (find_one_block k bv t)
    obtain ⟨k', bv', hf, ha⟩ := (dropped_iff_drops (parse_header_from k.addr)
      has_default hnone).mp hdrop
    rw [find_one_block] at hf
    cases hf
    exact ha
  · rintro h w f ip rfl hip hfeat hallow hf
    exact (dropped_iff_drops hip hfeat hallow).mpr ⟨k, bv, hf, h⟩

/-- The entries that are active at `w`, in the order of the map. -/
def active_entries (w : World n) : List (LpmKey × BlockVal) :=
  (Dict.items w.blocklist).filter fun e => active e.2 w.clock

lemma mem_active_entries {w : World n} {k : LpmKey} {bv : BlockVal} :
    (k, bv) ∈ active_entries w ↔ w.blocklist.lookup k = some bv ∧ active bv w.clock = true := by
  rw [active_entries, List.mem_filter, Dict.mem_items]

lemma run_list_blocked (cpu : Fin n) (w : World n) :
    run (exec cpu) (list_blocked false) w =
      ((active_entries w).map fun e => block_entry w.clock.toNat e.1 e.2, w) := by
  have hfilter : ((Dict.items w.blocklist).filter fun e => false || !expired w.clock.toNat e.2) =
      active_entries w := by
    refine List.filter_congr fun e _ => ?_
    rw [Bool.false_or, expired_eq, Bool.not_not]
  rw [← hfilter]
  rfl

/-- What the cleanup leaves is what `list_blocked` lists. -/
lemma lookup_swept_active (w : World n) (k : LpmKey) :
    (swept w).blocklist.lookup k = (w.blocklist.lookup k).filter fun bv => active bv w.clock := by
  rw [lookup_swept]
  refine congrArg (Option.filter · _) (funext fun bv => ?_)
  rw [expired_eq, Bool.not_not]

/-- The cleanup reports what it has removed: with the listed entries that is all of them. -/
lemma length_doomed (w : World n) :
    (doomed w).length + (active_entries w).length = (Dict.items w.blocklist).length := by
  have hsplit := List.length_eq_length_filter_add (l := Dict.items w.blocklist)
    fun e => active e.2 w.clock
  have hdoomed : ((Dict.items w.blocklist).filter fun e => expired w.clock.toNat e.2) =
      (Dict.items w.blocklist).filter fun e => !active e.2 w.clock :=
    List.filter_congr fun e _ => expired_eq e.2 w.clock
  rw [doomed, List.length_map, hdoomed, active_entries]
  omega

/-- **The four places agree.** `is_blocked` says what the blocklist stage does to a source that
is not allowlisted; `list_blocked` lists the entries that would be enforced; the cleanup removes
the others and leaves everything else alone. -/
theorem judges_agree (cpu : Fin n) (w : World n) :
    (∀ (f : Frame) (ip : IpHdr), parse_l3 f = .ipv4 ip →
      has w.config.features FEAT_BLOCKLIST = true → (∀ k ∈ w.allowlist, ¬ covers k ip.saddr) →
      ((run (exec cpu) (is_blocked ip.saddr) w).1 = true ↔ dropped_at_blocklist cpu f w)) ∧
    ∃ listed : List (LpmKey × BlockVal),
      listed.Sublist (Dict.items w.blocklist) ∧
      run (exec cpu) (list_blocked false) w =
        (listed.map fun e => block_entry w.clock.toNat e.1 e.2, w) ∧
      (∀ k bv, w.blocklist.lookup k = some bv →
        ((k, bv) ∈ listed ↔ Enforced cpu k bv w.clock)) ∧
      ∃ blocklist, (run (exec cpu) remove_expired_blocks w).2 = { w with blocklist } ∧
        (∀ k, w.blocklist.lookup k = none → blocklist.lookup k = none) ∧
        (run (exec cpu) remove_expired_blocks w).1 + listed.length =
          (Dict.items w.blocklist).length ∧
        ∀ k bv, w.blocklist.lookup k = some bv →
          ((k, bv) ∈ listed ∧ blocklist.lookup k = some bv ∨
            (k, bv) ∉ listed ∧ blocklist.lookup k = none) := by
  refine ⟨fun f ip hip hfeat hallow => ?_, active_entries w, List.filter_sublist,
    run_list_blocked cpu w, fun k bv hv => ?_, (swept w).blocklist, ?_,
    fun k hk => ?_, ?_, fun k bv hv => ?_⟩
  · rw [is_blocked_iff, dropped_iff_drops hip hfeat hallow]
  · rw [mem_active_entries, enforces_iff_active, and_iff_right hv]
  · rw [run_remove_expired_blocks]
    rfl
  · rw [lookup_swept_active, hk, Option.filter_none]
  · rw [run_remove_expired_blocks]
    exact length_doomed w
  · rw [mem_active_entries, and_iff_right hv, lookup_swept_active, hv]
    cases ha : active bv w.clock with
    | true => exact Or.inl ⟨rfl, Option.filter_some_pos ha⟩
    | false => exact Or.inr ⟨Bool.false_ne_true, Option.filter_some_neg ha⟩

/-- At the deadline of the longer of the two blocks. -/
def at_deadline : World 1 := { two_blocks with clock := 5 }

theorem judges_agree_at_deadline :
    (run (exec 0) (is_blocked 0x0A000064) at_deadline).1 = true ↔
      dropped_at_blocklist 0 (header_from 0x0A000064) at_deadline :=
  (judges_agree 0 at_deadline).1 (header_from 0x0A000064) _ (parse_header_from 0x0A000064)
    has_default fun k hk => absurd hk (AList.notMem_empty k)

end Lookout.Deadlines

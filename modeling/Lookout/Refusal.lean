import Lookout.Fwctl
import Lookout.Sessions
import Lookout.Stages

/-!
When `block add` refuses.

The command refuses a block that the allowlist would make useless. It asks for the one address that
stands before the slash. The block is useless only if the allowlist covers every address of the
prefix; where it covers that one and not the others, the others stay unblocked.
-/

namespace Lookout.Refusal

open Lookout.Effects Lookout.Effects.Prog Lookout.Lpm Lookout.Lpm.Covering Lookout.Common
open Lookout.Kernel Lookout.Firewall Lookout.Fwctl Lookout.Sessions Lookout.Stages
open Lookout.Blocklist (Drops)

variable {n : ℕ}

/-- The allowlist covers every address of the prefix. -/
def Covered (w : World n) (k : LpmKey) : Prop := ∀ a, covers k a = true → Listed w a

/-- The command returns and has not tried to write a block. -/
def Refuses (cpu : Fin n) (duration : Option ℕ) (c : Cidr) (w : World n) : Prop :=
  (run (exec cpu) (block_add duration [c]) w).1 = .ok () ∧
    ∀ e ∈ events (exec cpu) (block_add duration [c]) w, ∀ k bv, e.1 ≠ .block_update k bv

/-- The command returns and has stored a block of the prefix. -/
def Stores (cpu : Fin n) (duration : Option ℕ) (c : Cidr) (w : World n) : Prop :=
  ∃ bv, run (exec cpu) (block_add duration [c]) w = (.ok (), put w (lpm_key c) bv)

/-- The end of the block fits its field. -/
def Fits (w : World n) : Option ℕ → Prop
  | some ns => w.clock.toNat + ns < 2 ^ 64
  | none => True

instance (w : World n) (duration : Option ℕ) : Decidable (Fits w duration) := by
  cases duration
  · exact instDecidableTrue
  · exact inferInstanceAs (Decidable (_ < _))

/-! ### A useless block -/

/-- Blocks of the prefix do not show to an address outside it. -/
lemma blocked_put {w : World n} {k : LpmKey} {bv : BlockVal} {a : Addr}
    (h : ¬ covers k a = true) : Blocked (put w k bv) a ↔ Blocked w a := by
  unfold Blocked Drops put
  rw [find_insert_of_not_covers h]

/-- **Where the allowlist covers the prefix, a block of it is without effect**, as long as the
allowlist is on. -/
theorem outcome_put {w : World n} {k : LpmKey} (cpu : Fin n) (bv : BlockVal) (x : Fields)
    (hon : has w.config.features FEAT_ALLOWLIST = true) (h : Covered w k) :
    outcome cpu x (put w k bv) = outcome cpu x w := by
  have hlisted : Listed (put w k bv) x.saddr ↔ Listed w x.saddr := Iff.rfl
  by_cases hl : Listed w x.saddr
  · have hw : outcome cpu x w = ⟨.pass, .pass_allowlist, false, w.srcstate.get x.saddr⟩ :=
      if_pos ⟨hon, hl⟩
    have hput : outcome cpu x (put w k bv) =
        ⟨.pass, .pass_allowlist, false, w.srcstate.get x.saddr⟩ := if_pos ⟨hon, hl⟩
    rw [hw, hput]
  · have hout : ¬ covers k x.saddr = true := fun hc => hl (h _ hc)
    unfold outcome
    simp only [hlisted, blocked_put hout]
    rfl

/-! ### The command -/

/-- The address that stands before the slash belongs to the prefix. -/
lemma covers_lpm_key (c : Cidr) : covers (lpm_key c) c.addr = true := (covers_iff _ _).mpr rfl

/-- The command looks at the allowlist first. -/
lemma block_add_eq (duration : Option ℕ) (c : Cidr) :
    (block_add duration [c] : Prog calls (Except PyError Unit)) =
      .call (.allow_lookup c.addr) fun e =>
        if e.isSome then .ret (.ok ())
        else (block (lpm_key c) duration BLOCK_MANUAL >>= fun _ => pure () : Py Unit) :=
  rfl

/-- An argument on the allowlist is passed over. -/
lemma refuses_of_listed {cpu : Fin n} {c : Cidr} {w : World n} (duration : Option ℕ)
    (h : Listed w c.addr) : Refuses cpu duration c w := by
  have hfound := (listed_iff w c.addr).mp h
  have hans : exec cpu w (.allow_lookup c.addr) = (find w.allowlist c.addr, w) := rfl
  unfold Refuses
  rw [block_add_eq, run_call, events, hans]
  dsimp only
  rw [hfound]
  refine ⟨rfl, fun e he k bv hwrite => ?_⟩
  rw [List.mem_singleton.mp he] at hwrite
  cases hwrite

/-- What `block` comes to, permanent or not. -/
lemma run_block_fits (cpu : Fin n) (k : LpmKey) (duration : Option ℕ) (reason : U32)
    (w : World n) :
    (Fits w duration ∧ Room w k → ∃ bv, run (exec cpu) (block k duration reason) w =
      (.ok (), put w k bv)) ∧
    (¬ (Fits w duration ∧ Room w k) → ∃ e, run (exec cpu) (block k duration reason) w =
      (.error e, w)) := by
  have hroom : Room w k ↔ k ∈ w.blocklist ∨ w.blocklist.keys.length < MAX_BLOCKLIST := Iff.rfl
  cases duration with
  | some d =>
    have hfits : Fits w (some d) ↔ w.clock.toNat + d < 2 ^ 64 := Iff.rfl
    rw [run_block, hfits, hroom]
    split_ifs with h1 h2
    · exact ⟨fun _ => ⟨_, rfl⟩, fun h => absurd ⟨h1, h2⟩ h⟩
    · exact ⟨fun h => absurd h.2 h2, fun _ => ⟨_, rfl⟩⟩
    · exact ⟨fun h => absurd h.1 h1, fun _ => ⟨_, rfl⟩⟩
  | none =>
    rw [run_block_permanent, hroom]
    split_ifs with h
    · exact ⟨fun _ => ⟨_, rfl⟩, fun hno => absurd ⟨trivial, h⟩ hno⟩
    · exact ⟨fun hyes => absurd hyes.2 h, fun _ => ⟨_, rfl⟩⟩

lemma store_writes (cpu : Fin n) (k : LpmKey) (reason : U32) {expires : ℕ} (w : World n)
    (h : expires < 2 ^ 64) :
    ∃ bv, ∃ e ∈ events (exec cpu) (store k reason expires) w, e.1 = .block_update k bv := by
  rw [store_fits k reason h]
  exact ⟨_, _, List.mem_cons_self, rfl⟩

/-- With a deadline that fits, `block` comes to its write. -/
lemma block_writes (cpu : Fin n) (k : LpmKey) {duration : Option ℕ} (reason : U32) {w : World n}
    (h : Fits w duration) :
    ∃ bv, ∃ e ∈ events (exec cpu) (block k duration reason) w, e.1 = .block_update k bv := by
  cases duration with
  | some d =>
    have hevents := events_call (f := exec cpu) Op.ktime_get_ns
      (fun now : U64 => (store k reason (now.toNat + d) : Prog calls (Except PyError Unit))) w
    have hans : exec cpu w .ktime_get_ns = (w.clock, w) := rfl
    rw [hans] at hevents
    obtain ⟨bv, e, he, hwrite⟩ := store_writes cpu k reason w h
    refine ⟨bv, e, ?_, hwrite⟩
    rw [block_some]
    exact hevents ▸ List.mem_cons_of_mem _ he
  | none =>
    rw [block_none]
    exact store_writes cpu k reason w (by decide)

/-- An argument that is not on the allowlist goes to `block`. -/
lemma block_add_not_listed (cpu : Fin n) {c : Cidr} {w : World n} (duration : Option ℕ)
    (h : ¬ Listed w c.addr) :
    run (exec cpu) (block_add duration [c]) w = run (exec cpu)
        (block (lpm_key c) duration BLOCK_MANUAL >>= fun _ => pure () : Py Unit) w ∧
      events (exec cpu) (block_add duration [c]) w =
        ⟨Op.allow_lookup c.addr, find w.allowlist c.addr⟩ ::
        events (exec cpu)
          (block (lpm_key c) duration BLOCK_MANUAL >>= fun _ => pure () : Py Unit) w := by
  have hmissing : (find w.allowlist c.addr).isSome = false := by
    rw [listed_iff] at h
    simpa using h
  have hans : exec cpu w (.allow_lookup c.addr) = (find w.allowlist c.addr, w) := rfl
  rw [block_add_eq, run_call, events, hans]
  dsimp only
  rw [hmissing]
  exact ⟨rfl, rfl⟩

/-- **The command does what it is for exactly when** either the address before the slash is on the
allowlist and so is the rest of its prefix, or it is not, and the block can be stored. -/
theorem refuses_iff_covered_iff (cpu : Fin n) (duration : Option ℕ) (c : Cidr) (w : World n) :
    ((Refuses cpu duration c w ↔ Covered w (lpm_key c)) ∧
        (¬ Covered w (lpm_key c) → Stores cpu duration c w)) ↔
      (Listed w c.addr → Covered w (lpm_key c)) ∧
        (¬ Listed w c.addr → Fits w duration ∧ Room w (lpm_key c)) := by
  by_cases hl : Listed w c.addr
  · have hrefuses : Refuses cpu duration c w := refuses_of_listed duration hl
    constructor
    · rintro ⟨hiff, -⟩
      exact ⟨fun _ => hiff.mp hrefuses, fun h => absurd hl h⟩
    · rintro ⟨hcov, -⟩
      exact ⟨⟨fun _ => hcov hl, fun _ => hrefuses⟩, fun h => absurd (hcov hl) h⟩
  · have hnot : ¬ Covered w (lpm_key c) := fun h => hl (h _ (covers_lpm_key c))
    obtain ⟨hrun, hevents⟩ := block_add_not_listed cpu duration hl
    obtain ⟨hok, herror⟩ := run_block_fits cpu (lpm_key c) duration BLOCK_MANUAL w
    by_cases hcan : Fits w duration ∧ Room w (lpm_key c)
    · obtain ⟨bv, hbv⟩ := hok hcan
      have hstores : run (exec cpu) (block_add duration [c]) w =
          (.ok (), put w (lpm_key c) bv) := by
        rw [hrun, Exc.run_bind_ok hbv]
        rfl
      have htries : ¬ Refuses cpu duration c w := by
        rintro ⟨-, hno⟩
        obtain ⟨bv, e, he, hwrite⟩ := block_writes cpu (lpm_key c) BLOCK_MANUAL hcan.1
        have hmem : e ∈ events (exec cpu) (block_add duration [c]) w := by
          rw [hevents]
          refine List.mem_cons_of_mem _ ?_
          exact (Prog.events_bind _ _ _).symm ▸ List.mem_append_left _ he
        exact hno e hmem _ _ hwrite
      exact ⟨fun _ => ⟨fun h => absurd h hl, fun _ => hcan⟩, fun _ =>
        ⟨⟨fun h => absurd h htries, fun h => absurd h hnot⟩, fun _ => ⟨bv, hstores⟩⟩⟩
    · obtain ⟨e, he⟩ := herror hcan
      have hraises : run (exec cpu) (block_add duration [c]) w = (.error e, w) := by
        rw [hrun, Exc.run_bind_error he]
      constructor
      · rintro ⟨-, hstores⟩
        obtain ⟨bv, hbv⟩ := hstores hnot
        rw [hraises] at hbv
        cases hbv
      · exact fun h => absurd (h.2 hl) hcan

lemma le_24 : 24 ≤ 32 := by decide

/-- The argument `10.0.0.5/24`. -/
def subnet : Cidr := ⟨0x0A000005, 24, le_24⟩

/-- The allowlist of one host of it, `10.0.0.5`. -/
def host_allowed : World 1 :=
  { World.loaded 1 with allowlist := AList.insert (.single 0x0A000005) ⟨0, 0⟩ ∅ }

/-- `allow add 10.0.0.5` and then `block add 10.0.0.5/24`: the block is refused, and the other 255
addresses are not on the allowlist. -/
theorem subnet_refused :
    Refuses 0 (some 60000000000) subnet host_allowed ∧ ¬ Covered host_allowed (lpm_key subnet) := by
  refine ⟨refuses_of_listed _ ((listed_iff _ _).mpr (by decide)), fun h => ?_⟩
  have hother := h 0x0A000006 (by decide)
  exact absurd ((listed_iff _ _).mp hother) (by decide)

end Lookout.Refusal

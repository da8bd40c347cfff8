import Lookout.Blocklist
import Lookout.Fwctl
import Lookout.Sessions

/-!
A source that has its strikes, and the blocklist.

The blocker asks its own table, not the kernel's, whether a block of the source still lasts.
When the entry is gone from the kernel before that, the source gets no new block.
-/

namespace Lookout.Enforced

open Lookout.Effects Lookout.Effects.Prog Lookout.Runs Lookout.Dicts Lookout.Lpm Lookout.Common
open Lookout.Kernel Lookout.Xdp Lookout.Blocklist Lookout.Firewall Lookout.Fwctl Lookout.Policy
open Lookout.Sessions

variable {n : ℕ} {cpu : Fin n} {inside outside : World n → World n → Prop}

/-- What `Firewall.is_blocked` answers in this world. -/
def blocked (cpu : Fin n) (w : World n) (ip : Addr) : Bool := (run (exec cpu) (is_blocked ip) w).1

/-- The blocker judges a source that has its strikes, is not allowlisted and not beyond the
cap of the window. -/
def Due (x : Trans (Session n) Ev) (ip : Addr) : Prop :=
  ∃ reason k, x.ev = .source ip reason ∧ x.pre.call = some k ∧
    Struck x.pre.blocker ip reason ∧ Eligible x.pre.world k.issued ip

/-! ### One source -/

/-- **The control plane and the XDP program read an entry alike.** -/
theorem blocked_iff_drops (cpu : Fin n) (w : World n) (ip : Addr) :
    blocked cpu w ip = true ↔ Drops w.blocklist ip w.clock := by
  unfold blocked is_blocked Drops
  simp only [op_eq, call_bind, ret_bind, run_call, exec]
  cases hf : find w.blocklist ip with
  | none => simp
  | some e =>
    obtain ⟨k, bv⟩ := e
    by_cases h0 : bv.expires_ns = 0
    · simp [h0, active]
    · dsimp only
      rw [if_neg h0]
      change decide (bv.expires_ns.toNat > w.clock.toNat) = true ↔ _
      constructor
      · intro hlt
        exact ⟨k, bv, rfl, by simpa [active, BitVec.lt_def] using Or.inr (of_decide_eq_true hlt)⟩
      · rintro ⟨_, _, heq, ha⟩
        cases heq
        simp only [active, decide_eq_true_eq, gt_iff_lt, BitVec.lt_def] at ha
        exact decide_eq_true (ha.resolve_left h0)

/-- A new block counts at once. -/
lemma drops_put {b : Blocker} {ip : Addr} {w : World n} (ht : InTime b ip w) :
    Drops (put w (.single ip) (entry b ip w)).blocklist ip w.clock := by
  refine ⟨.single ip, entry b ip w,
    find_insert ((covers_single ip ip).mpr rfl) (longest_single w.blocklist ip), ?_⟩
  have hd := duration_pos b ip
  have he := entry_expires ht
  simp only [active, decide_eq_true_eq, gt_iff_lt, BitVec.lt_def]
  omega

/-- **A due source comes out blocked** exactly when no block in the blocker's table stands for
an entry that is gone. -/
theorem blocked_after_iff {s s' : Session n} {ip : Addr} {ev : Ev}
    (hlive : s.blocker.dry_run = false) (h : Step cpu inside outside s ev s')
    (hdue : Due ⟨s, ev, s'⟩ ip) :
    blocked cpu s'.world ip = true ↔
      (s.blocker.lasts ip s.world.wall = true → blocked cpu s.world ip = true) := by
  obtain ⟨reason, k, hev, hk, hs, he⟩ := hdue
  dsimp only at hev hk hs he
  subst hev
  cases h with
  | source h =>
    cases hk
    cases outcome_of_run hlive h with
    | idle hidle =>
      refine ⟨fun hb _ => hb, fun hb => hb ?_⟩
      by_contra hl
      exact hidle ⟨hs, by simpa using hl, he⟩
    | blocked hb ht =>
      have hput := (blocked_iff_drops cpu _ ip).mpr (drops_put ht)
      have hl := hb.2.1
      exact ⟨fun _ hlast => absurd (hl.symm.trans hlast) Bool.false_ne_true, fun _ => hput⟩

/-! ### Runs -/

/-- **Whoever has its strikes is blocked**, at every source of every run, exactly when at every
such source the blocker's table speaks of blocks that the kernel still has. -/
theorem enforced_iff (w : World n) (b : Blocker) (hlive : b.dry_run = false)
    (tr : List (Trans (Session n) Ev)) (s' : Session n)
    (h : Path (Step cpu inside outside) ⟨w, b, none⟩ tr s') :
    (∀ x ∈ tr, ∀ ip, Due x ip → blocked cpu x.post.world ip = true) ↔
      ∀ x ∈ tr, ∀ ip, Due x ip → x.pre.blocker.lasts ip x.pre.world.wall = true →
        blocked cpu x.pre.world ip = true := by
  have hiff : ∀ x ∈ tr, ∀ ip, Due x ip → (blocked cpu x.post.world ip = true ↔
      (x.pre.blocker.lasts ip x.pre.world.wall = true → blocked cpu x.pre.world ip = true)) := by
    intro x hx ip hdue
    have hl := h.inv_pre (fun s => s.blocker.dry_run = false) (fun _ _ _ => step_live) hlive hx
    exact blocked_after_iff hl (h.step_of_mem hx) hdue
  constructor
  · exact fun hall x hx ip hdue => (hiff x hx ip hdue).mp (hall x hx ip hdue)
  · exact fun hall x hx ip hdue => (hiff x hx ip hdue).mpr (hall x hx ip hdue)

/-! ### A source that is unblocked by hand -/

theorem enforced_second_strike : ∃ tr s',
    Path (Step 0 Eq Eq) ⟨World.loaded 1, one_strike, none⟩ tr s' ∧ blocked 0 s'.world 7 = true := by
  have hb : Blocks one_strike (World.loaded 1) 0 7 (some "syn flood") :=
    ⟨⟨rfl, by decide +kernel⟩, by decide +kernel, by decide +kernel, by decide⟩
  have hrun := run_process_block 0 (b := one_strike) rfl 0 hb
  rw [if_pos (by decide +kernel), if_pos (by decide +kernel)] at hrun
  have hpath : Path (Step 0 Eq Eq) ⟨World.loaded 1, one_strike, none⟩ _ _ :=
    .snoc (.snoc .nil (.begin_call (World.loaded 1) one_strike)) (.source hrun)
  refine ⟨_, _, hpath, ?_⟩
  have hcond := (enforced_iff (World.loaded 1) one_strike rfl _ _ hpath).mpr ?_
  · exact hcond _ (List.mem_append_right _ (List.mem_singleton_self _)) 7
      ⟨some "syn flood", _, rfl, rfl, hb.1, hb.2.2⟩
  · rintro x hx ip ⟨reason, k, hev, -⟩ hlasts
    simp only [List.nil_append, List.mem_append, List.mem_singleton] at hx
    rcases hx with rfl | rfl
    · cases hev
    · cases hev
      exact absurd hlasts (by decide +kernel)

/-- The operator unblocks the source. -/
def unblocked (w : World 1) : World 1 := (run (exec 0) (block_del [.plain 7]) w).2

def Unblocks (w w' : World 1) : Prop := w' = unblocked w

/-- The source has been blocked. -/
def twice_flagged : Session 1 :=
  (Session.after_call 0 ⟨World.loaded 1, .init false, none⟩ flood).after_call 0 flood

/-- It was unblocked by hand, and flagged again in the next window. -/
def flagged_again : Session 1 :=
  Session.after_call 0 ⟨unblocked twice_flagged.world, twice_flagged.blocker, none⟩ flood

lemma path_flagged_again : ∃ tr,
    Path (Step 0 Eq Unblocks) ⟨World.loaded 1, .init false, none⟩ tr flagged_again := by
  obtain ⟨tr1, h1⟩ :=
    path_after_call 0 Eq Unblocks ⟨World.loaded 1, .init false, none⟩ flood rfl
  obtain ⟨tr2, h2⟩ := path_after_call 0 Eq Unblocks _ flood (rfl : (Session.after_call 0
    (⟨World.loaded 1, .init false, none⟩ : Session 1) flood).call = none)
  have hout : Step 0 Eq Unblocks twice_flagged .outside
      ⟨unblocked twice_flagged.world, twice_flagged.blocker, none⟩ :=
    .outside twice_flagged.blocker twice_flagged.blocker.log rfl
  obtain ⟨tr3, h3⟩ := path_after_call 0 Eq Unblocks
    ⟨unblocked twice_flagged.world, twice_flagged.blocker, none⟩ flood rfl
  exact ⟨_, ((h1.append h2).snoc hout).append h3⟩

theorem unblocked_flood_goes_on : ∃ tr s',
    Path (Step 0 Eq Unblocks) ⟨World.loaded 1, .init false, none⟩ tr s' ∧
      ∃ x ∈ tr, ∃ ip, Due x ip ∧ blocked 0 x.post.world ip = false := by
  obtain ⟨tr, h⟩ := path_flagged_again
  have hstruck : Struck flagged_again.blocker 7 (some "syn flood") := ⟨rfl, by decide +kernel⟩
  have hallow : find flagged_again.world.allowlist (7 : Addr) = none := by decide +kernel
  have hgone : blocked 0 flagged_again.world 7 = false := by decide +kernel
  have hidle : ¬ Blocks flagged_again.blocker flagged_again.world 0 7 (some "syn flood") :=
    fun hb => absurd hb.2.1 (by decide +kernel)
  obtain ⟨b', hrun, -⟩ := run_process_idle 0 flagged_again.world.wall hidle
  have hpath : Path (Step 0 Eq Unblocks) ⟨World.loaded 1, .init false, none⟩ _ _ :=
    .snoc (h.snoc (.begin_call flagged_again.world flagged_again.blocker)) (.source hrun)
  exact ⟨_, _, hpath, _, List.mem_append_right _ (List.mem_singleton_self _), 7,
    ⟨some "syn flood", _, rfl, rfl, hstruck, hallow, by decide⟩, hgone⟩

end Lookout.Enforced

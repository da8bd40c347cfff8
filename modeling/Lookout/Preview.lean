import Lookout.Capacity
import Lookout.Shadows
import Mathlib.Tactic.FinCases

/-!
What a dry run shows is what a live session does.

A session with `--dry-run` asks the kernel what a live one asks, but for the calls that a block, a
tier or a cleanup is written with. On the same answers the two come to the same decisions.
-/

namespace Lookout.Preview

open Lookout.Effects Lookout.Effects.Prog Lookout.Dicts Lookout.Common Lookout.Kernel
open Lookout.Firewall Lookout.Detect Lookout.Policy Lookout.Control Lookout.Shadows

/-- The system calls of `block`, `update_config` and the cleanup. -/
def WriteOp : Op → Prop
  | .ktime_get_ns | .block_update .. | .config_lookup | .config_update _ | .block_items
  | .block_delete _ | .state_items | .state_delete _ => True
  | _ => False

/-! ### What can be left out -/

/-- What a run returns can be returned. -/
lemma returns_of_run {ε α : Type} {n : ℕ} {p : Exc calls ε α} (cpu : Fin n) (w : World n) {a : α}
    (h : (run (exec cpu) p w).1 = .ok a) : Returns p := by
  have ht := trace_events (f := exec cpu) p w
  rw [h] at ht
  exact ⟨_, a, ht⟩

lemma returns_call {ε α : Type} (p : Call α) : Returns (liftM p : Exc calls ε α) := by
  obtain ⟨l, a, ht, -⟩ := Trace.complete (A := fun _ => True) (fun o => by
    cases o with
    | state_locked r p => exact ⟨(p.verdict, p.reason), trivial⟩
    | _ => exact ⟨default, trivial⟩) p
  exact returns_lift ⟨l, a, ht⟩

lemma uses_block (b : Blocker) (k : LpmKey) (d : Option ℕ) :
    Uses WriteOp (Exc.rethrow (·, b) (block k d BLOCK_AUTO)) := by
  unfold block
  refine Exc.uses_rethrow (Exc.uses_bind (Exc.uses_lift ?_) fun _ =>
    Exc.uses_bind (uses_pack _ _ _) fun _ => Exc.uses_bind (Exc.uses_lift (uses_op trivial)) fun _ =>
      uses_updated _ _ _)
  cases d with
  | none => trivial
  | some ns => exact uses_bind (uses_ktime_ns trivial) fun _ => trivial

/-- A block that is issued early enough, on a list with room. -/
lemma returns_block (b : Blocker) (ip : Addr) :
    Returns (Exc.rethrow (·, b) (block (.single ip) (Policy.seconds (b.duration ip)) BLOCK_AUTO)) := by
  have hdur := Capacity.duration_le b ip
  have hfit : (World.loaded 1).clock.toNat + b.duration ip * 1000000000 < 2 ^ 64 := by
    have hclock : (World.loaded 1).clock.toNat = 0 := rfl
    omega
  have hrun := Sessions.run_block (0 : Fin 1) (.single ip) (b.duration ip * 1000000000) BLOCK_AUTO
    (World.loaded 1)
  rw [if_pos hfit, if_pos (Or.inr (by decide))] at hrun
  refine returns_of_run (0 : Fin 1) (World.loaded 1) (a := ()) ?_
  rw [Exc.run_rethrow]
  unfold Policy.seconds
  rw [hrun]
  rfl

lemma uses_update_config {P : Op → Prop} (hread : P .config_lookup)
    (hwrite : ∀ cfg, P (.config_update cfg)) (ch : Changes) : Uses P (update_config ch) := by
  rw [update_config_eq]
  refine ⟨hread, fun c => ?_⟩
  cases c with
  | none => trivial
  | some c =>
    unfold after_read
    dsimp only
    split_ifs
    · exact ⟨hwrite _, fun _ => trivial⟩
    · trivial

/-- The settings of a tier fit. -/
lemma returns_tier (a : Aggressiveness) : Returns (update_config (tier_changes a)) := by
  have hfits : Fits ((unpack_config (World.loaded 1).config).update (tier_changes a)) := by
    obtain ⟨level, calm⟩ := a
    change Fits ((unpack_config (World.loaded 1).config).update (tier_changes ⟨level, 0⟩))
    fin_cases level <;> decide
  have hrun := run_update_config (0 : Fin 1) (tier_changes a) (World.loaded 1)
  rw [if_pos hfits] at hrun
  exact returns_of_run 0 (World.loaded 1) (congrArg Prod.fst hrun)

/-! ### The blocker -/

/-- The blocker of a live session, and that of a dry run which has decided the same. -/
structure Agree (b b' : Blocker) : Prop where
  live : b.dry_run = false
  dry : b'.dry_run = true
  strikes : b.strikes = b'.strikes
  offences : b.offences = b'.offences
  until_ : b.until_ = b'.until_
  issued : b.blocks_issued = b'.blocks_issued
  log : b.log.map Prod.fst = b'.log.map Prod.fst

variable {b b' : Blocker}

lemma Agree.duration (h : Agree b b') (ip : Addr) : b.duration ip = b'.duration ip := by
  unfold Blocker.duration
  rw [h.offences]

lemma Agree.is_blocked (h : Agree b b') (ip : Addr) : b.is_blocked ip = b'.is_blocked ip := by
  unfold Blocker.is_blocked Blocker.lasts
  rw [h.until_]

lemma Agree.strike (h : Agree b b') (ip : Addr) : Agree (b.strike ip) (b'.strike ip) :=
  { h with strikes := by simp only [Blocker.strike, h.strikes] }

lemma Agree.decay (h : Agree b b') (ip : Addr) : Agree (b.decay ip) (b'.decay ip) :=
  { h with strikes := by simp only [Blocker.decay, h.strikes] }

lemma Agree.forget (h : Agree b b') (ip : Addr) : Agree (b.forget ip) (b'.forget ip) :=
  { h with strikes := by simp only [Blocker.forget, h.strikes] }

lemma Agree.issue (h : Agree b b') (ip : Addr) (now : ℚ) :
    Agree (b.issue ip now) (b'.issue ip now) where
  live := h.live
  dry := h.dry
  strikes := by simp only [Blocker.issue, h.strikes]
  offences := by simp only [Blocker.issue, h.offences]
  until_ := by simp only [Blocker.issue, h.until_, h.duration]
  issued := by simp only [Blocker.issue, h.issued]
  log := h.log

lemma map_append_log (log : List (String × String)) (e : String × String) :
    (Blocker.append_log log e).map Prod.fst =
      (log.map Prod.fst ++ [e.1]).drop ((log.map Prod.fst).length + 1 - 12) := by
  unfold Blocker.append_log
  rw [List.map_drop, List.map_append, List.length_map]
  rfl

section

variable {ε δ α β : Type} {Q : α → β → Prop}

/-- Both note something at the same time. -/
lemma shadow_note (h : Agree b b') (msg msg' : String) {f : Blocker → Exc calls ε α}
    {f' : Blocker → Exc calls δ β}
    (hf : ∀ b1 b1', Agree b1 b1' → Shadow WriteOp Q (f b1) (f' b1')) :
    Shadow WriteOp Q (liftM (b.note msg) >>= f : Exc calls ε α)
      (liftM (b'.note msg') >>= f' : Exc calls δ β) := by
  have hnoted : ∀ time, Agree { b with log := Blocker.append_log b.log (time, msg) }
      { b' with log := Blocker.append_log b'.log (time, msg') } := fun time =>
    { h with log := by rw [map_append_log, map_append_log, h.log] }
  exact Shadow.same (p := op (S := calls) .strftime) fun time => hf _ _ (hnoted time)

end

/-- What a part of `update` returns in the two sessions. -/
def Both (r r' : Blocker × ℕ) : Prop := Agree r.1 r'.1 ∧ r.2 = r'.2

lemma shadow_issue_block (h : Agree b b') (now : ℚ) (issued : ℕ) (ip : Addr) (reason : String) :
    Shadow WriteOp Both (b.issue_block now issued ip reason)
      (b'.issue_block now issued ip reason) := by
  have hlive : (!b.dry_run) = true := by rw [h.live]; rfl
  have hdry : ¬ (!b'.dry_run) = true := by simp [h.dry]
  have hrest : Shadow WriteOp Both (do
        let b1 ← (b.issue ip now).note (b.block_msg ip reason)
        return (b1, issued + 1) : Blocker.Method (Blocker × ℕ))
      (do
        let b1 ← (b'.issue ip now).note (b'.block_msg ip reason)
        return (b1, issued + 1) : Blocker.Method (Blocker × ℕ)) :=
    shadow_note (h.issue ip now) _ _ fun _ _ hb => Shadow.pure ⟨hb, rfl⟩
  unfold Blocker.issue_block
  rw [if_pos hlive, if_neg hdry]
  exact Shadow.skip (uses_block _ _ _) (returns_block b ip) fun _ => hrest

/-- The loop's body for a flagged source. -/
lemma shadow_judge (h : Agree b b') (now : ℚ) (issued : ℕ) (ip : Addr) (reason : String) :
    Shadow WriteOp Both (b.judge now issued ip reason) (b'.judge now issued ip reason) := by
  unfold Blocker.judge
  rw [← h.strikes, ← h.is_blocked ip]
  by_cases hfew : b.strikes.getD ip 0 < STRIKES
  · rw [if_pos hfew, if_pos hfew]
    exact Shadow.pure ⟨h, rfl⟩
  rw [if_neg hfew, if_neg hfew]
  refine Shadow.same fun blocked => ?_
  cases blocked with
  | true => exact Shadow.pure ⟨h.forget ip, rfl⟩
  | false =>
    refine Shadow.same fun allowed => ?_
    cases allowed with
    | true => exact shadow_note h _ _ fun _ _ hb => Shadow.pure ⟨hb.forget ip, rfl⟩
    | false =>
      simp only [Bool.false_eq_true, if_false]
      split_ifs with hmany
      · exact Shadow.pure ⟨h, rfl⟩
      · exact shadow_issue_block h now issued ip reason

lemma shadow_process (h : Agree b b') (now : ℚ) (issued : ℕ) (ip : Addr)
    (reason : Option String) :
    Shadow WriteOp Both (b.process now issued ip reason) (b'.process now issued ip reason) := by
  cases reason with
  | none => exact Shadow.pure ⟨h.decay ip, rfl⟩
  | some reason => exact shadow_judge (h.strike ip) now issued ip reason

lemma shadow_process_all (h : Agree b b') (now : ℚ) (issued : ℕ)
    (vs : List ((_ : Addr) × Option String)) :
    Shadow WriteOp Agree (b.process_all now issued vs) (b'.process_all now issued vs) := by
  induction vs generalizing b b' issued with
  | nil => exact Shadow.pure h
  | cons v vs ih =>
    refine (shadow_process h now issued v.1 v.2).bind fun r r' hr => ?_
    obtain ⟨hb, hissued⟩ := hr
    rw [← hissued]
    exact ih hb r.2

/-- **A window of verdicts** is decided alike. -/
theorem shadow_update (h : Agree b b') (vs : Dict Addr (Option String)) :
    Shadow WriteOp Agree (b.update vs) (b'.update vs) :=
  Shadow.same fun now => shadow_process_all h now 0 vs.entries

/-! ### The controller -/

/-- The controller of a live session, and that of a dry run which has decided the same. -/
structure Follows (c c' : Controller) : Prop where
  live : c.args.dry_run = false
  dry : c'.args.dry_run = true
  no_auto_tune : c.args.no_auto_tune = c'.args.no_auto_tune
  window : c.window = c'.window
  blocker : Agree c.blocker c'.blocker
  aggr : c.aggr = c'.aggr
  cycles : c.cycles = c'.cycles
  prev : c.prev = c'.prev
  pps : c.pps = c'.pps
  drop_ratio : c.drop_ratio = c'.drop_ratio

variable {c c' : Controller}

lemma Follows.measure (h : Follows c c') (stats : Stats) (now : ℚ) :
    Follows (c.measure stats now) (c'.measure stats now) := by
  unfold Controller.measure
  rw [← h.prev]
  cases c.prev with
  | none => exact { h with prev := rfl }
  | some r =>
    dsimp only
    split_ifs
    · exact { h with prev := rfl, pps := rfl, drop_ratio := rfl }
    · exact { h with prev := rfl, pps := rfl, drop_ratio := rfl }
    · exact { h with prev := rfl }

lemma shadow_tune (h : Follows c c') : Shadow WriteOp Follows (tune c) (tune c') := by
  have hlive : (!c.args.dry_run) = true := by rw [h.live]; rfl
  have hdry : ¬ (!c'.args.dry_run) = true := by simp [h.dry]
  have hupdate : c'.aggr.update c'.pps c'.drop_ratio = c.aggr.update c.pps c.drop_ratio := by
    rw [h.aggr, h.pps, h.drop_ratio]
  unfold tune
  rw [← h.no_auto_tune, hupdate]
  by_cases hoff : c.args.no_auto_tune = true
  · rw [if_pos hoff, if_pos hoff]
    exact Shadow.pure h
  rw [if_neg hoff, if_neg hoff]
  cases c.aggr.update c.pps c.drop_ratio with
  | error e => exact Shadow.raise e e
  | ok r =>
    obtain ⟨changed, aggr⟩ := r
    cases changed with
    | false => exact Shadow.pure { h with aggr := rfl }
    | true =>
      dsimp only
      rw [if_pos hlive, if_neg hdry]
      refine Shadow.skip (uses_update_config trivial (fun _ => trivial) _) (returns_tier aggr) fun _ => ?_
      exact shadow_note h.blocker _ _ fun _ _ hb => Shadow.pure { h with aggr := rfl, blocker := hb }

lemma shadow_clean_up (h : Follows c c') :
    Shadow WriteOp Follows (liftM (clean_up c) : Py Controller)
      (liftM (clean_up c') : Py Controller) := by
  have hnext : Follows { c with cycles := c.cycles + 1 } { c' with cycles := c'.cycles + 1 } :=
    { h with cycles := by rw [h.cycles] }
  have hrest : Shadow WriteOp Follows
      (liftM (.ret { c with cycles := c.cycles + 1 } : Call Controller) : Py Controller)
      (liftM (.ret { c' with cycles := c'.cycles + 1 } : Call Controller) : Py Controller) :=
    Shadow.pure hnext
  have hdry : ¬ (c'.cycles % 5 = 0 ∧ (!c'.args.dry_run) = true) := by simp [h.dry]
  have hclean : ∀ o, CleanUpOp o → WriteOp o := fun o ho => by cases o <;> trivial
  unfold clean_up
  rw [if_neg hdry]
  by_cases hdue : c.cycles % 5 = 0 ∧ (!c.args.dry_run) = true
  · rw [if_pos hdue, lift_bind]
    refine Shadow.skip (Exc.uses_lift (uses_remove_expired_blocks.mono hclean)) (returns_call _)
      fun _ => ?_
    rw [lift_bind]
    exact Shadow.skip (Exc.uses_lift (uses_remove_idle_states.mono hclean)) (returns_call _)
      fun _ => hrest
  · rw [if_neg hdue]
    exact hrest

lemma shadow_act (h : Follows c c') (vs : Dict Addr (Option String)) (stats : Stats) (now : ℚ) :
    Shadow WriteOp Follows (act c vs stats now) (act c' vs stats now) := by
  refine ((shadow_update h.blocker vs).rethrow Prod.fst Prod.fst).bind fun b b' hb => ?_
  have hjudged : Follows { c with blocker := b } { c' with blocker := b' } := { h with blocker := hb }
  exact (shadow_tune (hjudged.measure stats now)).bind fun c1 c1' h1 => shadow_clean_up h1

/-- **One step**, and what the screen shows of it. -/
theorem shadow_step (h : Follows c c') :
    Shadow WriteOp (fun r r' => Follows r.1 r'.1 ∧ r.2 = r'.2) (step c) (step c') := by
  refine Shadow.same fun stats => Shadow.same fun now => Shadow.same fun states =>
    Shadow.same fun now_ns => ?_
  rw [← h.window]
  have hwindow : Follows { c with window := (c.window.update states now_ns).2 }
      { c' with window := (c.window.update states now_ns).2 } := { h with window := rfl }
  exact (shadow_act hwindow _ stats now).bind fun c1 c1' h1 => Shadow.pure ⟨h1, rfl⟩

/-! ### Sessions -/

/-- What a step hands to `draw`. -/
abbrev Screen := Dict Addr Row × Dict Addr (Option String) × Stats

/-- The loop of `run`, `k` times. -/
def loop : ℕ → Controller → Py (Controller × List Screen)
  | 0, c => return (c, [])
  | k + 1, c => do
    let r ← step c
    let rest ← loop k r.1
    return (rest.1, r.2 :: rest.2)

/-- `Controller(args).run()`, for `k` rounds. -/
def run_session (args : Args) (k : ℕ) : Py (Controller × List Screen) := do
  let c ← start args
  loop k c

/-- The controllers follow each other, and have shown the same. -/
def Shown (r r' : Controller × List Screen) : Prop := Follows r.1 r'.1 ∧ r.2 = r'.2

lemma shadow_loop (k : ℕ) (h : Follows c c') : Shadow WriteOp Shown (loop k c) (loop k c') := by
  induction k generalizing c c' with
  | zero => exact Shadow.pure ⟨h, rfl⟩
  | succ k ih =>
    refine (shadow_step h).bind fun r r' hr => ?_
    refine (ih hr.1).bind fun rest rest' hrest => Shadow.pure ⟨hrest.1, ?_⟩
    rw [hr.2, hrest.2]

/-- **A dry run shows what a live session does**: for any options and any number of rounds, a live
session that no error stops comes to the decisions of a dry run and hands the same to the screen,
on the same answers but for those to the calls it writes with; and every dry run is the dry run of
such a session. -/
theorem dry_run_foresees (no_auto_tune : Bool) (allow : List LpmKey) (k : ℕ) :
    Shadow WriteOp Shown (run_session ⟨false, no_auto_tune, allow⟩ k)
      (run_session ⟨true, no_auto_tune, allow⟩ k) := by
  have hstart : Follows (.init ⟨false, no_auto_tune, allow⟩) (.init ⟨true, no_auto_tune, allow⟩) :=
    { live := rfl, dry := rfl, no_auto_tune := rfl, window := rfl,
      blocker := ⟨rfl, rfl, rfl, rfl, rfl, rfl, rfl⟩, aggr := rfl, cycles := rfl, prev := rfl,
      pps := rfl, drop_ratio := rfl }
  have hallow : Shadow WriteOp Follows (start ⟨false, no_auto_tune, allow⟩)
      (start ⟨true, no_auto_tune, allow⟩) :=
    (Shadow.refl (allow_all allow)).bind fun _ _ _ => Shadow.pure hstart
  exact hallow.bind fun c c' h => shadow_loop k h

end Lookout.Preview

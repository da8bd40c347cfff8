import Lookout.Control
import Lookout.Runs
import Mathlib.Tactic.FinCases

/-!
The tier the controller believes in, and the limits the kernel enforces.

The controller starts at the lowest level and writes the limits of a level only when it moves
to it. The pinned configuration outlives a controller, so at the start of a session it may hold
the limits of any tier, or of none.
-/

namespace Lookout.Tier

open Lookout.Effects Lookout.Effects.Prog Lookout.Runs Lookout.Dicts Lookout.Common
open Lookout.Kernel Lookout.Firewall Lookout.Detect Lookout.Policy Lookout.Policy.Blocker
open Lookout.Control

variable {n : ℕ} {cpu : Fin n}

/-- The stored limits are those of the level. -/
def Agree (cfg : FwConfig) (a : Aggressiveness) : Prop :=
  cfg.rate_pps.toNat = a.limits.1 ∧ cfg.burst_pkts.toNat = a.limits.2 ∧
    cfg.aggressiveness.toNat = a.level.val

/-- The controller writes, and tunes the limits. -/
def Live (args : Args) : Prop := args.dry_run = false ∧ args.no_auto_tune = false

/-! ### `Aggressiveness` -/

lemma agree_of_level {cfg : FwConfig} {a a' : Aggressiveness} (h : a'.level = a.level) :
    Agree cfg a' ↔ Agree cfg a := by
  unfold Agree Aggressiveness.limits
  rw [h]

lemma move_unchanged {a : Aggressiveness} {target : Fin 4} (h : (a.move target).1 = false) :
    (a.move target).2.level = a.level := by
  unfold Aggressiveness.move at h ⊢
  split_ifs at h ⊢ <;> simp_all

lemma update_unchanged {a a' : Aggressiveness} {pps drop_ratio : ℚ}
    (h : a.update pps drop_ratio = .ok (false, a')) : a'.level = a.level := by
  unfold Aggressiveness.update at h
  cases ht : Aggressiveness.target pps drop_ratio with
  | error e => rw [ht] at h; cases h
  | ok target =>
    rw [ht] at h
    have hm : a.move target = (false, a') := Except.ok.inj h
    have hlevel := move_unchanged (congrArg Prod.fst hm)
    rwa [hm] at hlevel

lemma update_idle : Aggressiveness.init.update 0 0 = .ok (false, .init) := by
  decide +kernel

/-- What `update_config` writes for a level is read back as its limits. -/
lemma agree_packed (cfg : FwConfig) (a : Aggressiveness) :
    Agree (packed ((unpack_config cfg).update (tier_changes a))) a := by
  obtain ⟨level, calm⟩ := a
  unfold Agree
  fin_cases level <;> exact ⟨rfl, rfl, rfl⟩

/-! ### One step -/

/-- What the level and the configuration do in one second of load. -/
def Tuned (cfg : FwConfig) (c : Controller) (cfg' : FwConfig) (a' : Aggressiveness) : Prop :=
  ∃ changed, c.aggr.update c.pps c.drop_ratio = .ok (changed, a') ∧
    (changed = false → cfg' = cfg) ∧ (changed = true → Agree cfg' a')

/-- A program without a write to the configuration leaves it alone. -/
lemma exec_config_frame {α : Type} {P : Op → Prop} {p : Prog calls α} {w w' : World n} {a : α}
    (hp : Uses P p) (hP : ∀ cfg, ¬ P (.config_update cfg))
    (hx : Exec (kernel Quiet cpu) w p a w') : w'.config = w.config :=
  hp.exec (fun w1 o b w2 ho hop hc =>
    kernel_config w1 o b w2 (by rintro cfg rfl; exact hP cfg ho) hop hc) hx rfl

/-- A call of `update_config` that returns has written its fields over the rest of the entry. -/
lemma exec_update_config {changes : Changes} {w w' : World n} {cfg : Config}
    (hx : Exec (kernel Quiet cpu) w (update_config changes) (.ok cfg) w') :
    w'.config = packed ((unpack_config w.config).update changes) := by
  rw [update_config_eq] at hx
  obtain ⟨b, w1, ⟨w2, hw2, hread⟩, hx1⟩ := exec_call.mp hx
  cases hread
  rw [hw2] at hx1
  by_cases hfit : Fits ((unpack_config w.config).update changes)
  · rw [after_read_fits hfit] at hx1
    obtain ⟨u, w3, ⟨w4, -, hwrite⟩, hx2⟩ := exec_call.mp hx1
    obtain ⟨-, rfl⟩ := exec_ret.mp hx2
    cases hwrite
    rfl
  · rw [after_read_not_fits hfit] at hx1
    obtain ⟨hr, -⟩ := exec_ret.mp hx1
    cases hr

lemma exec_tune {c c' : Controller} {w w' : World n} (hlive : Live c.args)
    (hx : Exec (kernel Quiet cpu) w (tune c) (.ok c') w') :
    Tuned w.config c w'.config c'.aggr ∧ c'.args = c.args := by
  obtain ⟨hdry, htune⟩ := hlive
  unfold tune at hx
  rw [htune, if_neg Bool.false_ne_true] at hx
  cases hup : c.aggr.update c.pps c.drop_ratio with
  | error e =>
    rw [hup] at hx
    obtain ⟨hr, -⟩ := Exc.exec_raise.mp hx
    cases hr
  | ok r =>
    obtain ⟨changed, a⟩ := r
    rw [hup] at hx
    cases changed with
    | false =>
      obtain ⟨hr, rfl⟩ := Exc.exec_pure.mp hx
      cases hr
      exact ⟨⟨false, hup, fun _ => rfl, fun h => absurd h (by decide)⟩, rfl⟩
    | true =>
      simp only [hdry, Bool.not_false, if_true] at hx
      obtain ⟨cfg, w1, hx1, hx⟩ := Exc.bind_ok hx
      obtain ⟨blocker, w2, hx2, hx⟩ := Exc.lift_bind_inv hx
      obtain ⟨hr, rfl⟩ := Exc.exec_pure.mp hx
      cases hr
      have hagree : Agree w1.config a := by
        rw [exec_update_config hx1]
        exact agree_packed w.config a
      rw [exec_config_frame (uses_note _ _) (fun _ h => h) hx2]
      exact ⟨⟨true, hup, fun h => absurd h (by decide), fun _ => hagree⟩, rfl⟩

lemma exec_clean_up {c c' : Controller} {w w' : World n}
    (hx : Exec (kernel Quiet cpu) w (clean_up c) c' w') :
    c'.aggr = c.aggr ∧ c'.args = c.args ∧ w'.config = w.config := by
  unfold clean_up at hx
  split_ifs at hx
  · obtain ⟨_, w1, hx1, hx⟩ := hx.bind_inv
    obtain ⟨_, w2, hx2, hx⟩ := hx.bind_inv
    obtain ⟨rfl, rfl⟩ := exec_ret.mp hx
    rw [exec_config_frame uses_remove_idle_states (fun _ h => h) hx2,
      exec_config_frame uses_remove_expired_blocks (fun _ h => h) hx1]
    exact ⟨rfl, rfl, rfl⟩
  · obtain ⟨rfl, rfl⟩ := exec_ret.mp hx
    exact ⟨rfl, rfl, rfl⟩

/-- Without an earlier measurement the load stays what it was. -/
lemma measure_first {c : Controller} (h : c.prev = none) (stats : Stats) (now : ℚ) :
    (c.measure stats now).pps = c.pps ∧ (c.measure stats now).drop_ratio = c.drop_ratio := by
  unfold Controller.measure
  rw [h]
  exact ⟨rfl, rfl⟩

/-- What one step does to the configuration: a level's limits are written as the controller
moves to it, and only then. -/
def Stepped (cfg : FwConfig) (c : Controller) (cfg' : FwConfig) (c' : Controller) : Prop :=
  c'.args = c.args ∧ ∃ pps drop_ratio changed,
    (c.prev = none → pps = c.pps ∧ drop_ratio = c.drop_ratio) ∧
    c.aggr.update pps drop_ratio = .ok (changed, c'.aggr) ∧
    (changed = false → cfg' = cfg) ∧ (changed = true → Agree cfg' c'.aggr)

lemma exec_act {c c' : Controller} {w w' : World n} {verdicts : Dict Addr (Option String)}
    {stats : Stats} {now : ℚ} (hlive : Live c.args)
    (hx : Exec (kernel Quiet cpu) w (act c verdicts stats now) (.ok c') w') :
    Stepped w.config c w'.config c' := by
  unfold act at hx
  obtain ⟨blocker, w1, hx1, hx⟩ := Exc.bind_ok hx
  obtain ⟨c1, w2, hx2, hx⟩ := Exc.bind_ok hx
  obtain ⟨c2, hr, hx3⟩ := Exc.lift_inv hx
  cases hr
  have h1 := exec_config_frame (Exc.uses_rethrow (uses_update _ _)) (fun _ h => h) hx1
  obtain ⟨hargs, haggr, -⟩ := measure_keeps { c with blocker } stats now
  obtain ⟨⟨changed, hup, hno, hyes⟩, hargs1⟩ := exec_tune (by rwa [hargs]) hx2
  obtain ⟨h3, h4, h5⟩ := exec_clean_up hx3
  rw [haggr] at hup
  rw [h1] at hno
  refine ⟨by rw [h4, hargs1, hargs], _, _, changed, fun hp => ?_, by rw [h3]; exact hup, ?_, ?_⟩
  · exact measure_first (c := { c with blocker }) hp stats now
  · exact fun h => h5.trans (hno h)
  · exact fun h => by rw [h3, h5]; exact hyes h

/-- **One completed step**, whatever the others do meanwhile. -/
theorem exec_step {c c' : Controller} {w w' : World n}
    {shown : Dict Addr Row × Dict Addr (Option String) × Stats} (hlive : Live c.args)
    (hx : Exec (kernel Quiet cpu) w (step c) (.ok (c', shown)) w') :
    Stepped w.config c w'.config c' := by
  have hmono : Uses ReadOp monotonic := uses_bind (uses_ktime_ns trivial) fun _ => trivial
  have hstates : Uses ReadOp read_states := uses_read_states trivial
  have htime : Uses ReadOp ktime_ns := uses_ktime_ns trivial
  unfold step at hx
  obtain ⟨stats, w1, hx1, hx⟩ := Exc.lift_bind_inv hx
  obtain ⟨now, w2, hx2, hx⟩ := Exc.lift_bind_inv hx
  obtain ⟨states, w3, hx3, hx⟩ := Exc.lift_bind_inv hx
  obtain ⟨now_ns, w4, hx4, hx⟩ := Exc.lift_bind_inv hx
  obtain ⟨c1, w5, hx5, hx⟩ := Exc.bind_ok hx
  obtain ⟨hr, rfl⟩ := Exc.exec_pure.mp hx
  cases hr
  have hlive' : Live ({ c with window := (c.window.update states now_ns).2 } : Controller).args :=
    hlive
  have hact := exec_act hlive' hx5
  rwa [exec_config_frame htime (fun _ h => h) hx4, exec_config_frame hstates (fun _ h => h) hx3,
    exec_config_frame hmono (fun _ h => h) hx2,
    exec_config_frame uses_read_stats (fun _ h => h) hx1] at hact

/-! ### Runs -/

/-- One completed step of the controller, whatever the others do meanwhile. -/
def Tick (cpu : Fin n) (s : World n × Controller)
    (shown : Dict Addr Row × Dict Addr (Option String) × Stats) (s' : World n × Controller) :
    Prop :=
  Exec (kernel Quiet cpu) s.1 (step s.2) (.ok (s'.2, shown)) s'.1

lemma Stepped.agree {cfg cfg' : FwConfig} {c c' : Controller} (h : Stepped cfg c cfg' c')
    (ha : Agree cfg c.aggr) : Agree cfg' c'.aggr := by
  obtain ⟨-, pps, drop_ratio, changed, -, hup, hno, hyes⟩ := h
  cases changed with
  | false => rw [hno rfl, agree_of_level (update_unchanged hup)]; exact ha
  | true => exact hyes rfl

/-- The first step of a session changes neither the level nor the configuration. -/
lemma Stepped.first {args : Args} {cfg cfg' : FwConfig} {c' : Controller}
    (h : Stepped cfg (.init args) cfg' c') : cfg' = cfg ∧ c'.aggr = .init := by
  obtain ⟨-, pps, drop_ratio, changed, hload, hup, hno, -⟩ := h
  obtain ⟨rfl, rfl⟩ := hload rfl
  have heq : (changed, c'.aggr) = (false, Aggressiveness.init) :=
    Except.ok.inj (hup.symm.trans update_idle)
  exact ⟨hno (congrArg Prod.fst heq), congrArg Prod.snd heq⟩

/-- **The enforced limits are those of the tier the controller believes in**, after every step
of a session, exactly when the session starts on the limits of the lowest tier. -/
theorem tier_agrees_iff (args : Args) (hlive : Live args) (w : World n)
    (s' : World n × Controller)
    (tr : List (Runs.Trans (World n × Controller)
      (Dict Addr Row × Dict Addr (Option String) × Stats)))
    (h : Path (Tick cpu) (w, .init args) tr s') (hne : tr ≠ []) :
    (∀ x ∈ tr, Agree x.post.1.config x.post.2.aggr) ↔
      w.config.rate_pps = 20000 ∧ w.config.burst_pkts = 40000 ∧ w.config.aggressiveness = 0 := by
  have hstart : Agree w.config .init ↔
      w.config.rate_pps = 20000 ∧ w.config.burst_pkts = 40000 ∧ w.config.aggressiveness = 0 := by
    rw [← BitVec.toNat_inj, ← BitVec.toNat_inj, ← BitVec.toNat_inj]
    rfl
  rw [← hstart]
  constructor
  · intro hall
    cases tr with
    | nil => exact absurd rfl hne
    | cons x tr =>
      -- the first step shows what the session has started on
      obtain ⟨-, hx, -⟩ := h.uncons
      have hstep : Stepped w.config (.init args) x.post.1.config x.post.2 := exec_step hlive hx
      have ha := hall x List.mem_cons_self
      rwa [hstep.first.1, hstep.first.2] at ha
  · intro ha x hx
    have hinv := h.inv_post (fun s => Live s.2.args ∧ Agree s.1.config s.2.aggr) ?_ ⟨hlive, ha⟩ hx
    · exact hinv.2
    · rintro s shown s' htick ⟨hl, hagree⟩
      have hstep : Stepped s.1.config s.2 s'.1.config s'.2 := exec_step hl htick
      exact ⟨by rw [hstep.1]; exact hl, hstep.agree hagree⟩

/-! ### Two sessions -/

def live_args : Args := ⟨false, false, []⟩

/-- A step that returns when it runs alone is a step. -/
lemma tick_of_run (cpu : Fin n) (w : World n) (c : Controller)
    (hok : (run (exec cpu) (step c) w).1.toBool = true) : ∃ shown s', Tick cpu (w, c) shown s' := by
  have hE : ∀ w : World n, Quiet w w := fun _ => rfl
  have hx := exec_run (f := exec cpu) hE (step c) w
  generalize run (exec cpu) (step c) w = r at hok hx
  obtain ⟨e | ⟨c', shown⟩, w'⟩ := r
  · cases hok
  · exact ⟨shown, (w', c'), hx⟩

/-- A session on the configuration `fwload` writes. -/
theorem tier_agrees_loaded : ∃ shown s',
    Tick 0 (World.loaded 1, .init live_args) shown s' ∧ Agree s'.1.config s'.2.aggr := by
  obtain ⟨shown, s', hx⟩ := tick_of_run 0 (World.loaded 1) (.init live_args) (by decide +kernel)
  have hpath : Path (Tick 0) (World.loaded 1, .init live_args)
      [⟨(World.loaded 1, .init live_args), shown, s'⟩] s' := .cons hx .nil
  have hiff := tier_agrees_iff live_args ⟨rfl, rfl⟩ (World.loaded 1) s' _ hpath
    (List.cons_ne_nil _ _)
  exact ⟨shown, s', hx, hiff.mpr ⟨rfl, rfl, rfl⟩ _ List.mem_cons_self⟩

/-- What a session that was stopped in the highest tier has left. -/
def stopped_high : World 1 :=
  { World.loaded 1 with
    config := { default_config with rate_pps := 200, burst_pkts := 400, aggressiveness := 3 } }

theorem stale_tier_enforced : ∃ shown s',
    Tick 0 (stopped_high, .init live_args) shown s' ∧ s'.2.aggr.level = 0 ∧
      ¬ Agree s'.1.config s'.2.aggr := by
  obtain ⟨shown, s', hx⟩ := tick_of_run 0 stopped_high (.init live_args) (by decide +kernel)
  have hstep : Stepped stopped_high.config (.init live_args) s'.1.config s'.2 :=
    exec_step ⟨rfl, rfl⟩ hx
  obtain ⟨hcfg, haggr⟩ := hstep.first
  refine ⟨shown, s', hx, by rw [haggr]; rfl, fun ha => ?_⟩
  rw [hcfg, haggr] at ha
  exact absurd ha.1 (by decide)

end Lookout.Tier

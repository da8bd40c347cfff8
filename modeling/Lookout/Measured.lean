import Lookout.Ladder
import Lookout.Load
import Lookout.Preview
import Lookout.Readout

/-!
The load, measured while packets arrive.

`read_stats` takes one counter after another, and packets are counted in between. Still the load of
a round is that of the time between two readouts, give or take the packets that are counted during
the readouts themselves, and no round of which the time goes on is left out. So the tier rises only
when that many packets have come.
-/

namespace Lookout.Measured

open Lookout.Effects Lookout.Effects.Prog Lookout.Runs Lookout.Dicts Lookout.Common
open Lookout.Packet Lookout.Kernel Lookout.Xdp Lookout.Accounting Lookout.Traffic
open Lookout.Firewall Lookout.Detect Lookout.Policy Lookout.Control Lookout.Load Lookout.Preview

variable {n : ℕ} {ι : Type}

/-- No counter falls. -/
def Grows (w w' : World n) : Prop := ∀ s, w.total s ≤ w'.total s

lemma Grows.refl (w : World n) : Grows w w := fun _ => le_rfl

lemma Grows.trans {w w' w'' : World n} (h : Grows w w') (h' : Grows w' w'') : Grows w w'' :=
  fun s => (h s).trans (h' s)

lemma limiter_input_mono {g g' : Stat → ℕ} (h : ∀ s, g s ≤ g' s) :
    limiter_input g ≤ limiter_input g' :=
  List.sum_le_sum fun s _ => h s

/-! ### What a level rises on -/

/-- A load that calls for the level `lvl`. -/
def Calls (lvl : Fin 4) (pps ratio : ℚ) : Prop :=
  ESCALATE_PPS.get lvl ≤ pps ∨ lvl ≤ 2 ∧ ESCALATE_DROP_RATIO ≤ ratio

lemma le_of_load_level {pps : ℚ} {lvl : Fin 4} (h : Aggressiveness.load_level pps = .ok lvl) :
    ESCALATE_PPS.get lvl ≤ pps := by
  unfold Aggressiveness.load_level at h
  split at h
  · rename_i l hmax
    cases h
    exact of_decide_eq_true (List.mem_filter.mp (List.max?_mem hmax)).2
  · cases h

lemma calls_of_target {pps ratio : ℚ} {lvl : Fin 4}
    (h : Aggressiveness.target pps ratio = .ok lvl) : Calls lvl pps ratio := by
  unfold Aggressiveness.target at h
  cases hl : Aggressiveness.load_level pps with
  | error e =>
    rw [hl] at h
    cases h
  | ok l =>
    rw [hl] at h
    simp only [Except.map, Except.ok.injEq] at h
    subst h
    split_ifs with hratio
    · rcases le_total l 2 with h2 | h2
      · rw [max_eq_right h2]
        exact .inr ⟨le_rfl, hratio⟩
      · rw [max_eq_left h2]
        exact .inl (le_of_load_level hl)
    · exact .inl (le_of_load_level hl)

/-- A level rises to what the load calls for. -/
lemma calls_of_update {a a' : Aggressiveness} {pps ratio : ℚ} {changed : Bool}
    (h : a.update pps ratio = .ok (changed, a')) (hlt : a.level < a'.level) :
    Calls a'.level pps ratio := by
  unfold Aggressiveness.update at h
  cases htarget : Aggressiveness.target pps ratio with
  | error e =>
    rw [htarget] at h
    cases h
  | ok lvl =>
    rw [htarget] at h
    simp only [Except.map, Except.ok.injEq] at h
    rcases Ladder.move_cases a lvl with ⟨-, hm⟩ | ⟨-, hm⟩ | ⟨hl, -, hm⟩ | ⟨-, -, hm⟩
    · rw [hm] at h
      cases h
      exact calls_of_target htarget
    · rw [hm] at h
      cases h
      exact absurd hlt (lt_irrefl _)
    · rw [hm] at h
      cases h
      have := Ladder.lower_val hl
      have := Fin.lt_def.mp hlt
      dsimp only at this
      omega
    · rw [hm] at h
      cases h
      exact absurd hlt (lt_irrefl _)

/-- What the tier's write leaves of a controller. -/
structure Tuned (c c' : Controller) : Prop where
  window : c'.window = c.window
  blocker : ∃ log, c'.blocker = { c.blocker with log }
  rises : c.aggr.level < c'.aggr.level → Calls c'.aggr.level c.pps c.drop_ratio

lemma within_tune {P : Op → Prop} (hread : P .config_lookup)
    (hwrite : ∀ cfg, P (.config_update cfg)) (htime : P .strftime) (c : Controller) :
    Exc.Within P (Tuned c) (tune c) := by
  have hnote : ∀ a, (c.aggr.level < a.level → Calls a.level c.pps c.drop_ratio) →
      Exc.Within P (Tuned c) (do
        let blocker ← c.blocker.note (tier_msg c.args.dry_run a)
        return { c with aggr := a, blocker } : Py Controller) := by
    intro a ha
    have hlog : Within P (fun b => ∃ log, b = { c.blocker with log })
        (c.blocker.note (tier_msg c.args.dry_run a)) := ⟨htime, fun _ => ⟨_, rfl⟩⟩
    refine Exc.within_bind (Exc.within_lift hlog) ?_
    rintro b ⟨log, rfl⟩
    exact Exc.within_pure ⟨rfl, ⟨log, rfl⟩, ha⟩
  unfold tune
  by_cases htune : c.args.no_auto_tune = true
  · rw [if_pos htune]
    exact Exc.within_pure ⟨rfl, ⟨_, rfl⟩, fun hlt => absurd hlt (lt_irrefl _)⟩
  rw [if_neg htune]
  cases hup : c.aggr.update c.pps c.drop_ratio with
  | error e => exact Exc.within_raise _ _ _
  | ok r =>
    obtain ⟨changed, a⟩ := r
    have ha := fun hlt => calls_of_update hup hlt
    cases changed with
    | false => exact Exc.within_pure ⟨rfl, ⟨_, rfl⟩, ha⟩
    | true =>
      dsimp only
      split_ifs
      · exact Exc.within_bind (Exc.within_of_uses (uses_update_config hread hwrite _)) fun _ _ =>
          hnote a ha
      · exact hnote a ha

/-- The cleanup leaves all of it. -/
lemma within_clean_up {P : Op → Prop} (hP : ∀ o, CleanUpOp o → P o) (c : Controller) :
    Within P (fun c' => c'.window = c.window ∧ c'.blocker = c.blocker ∧ c'.aggr = c.aggr)
      (clean_up c) := by
  unfold clean_up
  split_ifs
  · exact within_bind (uses_remove_expired_blocks.mono hP).within fun _ _ =>
      within_bind (uses_remove_idle_states.mono hP).within fun _ _ => ⟨rfl, rfl, rfl⟩
  · exact ⟨rfl, rfl, rfl⟩

/-- **A step raises the level** only to what the load it leaves calls for. -/
theorem calls_of_act {R : Machine calls (World n)} {c c' : Controller} {w w' : World n}
    {verdicts : Dict Addr (Option String)} {stats : Stats} {now : ℚ}
    (h : Exec R w (act c verdicts stats now) (.ok c') w') (hlt : c.aggr.level < c'.aggr.level) :
    Calls c'.aggr.level c'.pps c'.drop_ratio := by
  unfold act at h
  obtain ⟨blocker, w1, -, h⟩ := Exc.bind_ok h
  obtain ⟨c1, w2, htune, h⟩ := Exc.bind_ok h
  obtain ⟨c2, hr, hclean⟩ := Exc.lift_inv h
  cases hr
  obtain ⟨-, hpps, hratio⟩ := exec_tune_load htune
  obtain ⟨-, hpps', hratio'⟩ := exec_clean_up_load hclean
  obtain ⟨_, hltune⟩ := htune.trace
  obtain ⟨_, hlclean⟩ := hclean.trace
  have hany : ∀ o, CleanUpOp o → True := fun _ _ => trivial
  obtain ⟨-, htuned⟩ := hltune.within
    (within_tune (P := fun _ => True) trivial (fun _ => trivial) trivial _)
  obtain ⟨-, -, haggr'⟩ := (hlclean.within (within_clean_up hany c1)).2
  have haggr := (measure_keeps ({ c with blocker } : Controller) stats now).2.1
  rw [haggr'] at hlt ⊢
  rw [hpps', hratio', hpps, hratio]
  refine (htuned c1 rfl).rises ?_
  rw [haggr]
  exact hlt

/-! ### A session among packets -/

abbrev Outcome := Except PyError (Controller × List Screen)

/-- A session of the controller, and the packets. -/
def programs (frames : ι → Frame) (k : ℕ) (c : Controller) : Option ι → Call (Option Outcome)
  | none => do
    let r ← (loop k c : Call Outcome)
    return some r
  | some i => do
    let _ ← xdp_firewall (frames i)
    return none

/-- The turns of the packets and of the session. -/
abbrev Log (n : ℕ) (ι : Type) := Turns calls (World n) (Option Outcome) (Option ι)

/-- What the turns are like: no counter falls, and the session reads what the counters are. -/
structure Counts (tr : Log n ι) : Prop where
  grows : ∀ x ∈ tr, Grows x.pre.1 x.post.1
  reads : ∀ x ∈ tr, ∀ s b, x.ev = (none, ⟨.stat_sum s, b⟩) →
    b = x.pre.1.total s ∧ x.post.1.total = x.pre.1.total

lemma counts_of_path [DecidableEq ι] {cpu : Option ι → Fin n}
    {c c' : Pool calls (World n) (Option Outcome) (Option ι)} {tr : Log n ι}
    (h : Path (turn fun i => kernel Others (cpu i)) c tr c') : Counts tr := by
  have hstep : ∀ x ∈ tr, ∃ w, w.total = x.pre.1.total ∧
      exec (cpu x.ev.1) w x.ev.2.1 = (x.ev.2.2, x.post.1) := by
    intro x hx
    obtain ⟨-, -, ⟨w, hw, hexec⟩, -⟩ := h.step_of_mem hx
    refine ⟨w, ?_, hexec⟩
    funext s
    unfold World.total
    rw [hw]
  constructor
  · intro x hx s
    obtain ⟨w, hw, hexec⟩ := hstep x hx
    rw [Kernel.World.total, ← World.total, exec_total hexec s, hw]
    exact Nat.le_add_right _ _
  · intro x hx s b hev
    obtain ⟨w, hw, hexec⟩ := hstep x hx
    rw [hev] at hexec
    cases hexec
    exact ⟨congrFun hw s, hw⟩

/-! ### One readout -/

/-- The session reads the first counter in `w`. -/
def Opens (tr : Log n ι) (w : World n) : Prop :=
  ∃ x ∈ tr, ∃ b, x.ev = (none, ⟨.stat_sum .rx_packets, b⟩) ∧ x.pre.1 = w

/-- It has just read the last one. -/
def Closes (tr : Log n ι) (w : World n) : Prop :=
  ∃ x ∈ tr, ∃ b, x.ev = (none, ⟨.stat_sum .state_full, b⟩) ∧ x.post.1 = w

section

variable {tr : Log n ι} {w w' : World n}

/-- The session as the run shows it. -/
abbrev session (tr : Log n ι) : Machine calls (World n) := amid tr Grows none

lemma grows_of_exec (hc : Counts tr) {α : Type} {p : Call α} {a : α}
    (h : Exec (session tr) w p a w') : Grows w w' := by
  induction h with
  | ret => exact .refl _
  | call hop _ ih =>
    obtain ⟨x, hx, -, hpre, rfl⟩ := hop
    exact (hpre.trans (hc.grows x hx)).trans ih

/-- What the counters are read with, and where the last one is read. -/
lemma exec_sum_percpu (hc : Counts tr) {l : List Stat} {out : List (Stat × ℕ)}
    (h : Exec (session tr) w (sum_percpu l) out w') :
    out.map Prod.fst = l ∧ (∀ e ∈ out, w.total e.1 ≤ e.2 ∧ e.2 ≤ w'.total e.1) ∧
      ∀ s ∈ l.getLast?, ∃ x ∈ tr, ∃ b, x.ev = (none, ⟨.stat_sum s, b⟩) ∧ x.post.1 = w' := by
  induction l generalizing w out with
  | nil =>
    obtain ⟨rfl, rfl⟩ := exec_ret.mp h
    exact ⟨rfl, nofun, nofun⟩
  | cons s l ih =>
    obtain ⟨b, w1, ⟨x, hx, hev, hpre, rfl⟩, hrest⟩ := exec_call.mp h
    change Exec (session tr) x.post.1 (sum_percpu l >>= fun rest => .ret ((s, b) :: rest)) out w'
      at hrest
    obtain ⟨rest, w2, hl, hret⟩ := Exec.bind_inv hrest
    obtain ⟨rfl, rfl⟩ := exec_ret.mp hret
    obtain ⟨hfst, hall, hlast⟩ := ih hl
    obtain ⟨rfl, hpost⟩ := hc.reads x hx s b hev
    have hgrows := grows_of_exec hc hl
    have hfirst : Grows w x.post.1 := hpre.trans (hc.grows x hx)
    refine ⟨congrArg (List.cons s) hfst,
      List.forall_mem_cons.mpr ⟨⟨hpre s, ?_⟩, fun e he => ?_⟩, ?_⟩
    · dsimp only
      rw [← hpost]
      exact hgrows s
    · exact ⟨(hfirst e.1).trans (hall e he).1, (hall e he).2⟩
    · cases l with
      | nil =>
        intro s' hs'
        cases hs'
        obtain ⟨-, rfl⟩ := exec_ret.mp hl
        exact ⟨x, hx, _, hev, rfl⟩
      | cons s' l => exact hlast

lemma last_name : STAT_NAMES.getLast? = some .state_full := rfl

/-- **A readout** finds each counter between its values at the first and after the last read. -/
theorem exec_read_stats (hc : Counts tr) {stats : Stats}
    (h : Exec (session tr) w read_stats stats w') :
    ∃ first, Grows w first ∧ Opens tr first ∧ Closes tr w' ∧
      ∀ s, first.total s ≤ stats.count s ∧ stats.count s ≤ w'.total s := by
  obtain ⟨out, w1, hout, hret⟩ := Exec.bind_inv h
  obtain ⟨rfl, rfl⟩ := exec_ret.mp hret
  obtain ⟨b, w2, ⟨x, hx, hev, hpre, rfl⟩, hrest⟩ := exec_call.mp hout
  have hagain : Exec (session tr) x.pre.1 (sum_percpu STAT_NAMES) out w' :=
    .call ⟨x, hx, hev, .refl _, rfl⟩ hrest
  obtain ⟨hfst, hall, hlast⟩ := exec_sum_percpu hc hagain
  refine ⟨x.pre.1, hpre, ⟨x, hx, b, hev, rfl⟩, hlast _ last_name, fun s => ?_⟩
  have hnd : (out.map Prod.fst).Nodup := by
    rw [hfst]
    decide
  have hs : s ∈ out.map Prod.fst := by
    rw [hfst]
    cases s <;> decide
  obtain ⟨e, he, rfl⟩ := List.mem_map.mp hs
  have hcount : (out.lookup e.1).getD 0 = e.2 := Readout.getD_lookup hnd e he
  dsimp only
  rw [hcount]
  exact hall e he

/-! ### Rounds -/

/-- One round: the controller, the maps at the first and after the last read, what was read, the
time, and the controller after it. -/
structure Round (n : ℕ) where
  before : Controller
  first : World n
  last : World n
  stats : Stats
  now : ℚ
  after : Controller

/-- The round is one of the run. -/
structure Round.Of (tr : Log n ι) (r : Round n) : Prop where
  step : ∃ rows verdicts w w',
    Exec (session tr) w (step r.before) (.ok (r.after, rows, verdicts, r.stats)) w'
  opens : Opens tr r.first
  closes : Closes tr r.last
  between : ∀ s, r.first.total s ≤ r.stats.count s ∧ r.stats.count s ≤ r.last.total s
  time : ∃ x ∈ tr, ∃ b : U64, x.ev = (none, ⟨.ktime_get_ns, b⟩) ∧
    r.now = (b.toNat : ℚ) / 1000000000

/-- The round starts with the controller `c`, not before `w`. -/
structure Starts (c : Controller) (w : World n) (r : Round n) : Prop where
  before : r.before = c
  grows : Grows w r.first
  measures : Measures c r.stats r.now r.after
  calls : c.aggr.level < r.after.aggr.level →
    Calls r.after.aggr.level r.after.pps r.after.drop_ratio

/-- What comes between two rounds, if time has passed. -/
structure Next (r r' : Round n) : Prop where
  /-- The load is that of the packets counted since the last round. -/
  least : (limiter_input r'.first.total : ℚ) - limiter_input r.last.total ≤
    r'.after.pps * (r'.now - r.now)
  most : r'.after.pps * (r'.now - r.now) ≤
    (limiter_input r'.last.total : ℚ) - limiter_input r.first.total
  /-- The ratio is one. -/
  nonneg : 0 ≤ r'.after.drop_ratio
  le_one : r'.after.drop_ratio ≤ 1
  /-- The level rises only if enough packets have come, or half of them were dropped. -/
  rises : r.after.aggr.level < r'.after.aggr.level →
    ESCALATE_PPS.get r'.after.aggr.level * (r'.now - r.now) ≤
        (limiter_input r'.last.total : ℚ) - limiter_input r.first.total ∨
      r'.after.aggr.level ≤ 2 ∧
        (limiter_input r'.first.total : ℚ) - limiter_input r.last.total ≤
          2 * ((r'.last.total .drop_ratelimit : ℚ) - r.first.total .drop_ratelimit)

/-- The round comes after the other. -/
structure Follows (r r' : Round n) : Prop where
  before : r'.before = r.after
  grows : Grows r.last r'.first
  next : r.now < r'.now → Next r r'

lemma exec_monotonic {now : ℚ} (h : Exec (session tr) w monotonic now w') :
    ∃ x ∈ tr, ∃ b : U64, x.ev = (none, ⟨.ktime_get_ns, b⟩) ∧
      now = (b.toNat : ℚ) / 1000000000 := by
  obtain ⟨b, w1, ⟨x, hx, hev, -, -⟩, hret⟩ := exec_call.mp h
  obtain ⟨rfl, -⟩ := exec_ret.mp hret
  exact ⟨x, hx, b, hev, rfl⟩

lemma read_of_step (hc : Counts tr) {c c' : Controller} {rows : Dict Addr Row}
    {verdicts : Dict Addr (Option String)} {stats : Stats}
    (h : Exec (session tr) w (step c) (.ok (c', rows, verdicts, stats)) w') :
    ∃ last, Exec (session tr) w read_stats stats last ∧ Grows last w' ∧
      (c.aggr.level < c'.aggr.level → Calls c'.aggr.level c'.pps c'.drop_ratio) := by
  unfold step at h
  obtain ⟨_, last, hread, h⟩ := Exc.lift_bind_inv h
  have hlast := grows_of_exec hc h
  obtain ⟨_, _, -, h⟩ := Exc.lift_bind_inv h
  obtain ⟨_, _, -, h⟩ := Exc.lift_bind_inv h
  obtain ⟨_, _, -, h⟩ := Exc.lift_bind_inv h
  obtain ⟨_, _, hact, h⟩ := Exc.bind_ok h
  obtain ⟨hr, -⟩ := Exc.exec_pure.mp h
  cases hr
  have hcalls := calls_of_act hact
  exact ⟨last, hread, hlast, hcalls⟩

/-- **A step** is a round. -/
lemma exec_step (hc : Counts tr) {c c' : Controller} {rows : Dict Addr Row}
    {verdicts : Dict Addr (Option String)} {stats : Stats}
    (h : Exec (session tr) w (step c) (.ok (c', rows, verdicts, stats)) w') :
    ∃ r : Round n, r.Of tr ∧ Starts c w r ∧ r.stats = stats ∧ r.after = c' ∧ Grows r.last w' := by
  obtain ⟨_, _, now, -, htime, hmeas⟩ := measures_of_step h
  obtain ⟨last, hread, hlast, hcalls⟩ := read_of_step hc h
  obtain ⟨first, hfirst, hopens, hcloses, hbetween⟩ := exec_read_stats hc hread
  refine ⟨⟨c, first, last, stats, now, c'⟩, ?_, ⟨rfl, hfirst, hmeas, hcalls⟩, rfl, rfl, hlast⟩
  exact ⟨⟨rows, verdicts, w, w', h⟩, hopens, hcloses, hbetween, exec_monotonic htime⟩

/-- A ratio of a half: of the packets that reached the limiter half were dropped. -/
lemma twice_of_half {old new : Stats} {since : ℕ}
    (hsince : limiter_input new.count = limiter_input old.count + since)
    (h : ESCALATE_DROP_RATIO ≤
      if (limiter_input new.count - limiter_input old.count : ℤ) ≠ 0 then
        (((new.count .drop_ratelimit - old.count .drop_ratelimit : ℤ) : ℚ) /
          ((limiter_input new.count - limiter_input old.count : ℤ) : ℚ)) else 0) :
    (since : ℚ) ≤ 2 * ((new.count .drop_ratelimit : ℚ) - old.count .drop_ratelimit) := by
  have hload : (limiter_input new.count - limiter_input old.count : ℤ) = since := by omega
  rw [hload] at h
  unfold ESCALATE_DROP_RATIO at h
  split_ifs at h with hzero
  · have hpos : (0 : ℚ) < since := by
      have := Nat.pos_of_ne_zero (by exact_mod_cast hzero)
      exact_mod_cast this
    push_cast at h
    rw [le_div_iff₀ hpos] at h
    linarith
  · norm_num at h

/-- **From one round to the next.** -/
lemma next_of_starts {r r' : Round n} (hr : r.Of tr) (hr' : r'.Of tr)
    (hprev : r.after.prev = some (r.stats, r.now)) (hlast : Grows r.last w)
    (h : Starts r.after w r') (hnow : r.now < r'.now) : Next r r' := by
  obtain ⟨-, hgrows, ⟨-, hpps, hratio⟩, hcalls⟩ := h
  have hle : ∀ s, r.stats.count s ≤ r'.stats.count s := fun s =>
    calc r.stats.count s ≤ r.last.total s := (hr.between s).2
      _ ≤ r'.first.total s := hlast.trans hgrows s
      _ ≤ r'.stats.count s := (hr'.between s).1
  have hinput := limiter_input_mono hle
  have hacc : Accepts r.stats r'.stats r.now r'.now :=
    accepts_iff.mpr ⟨hle .rx_packets, hinput, hnow⟩
  obtain ⟨hpps', hratio'⟩ := measure_accepts hprev hacc
  obtain ⟨since, hsince⟩ := Nat.exists_eq_add_of_le hinput
  obtain ⟨hload, hpart⟩ := right_of_no_reset hle hsince hnow
  have hload' : r'.after.pps * (r'.now - r.now) = since := by
    rw [hpps, hpps']
    exact hload
  have hsum : (limiter_input r'.stats.count : ℚ) = limiter_input r.stats.count + since := by
    rw [hsince]
    push_cast
    rfl
  have hlow : (limiter_input r'.first.total : ℚ) ≤ limiter_input r'.stats.count := by
    exact_mod_cast limiter_input_mono fun s => (hr'.between s).1
  have hhigh : (limiter_input r'.stats.count : ℚ) ≤ limiter_input r'.last.total := by
    exact_mod_cast limiter_input_mono fun s => (hr'.between s).2
  have hlow' : (limiter_input r.first.total : ℚ) ≤ limiter_input r.stats.count := by
    exact_mod_cast limiter_input_mono fun s => (hr.between s).1
  have hhigh' : (limiter_input r.stats.count : ℚ) ≤ limiter_input r.last.total := by
    exact_mod_cast limiter_input_mono fun s => (hr.between s).2
  have hratios : 0 ≤ r'.after.drop_ratio ∧ r'.after.drop_ratio ≤ 1 := by
    rw [hratio, hratio']
    split_ifs
    · exact hpart
    · exact ⟨le_rfl, zero_le_one⟩
  constructor
  · rw [hload']
    linarith
  · rw [hload']
    linarith
  · exact hratios.1
  · exact hratios.2
  · intro hlevel
    rcases hcalls hlevel with hrate | ⟨htwo, hhalf⟩
    · left
      have htime := sub_pos.mpr hnow
      have := mul_le_mul_of_nonneg_right hrate htime.le
      rw [hload'] at this
      linarith
    · right
      refine ⟨htwo, ?_⟩
      have hdrops : (since : ℚ) ≤
          2 * ((r'.stats.count .drop_ratelimit : ℚ) - r.stats.count .drop_ratelimit) := by
        rw [hratio, hratio'] at hhalf
        exact twice_of_half hsince hhalf
      have hdrop : (r'.stats.count .drop_ratelimit : ℚ) ≤ r'.last.total .drop_ratelimit := by
        exact_mod_cast (hr'.between _).2
      have hdrop' : (r.first.total .drop_ratelimit : ℚ) ≤ r.stats.count .drop_ratelimit := by
        exact_mod_cast (hr.between _).1
      linarith

/-- The rounds of a session. -/
lemma exec_loop (hc : Counts tr) {k : ℕ} {c c' : Controller} {screens : List Screen}
    (h : Exec (session tr) w (loop k c) (.ok (c', screens)) w') :
    ∃ rounds : List (Round n), rounds.map Round.stats = screens.map (·.2.2) ∧
      (∀ r ∈ rounds, r.Of tr) ∧ (∀ r ∈ rounds.head?, Starts c w r) ∧
      (rounds.getLast?.map Round.after).getD c = c' ∧ rounds.IsChain Follows := by
  induction k generalizing c w screens with
  | zero =>
    obtain ⟨hr, -⟩ := Exc.exec_pure.mp h
    cases hr
    exact ⟨[], rfl, fun _ hx => absurd hx List.not_mem_nil,
      fun _ hx => absurd hx (Option.not_mem_none _), rfl, .nil⟩
  | succ k ih =>
    obtain ⟨⟨c1, rows, verdicts, stats⟩, w1, hstep, h⟩ := Exc.bind_ok h
    obtain ⟨⟨c2, rest⟩, w2, hloop, h⟩ := Exc.bind_ok h
    obtain ⟨hr, rfl⟩ := Exc.exec_pure.mp h
    cases hr
    obtain ⟨r, hof, hstarts, rfl, rfl, hlast⟩ := exec_step hc hstep
    obtain ⟨rounds, hstats, hall, hhead, hlast', hchain⟩ := ih hloop
    refine ⟨r :: rounds, congrArg (List.cons r.stats) hstats,
      List.forall_mem_cons.mpr ⟨hof, hall⟩, ?_, ?_, ?_⟩
    · rintro r' hr'
      cases hr'
      exact hstarts
    · rw [List.getLast?_cons, Option.map_some, Option.getD_some, ← hlast', Option.getD_map]
    · refine hchain.cons fun r' hr' => ?_
      have hr'mem : r' ∈ rounds := List.mem_of_mem_head? hr'
      have hstarts' := hhead r' hr'
      exact ⟨hstarts'.before, hlast.trans hstarts'.grows,
        next_of_starts hof (hall r' hr'mem) hstarts.measures.1 hlast hstarts'⟩

end

/-- **The load is right among packets.** In any interleaving of a session of the controller with any
packets on any CPUs, operation by operation, each of its rounds reads the counters between two
moments of the run. From one round to the next, if time has passed, the interval is taken: the load
times the interval is at least what the limiter's counters have grown by from the end of the one
readout to the start of the other, and at most what they have grown by from the start of the one to
the end of the other. The level rises only if so many packets have come, or, to the second level,
if half of them may have been dropped. -/
theorem load_between [DecidableEq ι] (cpu : Option ι → Fin n) (frames : ι → Frame) (k : ℕ)
    (c c1 : Controller) (screens : List Screen) (w : World n)
    (c' : Pool calls (World n) (Option Outcome) (Option ι)) (tr : Log n ι)
    (h : Path (turn fun i => kernel Others (cpu i)) (w, programs frames k c) tr c')
    (hdone : c'.2 none = .ret (some (.ok (c1, screens)))) :
    ∃ rounds : List (Round n), rounds.map Round.stats = screens.map (·.2.2) ∧
      (∀ r ∈ rounds, r.Of tr) ∧ (∀ r ∈ rounds.head?, r.before = c) ∧
      (rounds.getLast?.map Round.after).getD c = c1 ∧ rounds.IsChain Follows := by
  have hc := counts_of_path h
  obtain ⟨s, hexec, -⟩ := exec_of_path Grows.refl (fun _ _ _ => Grows.trans) h
    (fun x hx _ => hc.grows x hx) hdone
  obtain ⟨r, w1, hloop, hret⟩ := Exec.bind_inv hexec
  obtain ⟨hr, -⟩ := exec_ret.mp hret
  cases hr
  obtain ⟨rounds, hstats, hall, hhead, hlast, hchain⟩ := exec_loop hc hloop
  exact ⟨rounds, hstats, hall, fun r hr => (hhead r hr).before, hlast, hchain⟩

/-- Each operation takes a millisecond. -/
def ticking (_ : Option Unit) (w : World 1) (o : Op) : Ans o × World 1 :=
  exec 0 { w with clock := w.clock + 1000000 } o

/-- Two rounds of a controller, and a packet in the first readout. -/
def two_rounds : Log 1 Unit × Pool calls (World 1) (Option Outcome) (Option Unit) :=
  play ticking (List.replicate 5 none ++ List.replicate 20 (some ()) ++ List.replicate 60 none)
    (World.loaded 1, programs (fun _ => header_from 7) 2 (.init ⟨true, true, []⟩))

/-- How many screens a session has shown. -/
def shown : Option (Option Outcome) → Option ℕ
  | some (some (.ok (_, screens))) => some screens.length
  | _ => none

theorem load_between_two_rounds :
    ∃ r r' : Round 1, r.Of two_rounds.1 ∧ r'.Of two_rounds.1 ∧ Follows r r' := by
  have hplay : Path (turn fun _ => among Eq (ticking none))
      (World.loaded 1, programs (fun _ => header_from 7) 2 (.init ⟨true, true, []⟩))
      two_rounds.1 two_rounds.2 := path_play (fun _ => rfl) _ _ _
  have hpath : Path (turn fun _ => kernel Others 0)
      (World.loaded 1, programs (fun _ => header_from 7) 2 (.init ⟨true, true, []⟩))
      two_rounds.1 two_rounds.2 := by
    refine hplay.mono ?_
    rintro s e t ⟨k, hk, ⟨w, rfl, hexec⟩, ht⟩
    exact ⟨k, hk, ⟨{ s.1 with clock := s.1.clock + 1000000 }, rfl, hexec⟩, ht⟩
  have hshown : shown (two_rounds.2.2 none).result = some 2 := by decide +kernel
  cases hres : (two_rounds.2.2 none).result with
  | none =>
    rw [hres] at hshown
    cases hshown
  | some out =>
    rw [hres] at hshown
    match out, hshown with
    | some (.ok (c1, screens)), hshown =>
      obtain ⟨rounds, hstats, hall, -, -, hchain⟩ :=
        load_between (fun _ => 0) _ 2 _ c1 screens _ _ _ hpath (result_eq_some.mp hres)
      have hlen : rounds.length = 2 := by
        have := congrArg List.length hstats
        rw [List.length_map, List.length_map] at this
        rw [this]
        exact Option.some.inj hshown
      obtain ⟨r, r', rfl⟩ := List.length_eq_two.mp hlen
      exact ⟨r, r', hall r (by simp), hall r' (by simp), List.isChain_pair.mp hchain⟩

end Lookout.Measured

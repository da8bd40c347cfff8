import Lookout.Detect
import Lookout.Policy

/-!
`controller.py`: the start of the controller and one step of its loop.
-/

namespace Lookout.Control

open Lookout.Effects Lookout.Effects.Prog Lookout.Dicts Lookout.Common Lookout.Kernel
open Lookout.Firewall Lookout.Detect Lookout.Policy

structure Args where
  dry_run : Bool
  no_auto_tune : Bool
  allow : List LpmKey

structure Controller where
  args : Args
  window : Window
  blocker : Blocker
  aggr : Aggressiveness
  cycles : ℕ
  prev : Option (Stats × ℚ)
  pps : ℚ
  drop_ratio : ℚ

/-- The fields `__init__` sets. -/
def Controller.init (args : Args) : Controller where
  args := args
  window := .init
  blocker := .init args.dry_run
  aggr := .init
  cycles := 0
  prev := none
  pps := 0
  drop_ratio := 0

def allow_all : List LpmKey → Py Unit
  | [] => return ()
  | k :: ks => do
    allow k
    allow_all ks

/-- `__init__`. -/
def start (args : Args) : Py Controller := do
  allow_all args.allow
  return .init args

/-- `time.monotonic()`. -/
def monotonic : Call ℚ := do
  let now ← ktime_ns
  return (now : ℚ) / 1000000000

/-- The load of the last interval; an interval in which the counters fell is skipped. -/
def Controller.measure (c : Controller) (stats : Stats) (now : ℚ) : Controller :=
  let c' := { c with prev := some (stats, now) }
  match c.prev with
  | none => c'
  | some (old, since) =>
    let delta (s : Stat) : ℤ := stats.count s - old.count s
    let load := (LIMITER_INPUT.map delta).sum
    if delta .rx_packets ≥ 0 ∧ load ≥ 0 ∧ now > since then
      { c' with
        pps := load / (now - since)
        drop_ratio := if load ≠ 0 then delta .drop_ratelimit / load else 0 }
    else c'

lemma measure_keeps (c : Controller) (stats : Stats) (now : ℚ) :
    (c.measure stats now).args = c.args ∧ (c.measure stats now).aggr = c.aggr ∧
      (c.measure stats now).blocker = c.blocker := by
  unfold Controller.measure
  split
  · exact ⟨rfl, rfl, rfl⟩
  · dsimp only
    split_ifs <;> exact ⟨rfl, rfl, rfl⟩

/-- `aggressiveness -> L2 (rate 1000 pps, burst 2000)`. -/
def tier_msg (dry_run : Bool) (a : Aggressiveness) : String :=
  (if dry_run then "would set" else "aggressiveness ->") ++ " L" ++ toString a.level.val ++
    " (rate " ++ toString a.limits.1 ++ " pps, burst " ++ toString a.limits.2 ++ ")"

/-- The settings of a tier. -/
def tier_changes (a : Aggressiveness) : Changes :=
  { rate_pps := some a.limits.1, burst_pkts := some a.limits.2,
    aggressiveness := some a.level.val }

/-- The tier follows the load. -/
def tune (c : Controller) : Py Controller :=
  if c.args.no_auto_tune then return c
  else
    match c.aggr.update c.pps c.drop_ratio with
    | .error e => Exc.raise e
    | .ok (false, aggr) => return { c with aggr }
    | .ok (true, aggr) => do
      if !c.args.dry_run then
        let _ ← update_config (tier_changes aggr)
      let blocker ← c.blocker.note (tier_msg c.args.dry_run aggr)
      return { c with aggr, blocker }

/-- Stale entries go every fifth cycle. -/
def clean_up (c : Controller) : Call Controller := do
  if c.cycles % 5 = 0 ∧ !c.args.dry_run then
    let _ ← remove_expired_blocks
    let _ ← remove_idle_states
  return { c with cycles := c.cycles + 1 }

/-- The rest of a step, once the sources are judged. -/
def act (c : Controller) (verdicts : Dict Addr (Option String)) (stats : Stats) (now : ℚ) :
    Py Controller := do
  let blocker ← Exc.rethrow Prod.fst (c.blocker.update verdicts)
  let c ← tune (({ c with blocker } : Controller).measure stats now)
  clean_up c

/-- One step: the new state, and what the screen shows. -/
def step (c : Controller) : Py (Controller × Dict Addr Row × Dict Addr (Option String) × Stats) := do
  let stats ← read_stats
  let now ← monotonic
  let states ← read_states
  let now_ns ← ktime_ns
  let (rows, window) := c.window.update states now_ns
  let verdicts := rows.filterMap fun _ r => some (classify r)
  let c ← act { c with window } verdicts stats now
  return (c, rows, verdicts, stats)

end Lookout.Control

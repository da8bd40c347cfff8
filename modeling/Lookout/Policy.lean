import Lookout.Firewall
import Mathlib.Algebra.Order.Ring.Rat

/-!
`policy.py`: the two adaptive mechanisms. `Aggressiveness` picks a tier of the rate limit from
the load; `Blocker` turns verdicts on sources into blocklist entries.
-/

namespace Lookout.Policy

open Lookout.Effects Lookout.Effects.Prog Lookout.Dicts Lookout.Common Lookout.Kernel
open Lookout.Firewall

/-! ### `Aggressiveness` -/

/-- The tiers, each a rate and a burst. -/
def TIERS : List (ℕ × ℕ) := [(20000, 40000), (5000, 10000), (1000, 2000), (200, 400)]

def ESCALATE_PPS : List ℚ := [0, 20000, 80000, 200000]

def ESCALATE_DROP_RATIO : ℚ := 1 / 2

def CALM_WINDOWS : ℕ := 5

instance four_levels : NeZero 4 := ⟨by decide⟩

structure Aggressiveness where
  level : Fin 4
  calm : ℕ
  deriving DecidableEq

namespace Aggressiveness

def init : Aggressiveness := ⟨0, 0⟩

/-- The highest level whose limit the load reaches; of no level at all `max` raises. -/
def load_level (pps : ℚ) : Except PyError (Fin 4) :=
  match ((List.finRange 4).filter fun lvl => decide (ESCALATE_PPS.get lvl ≤ pps)).max? with
  | some lvl => .ok lvl
  | none => .error (.ValueError "max() iterable argument is empty")

/-- The level a second of load calls for. -/
def target (pps drop_ratio : ℚ) : Except PyError (Fin 4) :=
  (load_level pps).map fun lvl => if drop_ratio ≥ ESCALATE_DROP_RATIO then max lvl 2 else lvl

/-- One level down. -/
def lower (lvl : Fin 4) : Fin 4 := ⟨lvl - 1, by omega⟩

/-- Up at once, down by one level after enough calm seconds: whether the tier changed, and the
new state. -/
def move (a : Aggressiveness) (target : Fin 4) : Bool × Aggressiveness :=
  if target > a.level then (true, ⟨target, 0⟩)
  else if target = a.level then (false, { a with calm := 0 })
  else if a.calm + 1 ≥ CALM_WINDOWS then (true, ⟨lower a.level, 0⟩)
  else (false, { a with calm := a.calm + 1 })

/-- One second of load. -/
def update (a : Aggressiveness) (pps drop_ratio : ℚ) : Except PyError (Bool × Aggressiveness) :=
  (target pps drop_ratio).map a.move

def limits (a : Aggressiveness) : ℕ × ℕ := TIERS.get a.level

end Aggressiveness

/-! ### `Blocker` -/

def STRIKES : ℕ := 2

def DURATIONS : List ℕ := [60, 300, 900]

def MAX_PER_WINDOW : ℕ := 32

/-- Seconds of a `DURATIONS` entry, as `block` takes them. -/
def seconds (duration : ℕ) : Option ℕ := some (duration * 1000000000)

structure Blocker where
  dry_run : Bool
  strikes : Dict Addr ℕ
  offences : Dict Addr ℕ
  until_ : Dict Addr ℚ
  blocks_issued : ℕ
  log : List (String × String)

/-- `inet_ntoa`. -/
def ntoa (a : Addr) : String :=
  toString (a.extractLsb' 24 8).toNat ++ "." ++ toString (a.extractLsb' 16 8).toNat ++ "." ++
    toString (a.extractLsb' 8 8).toNat ++ "." ++ toString (a.extractLsb' 0 8).toNat

namespace Blocker

def init (dry_run : Bool) : Blocker := ⟨dry_run, ∅, ∅, ∅, 0, []⟩

/-- A block we issued lasts at `time`. -/
def lasts (b : Blocker) (ip : Addr) (time : ℚ) : Bool := decide (b.until_.getD ip 0 > time)

def is_blocked (b : Blocker) (ip : Addr) : Call Bool := do
  let time ← op (S := calls) .time
  return b.lasts ip time

/-- The log keeps its last twelve messages. -/
def append_log (log : List (String × String)) (e : String × String) : List (String × String) :=
  (log ++ [e]).drop (log.length + 1 - 12)

def note (b : Blocker) (msg : String) : Call Blocker := do
  let time ← op (S := calls) .strftime
  return { b with log := append_log b.log (time, msg) }

/-- A clean window takes a strike away. -/
def decay (b : Blocker) (ip : Addr) : Blocker :=
  { b with strikes :=
      if b.strikes.getD ip 0 > 1 then b.strikes.insert ip (b.strikes.getD ip 0 - 1)
      else b.strikes.erase ip }

def strike (b : Blocker) (ip : Addr) : Blocker :=
  { b with strikes := b.strikes.insert ip (b.strikes.getD ip 0 + 1) }

/-- `self.strikes.pop(ip)`. -/
def forget (b : Blocker) (ip : Addr) : Blocker := { b with strikes := b.strikes.erase ip }

/-- The length of the next block of `ip`. -/
def duration (b : Blocker) (ip : Addr) : ℕ :=
  DURATIONS.getD (min (b.offences.getD ip 0) (DURATIONS.length - 1)) 0

/-- The tables after a block at `now`. -/
def issue (b : Blocker) (ip : Addr) (now : ℚ) : Blocker :=
  { b with
    offences := b.offences.insert ip (b.offences.getD ip 0 + 1)
    until_ := b.until_.insert ip (now + b.duration ip)
    strikes := b.strikes.erase ip
    blocks_issued := b.blocks_issued + 1 }

/-- `BLOCKED 10.0.0.1 for 60s (port scan)`. -/
def block_msg (b : Blocker) (ip : Addr) (reason : String) : String :=
  (if b.dry_run then "WOULD BLOCK" else "BLOCKED") ++ " " ++ ntoa ip ++ " for " ++
    toString (b.duration ip) ++ "s (" ++ reason ++ ")"

/-- `10.0.0.1 flagged (port scan) but allowlisted`. -/
def allow_msg (ip : Addr) (reason : String) : String :=
  ntoa ip ++ " flagged (" ++ reason ++ ") but allowlisted"

/-- A method of the blocker that may raise; an exception leaves the tables as they are then. -/
abbrev Method (α : Type) := Exc calls (PyError × Blocker) α

/-- The last part of the loop's body: the block itself. -/
def issue_block (b : Blocker) (now : ℚ) (issued : ℕ) (ip : Addr) (reason : String) :
    Method (Blocker × ℕ) := do
  if !b.dry_run then
    Exc.rethrow (·, b) (block (.single ip) (seconds (b.duration ip)) BLOCK_AUTO)
  let b' ← (b.issue ip now).note (b.block_msg ip reason)
  return (b', issued + 1)

/-- The loop's body for a flagged source, which has its new strike already. -/
def judge (b : Blocker) (now : ℚ) (issued : ℕ) (ip : Addr) (reason : String) :
    Method (Blocker × ℕ) := do
  if b.strikes.getD ip 0 < STRIKES then return (b, issued)
  else if ← b.is_blocked ip then return (b.forget ip, issued)
  else if ← is_allowed ip then do
    let b ← b.note (allow_msg ip reason)
    return (b.forget ip, issued)
  else if issued ≥ MAX_PER_WINDOW then return (b, issued)
  else issue_block b now issued ip reason

/-- The loop's body for one verdict. -/
def process (b : Blocker) (now : ℚ) (issued : ℕ) (ip : Addr) (reason : Option String) :
    Method (Blocker × ℕ) :=
  match reason with
  | none => return (b.decay ip, issued)
  | some reason => (b.strike ip).judge now issued ip reason

/-- The loop over the verdicts. -/
def process_all (b : Blocker) (now : ℚ) (issued : ℕ) :
    List ((_ : Addr) × Option String) → Method Blocker
  | [] => return b
  | v :: vs => do
    let r ← b.process now issued v.1 v.2
    process_all r.1 now r.2 vs

def update (b : Blocker) (verdicts : Dict Addr (Option String)) : Method Blocker := do
  let now ← op (S := calls) .time
  b.process_all now 0 verdicts.entries

/-! ### What the blocker does -/

/-- The operations of `update`. -/
def UpdateOp : Op → Prop
  | .time | .strftime | .allow_lookup _ | .ktime_get_ns | .block_update .. => True
  | _ => False

lemma uses_deadline (d : Option ℕ) : Uses UpdateOp (deadline d) := by
  cases d with
  | none => trivial
  | some ns => exact uses_bind (uses_ktime_ns trivial) fun _ => trivial

lemma uses_block (k : LpmKey) (d : Option ℕ) (reason : U32) :
    Uses UpdateOp (block k d reason) := by
  unfold block
  exact Exc.uses_bind (Exc.uses_lift (uses_deadline d)) fun _ =>
    Exc.uses_bind (uses_pack _ _ _) fun _ =>
      Exc.uses_bind (Exc.uses_lift (uses_op trivial)) fun _ => uses_updated _ _ _

lemma uses_note (b : Blocker) (msg : String) : Uses UpdateOp (b.note msg) :=
  uses_bind (uses_op trivial) fun _ => trivial

lemma uses_issue_block (b : Blocker) (now : ℚ) (issued : ℕ) (ip : Addr) (reason : String) :
    Uses UpdateOp (b.issue_block now issued ip reason) := by
  unfold issue_block
  split_ifs
  · exact Exc.uses_bind (Exc.uses_rethrow (uses_block _ _ _)) fun _ =>
      Exc.uses_bind (Exc.uses_lift (uses_note _ _)) fun _ => Exc.uses_pure _ _
  · exact Exc.uses_bind (Exc.uses_lift (uses_note _ _)) fun _ => Exc.uses_pure _ _

lemma uses_judge (b : Blocker) (now : ℚ) (issued : ℕ) (ip : Addr) (reason : String) :
    Uses UpdateOp (b.judge now issued ip reason) := by
  have hallowed : ∀ allowed : Bool, Uses UpdateOp (if allowed then do
        let b ← b.note (allow_msg ip reason)
        return (b.forget ip, issued)
      else if issued ≥ MAX_PER_WINDOW then return (b, issued)
      else b.issue_block now issued ip reason : Method (Blocker × ℕ)) := by
    intro allowed
    split_ifs
    · exact Exc.uses_bind (Exc.uses_lift (uses_note _ _)) fun _ => Exc.uses_pure _ _
    · trivial
    · exact uses_issue_block _ _ _ _ _
  unfold judge
  split
  · trivial
  · refine Exc.uses_bind (Exc.uses_lift (uses_bind (uses_op trivial) fun _ => trivial))
      fun blocked => ?_
    split
    · trivial
    · exact Exc.uses_bind (Exc.uses_lift (uses_bind (uses_op trivial) fun _ => trivial)) hallowed

lemma uses_process (b : Blocker) (now : ℚ) (issued : ℕ) (ip : Addr) (reason : Option String) :
    Uses UpdateOp (b.process now issued ip reason) := by
  cases reason with
  | none => trivial
  | some reason => exact uses_judge _ _ _ _ _

lemma uses_process_all (b : Blocker) (now : ℚ) (issued : ℕ)
    (vs : List ((_ : Addr) × Option String)) : Uses UpdateOp (b.process_all now issued vs) := by
  induction vs generalizing b issued with
  | nil => trivial
  | cons v vs ih => exact Exc.uses_bind (uses_process _ _ _ _ _) fun _ => ih _ _

lemma uses_update (b : Blocker) (vs : Dict Addr (Option String)) :
    Uses UpdateOp (b.update vs) :=
  Exc.uses_bind (Exc.uses_lift (uses_op trivial)) fun _ => uses_process_all _ _ _ _

end Blocker

end Lookout.Policy

import Lookout.Judged
import Lookout.Measured
import Lookout.Windows

/-!
A session's log, round by round, whatever else runs.

The log of a pool is cut where the session's polls are. What was counted for a source between two
polls is then a part of the log, and the verdict on it is read off that part.
-/

namespace Lookout.Rounds

open Lookout.Effects Lookout.Effects.Prog Lookout.Runs Lookout.Dicts Lookout.Handles
open Lookout.Common Lookout.Packet Lookout.Limiter Lookout.Kernel Lookout.Firewall Lookout.Detect
open Lookout.Policy Lookout.Control Lookout.Preview Lookout.Windows Lookout.Polls Lookout.Judged
open Lookout.Measured (Outcome Log)

variable {n : ℕ} {ι : Type}

/-- A session of the controller, and whatever else runs. -/
def programs (others : ι → Call (Option Outcome)) (k : ℕ) (c : Controller) :
    Option ι → Call (Option Outcome)
  | none => do
    let r ← (loop k c : Call Outcome)
    return some r
  | some i => others i

/-! ### A step, by its operations -/

/-- Only the blocker's log is another. -/
def Settled (c c' : Controller) : Prop :=
  c'.window = c.window ∧ ∃ log, c'.blocker = noted c.blocker log

lemma Settled.trans {c c' c'' : Controller} (h : Settled c c') (h' : Settled c' c'') :
    Settled c c'' := by
  obtain ⟨hw, log, hb⟩ := h
  obtain ⟨hw', log', hb'⟩ := h'
  refine ⟨hw'.trans hw, log', ?_⟩
  rw [hb', hb]
  rfl

/-- The operations before the poll. -/
def MeasureOp : Op → Prop
  | .ktime_get_ns | .stat_sum _ => True
  | _ => False

lemma uses_sum_percpu (l : List Stat) : Uses MeasureOp (sum_percpu l) := by
  induction l with
  | nil => trivial
  | cons s l ih => exact uses_bind (uses_op trivial) fun _ => uses_bind ih fun _ => trivial

/-- One round: the turns up to its poll, the poll, and those from there to the next round. -/
structure Round (n : ℕ) (ι : Type) where
  before : Controller
  early : Log n ι
  poll : Trans (Pool calls (World n) (Option Outcome) (Option ι)) (Option ι × Event calls)
  late : Log n ι
  /-- The clock the poll has read. -/
  clock : ℕ
  verdicts : Dict Addr (Option String)
  after : Controller

namespace Round

variable [DecidableEq ι]

omit [DecidableEq ι] in
def turns (r : Round n ι) : Log n ι := r.early ++ r.poll :: r.late

/-- What the session has done in the round is a step of the controller, and the poll is where it
has read `srcstate`. -/
structure Of (r : Round n ι) : Prop where
  step : ∃ rows stats,
    Trace (step r.before) (own none r.turns) (.ret (.ok (r.after, rows, r.verdicts, stats)))
  early : ∀ e ∈ own none r.early, e.1 ≠ .state_items
  poll : ∃ items, r.poll.ev = (none, ⟨.state_items, items⟩)
  late : ∃ ns l, own none r.late = ⟨.ktime_get_ns, ns⟩ :: l ∧ r.clock = ns.toNat

end Round

variable [DecidableEq ι]

/-- The rounds follow each other. -/
def Linked : Controller → List (Round n ι) → Controller → Prop
  | c, [], c' => c' = c
  | c, r :: rs, c' => r.before = c ∧ Linked r.after rs c'

/-- A log of a session, cut into its rounds. -/
structure Session (tr : Log n ι) (c c' : Controller) (screens : List Screen)
    (rounds : List (Round n ι)) : Prop where
  whole : ∃ rest, tr = rounds.flatMap Round.turns ++ rest ∧ own none rest = []
  of : ∀ r ∈ rounds, r.Of
  linked : Linked c rounds c'
  shown : rounds.map Round.verdicts = screens.map (·.2.1)

/-- The packet that a turn counts in the entry of `a`, and its verdict. -/
def counted_at (a : Addr)
    (x : Trans (Pool calls (World n) (Option Outcome) (Option ι)) (Option ι × Event calls)) :
    Option Counted :=
  match x.ev.2 with
  | ⟨.state_locked r p, b⟩ => if x.pre.1.srcstate.find a = some r then some (p, b.1) else none
  | _ => none

/-- The packets of `a` that its entry counts. -/
def counted (a : Addr) (tr : Log n ι) : List Counted := tr.filterMap (counted_at a)

/-- New entries are those of the XDP program, and nobody deletes the entry of `a`. -/
def Kept (a : Addr) (tr : Log n ι) : Prop :=
  ∀ x ∈ tr, OfProgram x.ev.2.1 ∧ x.ev.2.1 ≠ .state_delete a

section

variable {cpu : Option ι → Fin n} {a : Addr} {win : Window} {m : Tally}
variable {c c' : Pool calls (World n) (Option Outcome) (Option ι)} {tr : Log n ι}

end

/-- What the packets of `a` between the polls of two rounds come to. -/
def row (a : Addr) (r r' : Round n ι) : Option Row :=
  let seen := counted a (r.late ++ r'.early)
  let secs := seconds r.clock r'.clock
  if secs < 1 / 1000 ∨ seen = [] then none
  else some (.of (totals seen)
    ((r'.poll.pre.1.srcstate.get a).map SrcState.port_bitmap |>.getD 0) secs)

end Lookout.Rounds

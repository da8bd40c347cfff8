import Lookout.Confined
import Lookout.Rounds
import Lookout.Strikes

/-!
Who gets blocked.

A session that runs among anything else blocks a source that has behaved badly in two windows that
follow each other, and no source that has not behaved badly in two of its windows. How a source has
behaved is told from the packets that were counted between the polls.
-/

namespace Lookout.Caught

open Lookout.Effects Lookout.Effects.Prog Lookout.Runs Lookout.Dicts Lookout.Handles Lookout.Common
open Lookout.Packet Lookout.Kernel Lookout.Xdp Lookout.Firewall Lookout.Detect Lookout.Policy
open Lookout.Control Lookout.Preview Lookout.Windows Lookout.Strikes Lookout.Polls Lookout.Judged
open Lookout.Rounds
open Lookout.Measured (Outcome Log)

/-! ### One source -/

/-- A block of `a` is written, a minute or more from the clock that was read for it. -/
def Issued (a : Addr) (l : List (Event calls)) : Prop :=
  ∃ l1 l2 clock v,
    l = l1 ++ ⟨Op.ktime_get_ns, clock⟩ :: ⟨.block_update (.single a) v, false⟩ :: l2 ∧
    clock.toNat + 60 * 1000000000 ≤ v.expires_ns.toNat

lemma Issued.mono {a : Addr} {l l' : List (Event calls)} (h : Issued a l) (hl : l <:+: l') :
    Issued a l' := by
  obtain ⟨l1, l2, clock, v, rfl, hv⟩ := h
  obtain ⟨l3, l4, rfl⟩ := hl
  exact ⟨l3 ++ l1, l2 ++ l4, clock, v, by simp, hv⟩

/-- The blocker is live, and has not blocked `a`. -/
def Fresh (a : Addr) (b : Blocker) : Prop := b.dry_run = false ∧ b.until_.lookup a = none

section

variable {b b' : Blocker} {now : ℚ} {issued issued' : ℕ} {ip a : Addr} {reason : Option String}
variable {l : List (Event calls)}

end

/-! ### One call -/

/-- How many sources are flagged. -/
def flags (vs : List ((_ : Addr) × Option String)) : ℕ := vs.countP fun v => v.2.isSome

variable {n : ℕ} {ι : Type} [DecidableEq ι] {a : Addr}

/-- What the packets of `a` between the polls of the rounds come to is flagged. -/
def Suspicious (a : Addr) (r r' : Round n ι) : Prop :=
  ∃ x reason, row a r r' = some x ∧ classify x = some reason

omit [DecidableEq ι] in
/-- A flood of small packets is. -/
lemma suspicious_of_flood {r r' : Round n ι} (hsecs : ¬ seconds r.clock r'.clock < 1 / 1000)
    (hmany : FLOOD_PPS * seconds r.clock r'.clock < (counted a (r.late ++ r'.early)).length)
    (hsmall : ((totals (counted a (r.late ++ r'.early))).bytes : ℚ) <
      SMALL_PKT * (counted a (r.late ++ r'.early)).length) : Suspicious a r r' := by
  have hpos : 0 < seconds r.clock r'.clock := lt_of_lt_of_le (by norm_num) (not_lt.mp hsecs)
  have hlen : (0 : ℚ) < (counted a (r.late ++ r'.early)).length :=
    lt_trans (mul_pos (by norm_num [FLOOD_PPS]) hpos) hmany
  have hseen : counted a (r.late ++ r'.early) ≠ [] := by
    intro hnil
    rw [hnil] at hlen
    exact lt_irrefl _ hlen
  obtain ⟨ports, hrow⟩ : ∃ ports, row a r r' =
      some (.of (totals (counted a (r.late ++ r'.early))) ports (Polls.seconds r.clock r'.clock)) :=
    ⟨_, if_neg (not_or.mpr ⟨hsecs, hseen⟩)⟩
  refine ⟨_, "volumetric flood", hrow, if_pos ?_⟩
  unfold Row.of
  dsimp only
  rw [totals_packets, Int.cast_natCast]
  exact ⟨(lt_div_iff₀ hpos).mpr hmany, (div_lt_iff₀ hlen).mpr hsmall⟩

/-- The turns of the rounds. -/
def turns (rounds : List (Round n ι)) : Log n ι := rounds.flatMap Round.turns

/-- A block of `a` has been written to the blocklist, a minute or more from the clock that was read
for it. -/
def Blocked (a : Addr) (tr : Log n ι) : Prop :=
  ∃ l1 l2 clock v,
    own none tr = l1 ++ ⟨Op.ktime_get_ns, clock⟩ :: ⟨.block_update (.single a) v, false⟩ :: l2 ∧
    clock.toNat + 60 * 1000000000 ≤ v.expires_ns.toNat ∧
    ∃ x ∈ tr, x.ev = (none, ⟨.block_update (.single a) v, false⟩) ∧
      x.post.1.blocklist.lookup (.single a) = some v

section

variable {cpu : Option ι → Fin n} {tr : Log n ι} {c c' : Controller} {screens : List Screen}
variable {p p' : Pool calls (World n) (Option Outcome) (Option ι)} {rounds s l : List (Round n ι)}
variable {r r' : Round n ι}

end

/-- A ping of 10.0.0.7. -/
def ping : Frame where
  bytes := List.replicate 12 0 ++ [0x08, 0x00] ++
    [0x45, 0, 0, 28, 0, 0, 0, 0, 64, 1, 0, 0, 10, 0, 0, 7, 10, 0, 0, 1] ++ [8, 0, 0, 0, 0, 0, 0, 0]
  lt := by
    simp only [List.length_append, List.length_replicate, List.length_cons, List.length_nil]
    norm_num

def pings (_ : ℕ) : Call (Option Outcome) := do
  let _ ← xdp_firewall ping
  return none

/-- It has been seen before. -/
def known : World 1 :=
  { World.loaded 1 with
    srcstate := RefMap.empty.insert 0x0A000007 ⟨100, 0, 0, 9, 900, 0, 0, 0, 0, 0, 9, 0⟩ }

/-- Each operation takes 20 microseconds. -/
def ticking (_ : Option ℕ) (w : World 1) (o : Op) : Ans o × World 1 :=
  exec 0 { w with clock := w.clock + 20000 } o

/-- Three rounds of a controller, with three pings before the second poll and three before the
third. -/
def flooded : Log 1 ℕ × Pool calls (World 1) (Option Outcome) (Option ℕ) :=
  play ticking (List.replicate 24 none ++ [some 0, some 1, some 2].flatMap (List.replicate 14) ++
      List.replicate 20 none ++ [some 3, some 4, some 5].flatMap (List.replicate 14) ++
      List.replicate 40 none)
    (known, programs pings 3 (.init ⟨false, true, []⟩))

/-- Neither creates nor deletes an entry. -/
def keeps : Op → Bool
  | .state_insert .. | .state_delete _ => false
  | _ => true

/-- Writes a block of the source. -/
def blocks : Event calls → Bool
  | ⟨.block_update k _, _⟩ => decide (k = .single 0x0A000007)
  | _ => false

end Lookout.Caught

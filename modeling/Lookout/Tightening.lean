import Lookout.Limiter
import Lookout.Policy

/-!
A tighter tier is tighter for everybody.

Packet by packet this is false: the looser bucket may have spent a token that the tighter one
still has. It holds of the packets let through so far.
-/

namespace Lookout.Tightening

open Lookout.Common Lookout.TokenBucket Lookout.Limiter Lookout.Policy

/-- The packet, under the limits of a tier. -/
def with_tier (tier : ℕ × ℕ) (p : Pending) : Pending :=
  { p with rate := BitVec.ofNat 64 tier.1, burst := BitVec.ofNat 64 tier.2 }

/-- How many packets of a new source the limiter lets through under a tier. -/
def new_source_passed (tier : ℕ × ℕ) : List Pending → ℕ
  | [] => 0
  | p :: ps => passed (init (with_tier tier p)) ((p :: ps).map (with_tier tier))

/-- The clock readings of the packets that reach the token bucket. -/
def reaching (ps : List Pending) : List ℕ :=
  (ps.filter fun p => p.verdict == .pass && has p.feat FEAT_RATELIMIT).map fun p => p.now.toNat

/-! ### The tiers -/

lemma tier_toNat : ∀ i : Fin 4, (BitVec.ofNat 64 (TIERS.get i).1).toNat = (TIERS.get i).1 ∧
    (BitVec.ofNat 64 (TIERS.get i).2).toNat = (TIERS.get i).2 := by
  decide

lemma tier_pos : ∀ i : Fin 4, 0 < (TIERS.get i).1 ∧ (TIERS.get i).1 ≤ 20000 ∧
    (TIERS.get i).2 ≤ 40000 := by
  decide

lemma tier_two_le : ∀ i : Fin 4, 2 ≤ (TIERS.get i).1 := by decide

lemma tier_burst_pos : ∀ i : Fin 4, 0 < (TIERS.get i).2 := by decide

/-- Each rate divides a second. -/
lemma tier_mul : ∀ i : Fin 4, (TIERS.get i).1 * (1000000000 / (TIERS.get i).1) = 1000000000 := by
  decide

/-- The limits fall from tier to tier. -/
lemma tier_lt : ∀ i j : Fin 4, i < j →
    (TIERS.get j).1 < (TIERS.get i).1 ∧ (TIERS.get j).2 < (TIERS.get i).2 := by
  decide

lemma tier_tick_pos (i : Fin 4) : 0 < 1000000000 / (TIERS.get i).1 := by
  have h := tier_mul i
  exact Nat.pos_of_ne_zero fun h0 => by rw [h0] at h; omega

/-! ### A new source -/

/-- Which packets the bucket decides does not depend on the tier. -/
lemma limited_with_tier (i : Fin 4) (p : Pending) :
    limited (with_tier (TIERS.get i) p) = (p.verdict == .pass && has p.feat FEAT_RATELIMIT) := by
  have hrate : decide ((with_tier (TIERS.get i) p).rate > 0) = true := by
    have hpos := (tier_pos i).1
    rw [decide_eq_true_eq, gt_iff_lt, BitVec.lt_def]
    change 0 < (BitVec.ofNat 64 (TIERS.get i).1).toNat
    rwa [(tier_toNat i).1]
  unfold limited
  rw [hrate, Bool.and_true]
  rfl

lemma readings_with_tier (i : Fin 4) (ps : List Pending) :
    readings (ps.map (with_tier (TIERS.get i))) = reaching ps := by
  induction ps with
  | nil => rfl
  | cons p ps ih =>
    unfold readings reaching at ih ⊢
    rw [List.map_cons, List.filter_cons, List.filter_cons, limited_with_tier]
    split_ifs
    · rw [List.map_cons, List.map_cons, ih]
      rfl
    · exact ih

lemma settings_with_tier (i : Fin 4) (ps : List Pending) :
    Settings (BitVec.ofNat 64 (TIERS.get i).1) (BitVec.ofNat 64 (TIERS.get i).2)
      (ps.map (with_tier (TIERS.get i))) := by
  intro p hp _
  obtain ⟨q, -, rfl⟩ := List.mem_map.mp hp
  exact ⟨rfl, rfl⟩

/-- The limiter of a new source is a full bucket over the natural numbers. -/
lemma new_source_passed_eq (i : Fin 4) (p : Pending) (ps : List Pending) :
    new_source_passed (TIERS.get i) (p :: ps) =
      (run 1000000000 (TIERS.get i).1 (TIERS.get i).2 ⟨(TIERS.get i).2, p.now.toNat⟩
        (reaching (p :: ps))).2 := by
  obtain ⟨hrate, hburst⟩ := tier_toNat i
  obtain ⟨hpos, hr, hb⟩ := tier_pos i
  have hok : RateOk (BitVec.ofNat 64 (TIERS.get i).1) := by
    unfold RateOk
    omega
  have heq := passed_eq_run hok (by omega) _ (settings_with_tier i (p :: ps))
    (init (with_tier (TIERS.get i) p)) (by
      change (BitVec.ofNat 64 (TIERS.get i).2).toNat + _ < _
      omega)
  rw [readings_with_tier, hrate, hburst] at heq
  rw [new_source_passed, heq]
  unfold bucket init with_tier
  rw [hburst]

/-- **Tightening tightens**: after every prefix of a new source's packets, in order of their
clock readings, a tighter tier has let through no more of them. -/
theorem tighter_passes_less (i j : Fin 4) (hij : i < j) (ps : List Pending)
    (hps : ps.Pairwise fun p q => p.now ≤ q.now) (l : List Pending) (hl : l <+: ps) :
    new_source_passed (TIERS.get j) l ≤ new_source_passed (TIERS.get i) l := by
  have hsorted := hps.sublist hl.sublist
  cases l with
  | nil => exact le_rfl
  | cons p l =>
    rw [new_source_passed_eq, new_source_passed_eq]
    obtain ⟨hrate, hburst⟩ := tier_lt i j hij
    have hstart := ahead_start (tier_tick_pos j) (tier_tick_pos i) hburst.le p.now.toNat
    have horder : (p.now.toNat :: reaching (p :: l)).Pairwise (· ≤ ·) := by
      have hle : (p :: p :: l).Pairwise fun p q => p.now.toNat ≤ q.now.toNat := by
        rw [List.pairwise_cons]
        refine ⟨fun q hq => ?_, hsorted.imp fun h => BitVec.le_def.mp h⟩
        rcases List.mem_cons.mp hq with rfl | hq
        · exact le_rfl
        · exact BitVec.le_def.mp ((List.pairwise_cons.mp hsorted).1 q hq)
      have hsub : (p :: (p :: l).filter fun p =>
          p.verdict == .pass && has p.feat FEAT_RATELIMIT).Sublist (p :: p :: l) :=
        List.filter_sublist.cons_cons p
      exact List.pairwise_map.mpr (hle.sublist hsub)
    have hrun := run_le_run (tier_mul j) (tier_mul i) (tier_tick_pos j) (tier_tick_pos i)
      (tier_pos j).1 hrate hburst _ hstart horder
    simpa using hrun

/-- Two packets of a new source, a microsecond apart. -/
theorem tighter_passes_less_microsecond :
    let p (now : U64) : Pending :=
      ⟨now, 20000, 40000, FEAT_DEFAULT, 7, 17, 0, 53, 60, .pass, .pass_default⟩
    new_source_passed (1000, 2000) [p 0, p 1000] ≤ new_source_passed (20000, 40000) [p 0, p 1000] :=
  tighter_passes_less 0 2 (by decide) _ (by decide) _ List.prefix_rfl

end Lookout.Tightening

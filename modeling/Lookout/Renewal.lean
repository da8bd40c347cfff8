import Lookout.TokenBucket

/-!
A token bucket that is thrown away now and then.

The packet that finds no bucket gets a full one. That is a gift of up to a burst, and it does
no harm when the packet before came so long ago that the bucket would have filled up meanwhile.
-/

namespace Lookout.Renewal

open Lookout.TokenBucket

/-- A packet: its clock reading, whether it finds its bucket gone, and whether the bucket is asked
about it. -/
structure Arrival where
  now : ℕ
  renewed : Bool
  asked : Bool

variable (N rate burst : ℕ)

/-- The bucket the packet comes to. -/
def found (b : Bucket) (x : Arrival) : Bucket := if x.renewed then ⟨burst, x.now⟩ else b

/-- The bucket after the packet, and whether the bucket let it through. -/
def next (b : Bucket) (x : Arrival) : Bucket × Bool :=
  if x.asked then step N rate burst (found burst b x) x.now else (found burst b x, false)

/-- How many packets were let through with a reading in `[s, t]`. -/
def passed_between (s t : ℕ) (b : Bucket) : List Arrival → ℕ
  | [] => 0
  | x :: l => (decide (s ≤ x.now ∧ x.now ≤ t) && (next N rate burst b x).2).toNat +
      passed_between s t (next N rate burst b x).1 l

/-- The packets come in order, and one that finds its bucket gone comes after the time in which
a bucket fills up. -/
def Spaced : Option ℕ → List Arrival → Prop
  | _, [] => True
  | none, x :: l => x.renewed = true ∧ Spaced (some x.now) l
  | some last, x :: l => last ≤ x.now ∧
      (x.renewed = true → last + burst * (N / rate) ≤ x.now) ∧ Spaced (some x.now) l

variable {N rate burst}

/-- A full bucket is no better than the old one would be. -/
lemma paid_renewed {L passed now : ℕ} {b : Bucket} (h : Paid N rate burst L b passed)
    (hnow : b.last + burst * (N / rate) ≤ now) : Paid N rate burst L ⟨burst, now⟩ passed := by
  obtain ⟨hL, hp⟩ := h
  refine ⟨by dsimp only; omega, ?_⟩
  have hpassed : passed * (N / rate) ≤ (passed + min b.tokens burst) * (N / rate) :=
    Nat.mul_le_mul_right _ (by omega)
  calc (passed + min burst burst) * (N / rate)
      = passed * (N / rate) + burst * (N / rate) := by rw [min_self, Nat.add_mul]
    _ ≤ burst * (N / rate) + (b.last - L) + burst * (N / rate) := by omega
    _ ≤ burst * (N / rate) + (now - L) := by omega

lemma paid_mono {L passed passed' : ℕ} {b : Bucket} (h : Paid N rate burst L b passed)
    (hle : passed' ≤ passed) : Paid N rate burst L b passed' := by
  refine ⟨h.1, le_trans ?_ h.2⟩
  exact Nat.mul_le_mul_right _ (by omega)

/-- The first packet of an interval: the bucket holds at most a burst by then. -/
lemma paid_enter {c : ℕ} (hN : rate * c = N) (hc : 0 < c) (hr : 0 < rate) {b : Bucket}
    {s now : ℕ} (hlast : b.last ≤ now) (hs : s ≤ now) :
    Paid N rate burst (s - c) (step N rate burst b now).1 (step N rate burst b now).2.toNat := by
  obtain ⟨-, hleft⟩ := sub_moved_lt hN hc hr hlast
  refine ⟨?_, ?_⟩
  · change s - c ≤ moved N rate b.last now
    omega
  have hsum : (step N rate burst b now).2.toNat + min (step N rate burst b now).1.tokens burst ≤
      burst := by
    unfold step
    by_cases h0 : 0 < min (b.tokens + earned N rate b.last now) burst
    · simp only [h0, decide_true, Bool.toNat_true]; omega
    · simp only [h0, decide_false, Bool.toNat_false]; omega
  have hmul := Nat.mul_le_mul_right (N / rate) hsum
  omega

/-- Nothing was let through in the interval yet, or it is paid for since a token's time before
the interval. -/
def Settled (N rate burst L : ℕ) (b : Bucket) (passed : ℕ) : Prop :=
  passed = 0 ∨ Paid N rate burst L b passed

/-- Between two packets: the bucket is not ahead of the last one. -/
def Ready (N rate burst L : ℕ) (last : Option ℕ) (b : Bucket) (passed : ℕ) : Prop :=
  match last with
  | none => passed = 0
  | some t => b.last ≤ t ∧ Settled N rate burst L b passed

/-- The bucket the packet comes to. -/
lemma ready_found {L passed : ℕ} {last : Option ℕ} {b : Bucket} {x : Arrival} {l : List Arrival}
    (h : Ready N rate burst L last b passed) (hx : Spaced N rate burst last (x :: l)) :
    (found burst b x).last ≤ x.now ∧ Settled N rate burst L (found burst b x) passed ∧
      Spaced N rate burst (some x.now) l := by
  unfold found
  cases last with
  | none =>
    obtain ⟨hnew, hl⟩ := hx
    rw [if_pos hnew]
    exact ⟨le_rfl, Or.inl h, hl⟩
  | some t =>
    obtain ⟨ht, hgap, hl⟩ := hx
    obtain ⟨hlast, hset⟩ := h
    split_ifs with hnew
    · have hfill := hgap hnew
      refine ⟨le_rfl, hset.imp_right fun hp => paid_renewed hp ?_, hl⟩
      omega
    · exact ⟨hlast.trans ht, hset, hl⟩

/-- One packet of the interval. -/
lemma settled_next {c L passed : ℕ} (hN : rate * c = N) (hc : 0 < c) (hr : 0 < rate) {s t : ℕ}
    (hL : L = s - c) {b : Bucket} {x : Arrival} (hlast : (found burst b x).last ≤ x.now)
    (h : Settled N rate burst L (found burst b x) passed) :
    Settled N rate burst L (next N rate burst b x).1
      (passed + (decide (s ≤ x.now ∧ x.now ≤ t) && (next N rate burst b x).2).toNat) := by
  unfold next
  split_ifs with hasked
  · have hle : (decide (s ≤ x.now ∧ x.now ≤ t) &&
        (step N rate burst (found burst b x) x.now).2).toNat ≤
          (step N rate burst (found burst b x) x.now).2.toNat := by
      cases decide (s ≤ x.now ∧ x.now ≤ t) <;> simp
    rcases h with rfl | h
    · by_cases hs : s ≤ x.now
      · have hpaid : Paid N rate burst L (step N rate burst (found burst b x) x.now).1
            (step N rate burst (found burst b x) x.now).2.toNat := by
          rw [hL]
          exact paid_enter hN hc hr hlast hs
        exact Or.inr (paid_mono hpaid (by omega))
      · left
        simp [hs]
    · have hpos : 0 < N := hN ▸ Nat.mul_pos hr hc
      have hpaid := paid_step hpos h x.now
      exact Or.inr (paid_mono hpaid (by omega))
  · simpa using h

lemma next_last_le (N rate : ℕ) {b : Bucket} {x : Arrival} (hlast : (found burst b x).last ≤ x.now) :
    (next N rate burst b x).1.last ≤ x.now := by
  unfold next
  split_ifs
  · have hmoved := moved_le N rate (found burst b x).last x.now
    change moved N rate (found burst b x).last x.now ≤ x.now
    omega
  · exact hlast

/-- What is paid for by the end of the interval. -/
lemma passed_le_of_paid {c s T passed : ℕ} (hN : rate * c = N) (hc : 0 < c) (hr : 0 < rate)
    {b : Bucket} (h : Paid N rate burst (s - c) b passed) (hlast : b.last ≤ s + T) :
    passed ≤ burst + T / c + 1 := by
  have hq : N / rate = c := by rw [← hN, Nat.mul_div_cancel_left _ hr]
  obtain ⟨-, hp⟩ := h
  rw [hq] at hp
  have hmul : passed * c ≤ (passed + min b.tokens burst) * c :=
    Nat.mul_le_mul_right _ (by omega)
  have htime : passed * c ≤ T + (burst + 1) * c := by
    rw [Nat.add_mul, Nat.one_mul]
    omega
  calc passed ≤ (T + (burst + 1) * c) / c := (Nat.le_div_iff_mul_le hc).mpr htime
    _ = burst + T / c + 1 := by rw [Nat.add_mul_div_right _ _ hc]; omega

/-- **A bucket that is only renewed after it would have filled up keeps the limit**: in every
interval it lets through a burst, the tokens earned in the interval, and one more. -/
theorem passed_between_le {c : ℕ} (hN : rate * c = N) (hc : 0 < c) (hr : 0 < rate) (s T : ℕ)
    (l : List Arrival) {last : Option ℕ} {b : Bucket} {passed : ℕ}
    (h : Ready N rate burst (s - c) last b passed) (hl : Spaced N rate burst last l)
    (hle : passed ≤ burst + T / c + 1) :
    passed + passed_between N rate burst s (s + T) b l ≤ burst + T / c + 1 := by
  induction l generalizing last b passed with
  | nil => exact hle
  | cons x l ih =>
    obtain ⟨hlast, hset, hl'⟩ := ready_found h hl
    have hnext := settled_next (t := s + T) hN hc hr rfl hlast hset
    have hready : Ready N rate burst (s - c) (some x.now) (next N rate burst b x).1
        (passed + (decide (s ≤ x.now ∧ x.now ≤ s + T) && (next N rate burst b x).2).toNat) :=
      ⟨next_last_le N rate hlast, hnext⟩
    have hbound : passed + (decide (s ≤ x.now ∧ x.now ≤ s + T) &&
        (next N rate burst b x).2).toNat ≤ burst + T / c + 1 := by
      by_cases hin : s ≤ x.now ∧ x.now ≤ s + T
      · rcases hnext with hzero | hpaid
        · omega
        · exact passed_le_of_paid hN hc hr hpaid (hready.1.trans hin.2)
      · simpa [hin] using hle
    have hrest := ih hready hl' hbound
    simp only [passed_between]
    omega

end Lookout.Renewal

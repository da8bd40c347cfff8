import Lookout.TokenBucket

/-!
A token bucket and packets that come at a constant pace.

The pace is `x` packets in every `N` ticks, as evenly as whole ticks allow. Once the first packet
has come, the bucket lets through `rate` packets in `N` ticks, or all of them if there are fewer;
a bucket that was empty lets through no more.
-/

namespace Lookout.Pacing

open Lookout.TokenBucket

/-- `x` packets in every `N` ticks: two of them are `N / x` ticks apart, rounded down or up. -/
structure Paced (N x : ℕ) (a : ℕ → ℕ) : Prop where
  gap : ∀ j, a j + N / x ≤ a (j + 1) ∧ a (j + 1) ≤ a j + (N + x - 1) / x
  period : 0 < x → ∀ j, a (j + x) = a j + N

/-- The readings of `m` packets from the `j`th on. -/
def readings (a : ℕ → ℕ) (j m : ℕ) : List ℕ := (List.range' j m).map a

lemma readings_succ (a : ℕ → ℕ) (j m : ℕ) :
    readings a j (m + 1) = a j :: readings a (j + 1) m := rfl

/-- A bucket that a packet was at `t`: less than a token's time is left, and there is room for a
token. -/
structure Near (q burst : ℕ) (b : Bucket) (t : ℕ) : Prop where
  last : b.last ≤ t
  left : t - b.last < q
  room : b.tokens < burst

variable {N rate burst q x : ℕ} {a : ℕ → ℕ} {b : Bucket} {t now : ℕ}

/-! ### One packet -/

lemma near_step (hN : rate * q = N) (hq : 0 < q) (hr : 0 < rate) (hb : 0 < burst)
    (h : b.last ≤ now) : Near q burst (step N rate burst b now).1 now := by
  obtain ⟨hlast, hleft⟩ := sub_moved_lt hN hq hr h
  refine ⟨hlast, hleft, ?_⟩
  change min (b.tokens + earned N rate b.last now) burst - 1 < burst
  omega

/-- An empty bucket that was brought up to date just now drops the packet. -/
lemma step_empty (hN : 0 < N) (rate burst now : ℕ) :
    step N rate burst ⟨0, now⟩ now = (⟨0, now⟩, false) := by
  unfold step earned moved
  rw [Nat.sub_self, if_neg (by omega), if_neg (by omega)]
  simp

/-- A packet that comes a token's time after the last one gets through. -/
lemma slow_step (hN : rate * q = N) (hq : 0 < q) (hr : 0 < rate) (h : Near q burst b t)
    (hnow : t + q ≤ now) : (step N rate burst b now).2 = true := by
  have hlast := h.last
  have hroom := h.room
  have hearned : 0 < earned N rate b.last now := by
    by_cases hcap : N ≤ now - b.last
    · unfold earned
      rwa [if_pos hcap]
    · rw [(earned_of_lt hN hr (not_le.mp hcap)).1]
      exact Nat.div_pos (by omega) hq
  change decide (0 < min (b.tokens + earned N rate b.last now) burst) = true
  rw [decide_eq_true_eq]
  omega

/-- A packet that comes no later than a token's time finds at most one token more. -/
lemma fast_step (hN : rate * q = N) (hr : 2 ≤ rate) (h : Near q burst b t) (hnow : now ≤ t + q) :
    (step N rate burst b now).1.tokens ≤ b.tokens ∧
      ((step N rate burst b now).2.toNat + (step N rate burst b now).1.tokens) * q + b.last =
        b.tokens * q + (step N rate burst b now).1.last := by
  have hlast := h.last
  have hleft := h.left
  have hroom := h.room
  have htwice : 2 * q ≤ N := hN ▸ Nat.mul_le_mul_right q hr
  have hlt : now - b.last < N := by omega
  have hpos : 0 < rate := by omega
  obtain ⟨hearned, hmoved⟩ := earned_of_lt hN hpos hlt
  have hone : (now - b.last) / q ≤ 1 := by
    have hlt : (now - b.last) / q < 2 := Nat.div_lt_of_lt_mul (by omega)
    omega
  unfold step
  rw [hearned, hmoved]
  generalize (now - b.last) / q = e at hone ⊢
  have hmin : min (b.tokens + e) burst = b.tokens + e := min_eq_left (by omega)
  rw [hmin]
  dsimp only
  rw [taken_add_left]
  refine ⟨by omega, ?_⟩
  ring

/-! ### Packets in a row -/

lemma slow_run (hN : rate * q = N) (hq : 0 < q) (hr : 0 < rate) (hb : 0 < burst)
    (ha : ∀ j, a j + q ≤ a (j + 1)) (m j : ℕ) (h : Near q burst b (a j)) :
    Near q burst (run N rate burst b (readings a (j + 1) m)).1 (a (j + m)) ∧
      (run N rate burst b (readings a (j + 1) m)).2 = m := by
  induction m generalizing j b with
  | zero => exact ⟨h, rfl⟩
  | succ m ih =>
    have hgap := ha j
    have hpass := slow_step hN hq hr h hgap
    have hlast : b.last ≤ a (j + 1) := by
      have := h.last
      omega
    obtain ⟨hnear, hall⟩ := ih (j + 1) (near_step hN hq hr hb hlast)
    rw [readings_succ, run, hpass, hall]
    have hindex : j + 1 + m = j + (m + 1) := by omega
    rw [hindex] at hnear
    exact ⟨hnear, Nat.add_comm _ _⟩

lemma fast_run (hN : rate * q = N) (hq : 0 < q) (hr : 2 ≤ rate) (hb : 0 < burst)
    (ha : ∀ j, a j ≤ a (j + 1) ∧ a (j + 1) ≤ a j + q) (m j : ℕ) (h : Near q burst b (a j)) :
    Near q burst (run N rate burst b (readings a (j + 1) m)).1 (a (j + m)) ∧
      (run N rate burst b (readings a (j + 1) m)).1.tokens ≤ b.tokens ∧
      ((run N rate burst b (readings a (j + 1) m)).2 +
          (run N rate burst b (readings a (j + 1) m)).1.tokens) * q + b.last =
        b.tokens * q + (run N rate burst b (readings a (j + 1) m)).1.last := by
  induction m generalizing j b with
  | zero =>
    refine ⟨h, le_rfl, ?_⟩
    change (0 + b.tokens) * q + b.last = _
    rw [Nat.zero_add]
    rfl
  | succ m ih =>
    obtain ⟨hle, hgap⟩ := ha j
    obtain ⟨htok, hpaid⟩ := fast_step hN hr h hgap
    have hlast : b.last ≤ a (j + 1) := h.last.trans hle
    obtain ⟨hnear, htok', hpaid'⟩ := ih (j + 1) (near_step hN hq (by omega) hb hlast)
    rw [readings_succ, run]
    have hindex : j + 1 + m = j + (m + 1) := by omega
    rw [hindex] at hnear
    refine ⟨hnear, htok'.trans htok, ?_⟩
    simp only [Nat.add_mul] at hpaid hpaid' ⊢
    omega

/-! ### Whole periods -/

namespace Paced

/-- Not faster than the rate: the packets are a token's time apart. -/
lemma slow (hp : Paced N x a) (hN : rate * q = N) (hx : 0 < x) (hxr : x ≤ rate)
    (j : ℕ) : a j + q ≤ a (j + 1) := by
  have hgap := (hp.gap j).1
  have hle : q ≤ N / x := by
    rw [Nat.le_div_iff_mul_le hx, ← hN, Nat.mul_comm]
    exact Nat.mul_le_mul_right q hxr
  omega

/-- Faster than the rate: they are no more than a token's time apart. -/
lemma fast (hp : Paced N x a) (hN : rate * q = N) (hxr : rate < x) (j : ℕ) :
    a j ≤ a (j + 1) ∧ a (j + 1) ≤ a j + q := by
  obtain ⟨h1, h2⟩ := hp.gap j
  have hle : (N + x - 1) / x ≤ q := by
    have hmul : N ≤ q * x := by
      rw [← hN, Nat.mul_comm q]
      exact Nat.mul_le_mul_right q hxr.le
    have hlt : (N + x - 1) / x < q + 1 := by
      refine Nat.div_lt_of_lt_mul ?_
      rw [Nat.mul_comm, Nat.add_mul, Nat.one_mul]
      omega
    omega
  exact ⟨(Nat.le_add_right _ _).trans h1, h2.trans (Nat.add_le_add_left hle _)⟩

end Paced

/-- What a faster source gets through in a period. -/
lemma fast_period {j passed : ℕ} (hN : rate * q = N) {b' : Bucket} (h : Near q burst b (a j))
    (h' : Near q burst b' (a (j + x))) (hperiod : a (j + x) = a j + N)
    (htok : b'.tokens ≤ b.tokens)
    (hpaid : (passed + b'.tokens) * q + b.last = b.tokens * q + b'.last) :
    rate ≤ passed ∧ (b.tokens = 0 → b'.tokens = 0 ∧ passed ≤ rate) := by
  have hlast := h.last
  have hleft := h.left
  have hlast' := h'.last
  have hleft' := h'.left
  have hmul : b'.tokens * q ≤ b.tokens * q := Nat.mul_le_mul_right q htok
  rw [Nat.add_mul] at hpaid
  constructor
  · have hlt : rate * q < (passed + 1) * q := by
      rw [Nat.add_mul, Nat.one_mul]
      omega
    have := Nat.lt_of_mul_lt_mul_right hlt
    omega
  · intro hzero
    have hzero' : b'.tokens = 0 := by omega
    rw [hzero, hzero', Nat.zero_mul] at hpaid
    have hlt : passed * q < (rate + 1) * q := by
      rw [Nat.add_mul, Nat.one_mul]
      omega
    have := Nat.lt_of_mul_lt_mul_right hlt
    exact ⟨hzero', by omega⟩

/-- **A period after the first packet**: `rate` packets get through, or all if there are fewer, and
no more if the bucket of a faster source was empty. -/
theorem period_passed (hp : Paced N x a) (hN : rate * q = N) (hq : 0 < q) (hr : 2 ≤ rate)
    (hb : 0 < burst) (hx : 0 < x) (j : ℕ) (h : Near q burst b (a j)) :
    Near q burst (run N rate burst b (readings a (j + 1) x)).1 (a (j + x)) ∧
      min x rate ≤ (run N rate burst b (readings a (j + 1) x)).2 ∧
      ((rate < x → b.tokens = 0) →
        (rate < x → (run N rate burst b (readings a (j + 1) x)).1.tokens = 0) ∧
          (run N rate burst b (readings a (j + 1) x)).2 ≤ min x rate) := by
  rcases Nat.lt_or_ge rate x with hxr | hxr
  · obtain ⟨hnear, htok, hpaid⟩ := fast_run hN hq hr hb (hp.fast hN hxr) x j h
    obtain ⟨hge, hle⟩ := fast_period hN h hnear (hp.period hx j) htok hpaid
    rw [min_eq_right hxr.le]
    refine ⟨hnear, hge, fun hzero => ?_⟩
    obtain ⟨hzero', hle'⟩ := hle (hzero hxr)
    exact ⟨fun _ => hzero', hle'⟩
  · obtain ⟨hnear, hall⟩ :=
      slow_run hN hq (by omega) hb (hp.slow hN hx hxr) x j h
    rw [hall, min_eq_left hxr]
    exact ⟨hnear, le_rfl, fun _ => ⟨fun hlt => absurd hxr (not_le.mpr hlt), le_rfl⟩⟩

/-- The first period ends less than a gap before the next one begins. -/
lemma Paced.last_of_period (hp : Paced N x a) (hN : rate * q = N) (hxr : rate < x)
    (hxN : x ≤ N) : a (x - 1) < a 0 + N ∧ a 0 + N ≤ a (x - 1) + q := by
  have hx : 0 < x := by omega
  have hsucc : x - 1 + 1 = 0 + x := by omega
  have hstep := (hp.fast hN hxr (x - 1)).2
  have hgap := (hp.gap (x - 1)).1
  have hpos : 0 < N / x := Nat.div_pos hxN hx
  rw [hsucc, hp.period hx 0] at hstep hgap
  exact ⟨by omega, hstep⟩

/-- **The rest of the first period**: one packet fewer. -/
theorem first_passed (hp : Paced N x a) (hN : rate * q = N) (hq : 0 < q) (hr : 2 ≤ rate)
    (hb : 0 < burst) (hx : 0 < x) (hxN : x ≤ N) (h : Near q burst b (a 0)) :
    Near q burst (run N rate burst b (readings a 1 (x - 1))).1 (a (x - 1)) ∧
      min x rate ≤ (run N rate burst b (readings a 1 (x - 1))).2 + 1 ∧
      (b = ⟨0, a 0⟩ → (rate < x → (run N rate burst b (readings a 1 (x - 1))).1.tokens = 0) ∧
        (run N rate burst b (readings a 1 (x - 1))).2 + 1 ≤ min x rate) := by
  have hindex : 0 + (x - 1) = x - 1 := Nat.zero_add _
  rcases Nat.lt_or_ge rate x with hxr | hxr
  · obtain ⟨hnear, htok, hpaid⟩ := fast_run hN hq hr hb (hp.fast hN hxr) (x - 1) 0 h
    rw [hindex] at hnear
    rw [Nat.zero_add] at hnear htok hpaid
    obtain ⟨hbefore, hend⟩ := hp.last_of_period hN hxr hxN
    have hlast := h.last
    have hlast' := hnear.last
    have hleft' := hnear.left
    have hmul := Nat.mul_le_mul_right q htok
    rw [Nat.add_mul] at hpaid
    rw [min_eq_right hxr.le]
    refine ⟨hnear, ?_, ?_⟩
    · have hlt : rate * q < ((run N rate burst b (readings a 1 (x - 1))).2 + 2) * q := by
        rw [Nat.add_mul]
        omega
      have := Nat.lt_of_mul_lt_mul_right hlt
      omega
    · rintro rfl
      have hzero : (run N rate burst ⟨0, a 0⟩ (readings a 1 (x - 1))).1.tokens = 0 :=
        Nat.le_zero.mp htok
      rw [hzero, Nat.zero_mul] at hpaid
      have hlt : (run N rate burst ⟨0, a 0⟩ (readings a 1 (x - 1))).2 * q < rate * q := by
        dsimp only at hpaid
        omega
      exact ⟨fun _ => hzero, Nat.lt_of_mul_lt_mul_right hlt⟩
  · obtain ⟨hnear, hall⟩ := slow_run hN hq (by omega) hb (hp.slow hN hx hxr) (x - 1) 0 h
    rw [hindex] at hnear
    rw [Nat.zero_add] at hnear hall
    rw [hall, min_eq_left hxr]
    exact ⟨hnear, by omega, fun _ => ⟨fun hlt => absurd hxr (not_le.mpr hlt), by omega⟩⟩

end Lookout.Pacing

import Mathlib.Algebra.Order.Group.Nat
import Mathlib.Tactic.Common
import Mathlib.Tactic.Ring

/-!
A token bucket with integer arithmetic and lazy refill.

The bucket earns `rate` tokens every `N` ticks. It is brought up to date only when it is
asked, in whole tokens: the tokens earned since `last` are rounded down, and `last` moves by
the time those whole tokens took, rounded down again. After `N` ticks or more it gets one
period's worth and starts afresh.
-/

namespace Lookout.TokenBucket

structure Bucket where
  tokens : ℕ
  last : ℕ
  deriving DecidableEq

variable (N rate burst : ℕ)

/-- The tokens earned since `last`. -/
def earned (last now : ℕ) : ℕ := if N ≤ now - last then rate else (now - last) * rate / N

/-- Where `last` moves to. -/
def moved (last now : ℕ) : ℕ :=
  if N ≤ now - last then now else last + (now - last) * rate / N * N / rate

/-- One packet: the bucket after it, and whether it was let through. -/
def step (b : Bucket) (now : ℕ) : Bucket × Bool :=
  let tokens := min (b.tokens + earned N rate b.last now) burst
  (⟨tokens - 1, moved N rate b.last now⟩, decide (0 < tokens))

/-- A sequence of packets: the bucket after them, and how many were let through. -/
def run (b : Bucket) : List ℕ → Bucket × ℕ
  | [] => (b, 0)
  | now :: l =>
    let r := run (step N rate burst b now).1 l
    (r.1, (step N rate burst b now).2.toNat + r.2)

/-! ### One refill -/

variable {N rate burst}

lemma last_le_moved (hN : 0 < N) (rate last now : ℕ) : last ≤ moved N rate last now := by
  unfold moved
  split_ifs with h
  · omega
  · exact Nat.le_add_right _ _

/-- Whole tokens are paid for with time that has passed. -/
lemma earned_time_le (N rate last now : ℕ) :
    (now - last) * rate / N * N / rate ≤ now - last := by
  have h : (now - last) * rate / N * N ≤ rate * (now - last) := by
    calc (now - last) * rate / N * N ≤ (now - last) * rate := Nat.div_mul_le_self _ _
      _ = rate * (now - last) := Nat.mul_comm _ _
  exact Nat.div_le_of_le_mul h

lemma moved_le (N rate last now : ℕ) : moved N rate last now ≤ max last now := by
  have h := earned_time_le N rate last now
  unfold moved
  split_ifs <;> omega

/-- **A token costs at least `N / rate` ticks**, through both roundings and the cap. -/
lemma earned_mul_le (N rate last now : ℕ) :
    earned N rate last now * (N / rate) ≤ moved N rate last now - last := by
  unfold earned moved
  split_ifs with h
  · have := Nat.mul_div_le N rate
    omega
  · have := Nat.mul_div_le_mul_div_assoc ((now - last) * rate / N) N rate
    omega

lemma earned_le (N rate last now : ℕ) : earned N rate last now ≤ rate := by
  unfold earned
  split_ifs with h
  · exact le_rfl
  · refine Nat.div_le_of_le_mul ?_
    exact Nat.mul_le_mul_right rate (by omega)

/-- A packet that is let through takes its token with it. -/
lemma taken_add_left (T : ℕ) : (decide (0 < T)).toNat + (T - 1) = T := by
  by_cases h0 : 0 < T
  · simp only [h0, decide_true, Bool.toNat_true]; omega
  · simp only [h0, decide_false, Bool.toNat_false]; omega

/-! ### The bound on what gets through -/

/-- What was let through since the bucket stood at `last = L` is paid for by one full bucket
and by the time `last` has moved. -/
def Paid (N rate burst L : ℕ) (b : Bucket) (passed : ℕ) : Prop :=
  L ≤ b.last ∧ (passed + min b.tokens burst) * (N / rate) ≤ burst * (N / rate) + (b.last - L)

lemma paid_start (N rate burst : ℕ) (b : Bucket) : Paid N rate burst b.last b 0 := by
  refine ⟨le_rfl, ?_⟩
  have h : (0 + min b.tokens burst) * (N / rate) ≤ burst * (N / rate) :=
    Nat.mul_le_mul_right _ (by omega)
  omega

lemma paid_step (hN : 0 < N) {L passed : ℕ} {b : Bucket} (h : Paid N rate burst L b passed)
    (now : ℕ) :
    Paid N rate burst L (step N rate burst b now).1
      (passed + (step N rate burst b now).2.toNat) := by
  obtain ⟨hL, hp⟩ := h
  have hmoved := last_le_moved hN rate b.last now
  have hcost := earned_mul_le N rate b.last now
  refine ⟨le_trans hL hmoved, ?_⟩
  -- a packet that is let through takes its token with it
  have hsum : passed + (step N rate burst b now).2.toNat +
      min (step N rate burst b now).1.tokens burst ≤
        passed + min b.tokens burst + earned N rate b.last now := by
    unfold step
    by_cases h0 : 0 < min (b.tokens + earned N rate b.last now) burst
    · simp only [h0, decide_true, Bool.toNat_true]; omega
    · simp only [h0, decide_false, Bool.toNat_false]; omega
  calc (passed + (step N rate burst b now).2.toNat +
        min (step N rate burst b now).1.tokens burst) * (N / rate)
      ≤ (passed + min b.tokens burst + earned N rate b.last now) * (N / rate) :=
        Nat.mul_le_mul_right _ hsum
    _ = (passed + min b.tokens burst) * (N / rate) +
        earned N rate b.last now * (N / rate) := Nat.add_mul _ _ _
    _ ≤ burst * (N / rate) + (b.last - L) + (moved N rate b.last now - b.last) :=
        Nat.add_le_add hp hcost
    _ = burst * (N / rate) + (moved N rate b.last now - L) := by omega

lemma paid_run (hN : 0 < N) (l : List ℕ) {L passed : ℕ} {b : Bucket}
    (h : Paid N rate burst L b passed) :
    Paid N rate burst L (run N rate burst b l).1 (passed + (run N rate burst b l).2) := by
  induction l generalizing b passed with
  | nil => exact h
  | cons now l ih =>
    have := ih (paid_step hN h now)
    rwa [Nat.add_assoc] at this

lemma last_run_le (N rate burst : ℕ) (l : List ℕ) {t : ℕ} (ht : ∀ now ∈ l, now ≤ t)
    (b : Bucket) :
    (run N rate burst b l).1.last ≤ max b.last t := by
  induction l generalizing b with
  | nil => exact le_max_left _ _
  | cons now l ih =>
    have h1 := ih (fun x hx => ht x (List.mem_cons_of_mem _ hx)) (step N rate burst b now).1
    have h2 : (step N rate burst b now).1.last ≤ max b.last now := moved_le N rate b.last now
    have h3 := ht now List.mem_cons_self
    simp only [run]
    omega

/-- **The rate bound.** However the packets come, and however the clock readings jump, what
gets through is at most one burst and one token for every `N / rate` ticks up to the latest
reading. -/
theorem passed_le (hN : 0 < N) (hq : rate ≤ N) (hr : 0 < rate) (l : List ℕ) {t : ℕ}
    (ht : ∀ now ∈ l, now ≤ t) (b : Bucket) :
    (run N rate burst b l).2 ≤ burst + (t - b.last) / (N / rate) := by
  have hpos : 0 < N / rate := Nat.div_pos hq hr
  obtain ⟨-, hp⟩ := paid_run hN l (paid_start N rate burst b)
  have hlast := last_run_le N rate burst l ht b
  have hmul : (run N rate burst b l).2 * (N / rate) ≤ burst * (N / rate) + (t - b.last) := by
    have : (run N rate burst b l).2 * (N / rate) ≤
        (0 + (run N rate burst b l).2 + min (run N rate burst b l).1.tokens burst) *
          (N / rate) := Nat.mul_le_mul_right _ (by omega)
    omega
  calc (run N rate burst b l).2 ≤ (burst * (N / rate) + (t - b.last)) / (N / rate) :=
        (Nat.le_div_iff_mul_le hpos).mpr hmul
    _ = burst + (t - b.last) / (N / rate) := by
        rw [Nat.add_comm, Nat.add_mul_div_right _ _ hpos, Nat.add_comm]

/-- Where `rate` divides `N` the bound is the ideal one. -/
lemma ideal_of_dvd (hr : 0 < rate) (hd : rate ∣ N) (t : ℕ) (hN : 0 < N) :
    t / (N / rate) = rate * t / N := by
  obtain ⟨q, rfl⟩ := hd
  have hq : 0 < q := Nat.pos_of_mul_pos_left hN
  rw [Nat.mul_div_cancel_left q hr, Nat.mul_div_mul_left _ _ hr]

/-! ### Rates that divide the period -/

/-- One token every `c` ticks: a refill before the period is over. -/
lemma earned_of_lt {c : ℕ} (hN : rate * c = N) (hr : 0 < rate) {last now : ℕ}
    (h : now - last < N) :
    earned N rate last now = (now - last) / c ∧
      moved N rate last now = last + (now - last) / c * c := by
  have hdiv : (now - last) * rate / N = (now - last) / c := by
    rw [← hN, Nat.mul_comm rate c, Nat.mul_div_mul_right _ _ hr]
  have hback : (now - last) / c * N / rate = (now - last) / c * c := by
    rw [← hN, Nat.mul_left_comm, Nat.mul_div_cancel_left _ hr]
  unfold earned moved
  rw [if_neg (by omega), if_neg (by omega), hdiv, hback]
  exact ⟨rfl, rfl⟩

/-- What a refill takes from the time since `last`, and what it leaves, is that time, up to one
period. -/
lemma earned_add_left {c : ℕ} (hN : rate * c = N) (hr : 0 < rate) {last now : ℕ}
    (h : last ≤ now) :
    earned N rate last now * c + (now - moved N rate last now) = min (now - last) N := by
  by_cases hcap : N ≤ now - last
  · unfold earned moved
    rw [if_pos hcap, if_pos hcap, hN, min_eq_right hcap, Nat.sub_self, Nat.add_zero]
  · obtain ⟨he, hm⟩ := earned_of_lt hN hr (not_le.mp hcap)
    have hmod := Nat.div_mul_le_self (now - last) c
    rw [he, hm, min_eq_left (by omega)]
    omega

/-- Less than a token's time is left. -/
lemma sub_moved_lt {c : ℕ} (hN : rate * c = N) (hc : 0 < c) (hr : 0 < rate) {last now : ℕ}
    (h : last ≤ now) : moved N rate last now ≤ now ∧ now - moved N rate last now < c := by
  by_cases hcap : N ≤ now - last
  · unfold moved
    rw [if_pos hcap]
    omega
  · obtain ⟨-, hm⟩ := earned_of_lt hN hr (not_le.mp hcap)
    have hmod := Nat.div_add_mod (now - last) c
    have hlt := Nat.mod_lt (now - last) hc
    rw [hm, Nat.mul_comm]
    omega

/-! ### Two buckets for the same packets -/

/-- The bucket `f`, one token every `q` ticks, has let through no fewer packets than `s`, one
token every `p` ticks, and what it has left makes up for the difference: tokens and time,
measured in `1 / (p * q)` of a token. -/
structure Ahead (p q bs : ℕ) (s f : Bucket) (ps pf t : ℕ) : Prop where
  passed : ps ≤ pf
  cut : s.tokens ≤ bs
  slow : s.last ≤ t ∧ t - s.last < p
  fast : f.last ≤ t ∧ t - f.last < q
  credit : (ps + s.tokens) * (p * q) + (t - s.last) * q ≤
    (pf + f.tokens) * (p * q) + (t - f.last) * p

/-- Full buckets, and nothing let through. -/
lemma ahead_start {p q bs bf : ℕ} (hp : 0 < p) (hq : 0 < q) (hb : bs ≤ bf) (t : ℕ) :
    Ahead p q bs ⟨bs, t⟩ ⟨bf, t⟩ 0 0 t := by
  refine ⟨le_rfl, le_rfl, ⟨le_rfl, ?_⟩, ⟨le_rfl, ?_⟩, ?_⟩
  · rwa [Nat.sub_self]
  · rwa [Nat.sub_self]
  simpa using Nat.mul_le_mul_right (p * q) hb

variable {rs rf bs bf p q : ℕ}

/-- The refills keep the credit. -/
lemma credit_refill (hs : rs * p = N) (hf : rf * q = N) (hrs : 0 < rs) (hr : rs < rf)
    {s f : Bucket} {ps pf t : ℕ} (h : Ahead p q bs s f ps pf t) {now : ℕ} (hnow : t ≤ now) :
    (ps + s.tokens + earned N rs s.last now) * (p * q) + (now - moved N rs s.last now) * q ≤
      (pf + f.tokens + earned N rf f.last now) * (p * q) + (now - moved N rf f.last now) * p := by
  have hls := h.slow
  have hlf := h.fast
  have hcredit := h.credit
  have hqp : q ≤ p := by
    by_contra hlt
    have h1 : rs * p < rf * q := Nat.mul_lt_mul'' hr (by omega)
    omega
  have es := earned_add_left hs hrs (hls.1.trans hnow)
  have ef := earned_add_left hf (by omega) (hlf.1.trans hnow)
  have hslow : (ps + s.tokens + earned N rs s.last now) * (p * q) +
      (now - moved N rs s.last now) * q =
        (ps + s.tokens) * (p * q) + min (now - s.last) N * q := by
    rw [← es]; ring
  have hfast : (pf + f.tokens + earned N rf f.last now) * (p * q) +
      (now - moved N rf f.last now) * p =
        (pf + f.tokens) * (p * q) + min (now - f.last) N * p := by
    rw [← ef]; ring
  rw [hslow, hfast]
  rcases Nat.le_total (now - f.last) N with hcap | hcap
  · -- both clocks go on, the fast one in shorter ticks
    have h1 : min (now - s.last) N * q ≤ (t - s.last) * q + (now - t) * q := by
      rw [← Nat.add_mul]
      exact Nat.mul_le_mul_right q (by omega)
    have h2 : (now - f.last) * p = (t - f.last) * p + (now - t) * p := by
      rw [← Nat.add_mul]
      congr 1
      omega
    have h3 : (now - t) * q ≤ (now - t) * p := Nat.mul_le_mul_left _ hqp
    rw [min_eq_left hcap, h2]
    omega
  · -- the fast bucket gets a period's worth, one token more than the slow one can get
    have h1 : min (now - s.last) N * q ≤ rs * (p * q) := by
      rw [← Nat.mul_assoc, hs]
      exact Nat.mul_le_mul_right q (min_le_right _ _)
    have h2 : N * p = rf * (p * q) := by
      rw [← hf]; ring
    have h3 : (rs + 1) * (p * q) ≤ rf * (p * q) := Nat.mul_le_mul_right _ hr
    have h4 : (t - f.last) * p ≤ p * q := by
      rw [Nat.mul_comm p q]
      exact Nat.mul_le_mul_right p hlf.2.le
    rw [Nat.add_mul, Nat.one_mul] at h3
    rw [min_eq_right hcap, h2]
    omega

/-- The cut to the burst keeps it too. -/
lemma credit_cut (hs : rs * p = N) (hf : rf * q = N) (hp : 0 < p) (hrs : 0 < rs) (hr : rs < rf)
    (hb : bs < bf) {s f : Bucket} {ps pf t : ℕ} (h : Ahead p q bs s f ps pf t) {now : ℕ}
    (hnow : t ≤ now) :
    (ps + min (s.tokens + earned N rs s.last now) bs) * (p * q) +
        (now - moved N rs s.last now) * q ≤
      (pf + min (f.tokens + earned N rf f.last now) bf) * (p * q) +
        (now - moved N rf f.last now) * p := by
  have hcredit := credit_refill hs hf hrs hr h hnow
  have hpassed := h.passed
  obtain ⟨-, hleft⟩ := sub_moved_lt hs hp hrs (h.slow.1.trans hnow)
  rcases Nat.le_total (f.tokens + earned N rf f.last now) bf with hcut | hcut
  · have h1 : (ps + min (s.tokens + earned N rs s.last now) bs) * (p * q) ≤
        (ps + s.tokens + earned N rs s.last now) * (p * q) := Nat.mul_le_mul_right _ (by omega)
    rw [min_eq_left hcut, ← Nat.add_assoc]
    omega
  · -- a full fast bucket has a token more than the slow one can have
    have h1 : (ps + min (s.tokens + earned N rs s.last now) bs + 1) * (p * q) ≤
        (pf + bf) * (p * q) := Nat.mul_le_mul_right _ (by omega)
    have h2 : (now - moved N rs s.last now) * q ≤ p * q := Nat.mul_le_mul_right q hleft.le
    rw [Nat.add_mul _ 1, Nat.one_mul] at h1
    rw [min_eq_right hcut]
    omega

/-- One packet that both buckets decide. -/
lemma ahead_step (hs : rs * p = N) (hf : rf * q = N) (hp : 0 < p) (hq : 0 < q) (hrs : 0 < rs)
    (hr : rs < rf) (hb : bs < bf) {s f : Bucket} {ps pf t : ℕ} (h : Ahead p q bs s f ps pf t)
    {now : ℕ} (hnow : t ≤ now) :
    Ahead p q bs (step N rs bs s now).1 (step N rf bf f now).1
      (ps + (step N rs bs s now).2.toNat) (pf + (step N rf bf f now).2.toNat) now := by
  have hcredit := credit_cut hs hf hp hrs hr hb h hnow
  have hpassed := h.passed
  have hls := sub_moved_lt hs hp hrs (h.slow.1.trans hnow)
  have hlf := sub_moved_lt hf hq (by omega) (h.fast.1.trans hnow)
  unfold step
  generalize hTs : min (s.tokens + earned N rs s.last now) bs = Ts at hcredit ⊢
  generalize min (f.tokens + earned N rf f.last now) bf = Tf at hcredit ⊢
  refine ⟨?_, ?_, hls, hlf, ?_⟩
  · have hTs1 : (decide (0 < Ts)).toNat ≤ Ts := by have := taken_add_left Ts; omega
    by_cases h0 : 0 < Tf
    · have h1 := Bool.toNat_le (decide (0 < Ts))
      simp only [h0, decide_true, Bool.toNat_true]
      omega
    · -- the slow bucket's token is one the fast one has spent already
      have hz : Tf = 0 := by omega
      subst hz
      rw [Nat.add_zero] at hcredit
      have hleft : (now - moved N rf f.last now) * p < p * q := by
        rw [Nat.mul_comm p q]
        exact Nat.mul_lt_mul_of_pos_right hlf.2 hp
      have hlt : (ps + Ts) * (p * q) < (pf + 1) * (p * q) := by
        rw [Nat.add_mul pf 1, Nat.one_mul]
        omega
      have hless := Nat.lt_of_mul_lt_mul_right hlt
      simp only [lt_irrefl, decide_false, Bool.toNat_false]
      omega
  · dsimp only
    omega
  · dsimp only
    rw [Nat.add_assoc, taken_add_left, Nat.add_assoc pf, taken_add_left]
    exact hcredit

/-- **The tighter bucket lets through no more**, after any number of packets in order of their
clock readings. -/
theorem run_le_run (hs : rs * p = N) (hf : rf * q = N) (hp : 0 < p) (hq : 0 < q) (hrs : 0 < rs)
    (hr : rs < rf) (hb : bs < bf) (l : List ℕ) {s f : Bucket} {ps pf t : ℕ}
    (h : Ahead p q bs s f ps pf t) (hl : (t :: l).Pairwise (· ≤ ·)) :
    ps + (run N rs bs s l).2 ≤ pf + (run N rf bf f l).2 := by
  induction l generalizing s f ps pf t with
  | nil => exact h.passed
  | cons now l ih =>
    obtain ⟨ht, hl'⟩ := List.pairwise_cons.mp hl
    have hstep := ahead_step hs hf hp hq hrs hr hb h (ht now List.mem_cons_self)
    have hrest := ih hstep hl'
    simp only [run]
    omega

/-! ### Nothing earned is lost -/

/-- Every packet comes less than a period after `last`, and its refill fits into the bucket. -/
def Uncut (N rate burst : ℕ) (b : Bucket) : List ℕ → Prop
  | [] => True
  | now :: l =>
    (now - b.last < N ∧ b.tokens + earned N rate b.last now ≤ burst) ∧
      Uncut N rate burst (step N rate burst b now).1 l

/-- The account at `t` of a bucket that held `T` tokens at `L` and has got `A` since: the time up
to `last` is worth no more than these, and one token more is not earned by `t`. -/
structure Kept (N rate L T : ℕ) (b : Bucket) (passed t A : ℕ) : Prop where
  total : passed + b.tokens = T + A
  start : L ≤ b.last
  last : b.last ≤ t
  paid : rate * (b.last - L) ≤ N * A
  due : rate * (t - L) < N * (A + 1)
  even : rate ∣ N → N * A ≤ rate * (b.last - L)

lemma kept_start (hN : 0 < N) (rate : ℕ) (b : Bucket) :
    Kept N rate b.last b.tokens b 0 b.last 0 := by
  refine ⟨?_, le_rfl, le_rfl, ?_, ?_, fun _ => ?_⟩
  · omega
  · rw [Nat.sub_self, Nat.mul_zero]
    exact Nat.zero_le _
  · rw [Nat.sub_self, Nat.mul_zero]
    omega
  · rw [Nat.mul_zero]
    exact Nat.zero_le _

/-- The time a refill takes is no more than what its tokens cost. -/
lemma rate_mul_moved_le {last now : ℕ} (h : now - last < N) :
    rate * (moved N rate last now - last) ≤ N * earned N rate last now := by
  unfold moved earned
  rw [if_neg (by omega), if_neg (by omega), Nat.add_sub_cancel_left]
  calc rate * ((now - last) * rate / N * N / rate)
      ≤ (now - last) * rate / N * N := Nat.mul_div_le _ _
    _ = N * ((now - last) * rate / N) := Nat.mul_comm _ _

/-- At a rate that divides the period it is just that. -/
lemma mul_earned_le (hr : 0 < rate) (hd : rate ∣ N) {last now : ℕ} (h : now - last < N) :
    N * earned N rate last now ≤ rate * (moved N rate last now - last) := by
  obtain ⟨c, hc⟩ := hd
  obtain ⟨hearned, hmoved⟩ := earned_of_lt hc.symm hr h
  rw [hmoved, Nat.add_sub_cancel_left, hearned]
  calc N * ((now - last) / c) = rate * c * ((now - last) / c) := by rw [← hc]
    _ ≤ rate * ((now - last) / c * c) := le_of_eq (by ring)

/-- One more token would not be earned by now. -/
lemma rate_mul_lt {last now : ℕ} (hN : 0 < N) (h : now - last < N) :
    rate * (now - last) < N * (earned N rate last now + 1) := by
  unfold earned
  rw [if_neg (by omega), Nat.mul_comm rate]
  exact Nat.lt_mul_div_succ _ hN

/-- **One packet keeps the account.** What the second rounding leaves stays with `last`. -/
lemma kept_step (hN : 0 < N) (hr : 0 < rate) {L T passed t A now : ℕ} {b : Bucket}
    (h : Kept N rate L T b passed t A) (ht : t ≤ now) (hlt : now - b.last < N)
    (hfit : b.tokens + earned N rate b.last now ≤ burst) :
    Kept N rate L T (step N rate burst b now).1
      (passed + (step N rate burst b now).2.toNat) now (A + earned N rate b.last now) := by
  obtain ⟨htotal, hstart, hlast, hpaid, -, heven⟩ := h
  have hcost : rate * _ ≤ N * _ := rate_mul_moved_le hlt
  have hdue : rate * _ < N * _ := rate_mul_lt hN hlt
  have hcheap := fun hd => mul_earned_le hr hd hlt
  have hback := last_le_moved hN rate b.last now
  have hle := moved_le N rate b.last now
  unfold step
  rw [min_eq_left hfit]
  generalize earned N rate b.last now = e at hfit hcost hdue hcheap ⊢
  generalize moved N rate b.last now = m at hcost hback hle hcheap ⊢
  have htake := taken_add_left (b.tokens + e)
  have hmoved : m - L = (b.last - L) + (m - b.last) := by omega
  have hnow : now - L = (b.last - L) + (now - b.last) := by omega
  refine ⟨?_, hstart.trans hback, ?_, ?_, ?_, fun hd => ?_⟩
  · dsimp only
    omega
  · dsimp only
    omega
  · calc rate * (m - L) = rate * (b.last - L) + rate * (m - b.last) := by
          rw [hmoved, Nat.mul_add]
      _ ≤ N * A + N * e := Nat.add_le_add hpaid hcost
      _ = N * (A + e) := (Nat.mul_add _ _ _).symm
  · calc rate * (now - L) = rate * (b.last - L) + rate * (now - b.last) := by
          rw [hnow, Nat.mul_add]
      _ < N * A + N * (e + 1) := Nat.add_lt_add_of_le_of_lt hpaid hdue
      _ = N * (A + e + 1) := by ring
  · calc N * (A + e) = N * A + N * e := Nat.mul_add _ _ _
      _ ≤ rate * (b.last - L) + rate * (m - b.last) := Nat.add_le_add (heven hd) (hcheap hd)
      _ = rate * (m - L) := by rw [hmoved, Nat.mul_add]

/-- **The account of a whole run.** -/
theorem kept_run (hN : 0 < N) (hr : 0 < rate) (l : List ℕ) {L T passed t A : ℕ} {b : Bucket}
    (h : Kept N rate L T b passed t A) (hl : (t :: l).Pairwise (· ≤ ·))
    (hu : Uncut N rate burst b l) :
    ∃ A', Kept N rate L T (run N rate burst b l).1 (passed + (run N rate burst b l).2)
      (l.getLast?.getD t) A' := by
  induction l generalizing b passed t A with
  | nil => exact ⟨A, h⟩
  | cons now l ih =>
    obtain ⟨ht, hl'⟩ := List.pairwise_cons.mp hl
    obtain ⟨⟨hlt, hfit⟩, hu'⟩ := hu
    obtain ⟨A', hA'⟩ := ih (kept_step hN hr h (ht now List.mem_cons_self) hlt hfit) hl' hu'
    refine ⟨A', ?_⟩
    rw [run, List.getLast?_cons, Option.getD_some, ← Nat.add_assoc]
    exact hA'

/-- No token that the time has earned is missing. -/
lemma Kept.le {L T passed t A : ℕ} {b : Bucket} (h : Kept N rate L T b passed t A) :
    rate * (t - L) / N ≤ A :=
  Nat.le_of_lt_succ (Nat.div_lt_of_lt_mul h.due)

/-- And at a rate that divides the period there is none too many. -/
lemma Kept.eq {L T passed t A : ℕ} {b : Bucket} (h : Kept N rate L T b passed t A) (hN : 0 < N)
    (hd : rate ∣ N) : rate * (t - L) / N = A := by
  refine le_antisymm h.le ((Nat.le_div_iff_mul_le hN).mpr ?_)
  have hlast := h.last
  calc A * N = N * A := Nat.mul_comm _ _
    _ ≤ rate * (b.last - L) := h.even hd
    _ ≤ rate * (t - L) := Nat.mul_le_mul_left _ (by omega)

end Lookout.TokenBucket

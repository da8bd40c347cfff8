import Lookout.TokenBucket

/-!
Streams a token bucket lets through.

A bucket that earns a token every `c` ticks owes a stream as much as an ideal one would give it:
if in no stretch of the stream there are more packets than one burst and a token for every `c`
ticks of the stretch, none is stopped. The ticks are counted on a clock that stands still while
the stream has been silent for so long that the bucket's own cap bites.
-/

namespace Lookout.TokenBucket

/-- The times of packets with the readings `l`, after one at `t` whose time was `v`. A reading
behind an earlier one is taken for it, and a silence counts for `N - c` ticks at most. -/
def paced (N c t v : ℕ) : List ℕ → List ℕ
  | [] => []
  | now :: l => (v + min (now - t) (N - c)) :: paced N c (max t now) (v + min (now - t) (N - c)) l

/-- In no stretch are there more than `burst` packets and one for every `c` ticks of it. -/
def Conforms (c burst : ℕ) (vs : List ℕ) : Prop :=
  ∀ s, s <:+: vs → ∀ x y, s.head? = some x → s.getLast? = some y →
    s.length ≤ burst + (y - x) / c

lemma Conforms.suffix {c burst : ℕ} {us vs : List ℕ} (h : Conforms c burst (us ++ vs)) :
    Conforms c burst vs :=
  fun s hs => h s (hs.trans (List.suffix_append us vs).isInfix)

lemma Conforms.pos {c burst v : ℕ} {vs : List ℕ} (h : Conforms c burst (v :: vs)) :
    1 ≤ burst := by
  have hone := h [v] (List.prefix_append [v] vs).isInfix v v rfl rfl
  simpa using hone

variable {N rate burst c : ℕ}

/-- The packets `w`, the last of them at `v`, have all been let through since the bucket was full;
`t` is the latest reading. What the bucket holds, in ticks, is what it held then and what it has
earned, less what they cost. -/
structure Account (c burst : ℕ) (b : Bucket) (w : List ℕ) (t v : ℕ) : Prop where
  last : b.last ≤ t ∧ t - b.last < c
  credit : ∃ v0, w.head? = some v0 ∧ v0 ≤ v ∧
    burst * c + (v - v0) ≤ b.tokens * c + (t - b.last) + w.length * c
  now : w.getLast? = some v

/-- What a refill adds, tokens and the part of one, is the time that has gone by. -/
lemma refill_credit (hN : rate * c = N) (hr : 0 < rate) (hc : 0 < c) {last t : ℕ}
    (hlast : last ≤ t ∧ t - last < c) (now : ℕ) :
    (moved N rate last now ≤ max t now ∧ max t now - moved N rate last now < c) ∧
      (t - last) + min (now - t) (N - c) ≤
        earned N rate last now * c + (max t now - moved N rate last now) := by
  have hcN : c ≤ N := hN ▸ Nat.le_mul_of_pos_left c hr
  obtain ⟨hle, hlt⟩ := hlast
  rcases Nat.le_total now t with hnow | hnow
  · -- nothing has been earned
    obtain ⟨he, hm⟩ := earned_of_lt hN hr (by omega : now - last < N)
    have hz : (now - last) / c = 0 := Nat.div_eq_of_lt (by omega)
    rw [hz, Nat.zero_mul, Nat.add_zero] at hm
    rw [max_eq_left hnow, hm, he, hz]
    omega
  · have hleft := sub_moved_lt hN hc hr (hle.trans hnow)
    have hsum := earned_add_left hN hr (hle.trans hnow)
    rw [max_eq_right hnow]
    refine ⟨hleft, ?_⟩
    rw [hsum]
    omega

/-- A packet that finds the bucket full begins a new account. -/
lemma account_full {b : Bucket} {t v : ℕ} (hb : 0 < burst) (hlast : b.last ≤ t ∧ t - b.last < c)
    (hfull : b.tokens = burst - 1) : Account c burst b [v] t v := by
  refine ⟨hlast, ⟨v, rfl, le_rfl, ?_⟩, rfl⟩
  have hmul : (burst - 1) * c + 1 * c = burst * c := by
    rw [← Nat.add_mul, Nat.sub_add_cancel hb]
  rw [hfull, List.length_singleton]
  omega

/-- The packet that comes when the bucket is full. -/
lemma first_step (hN : rate * c = N) (hr : 0 < rate) (hc : 0 < c) (hb : 0 < burst) {b : Bucket}
    (hfull : burst ≤ b.tokens) (now v : ℕ) :
    (step N rate burst b now).2 = true ∧
      Account c burst (step N rate burst b now).1 [v] (max b.last now) v := by
  have hstart : b.last ≤ b.last ∧ b.last - b.last < c := ⟨le_rfl, by omega⟩
  obtain ⟨hlast, -⟩ := refill_credit hN hr hc hstart now
  have hmin : min (b.tokens + earned N rate b.last now) burst = burst := min_eq_right (by omega)
  unfold step
  rw [hmin]
  exact ⟨decide_eq_true hb, account_full hb hlast rfl⟩

/-- A stretch of `k` packets and one more, that the bucket has earned in full, finds a token. -/
lemma token_left {k d T φ : ℕ} (hstretch : k + 1 ≤ burst + d / c)
    (hhave : burst * c + d ≤ T * c + φ + k * c) (hφ : φ < c) : 0 < T := by
  have hticks : (k + 1) * c ≤ burst * c + d := by
    calc (k + 1) * c ≤ (burst + d / c) * c := Nat.mul_le_mul_right c hstretch
      _ = burst * c + d / c * c := Nat.add_mul _ _ _
      _ ≤ burst * c + d := Nat.add_le_add_left (Nat.div_mul_le_self _ _) _
  by_contra hz
  have hz : T = 0 := by omega
  rw [hz, Nat.zero_mul] at hhave
  rw [Nat.add_mul, Nat.one_mul] at hticks
  omega

/-- **The next packet** of a stream that conforms is let through. -/
lemma account_step (hN : rate * c = N) (hr : 0 < rate) (hc : 0 < c) {b : Bucket} {w : List ℕ}
    {t v : ℕ} (h : Account c burst b w t v) (now : ℕ) {vs : List ℕ}
    (hw : Conforms c burst (w ++ (v + min (now - t) (N - c)) :: vs)) :
    (step N rate burst b now).2 = true ∧
      ∃ w', Account c burst (step N rate burst b now).1 w' (max t now)
          (v + min (now - t) (N - c)) ∧ Conforms c burst (w' ++ vs) := by
  obtain ⟨hlast, hrefill⟩ := refill_credit hN hr hc h.last now
  obtain ⟨v0, hhead, hv0, hcredit⟩ := h.credit
  have hrest : Conforms c burst ([v + min (now - t) (N - c)] ++ vs) := hw.suffix
  have hpos : 0 < burst := hrest.pos
  rcases Nat.le_total burst (b.tokens + earned N rate b.last now) with hcut | hcut
  · -- it is full again
    unfold step
    rw [min_eq_right hcut]
    exact ⟨decide_eq_true hpos, _, account_full hpos hlast rfl, hrest⟩
  · generalize hd : min (now - t) (N - c) = d at hw hrefill ⊢
    -- the stretch since it was full leaves a token for this packet
    have hstretch : w.length + 1 ≤ burst + (v + d - v0) / c := by
      have hinfix := (List.prefix_append (w ++ [v + d]) vs).isInfix
      rw [List.append_assoc, List.singleton_append] at hinfix
      have hlen := hw _ hinfix v0 (v + d) (by rw [List.head?_append, hhead]; rfl)
        List.getLast?_concat
      rwa [List.length_append, List.length_singleton] at hlen
    have hhave : burst * c + (v + d - v0) ≤ (b.tokens + earned N rate b.last now) * c +
        (max t now - moved N rate b.last now) + w.length * c := by
      rw [Nat.add_mul b.tokens]
      omega
    have htoken : 0 < b.tokens + earned N rate b.last now := token_left hstretch hhave hlast.2
    have htake : (b.tokens + earned N rate b.last now - 1) * c + c =
        (b.tokens + earned N rate b.last now) * c := by
      rw [← Nat.succ_mul, Nat.succ_eq_add_one, Nat.sub_add_cancel htoken]
    unfold step
    rw [min_eq_left hcut]
    refine ⟨decide_eq_true htoken, w ++ [v + d], ⟨hlast, ⟨v0, ?_, ?_, ?_⟩, List.getLast?_concat⟩, ?_⟩
    · rw [List.head?_append, hhead]
      rfl
    · omega
    · dsimp only
      rw [List.length_append, List.length_singleton, Nat.add_mul, Nat.one_mul]
      omega
    · rwa [List.append_assoc, List.singleton_append]

lemma account_run (hN : rate * c = N) (hr : 0 < rate) (hc : 0 < c) (l : List ℕ) {b : Bucket}
    {w : List ℕ} {t v : ℕ} (h : Account c burst b w t v)
    (hw : Conforms c burst (w ++ paced N c t v l)) : (run N rate burst b l).2 = l.length := by
  induction l generalizing b w t v with
  | nil => rfl
  | cons now l ih =>
    obtain ⟨hpass, w', haccount, hrest⟩ := account_step hN hr hc h now hw
    rw [run, hpass, ih haccount hrest, List.length_cons, Bool.toNat_true, Nat.add_comm]

/-- **A full bucket stops no packet of a stream that conforms**, however the readings jump. -/
theorem conforms_run (hN : rate * c = N) (hr : 0 < rate) (hc : 0 < c) (l : List ℕ) {b : Bucket}
    (hfull : burst ≤ b.tokens) (hl : Conforms c burst (paced N c b.last 0 l)) :
    (run N rate burst b l).2 = l.length := by
  cases l with
  | nil => rfl
  | cons now l =>
    obtain ⟨hpass, haccount⟩ := first_step hN hr hc hl.pos hfull now
      (0 + min (now - b.last) (N - c))
    rw [run, hpass, account_run hN hr hc l haccount hl, List.length_cons, Bool.toNat_true,
      Nat.add_comm]

end Lookout.TokenBucket

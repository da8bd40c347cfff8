import Lookout.Limiter
import Lookout.Policy

/-!
The rate a source gets.

However a source's packets are spread over the CPUs, and in whatever order they take the
lock, the limiter lets through at most one burst and what the rate earns up to the latest
clock reading.
-/

namespace Lookout.RateBound

open Lookout.Common Lookout.TokenBucket Lookout.Limiter Lookout.Policy

/-- The bound for a rate: one token for every `10⁹ / rate` nanoseconds. -/
def allowance (rate burst last t : ℕ) : ℕ := burst + (t - last) / (1000000000 / rate)

/-- The bound without rounding. -/
def ideal (rate burst last t : ℕ) : ℕ := burst + rate * (t - last) / 1000000000

lemma allowance_eq_ideal {rate : ℕ} (hr : 0 < rate) (hd : rate ∣ 1000000000)
    (burst last t : ℕ) : allowance rate burst last t = ideal rate burst last t := by
  rw [allowance, ideal, ideal_of_dvd hr hd _ (by norm_num)]

lemma tiers_divide : ∀ tier ∈ TIERS, tier.1 ∣ 1000000000 := by decide

/-- **The limiter keeps the rate.** Readings may jump back and forth between packets; each of
the four tiers gets the bound without rounding. -/
theorem passed_le_allowance (rate burst : U64) (hr : RateOk rate)
    (hb : burst.toNat + rate.toNat < 2 ^ 64) (st : SrcState)
    (hw : st.tokens.toNat + rate.toNat < 2 ^ 64) (ps : List Pending)
    (hs : Settings rate burst ps) (t : ℕ) (ht : ∀ now ∈ readings ps, now ≤ t) :
    passed st ps ≤ allowance rate.toNat burst.toNat st.last_refill_ns.toNat t ∧
    (rate.toNat ∣ 1000000000 → allowance rate.toNat burst.toNat st.last_refill_ns.toNat t =
      ideal rate.toNat burst.toNat st.last_refill_ns.toNat t) ∧
    ∀ tier ∈ TIERS, tier.1 ∣ 1000000000 := by
  obtain ⟨hpos, hle⟩ := hr
  refine ⟨?_, fun hd => allowance_eq_ideal hpos hd _ _ _, tiers_divide⟩
  rw [passed_eq_run ⟨hpos, hle⟩ hb ps hs st hw]
  exact passed_le (by norm_num) (by omega) hpos (readings ps) ht (bucket st)

/-- A packet of a source that has no token left, and one half a second later. -/
theorem passed_le_allowance_half_second :
    let st : SrcState := ⟨0, 0, 0, 0, 0, 0, 0, 0, 0, 0, 0, 0⟩
    let p (now : U64) : Pending :=
      ⟨now, 1000, 2000, FEAT_DEFAULT, 7, 17, 0, 53, 60, .pass, .pass_default⟩
    passed st [p 0, p 500000000] ≤ allowance 1000 2000 0 500000000 := by
  refine (passed_le_allowance 1000 2000 ⟨by decide, by decide⟩ (by decide) _ (by decide) _ ?_
    500000000 (by decide)).1
  intro q hq _
  simp only [List.mem_cons, List.not_mem_nil, or_false] at hq
  rcases hq with rfl | rfl <;> exact ⟨rfl, rfl⟩

end Lookout.RateBound

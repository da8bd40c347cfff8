import Lookout.Limiter

/-!
What a source earns is not lost.

While a source's bucket never fills up, every token the rate has earned by a packet is there or
has let a packet through. The refill rounds down twice; what the rounding leaves is kept as time,
in `last_refill_ns`.
-/

namespace Lookout.Credit

open Lookout.Common Lookout.TokenBucket Lookout.Limiter

/-- At every packet the bucket decides, less than a second has passed since the `last_refill_ns`
it finds, and the refill is not cut back to `burst`. -/
def Uncut (st : SrcState) : List Pending → Prop
  | [] => True
  | p :: ps =>
    (limited p = true → p.now.toNat < st.last_refill_ns.toNat + 1000000000 ∧
        ¬ st.tokens + (refill p.now p.rate st.last_refill_ns).1 > p.burst) ∧
      Uncut (locked p st).1 ps

/-- A refill that is not cut back fits into the bucket over the natural numbers too. -/
lemma fits_of_uncut {p : Pending} {st : SrcState} (hr : RateOk p.rate)
    (hw : st.tokens.toNat + p.rate.toNat < 2 ^ 64)
    (h : ¬ st.tokens + (refill p.now p.rate st.last_refill_ns).1 > p.burst) :
    st.tokens.toNat + earned 1000000000 p.rate.toNat st.last_refill_ns.toNat p.now.toNat ≤
      p.burst.toNat := by
  have hrate : p.rate.toNat ≤ 10000000000 := hr.2.trans (by omega)
  obtain ⟨hadd, -⟩ := refill_toNat p.now st.last_refill_ns hrate
  have hle := earned_le 1000000000 p.rate.toNat st.last_refill_ns.toNat p.now.toNat
  have hsum : (st.tokens + (refill p.now p.rate st.last_refill_ns).1).toNat =
      st.tokens.toNat + earned 1000000000 p.rate.toNat st.last_refill_ns.toNat p.now.toNat := by
    rw [BitVec.toNat_add, hadd]
    exact Nat.mod_eq_of_lt (by omega)
  rw [gt_iff_lt, BitVec.lt_def, hsum] at h
  omega

lemma uncut_readings {rate burst : U64} (hr : RateOk rate)
    (hb : burst.toNat + rate.toNat < 2 ^ 64) (ps : List Pending) (hs : Settings rate burst ps)
    (st : SrcState) (hw : st.tokens.toNat + rate.toNat < 2 ^ 64) (hu : Uncut st ps) :
    TokenBucket.Uncut 1000000000 rate.toNat burst.toNat (bucket st) (readings ps) := by
  induction ps generalizing st with
  | nil => trivial
  | cons p ps ih =>
    obtain ⟨hp, hu'⟩ := hu
    have hs' : Settings rate burst ps := fun q hq => hs q (List.mem_cons_of_mem _ hq)
    by_cases hl : limited p = true
    · have hset := hs p List.mem_cons_self hl
      obtain ⟨hstep, hroom⟩ := locked_step hr hb hl hset hw
      obtain ⟨hlt, hcut⟩ := hp hl
      have hrest := ih hs' (locked p st).1 hroom hu'
      obtain ⟨rfl, rfl⟩ := hset
      have hfit := fits_of_uncut hr hw hcut
      simp only [readings, List.filter_cons, hl, if_true, List.map_cons]
      refine ⟨⟨?_, hfit⟩, ?_⟩
      · change p.now.toNat - st.last_refill_ns.toNat < 1000000000
        omega
      · rw [← hstep]
        exact hrest
    · have hl' : limited p = false := by simpa using hl
      obtain ⟨hbk, -⟩ := locked_decided st hl'
      have htok : (locked p st).1.tokens.toNat = st.tokens.toNat := congrArg Bucket.tokens hbk
      have hrest := ih hs' (locked p st).1 (by rw [htok]; exact hw) hu'
      rw [hbk] at hrest
      simp only [readings, List.filter_cons, hl', Bool.false_eq_true, if_false]
      exact hrest

/-- **No earned credit is lost.** By the last packet that reached the bucket, the tokens held and
the packets passed make up for the tokens at the start and what the rate has earned since the
refill before; a rate that divides the second earns exactly that. -/
theorem credit_kept (rate burst : U64) (hr : RateOk rate)
    (hb : burst.toNat + rate.toNat < 2 ^ 64) (st : SrcState) (h0 : st.tokens ≤ burst)
    (ps : List Pending) (hs : Settings rate burst ps)
    (horder : (st.last_refill_ns.toNat :: readings ps).Pairwise (· ≤ ·)) (hu : Uncut st ps)
    (t : ℕ) (ht : (readings ps).getLast? = some t) :
    st.tokens.toNat + rate.toNat * (t - st.last_refill_ns.toNat) / 1000000000 ≤
        (after st ps).tokens.toNat + passed st ps ∧
      (rate.toNat ∣ 1000000000 →
        st.tokens.toNat + rate.toNat * (t - st.last_refill_ns.toNat) / 1000000000 =
          (after st ps).tokens.toNat + passed st ps) := by
  have hN : 0 < 1000000000 := by norm_num
  have hw : st.tokens.toNat + rate.toNat < 2 ^ 64 := by
    rw [BitVec.le_def] at h0
    omega
  have hrun := run_readings hr hb ps hs st hw
  have hstart := kept_start hN rate.toNat (bucket st)
  obtain ⟨A, hkept⟩ := kept_run hN hr.1 (readings ps) hstart horder
    (uncut_readings hr hb ps hs st hw hu)
  rw [hrun, ht, Option.getD_some, Nat.zero_add] at hkept
  have htotal : passed st ps + (after st ps).tokens.toNat = st.tokens.toNat + A := hkept.total
  have hle : rate.toNat * (t - st.last_refill_ns.toNat) / 1000000000 ≤ A := hkept.le
  refine ⟨by omega, fun hd => ?_⟩
  have heq : rate.toNat * (t - st.last_refill_ns.toNat) / 1000000000 = A := hkept.eq hN hd
  omega

/-- A source at three packets a second, with room for ten: two packets, and less than a token's
time between them. -/
theorem credit_kept_third_of_second :
    let st : SrcState := ⟨2, 0, 0, 0, 0, 0, 0, 0, 0, 0, 0, 0⟩
    let p (now : U64) : Pending :=
      ⟨now, 3, 10, FEAT_DEFAULT, 7, 17, 0, 53, 60, .pass, .pass_default⟩
    st.tokens.toNat + 3 * (700000000 - 0) / 1000000000 ≤
      (after st [p 500000000, p 700000000]).tokens.toNat + passed st [p 500000000, p 700000000] := by
  intro st p
  have hs : Settings 3 10 [p 500000000, p 700000000] := by
    intro q hq _
    simp only [List.mem_cons, List.not_mem_nil, or_false] at hq
    rcases hq with rfl | rfl <;> exact ⟨rfl, rfl⟩
  have hu : Uncut st [p 500000000, p 700000000] :=
    ⟨fun _ => by decide, fun _ => by decide, trivial⟩
  exact (credit_kept 3 10 ⟨by decide, by decide⟩ (by decide) st (by decide) _ hs (by decide) hu
    700000000 (by decide)).1

end Lookout.Credit

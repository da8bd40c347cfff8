import Lookout.Packet
import Lookout.TokenBucket
import Mathlib.Tactic.NormNum

/-!
What `xdp_firewall` does to a source's entry while it holds the entry's lock: the counters,
and the token bucket for a packet that would otherwise pass.
-/

namespace Lookout.Limiter

open Lookout.Common Lookout.Packet Lookout.TokenBucket

def NSEC_PER_SEC : U64 := 1000000000

/-- The locals of the program at the label `update_state`. -/
structure Pending where
  now : U64
  rate : U64
  burst : U64
  feat : U32
  saddr : Addr
  proto : Byte
  tcp_flags : Byte
  dport : U16
  pkt_len : ℕ
  verdict : Verdict
  reason : Stat
  deriving DecidableEq

/-- The entry of a new source: a full bucket and nothing counted. -/
def init (p : Pending) : SrcState where
  tokens := p.burst
  last_refill_ns := p.now
  last_seen_ns := p.now
  packets := 0
  bytes := 0
  dropped := 0
  syn := 0
  fin := 0
  rst := 0
  udp := 0
  icmp := 0
  port_bitmap := 0

def flag (f bit : Byte) : ℕ := if f &&& bit ≠ 0 then 1 else 0

/-- The counters, which every packet advances. -/
def count_packet (p : Pending) (st : SrcState) : SrcState :=
  { st with
    packets := st.packets + 1
    bytes := st.bytes + p.pkt_len
    last_seen_ns := p.now
    syn := if p.proto = IPPROTO_TCP then st.syn + flag p.tcp_flags TCP_SYN else st.syn
    fin := if p.proto = IPPROTO_TCP then st.fin + flag p.tcp_flags TCP_FIN else st.fin
    rst := if p.proto = IPPROTO_TCP then st.rst + flag p.tcp_flags TCP_RST else st.rst
    udp := if p.proto = IPPROTO_UDP then st.udp + 1 else st.udp
    icmp := if p.proto = IPPROTO_ICMP then st.icmp + 1 else st.icmp
    port_bitmap :=
      if p.dport ≠ 0 then st.port_bitmap ||| ((1 : U64) <<< (p.dport.toNat % 64)) else st.port_bitmap }

/-- The packet is one the token bucket decides. -/
def limited (p : Pending) : Bool :=
  p.verdict == .pass && has p.feat FEAT_RATELIMIT && decide (p.rate > 0)

/-- `now` was read before the lock and can be behind `last_refill_ns`. -/
def elapsed (now last_refill_ns : U64) : U64 :=
  if now > last_refill_ns then now - last_refill_ns else 0

/-- The refill: the tokens to add and the new `last_refill_ns`. -/
def refill (now rate last_refill_ns : U64) : U64 × U64 :=
  let elapsed := elapsed now last_refill_ns
  if elapsed ≥ NSEC_PER_SEC then (rate, now)
  else
    let add := elapsed * rate / NSEC_PER_SEC
    (add, if add > 0 then last_refill_ns + add * NSEC_PER_SEC / rate else last_refill_ns)

def token_bucket (p : Pending) (st : SrcState) : SrcState × Verdict × Stat :=
  let (add, last_refill_ns) := refill p.now p.rate st.last_refill_ns
  let tokens := if st.tokens + add > p.burst then p.burst else st.tokens + add
  if tokens > 0 then
    ({ st with tokens := tokens - 1, last_refill_ns }, p.verdict, p.reason)
  else ({ st with tokens, last_refill_ns }, .drop, .drop_ratelimit)

/-- The packets that are already decided pass by the bucket. -/
def charge (p : Pending) (st : SrcState) : SrcState × Verdict × Stat :=
  if limited p then token_bucket p st else (st, p.verdict, p.reason)

def count_drop (verdict : Verdict) (st : SrcState) : SrcState :=
  if verdict = .drop then { st with dropped := st.dropped + 1 } else st

/-- Everything between `bpf_spin_lock` and `bpf_spin_unlock`. -/
def locked (p : Pending) (st : SrcState) : SrcState × Verdict × Stat :=
  let r := charge p (count_packet p st)
  (count_drop r.2.1 r.1, r.2)

/-! ### The bucket, over the natural numbers -/

def bucket (st : SrcState) : Bucket := ⟨st.tokens.toNat, st.last_refill_ns.toNat⟩

lemma elapsed_toNat (now last : U64) : (elapsed now last).toNat = now.toNat - last.toNat := by
  unfold elapsed
  split_ifs with h
  · rw [gt_iff_lt, BitVec.lt_def] at h
    exact BitVec.toNat_sub_of_le (BitVec.le_def.mpr h.le)
  · rw [gt_iff_lt, BitVec.lt_def] at h
    have h0 : (0 : U64).toNat = 0 := rfl
    omega

/-- A rate the program may be given: the products below fit 64 bits. -/
def RateOk (rate : U64) : Prop := 0 < rate.toNat ∧ rate.toNat ≤ 100000000

lemma nsec_toNat : NSEC_PER_SEC.toNat = 1000000000 := rfl

/-- The product with a rate of up to ten billion does not wrap. -/
lemma elapsed_mul_lt {e rate : ℕ} (he : e < 1000000000) (hr : rate ≤ 10000000000) :
    e * rate < 2 ^ 64 := by
  have h : e * rate ≤ 1000000000 * 10000000000 := Nat.mul_le_mul he.le hr
  omega

/-- **The refill is the one over the natural numbers**: no product or sum of it wraps. -/
theorem refill_toNat (now last : U64) {rate : U64} (hr : rate.toNat ≤ 10000000000) :
    (refill now rate last).1.toNat = earned 1000000000 rate.toNat last.toNat now.toNat ∧
      (refill now rate last).2.toNat = moved 1000000000 rate.toNat last.toNat now.toNat := by
  have he := elapsed_toNat now last
  unfold refill earned moved
  simp only [ge_iff_le, BitVec.le_def, nsec_toNat, he]
  by_cases hcap : 1000000000 ≤ now.toNat - last.toNat
  · simp [hcap]
  simp only [hcap, if_false]
  have hmul := elapsed_mul_lt (by omega : now.toNat - last.toNat < 1000000000) hr
  have hadd : (elapsed now last * rate / NSEC_PER_SEC).toNat =
      (now.toNat - last.toNat) * rate.toNat / 1000000000 := by
    rw [BitVec.toNat_udiv, BitVec.toNat_mul, he, nsec_toNat, Nat.mod_eq_of_lt hmul]
  refine ⟨hadd, ?_⟩
  have htime := earned_time_le 1000000000 rate.toNat last.toNat now.toNat
  have hback : (now.toNat - last.toNat) * rate.toNat / 1000000000 * 1000000000 < 2 ^ 64 :=
    lt_of_le_of_lt (Nat.div_mul_le_self _ _) hmul
  have hmove : (elapsed now last * rate / NSEC_PER_SEC * NSEC_PER_SEC / rate).toNat =
      (now.toNat - last.toNat) * rate.toNat / 1000000000 * 1000000000 / rate.toNat := by
    rw [BitVec.toNat_udiv, BitVec.toNat_mul, hadd, nsec_toNat, Nat.mod_eq_of_lt hback]
  have hnow := now.isLt
  split_ifs with h0
  · rw [BitVec.toNat_add, hmove]
    apply Nat.mod_eq_of_lt
    rcases Nat.eq_zero_or_pos (now.toNat - last.toNat) with hz | hz
    · rw [hz]
      have := last.isLt
      simpa using this
    · omega
  · -- no whole token: the move would be by nothing
    rw [gt_iff_lt, BitVec.lt_def, hadd] at h0
    have hz : (now.toNat - last.toNat) * rate.toNat / 1000000000 = 0 := by
      have : (0 : U64).toNat = 0 := rfl
      omega
    rw [hz, Nat.zero_mul, Nat.zero_div, Nat.add_zero]

/-- **One packet of the bucket**, as a step of the bucket over the natural numbers. -/
theorem token_bucket_eq {p : Pending} (st : SrcState) (hr : p.rate.toNat ≤ 10000000000)
    (hw : st.tokens.toNat + p.rate.toNat < 2 ^ 64) (hv : p.verdict = .pass) :
    (bucket (token_bucket p st).1, decide ((token_bucket p st).2.1 = .pass)) =
      step 1000000000 p.rate.toNat p.burst.toNat (bucket st) p.now.toNat := by
  obtain ⟨hadd, hlast⟩ := refill_toNat p.now st.last_refill_ns hr
  have hle := earned_le 1000000000 p.rate.toNat st.last_refill_ns.toNat p.now.toNat
  have hsum : (st.tokens + (refill p.now p.rate st.last_refill_ns).1).toNat =
      st.tokens.toNat + earned 1000000000 p.rate.toNat st.last_refill_ns.toNat p.now.toNat := by
    rw [BitVec.toNat_add, hadd]
    exact Nat.mod_eq_of_lt (by omega)
  obtain ⟨tokens, htok⟩ : ∃ tokens : U64, tokens =
      if st.tokens + (refill p.now p.rate st.last_refill_ns).1 > p.burst then p.burst
      else st.tokens + (refill p.now p.rate st.last_refill_ns).1 := ⟨_, rfl⟩
  have hmin : tokens.toNat =
      min (st.tokens.toNat + earned 1000000000 p.rate.toNat st.last_refill_ns.toNat p.now.toNat)
        p.burst.toNat := by
    rw [htok]
    split_ifs with h
    · rw [gt_iff_lt, BitVec.lt_def, hsum] at h; omega
    · rw [gt_iff_lt, BitVec.lt_def, hsum] at h; omega
  have h0 : (0 : U64).toNat = 0 := rfl
  unfold token_bucket step bucket
  simp only [← htok, ← hmin]
  split_ifs with h
  · rw [gt_iff_lt, BitVec.lt_def, h0] at h
    have h1 : (tokens - 1).toNat = tokens.toNat - 1 :=
      BitVec.toNat_sub_of_le (BitVec.le_def.mpr h)
    simp only [h1, hlast, hv, h, decide_true]
  · rw [gt_iff_lt, BitVec.lt_def, h0] at h
    have hz : tokens.toNat = 0 := by omega
    simp [hlast, hz]

/-- Whatever the entry held is cut to the burst, and the packet takes a token if there is one. -/
lemma token_bucket_room (p : Pending) (st : SrcState) :
    (token_bucket p st).1.tokens.toNat ≤ p.burst.toNat - 1 ∧
      (token_bucket p st).1.last_refill_ns = (refill p.now p.rate st.last_refill_ns).2 := by
  obtain ⟨tokens, htok⟩ : ∃ tokens : U64, tokens =
      if st.tokens + (refill p.now p.rate st.last_refill_ns).1 > p.burst then p.burst
      else st.tokens + (refill p.now p.rate st.last_refill_ns).1 := ⟨_, rfl⟩
  have hle : tokens.toNat ≤ p.burst.toNat := by
    rw [htok]
    split_ifs with h
    · exact le_rfl
    · exact BitVec.le_def.mp (BitVec.not_lt.mp h)
  have h0 : (0 : U64).toNat = 0 := rfl
  unfold token_bucket
  simp only [← htok]
  split_ifs with h
  · rw [gt_iff_lt, BitVec.lt_def, h0] at h
    have h1 : (tokens - 1).toNat = tokens.toNat - 1 :=
      BitVec.toNat_sub_of_le (BitVec.le_def.mpr h)
    refine ⟨?_, rfl⟩
    dsimp only
    omega
  · rw [gt_iff_lt, BitVec.lt_def, h0] at h
    refine ⟨?_, rfl⟩
    dsimp only
    omega

@[simp] lemma bucket_count_packet (p : Pending) (st : SrcState) :
    bucket (count_packet p st) = bucket st := rfl

@[simp] lemma bucket_count_drop (v : Verdict) (st : SrcState) :
    bucket (count_drop v st) = bucket st := by
  unfold count_drop
  split_ifs <;> rfl

/-- Every packet of a source is seen. -/
lemma last_seen_locked (p : Pending) (st : SrcState) : (locked p st).1.last_seen_ns = p.now := by
  have hcount : (count_packet p st).last_seen_ns = p.now := rfl
  have hbucket : ∀ st : SrcState, (token_bucket p st).1.last_seen_ns = st.last_seen_ns := by
    intro st
    unfold token_bucket
    dsimp only
    split_ifs <;> rfl
  have hdrop : ∀ (v : Verdict) (st : SrcState), (count_drop v st).last_seen_ns = st.last_seen_ns := by
    intro v st
    unfold count_drop
    split_ifs <;> rfl
  unfold locked charge
  rw [hdrop]
  split_ifs
  · rw [hbucket, hcount]
  · exact hcount

lemma locked_limited {p : Pending} (st : SrcState) (h : limited p = true) :
    bucket (locked p st).1 = bucket (token_bucket p (count_packet p st)).1 ∧
      (locked p st).2 = (token_bucket p (count_packet p st)).2 := by
  simp [locked, charge, h]

/-- A packet that is already decided leaves the bucket alone and keeps its verdict. -/
lemma locked_decided {p : Pending} (st : SrcState) (h : limited p = false) :
    bucket (locked p st).1 = bucket st ∧ (locked p st).2 = (p.verdict, p.reason) := by
  simp [locked, charge, h]

/-- The locked section keeps the verdict, or the bucket drops the packet. -/
lemma locked_verdict (p : Pending) (st : SrcState) :
    (locked p st).2 = (p.verdict, p.reason) ∨
      limited p = true ∧ (locked p st).2 = (.drop, .drop_ratelimit) := by
  by_cases hl : limited p = true
  · rw [(locked_limited st hl).2]
    simp only [token_bucket, hl]
    split_ifs <;> simp
  · exact Or.inl (locked_decided st (by simpa using hl)).2

/-! ### A source's packets, in the order they take the lock -/

/-- How many of the packets the bucket decides it lets through. -/
def passed (st : SrcState) : List Pending → ℕ
  | [] => 0
  | p :: ps =>
    (limited p && decide ((locked p st).2.1 = .pass)).toNat + passed (locked p st).1 ps

/-- The clock readings of the packets the bucket decides. -/
def readings (ps : List Pending) : List ℕ :=
  (ps.filter fun p => limited p).map fun p => p.now.toNat

/-- The limiter runs with these settings whenever it runs. -/
def Settings (rate burst : U64) (ps : List Pending) : Prop :=
  ∀ p ∈ ps, limited p = true → p.rate = rate ∧ p.burst = burst

lemma limited_pass {p : Pending} (h : limited p = true) : p.verdict = .pass := by
  simp only [limited, Bool.and_eq_true, beq_iff_eq] at h
  exact h.1.1

/-- The entry after the packets. -/
def after (st : SrcState) : List Pending → SrcState
  | [] => st
  | p :: ps => after (locked p st).1 ps

/-- A packet the bucket decides is a step of the bucket over the natural numbers, and leaves room
for a refill. -/
lemma locked_step {rate burst : U64} (hr : RateOk rate) (hb : burst.toNat + rate.toNat < 2 ^ 64)
    {p : Pending} (hl : limited p = true) (hs : p.rate = rate ∧ p.burst = burst) {st : SrcState}
    (hw : st.tokens.toNat + rate.toNat < 2 ^ 64) :
    (bucket (locked p st).1, decide ((locked p st).2.1 = .pass)) =
        step 1000000000 rate.toNat burst.toNat (bucket st) p.now.toNat ∧
      (locked p st).1.tokens.toNat + rate.toNat < 2 ^ 64 := by
  obtain ⟨rfl, rfl⟩ := hs
  obtain ⟨hbk, hvd⟩ := locked_limited st hl
  have hrate : p.rate.toNat ≤ 10000000000 := hr.2.trans (by omega)
  have hstep := token_bucket_eq (count_packet p st) hrate hw (limited_pass hl)
  rw [← hbk, ← hvd, bucket_count_packet] at hstep
  refine ⟨hstep, ?_⟩
  have htok := congrArg (fun r => r.1.tokens) hstep
  simp only [bucket, step] at htok
  omega

/-- **The limiter is the bucket** over the natural numbers, fed with the clock readings. -/
theorem run_readings {rate burst : U64} (hr : RateOk rate)
    (hb : burst.toNat + rate.toNat < 2 ^ 64) (ps : List Pending) (hs : Settings rate burst ps)
    (st : SrcState) (hw : st.tokens.toNat + rate.toNat < 2 ^ 64) :
    run 1000000000 rate.toNat burst.toNat (bucket st) (readings ps) =
      (bucket (after st ps), passed st ps) := by
  induction ps generalizing st with
  | nil => rfl
  | cons p ps ih =>
    have hs' : Settings rate burst ps := fun q hq => hs q (List.mem_cons_of_mem _ hq)
    by_cases hl : limited p = true
    · obtain ⟨hstep, hroom⟩ := locked_step hr hb hl (hs p List.mem_cons_self hl) hw
      have hrest := ih hs' (locked p st).1 hroom
      simp only [passed, after, readings, List.filter_cons, hl, if_true, List.map_cons, run,
        Bool.true_and, ← hstep]
      rw [readings] at hrest
      rw [hrest]
    · have hl' : limited p = false := by simpa using hl
      obtain ⟨hbk, -⟩ := locked_decided st hl'
      have htok : (locked p st).1.tokens.toNat = st.tokens.toNat :=
        congrArg Bucket.tokens hbk
      have hrest := ih hs' (locked p st).1 (by rw [htok]; exact hw)
      simp only [passed, after, readings, List.filter_cons, hl', Bool.false_and, Bool.toNat_false,
        Bool.false_eq_true, if_false, Nat.zero_add]
      rw [← hrest, hbk]
      rfl

/-- What the limiter lets through is what the bucket does. -/
lemma passed_eq_run {rate burst : U64} (hr : RateOk rate)
    (hb : burst.toNat + rate.toNat < 2 ^ 64) (ps : List Pending) (hs : Settings rate burst ps)
    (st : SrcState) (hw : st.tokens.toNat + rate.toNat < 2 ^ 64) :
    passed st ps =
      (run 1000000000 rate.toNat burst.toNat (bucket st) (readings ps)).2 := by
  rw [run_readings hr hb ps hs st hw]

end Lookout.Limiter

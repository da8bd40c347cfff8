import Lookout.Isolation
import Lookout.RateBound

/-!
What a source can get past the firewall.

As long as an entry stays where it is, its source is neither put on the allowlist nor the
settings changed, the packets of the source that pass are bounded by the token bucket, whatever
the other sources send, the CPUs do at the same time, and the tools write to the lists and rules.
-/

namespace Lookout.Guarantee

open Lookout.Effects Lookout.Effects.Prog Lookout.Runs Lookout.Lpm Lookout.Lpm.Covering
open Lookout.Handles Lookout.Common Lookout.Packet Lookout.TokenBucket Lookout.Limiter
open Lookout.Polls Lookout.Kernel Lookout.Xdp Lookout.Accounting Lookout.Counting

variable {n : ℕ}

/-! ### What one program does -/

/-- The settings are `cfg`; no prefix of the allowlist covers `a`, whose entry is at `r`; the time
is `T` at most. -/
def Quiet (a : Addr) (r : ℕ) (cfg : FwConfig) (T : ℕ) : Event calls → Prop
  | ⟨.ktime_get_ns, t⟩ => t.toNat ≤ T
  | ⟨.config_lookup, c⟩ => c = some cfg
  | ⟨.allow_lookup b, e⟩ => b = a → e = none
  | ⟨.state_lookup b, st⟩ => b = a → st = some r
  | _ => True

/-- A packet under the settings, not later than `T`. -/
structure Ruled (cfg : FwConfig) (T : ℕ) (p : Pending) : Prop where
  rate : p.rate = cfg.rate_pps
  burst : p.burst = cfg.burst_pkts
  feat : p.feat = cfg.features
  now : p.now.toNat ≤ T

/-- All locks are held for packets under the settings; a packet of `a` that passes has held the
lock of `r`. -/
structure Passes (a : Addr) (r : ℕ) (cfg : FwConfig) (T : ℕ) (f : Frame) (v : Verdict) (t : Notes) :
    Prop where
  ruled : ∀ e ∈ t.locks, Ruled cfg T e.2.1
  locked : v = .pass → SentBy a f → ∃ p, (r, (p, .pass)) ∈ t.locks

section

variable {a : Addr} {r : ℕ} {cfg : FwConfig} {T : ℕ} {f : Frame} {t : Notes}

/-- The machine that notes the locks of a program among quiet others. -/
abbrev noter (a : Addr) (r : ℕ) (cfg : FwConfig) (T : ℕ) : Machine calls Notes :=
  books Notes.write (Quiet a r cfg T)

lemma wp_finish (s : Stat) (v : Verdict) (h : Passes a r cfg T f v t) :
    wp (noter a r cfg T) (finish s v) (Passes a r cfg T f) t := by
  unfold finish
  simp only [stat_inc, stat_add, op_eq, call_bind, ret_bind, wp_books_call]
  exact fun _ _ => h

/-- A packet that is dropped, or not from `a`. -/
lemma passes_of_no_lock (hl : t.locks = []) {v : Verdict} (h : v = .pass → ¬ SentBy a f) :
    Passes a r cfg T f v t :=
  ⟨fun _ he => absurd (hl ▸ he) List.not_mem_nil, fun hv hf => absurd hf (h hv)⟩

lemma wp_state_full {p : Pending} (hl : t.locks = []) (h : ¬ SentBy a f) :
    wp (noter a r cfg T) (state_full p) (Passes a r cfg T f) t := by
  unfold state_full
  simp only [stat_inc, stat_add, op_eq, call_bind, ret_bind, wp_books_call]
  exact fun _ _ => wp_finish _ _ (passes_of_no_lock hl fun _ => h)

lemma wp_locked_stage {p : Pending} {st : ℕ} (hl : t.locks = []) (hp : Ruled cfg T p)
    (hst : SentBy a f → st = r) :
    wp (noter a r cfg T) (locked_stage st p) (Passes a r cfg T f) t := by
  unfold locked_stage
  simp only [op_eq, call_bind, ret_bind, wp_books_call]
  rintro b -
  have hlocks : (t.write ⟨.state_locked st p, b⟩).locks = [(st, (p, b.1))] := by
    change t.locks ++ [(st, (p, b.1))] = _
    rw [hl, List.nil_append]
  refine wp_finish _ _ ⟨fun e he => ?_, fun hv hf => ⟨p, ?_⟩⟩
  · rw [hlocks, List.mem_singleton] at he
    rw [he]
    exact hp
  · rw [hlocks, ← hst hf, ← hv]
    exact List.mem_singleton_self _

/-- A packet of `a` finds its entry and holds its lock. -/
lemma wp_update_state {p : Pending} (hl : t.locks = []) (hp : Ruled cfg T p)
    (htrack : has cfg.features FEAT_TRACK_STATE = true) (ha : SentBy a f → p.saddr = a) :
    wp (noter a r cfg T) (update_state p) (Passes a r cfg T f) t := by
  have hfeat : has p.feat FEAT_TRACK_STATE = true := hp.feat ▸ htrack
  unfold update_state
  simp only [op_eq, call_bind, ret_bind, wp_books_call, hfeat, if_true]
  rintro - -
  rintro (_ | st) hst
  · have hno : ¬ SentBy a f := fun hf => by cases hst (ha hf)
    simp only [wp_books_call]
    rintro (_ | _) -
    · simp only [Bool.false_eq_true, if_false, wp_books_call]
      rintro (_ | st) -
      · exact wp_state_full hl hno
      · exact wp_locked_stage hl hp fun hf => absurd hf hno
    · exact wp_state_full hl hno
  · exact wp_locked_stage hl hp fun hf => Option.some.inj (hst (ha hf))

lemma wp_allowlist_stage {feat : U32} {b : Addr} {next : Call Verdict} (hl : t.locks = [])
    (hb : SentBy a f → b = a) (h : wp (noter a r cfg T) next (Passes a r cfg T f) t) :
    wp (noter a r cfg T) (allowlist_stage feat b next) (Passes a r cfg T f) t := by
  unfold allowlist_stage
  split_ifs
  · simp only [op_eq, call_bind, ret_bind, wp_books_call]
    rintro (_ | e) he
    · exact h
    · have hno : ¬ SentBy a f := fun hf => by cases he (hb hf)
      rw [wp_books_call]
      exact fun _ _ => wp_finish _ _ (passes_of_no_lock hl fun _ => hno)
  · exact h

/-- **What passes from `a` has held the lock of its entry.** -/
theorem wp_xdp_firewall (htrack : has cfg.features FEAT_TRACK_STATE = true) (f : Frame) :
    wp (noter a r cfg T) (xdp_firewall f) (Passes a r cfg T f) ⟨[], []⟩ := by
  have hdrop : Passes a r cfg T f .drop ⟨[], []⟩ := passes_of_no_lock rfl nofun
  unfold xdp_firewall
  simp only [stat_inc, stat_add, op_eq, call_bind, ret_bind, wp_books_call]
  rintro now hnow - - - - _ rfl
  change wp (noter a r cfg T) (config_stage f now cfg) (Passes a r cfg T f) ⟨[], []⟩
  unfold config_stage
  cases hip : parse_l3 f with
  | malformed => exact wp_finish _ _ hdrop
  | non_ipv4 =>
    refine wp_finish _ _ (passes_of_no_lock rfl ?_)
    rintro - ⟨ip, hip', -⟩
    rw [hip] at hip'
    cases hip'
  | ipv4 ip =>
    have ha : SentBy a f → ip.saddr = a := by
      rintro ⟨ip', hip', rfl⟩
      rw [hip] at hip'
      cases hip'
      rfl
    refine wp_allowlist_stage rfl ha ?_
    refine Accounting.wp_blocklist_stage Counting.skips_write (wp_finish _ _ hdrop) ?_
    unfold l4_stage
    cases parse_l4 f ip with
    | none => exact wp_finish _ _ hdrop
    | some l4 =>
      refine (wp_bind _ _ _ _).mpr (wp_mono (Accounting.wp_verdict_stage Counting.skips_write _ _ _) ?_)
      rintro v _ ⟨-, rfl⟩
      exact wp_update_state rfl ⟨rfl, rfl, rfl, hnow⟩ htrack ha

lemma exists_answer (o : Op) : ∃ b, Quiet a r cfg T ⟨o, b⟩ := by
  cases o with
  | ktime_get_ns => exact ⟨0, Nat.zero_le T⟩
  | config_lookup => exact ⟨some cfg, rfl⟩
  | allow_lookup b => exact ⟨none, fun _ => rfl⟩
  | state_lookup b => exact ⟨some r, fun _ => rfl⟩
  | state_locked st p => exact ⟨(.pass, .rx_packets), trivial⟩
  | _ => exact ⟨default, trivial⟩

/-- **A program that is under way** has only held locks under the settings, and one that has
returned has held the lock it passes by. -/
theorem passes_so_far (htrack : has cfg.features FEAT_TRACK_STATE = true)
    {l : List (Event calls)} {q : Call Verdict} (h : Trace (xdp_firewall f) l q)
    (hA : ∀ e ∈ l, Quiet a r cfg T e) :
    (∀ e ∈ l.filterMap lock_of, Ruled cfg T e.2.1) ∧
      (q = .ret .pass → SentBy a f → ∃ p, (r, (p, .pass)) ∈ l.filterMap lock_of) := by
  obtain ⟨l', v, hrest, hA'⟩ := Trace.complete exists_answer q
  have hall : ∀ e ∈ l ++ l', Quiet a r cfg T e := fun e he =>
    (List.mem_append.mp he).elim (hA e) (hA' e)
  obtain ⟨hruled, hlocked⟩ := (h.append hrest).wp hall (wp_xdp_firewall htrack f)
  rw [notes_locks, List.nil_append, List.filterMap_append] at hruled hlocked
  refine ⟨fun e he => hruled e (List.mem_append_left _ he), fun hq hf => ?_⟩
  subst hq
  obtain ⟨rfl, hret⟩ := trace_ret.mp hrest
  cases hret
  obtain ⟨p, hp⟩ := hlocked rfl hf
  exact ⟨p, by simpa using hp⟩

end

/-! ### The packets the entry has counted -/

/-- The packets of `ps`, each with the verdict it leaves the locked section with. -/
def decided (st : SrcState) : List Pending → List Counted
  | [] => []
  | p :: ps => (p, (locked p st).2.1) :: decided (locked p st).1 ps

lemma decided_append (st : SrcState) (ps : List Pending) (p : Pending) :
    decided st (ps ++ [p]) = decided st ps ++ [(p, (locked p (after st ps)).2.1)] := by
  induction ps generalizing st with
  | nil => rfl
  | cons q ps ih => exact congrArg _ (ih _)

lemma after_append (st : SrcState) (ps : List Pending) (p : Pending) :
    after st (ps ++ [p]) = (locked p (after st ps)).1 := by
  induction ps generalizing st with
  | nil => rfl
  | cons q ps ih => exact ih _

lemma map_fst_decided (st : SrcState) (ps : List Pending) : (decided st ps).map Prod.fst = ps := by
  induction ps generalizing st with
  | nil => rfl
  | cons q ps ih => exact congrArg _ (ih _)

/-- With the limiter on, what passes is what the bucket lets through. -/
lemma countP_decided {cfg : FwConfig} {T : ℕ} (hlimit : has cfg.features FEAT_RATELIMIT = true)
    (hrate : 0 < cfg.rate_pps) (ps : List Pending) (hps : ∀ p ∈ ps, Ruled cfg T p) (st : SrcState) :
    (decided st ps).countP (fun c => c.2 = .pass) ≤ passed st ps := by
  induction ps generalizing st with
  | nil => exact Nat.zero_le _
  | cons p ps ih =>
    obtain ⟨hp, hps⟩ := List.forall_mem_cons.mp hps
    have hone : (if (locked p st).2.1 = .pass then 1 else 0) ≤
        (limited p && decide ((locked p st).2.1 = .pass)).toNat := by
      split_ifs with hv
      · have hverdict : p.verdict = .pass := by
          rcases locked_verdict p st with h | ⟨-, h⟩
          · rw [h] at hv
            exact hv
          · rw [h] at hv
            cases hv
        have hpos : decide (p.rate > 0) = true := decide_eq_true (hp.rate ▸ hrate)
        have hlimited : limited p = true := by
          rw [limited, hverdict, hp.feat, hlimit, hpos]
          rfl
        simp [hlimited, hv]
      · exact Nat.zero_le _
    rw [decided, passed, List.countP_cons]
    have hrest := ih hps (locked p st).1
    simp only [decide_eq_true_eq] at hrest ⊢
    omega

/-! ### Runs -/

variable {ι : Type} [DecidableEq ι] {cpu : ι → Fin n}

/-- What all others may do until `T`: anything to the blocklist, the port rules and the counters,
to the allowlist but cover `a`, and to the entries but make one or delete that of `a`. -/
structure Leaves (a : Addr) (T : ℕ) (w w' : World n) : Prop where
  deletes : OnlyDeletes w w'
  entry : w'.srcstate.find a = w.srcstate.find a
  config : w'.config = w.config
  allowlist : (∀ k ∈ w.allowlist, ¬ covers k a) → ∀ k ∈ w'.allowlist, ¬ covers k a
  clock : w'.clock.toNat ≤ T

/-- The operations of packets. -/
def PoolOp (o : Op) : Prop := Atomic.PacketOp o ∨ ∃ b st, o = .state_insert b st

lemma under_pool (A : Event calls → Prop) {cfg : FwConfig}
    (hcfg : ∀ c, A ⟨.config_lookup, c⟩ → c = some cfg) (f : Frame) :
    Under A PoolOp (xdp_firewall f) := by
  refine ⟨Or.inl .ktime_get_ns, fun now _ => ?_⟩
  exact Atomic.under_rest (fun o ho _ => Or.inl ho.1) now hcfg fun _ ip _ =>
    ⟨fun _ st => Or.inr ⟨ip.saddr, st, rfl⟩, fun st _ p => Or.inl (.state_locked st p)⟩

/-- The place of the entry, the settings and the allowlist, as far as they matter to `a`. -/
structure Holds (a : Addr) (r : ℕ) (cfg : FwConfig) (w : World n) : Prop where
  config : w.config = cfg
  entry : w.srcstate.find a = some r
  allowlist : ∀ k ∈ w.allowlist, ¬ covers k a

lemma Holds.leaves {a : Addr} {r : ℕ} {cfg : FwConfig} {T : ℕ} {w w' : World n}
    (h : Holds a r cfg w) (hw : Leaves a T w w') : Holds a r cfg w' :=
  ⟨hw.config.trans h.config, hw.entry.trans h.entry, hw.allowlist h.allowlist⟩

lemma holds_exec (cpu : Fin n) {a : Addr} {r : ℕ} {cfg : FwConfig} {w : World n} {o : Op}
    (ho : PoolOp o) (h : Holds a r cfg w) : Holds a r cfg (exec cpu w o).2 := by
  rcases ho with ho | ⟨b, st, rfl⟩
  · rw [Atomic.exec_after cpu w ho]
    refine ⟨h.config, (Atomic.find_states_after o w.srcstate a).trans h.entry, fun k hk => ?_⟩
    exact h.allowlist k ((Atomic.alike_allow_after o w.allowlist).mem_iff.mp hk)
  · refine ⟨h.config, ?_, h.allowlist⟩
    change (insert_noexist w.srcstate b st).2.find a = some r
    unfold insert_noexist
    split_ifs with hfull
    · exact h.entry
    · have hne : a ≠ b := by
        rintro rfl
        rw [h.entry] at hfull
        exact hfull (Or.inl rfl)
      exact (RefMap.find_insert_ne _ _ hne).trans h.entry

/-- The answers to a packet. -/
lemma quiet_exec (cpu : Fin n) {a : Addr} {r : ℕ} {cfg : FwConfig} {w : World n} {T : ℕ}
    (h : Holds a r cfg w) (hT : w.clock.toNat ≤ T) (o : Op) :
    Quiet a r cfg T ⟨o, (exec cpu w o).1⟩ := by
  cases o with
  | ktime_get_ns => exact hT
  | config_lookup => exact congrArg some h.config
  | allow_lookup b =>
    rintro rfl
    exact find_none.mpr h.allowlist
  | state_lookup b =>
    rintro rfl
    exact h.entry
  | _ => trivial

section

variable {a : Addr} {r : ℕ} {T : ℕ} {frames : ι → Frame} {w w' : World n} {q : ι → Call Verdict}
  {tr : Turns calls (World n) Verdict ι} {st0 : SrcState}

lemma quiet_run (h : Path (turn fun i => kernel (Leaves a T) (cpu i))
      (w, fun i => xdp_firewall (frames i)) tr (w', q)) (hw : Holds a r w.config w) :
    ∀ x ∈ tr, Quiet a r w.config T x.ev.2 := by
  have hrely := rely (I := Holds a r w.config) h
    (fun x _ b t hI hG hx => ?_) hw fun i => under_pool (Quiet a r w.config T) (fun _ hc => hc) _
  · exact fun x hx => (hrely.2.2 x hx).1
  · obtain ⟨w1, hleaves, hexec⟩ := hx
    have hI1 := hI.leaves hleaves
    have hans := quiet_exec (cpu x.ev.1) hI1 hleaves.clock x.ev.2.1
    have hpost := holds_exec (cpu x.ev.1) hG hI1
    rw [hexec] at hans hpost
    exact ⟨hans, hpost⟩

/-- The entry is what the packets it has counted have made of it. -/
def Kept (r : ℕ) (st0 : SrcState) (tr : Turns calls (World n) Verdict ι) (w : World n) : Prop :=
  ∃ ps, (counted r tr).map Prod.snd = decided st0 ps ∧ w.srcstate.deref r = some (after st0 ps)

omit [DecidableEq ι] in
lemma kept_leaves (h : Kept r st0 tr w) (hw : Leaves a T w w') : Kept r st0 tr w' := by
  obtain ⟨ps, hps, hcell⟩ := h
  refine ⟨ps, hps, ?_⟩
  unfold RefMap.deref at hcell ⊢
  rwa [hw.deletes.1]

omit [DecidableEq ι] in
lemma kept_step {x : Trans (Pool calls (World n) Verdict ι) (ι × Event calls)}
    (hx : Change w.srcstate x.ev.2 w'.srcstate) (h : Kept r st0 tr w) :
    Kept r st0 (tr ++ [x]) w' := by
  obtain ⟨ps, hps, hcell⟩ := h
  generalize hev : x.ev.2 = e at hx
  generalize hm : w'.srcstate = m' at hx
  cases hx with
  | none hl =>
    rw [← hev] at hl
    exact ⟨ps, by rw [counted_of_no_lock hl, hps], by rw [hm, hcell]⟩
  | insert b st c =>
    have hl : lock_of x.ev.2 = none := by rw [hev]; rfl
    have hlt : r < w.srcstate.heap.length := (List.getElem?_eq_some_iff.mp hcell).1
    refine ⟨ps, by rw [counted_of_no_lock hl, hps], ?_⟩
    rw [hm, ← hcell]
    exact List.getElem?_append_left hlt
  | erase b c =>
    have hl : lock_of x.ev.2 = none := by rw [hev]; rfl
    exact ⟨ps, by rw [counted_of_no_lock hl, hps], by rw [hm]; exact hcell⟩
  | locked r' p st hst =>
    have hl : lock_of x.ev.2 = some (r', (p, (locked p st).2.1)) := by rw [hev]; rfl
    by_cases hr : r' = r
    · subst hr
      rw [hcell] at hst
      cases hst
      refine ⟨ps ++ [p], ?_, ?_⟩
      · rw [counted_locked hl, if_pos rfl, List.map_append, hps, decided_append]
        rfl
      · rw [hm, RefMap.deref_set _ hcell, after_append]
    · refine ⟨ps, ?_, ?_⟩
      · rw [counted_locked hl, if_neg hr, List.append_nil, hps]
      · rw [hm, RefMap.deref_set_ne _ _ hr, hcell]
  | dangling r' p b hst =>
    have hl : lock_of x.ev.2 = some (r', (p, b.1)) := by rw [hev]; rfl
    have hr : r' ≠ r := by
      rintro rfl
      rw [hcell] at hst
      cases hst
    exact ⟨ps, by rw [counted_locked hl, if_neg hr, List.append_nil, hps], by rw [hm, hcell]⟩

lemma kept_run (h : Path (turn fun i => kernel (Leaves a T) (cpu i))
      (w, fun i => xdp_firewall (frames i)) tr (w', q)) (hcell : w.srcstate.deref r = some st0) :
    Kept r st0 tr w' := by
  generalize hc : (w, fun i => xdp_firewall (frames i)) = c at h
  generalize hc' : (w', q) = c' at h
  obtain rfl : w' = c'.1 := congrArg Prod.fst hc'
  clear hc'
  induction h with
  | nil =>
    subst hc
    exact ⟨[], rfl, hcell⟩
  | @snoc tr t u e _ he ih =>
    obtain ⟨k, -, ⟨w1, hleaves, hexec⟩, -⟩ := he
    have hchange := change_exec (cpu e.1) w1 e.2.1
    rw [hexec] at hchange
    exact kept_step (x := ⟨t, e, u⟩) hchange (kept_leaves ih hleaves)

/-- A lock a program has held is counted. -/
lemma counted_of_own {i : ι} {c : Counted} (h : (r, c) ∈ (own i tr).filterMap lock_of) :
    (i, c) ∈ counted r tr := by
  obtain ⟨e, he, hlock⟩ := List.mem_filterMap.mp h
  obtain ⟨x, hx, hxe⟩ := mem_own.mp he
  refine List.mem_filterMap.mpr ⟨x, hx, ?_⟩
  rw [hxe, hlock, Option.bind_some, if_pos rfl]

lemma own_quiet (h : Path (turn fun i => kernel (Leaves a T) (cpu i))
      (w, fun i => xdp_firewall (frames i)) tr (w', q)) (hw : Holds a r w.config w) (i : ι) :
    ∀ e ∈ own i tr, Quiet a r w.config T e := by
  intro e he
  obtain ⟨x, hx, hxe⟩ := mem_own.mp he
  have hA := quiet_run h hw x hx
  rw [hxe] at hA
  exact hA

/-- All packets of the run are under its settings. -/
lemma ruled_run (h : Path (turn fun i => kernel (Leaves a T) (cpu i))
      (w, fun i => xdp_firewall (frames i)) tr (w', q)) (hw : Holds a r w.config w)
    (htrack : has w.config.features FEAT_TRACK_STATE = true) :
    ∀ c ∈ (counted r tr).map Prod.snd, Ruled w.config T c.1 := by
  intro c hc
  obtain ⟨⟨i, c'⟩, he, rfl⟩ := List.mem_map.mp hc
  exact (passes_so_far htrack (own_trace h i) (own_quiet h hw i)).1 _ (lock_of_own he)

/-- Every packet of `a` that has passed is counted by the entry, once. -/
lemma card_passed_le [Fintype ι] (h : Path (turn fun i => kernel (Leaves a T) (cpu i))
      (w, fun i => xdp_firewall (frames i)) tr (w', q)) (hw : Holds a r w.config w)
    (htrack : has w.config.features FEAT_TRACK_STATE = true) :
    (Finset.univ.filter fun i => (q i).result = some .pass ∧ Isolation.sent_by a (frames i)).card ≤
      ((counted r tr).map Prod.snd).countP (fun c => c.2 = .pass) := by
  have hsub : (Finset.univ.filter fun i =>
      (q i).result = some .pass ∧ Isolation.sent_by a (frames i)) ⊆
        (((counted r tr).filter fun e => e.2.2 = .pass).map Prod.fst).toFinset := by
    intro i hi
    obtain ⟨hv, hf⟩ := (Finset.mem_filter.mp hi).2
    have hlocked := (passes_so_far htrack (own_trace h i) (own_quiet h hw i)).2
    obtain ⟨p, hp⟩ := hlocked (result_eq_some.mp hv) (Isolation.sent_by_iff.mp hf)
    rw [List.mem_toFinset, List.mem_map]
    exact ⟨(i, (p, .pass)), List.mem_filter.mpr ⟨counted_of_own hp, by simp⟩, rfl⟩
  calc _ ≤ (((counted r tr).filter fun e => e.2.2 = .pass).map Prod.fst).toFinset.card :=
        Finset.card_le_card hsub
    _ ≤ (((counted r tr).filter fun e => e.2.2 = .pass).map Prod.fst).length :=
        List.toFinset_card_le _
    _ = _ := by
        rw [List.length_map, List.countP_map, List.countP_eq_length_filter]
        rfl

/-- What the entry has counted is what its packets have made of it, in the order of the lock. -/
lemma decided_run (h : Path (turn fun i => kernel (Leaves a T) (cpu i))
      (w, fun i => xdp_firewall (frames i)) tr (w', q)) (hw : Holds a r w.config w)
    (htrack : has w.config.features FEAT_TRACK_STATE = true) (hcell : w.srcstate.deref r = some st0) :
    ∃ ps, (counted r tr).map Prod.snd = decided st0 ps ∧ ∀ p ∈ ps, Ruled w.config T p := by
  obtain ⟨ps, hps, -⟩ := kept_run h hcell
  refine ⟨ps, hps, fun p hp => ?_⟩
  rw [← map_fst_decided st0 ps] at hp
  obtain ⟨c, hc, rfl⟩ := List.mem_map.mp hp
  exact ruled_run h hw htrack c (hps ▸ hc)

/-- **What a source can get past the firewall** until `T` is one burst, and one packet for every
`10⁹ / rate` nanoseconds since its bucket was last refilled, on all CPUs together. -/
theorem source_share [Fintype ι] (h : Path (turn fun i => kernel (Leaves a T) (cpu i))
      (w, fun i => xdp_firewall (frames i)) tr (w', q)) (hrate : RateOk w.config.rate_pps)
    (hburst : w.config.burst_pkts.toNat + w.config.rate_pps.toNat < 2 ^ 64)
    (htrack : has w.config.features FEAT_TRACK_STATE = true)
    (hlimit : has w.config.features FEAT_RATELIMIT = true)
    (hallow : ∀ k ∈ w.allowlist, ¬ covers k a) {st : SrcState}
    (hst : w.srcstate.get a = some st)
    (htok : st.tokens.toNat + w.config.rate_pps.toNat < 2 ^ 64) :
    (Finset.univ.filter fun i => (q i).result = some .pass ∧ Isolation.sent_by a (frames i)).card ≤
      RateBound.allowance w.config.rate_pps.toNat w.config.burst_pkts.toNat
        st.last_refill_ns.toNat T := by
  obtain ⟨r, hr, hcell⟩ := Option.bind_eq_some_iff.mp hst
  have hcard := card_passed_le h ⟨rfl, hr, hallow⟩ htrack
  obtain ⟨ps, hps, hpsruled⟩ := decided_run h ⟨rfl, hr, hallow⟩ htrack hcell
  rw [hps] at hcard
  have hpos : 0 < w.config.rate_pps := BitVec.lt_def.mpr hrate.1
  have hsettings : Settings w.config.rate_pps w.config.burst_pkts ps :=
    fun p hp _ => ⟨(hpsruled p hp).rate, (hpsruled p hp).burst⟩
  have hnow : ∀ now ∈ readings ps, now ≤ T := by
    intro now hn
    obtain ⟨p, hp, rfl⟩ := List.mem_map.mp hn
    exact (hpsruled p (List.mem_of_mem_filter hp)).now
  calc _ ≤ passed st ps := hcard.trans (countP_decided hlimit hpos ps hpsruled st)
    _ = (TokenBucket.run 1000000000 w.config.rate_pps.toNat w.config.burst_pkts.toNat (bucket st)
          (readings ps)).2 := passed_eq_run hrate hburst ps hsettings st htok
    _ ≤ _ := passed_le (by norm_num) (hrate.2.trans (by norm_num)) hrate.1 (readings ps) hnow _

end

/-- A source with one token, which is all it can hold. -/
def one_at_a_time : World 2 :=
  { Atomic.one_token with config := { default_config with rate_pps := 1000, burst_pkts := 1 } }

/-- Two of its packets at the same moment. -/
def at_once : Turns calls (World 2) Verdict (Fin 2) × Pool calls (World 2) Verdict (Fin 2) :=
  play (fun i => exec i) (List.replicate 9 0 ++ List.replicate 11 1 ++ List.replicate 2 0)
    (one_at_a_time, fun _ => xdp_firewall dns_query)

theorem source_share_at_once :
    (Finset.univ.filter fun i => (at_once.2.2 i).result = some .pass ∧
      Isolation.sent_by 0x0A000007 dns_query).card ≤ RateBound.allowance 1000 1 0 0 := by
  have hrun : Path (turn fun i => kernel Eq i) (one_at_a_time, fun _ : Fin 2 => xdp_firewall dns_query)
      at_once.1 at_once.2 := path_play (fun _ => rfl) _ _ _
  have hclock : ∀ x ∈ at_once.1, x.pre.1.clock.toNat ≤ 0 := by decide +kernel
  have hleaves : Path (turn fun i => kernel (Leaves 0x0A000007 0) i)
      (one_at_a_time, fun _ : Fin 2 => xdp_firewall dns_query) at_once.1 at_once.2 := by
    refine (hrun.strengthen (P := fun s _ _ => s.1.clock.toNat ≤ 0) hclock).mono ?_
    rintro s e t ⟨⟨k, hk, ⟨w1, rfl, hexec⟩, ht⟩, hT⟩
    exact ⟨k, hk, ⟨s.1, ⟨⟨rfl, fun _ _ h => h⟩, rfl, rfl, fun h => h, hT⟩, hexec⟩, ht⟩
  have hst : one_at_a_time.srcstate.get 0x0A000007 = some ⟨1, 0, 0, 9, 900, 0, 0, 0, 0, 9, 0, 0⟩ := by
    decide +kernel
  exact source_share hleaves ⟨by decide, by decide⟩ (by decide) (by decide) (by decide)
    (fun k hk => absurd hk (AList.notMem_empty k)) hst (by decide)

end Lookout.Guarantee

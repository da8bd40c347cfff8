import Lookout.Walks
import Lookout.Windows

/-!
What the strikes of a source say of its recent windows.

The blocker keeps one number for a source and changes it on six paths. It is the height of the walk
that goes up with every flagged window of the source and down with every clean one, since the
number was last cleared; so a source that has enough strikes was flagged so much more often than
not in some run of its last windows.
-/

namespace Lookout.Strikes

open Lookout.Effects Lookout.Effects.Prog Lookout.Runs Lookout.Dicts Lookout.Common Lookout.Kernel
open Lookout.Firewall Lookout.Policy Lookout.Walks Lookout.Windows

/-! ### One source -/

variable {b b' : Blocker} {now : ℚ} {issued issued' : ℕ} {ip : Addr} {reason : Option String}
variable {l : List (Event calls)}

lemma lookup_strike (b : Blocker) (ip a : Addr) :
    (b.strike ip).strikes.lookup a =
      if a = ip then some (b.strikes.getD ip 0 + 1) else b.strikes.lookup a := by
  unfold Blocker.strike
  split_ifs with ha
  · rw [ha, AList.lookup_insert]
  · exact AList.lookup_insert_ne ha

/-- `self.strikes.pop(ip)`, of a source that has just got a strike. -/
lemma lookup_pop (b : Blocker) (ip a : Addr) :
    ((b.strike ip).strikes.erase ip).lookup a = if a = ip then none else b.strikes.lookup a := by
  split_ifs with ha
  · rw [ha, AList.lookup_erase]
  · rw [AList.lookup_erase_ne ha, lookup_strike, if_neg ha]

/-- The strikes after a window without a clearing, of a source that had `c`. -/
def after (c : ℕ) (flagged : Bool) : Option ℕ :=
  if flagged then some (c + 1) else if 1 < c then some (c - 1) else none

lemma lookup_decay (b : Blocker) (ip a : Addr) :
    (b.decay ip).strikes.lookup a =
      if a = ip then after (b.strikes.getD ip 0) false else b.strikes.lookup a := by
  unfold Blocker.decay after
  rw [if_neg Bool.false_ne_true]
  by_cases hc : b.strikes.getD ip 0 > 1
  · rw [if_pos hc, if_pos hc]
    split_ifs with ha
    · rw [ha, AList.lookup_insert]
    · exact AList.lookup_insert_ne ha
  · rw [if_neg hc, if_neg hc]
    split_ifs with ha
    · rw [ha, AList.lookup_erase]
    · exact AList.lookup_erase_ne ha

/-- The strikes are cleared: the source is found blocked already, found allowlisted, or blocked. -/
def cleared (b b' : Blocker) (ip : Addr) (l : List (Event calls)) : Bool :=
  found_lasting b ip l || found_allowed l || decide (b'.blocks_issued = b.blocks_issued + 1)

/-- **The six paths, on the strikes.** -/
theorem lookup_judged (h : Judged b now issued ip reason l (.ok (b', issued'))) (a : Addr) :
    b'.strikes.lookup a =
      if a = ip then
        if cleared b b' ip l then none else after (b.strikes.getD ip 0) reason.isSome
      else b.strikes.lookup a := by
  have hcounted : ∀ (l : List (Event calls)) (log : List (String × String)),
      cleared b (noted ((b.strike ip).issue ip now) log) ip l = true := by
    intro l log
    unfold cleared
    rw [Bool.or_eq_true, decide_eq_true_iff]
    exact Or.inr rfl
  cases h with
  | clean =>
    have hno : cleared b (b.decay ip) ip [] = false := by
      simp [cleared, found_lasting, found_allowed, Blocker.decay]
    rw [hno, lookup_decay]
    rfl
  | light hs =>
    have hno : cleared b (b.strike ip) ip [] = false := by
      simp [cleared, found_lasting, found_allowed, Blocker.strike]
    rw [hno, lookup_strike]
    rfl
  | @lasting _ time hs hl =>
    have hyes : cleared b ((b.strike ip).forget ip) ip [⟨.time, time⟩] = true := by
      simp [cleared, found_lasting, hl]
    rw [hyes]
    exact lookup_pop b ip a
  | @allowed _ time e localtime log hs hl =>
    have hyes : cleared b (noted ((b.strike ip).forget ip) log) ip
        [⟨.time, time⟩, ⟨.allow_lookup ip, some e⟩, ⟨.strftime, localtime⟩] = true := by
      simp [cleared, found_allowed]
    rw [hyes]
    exact lookup_pop b ip a
  | @capped _ time hs hl hi =>
    have hno : cleared b (b.strike ip) ip [⟨.time, time⟩, ⟨.allow_lookup ip, none⟩] = false := by
      simp [cleared, found_lasting, found_allowed, Blocker.strike, hl]
    rw [hno, lookup_strike]
    rfl
  | dry log hd hs hl hi =>
    rw [hcounted]
    exact lookup_pop b ip a
  | blocked log hd hs hl hi ht =>
    rw [hcounted]
    exact lookup_pop b ip a

/-- A write that fails leaves the source its new strike. -/
lemma lookup_raised {e : PyError} (h : Judged b now issued ip reason l (.error (e, b')))
    (a : Addr) :
    reason.isSome = true ∧ b'.strikes.lookup a =
      if a = ip then after (b.strikes.getD ip 0) reason.isSome else b.strikes.lookup a := by
  cases h with
  | full => exact ⟨rfl, lookup_strike b ip a⟩
  | late => exact ⟨rfl, lookup_strike b ip a⟩

/-- When the blocker counts a block, and what becomes of the cap. -/
lemma counted_judged (h : Judged b now issued ip reason l (.ok (b', issued'))) :
    (b'.blocks_issued = b.blocks_issued + 1 ↔ reason.isSome = true ∧ Struck b ip ∧
      found_lasting b ip l = false ∧ found_allowed l = false ∧ issued < MAX_PER_WINDOW) ∧
    issued' = if b'.blocks_issued = b.blocks_issued + 1 then issued + 1 else issued := by
  cases h with
  | clean => simp [Blocker.decay]
  | light hs => simp [Blocker.strike, hs]
  | lasting hs hl => simp [Blocker.strike, Blocker.forget, found_lasting, hl]
  | allowed log hs hl => simp [Blocker.strike, Blocker.forget, noted, found_allowed]
  | capped hs hl hi => simp [Blocker.strike, hi]
  | dry log hd hs hl hi =>
    simp [Blocker.strike, Blocker.issue, noted, found_allowed, found_lasting, hs, hl, hi]
  | blocked log hd hs hl hi ht =>
    simp [Blocker.strike, Blocker.issue, noted, found_allowed, found_lasting, hs, hl, hi]

/-- In a live session a block that is counted is one that is written. -/
lemma written_judged (hlive : b.dry_run = false)
    (h : Judged b now issued ip reason l (.ok (b', issued'))) :
    b'.blocks_issued = b.blocks_issued + 1 ↔ ∃ bv, (LpmKey.single ip, bv) ∈ written l := by
  cases h with
  | clean => simp [Blocker.decay, written]
  | light hs => simp [Blocker.strike, written]
  | lasting hs hl => simp [Blocker.strike, Blocker.forget, written]
  | allowed log hs hl => simp [Blocker.strike, Blocker.forget, noted, written]
  | capped hs hl hi => simp [Blocker.strike, written]
  | dry log hd hs hl hi => exact absurd (hlive.symm.trans hd) Bool.false_ne_true
  | blocked log hd hs hl hi ht => simp [Blocker.strike, Blocker.issue, noted, written]

/-! ### The windows of a source -/

/-- What a step adds to the windows of `ip` since its strikes were last cleared; the last one
stands first, and a window says whether it flagged the source. -/
def remember (ip : Addr) (h : List Bool) (x : Trans State Ev) : List Bool :=
  match x.ev with
  | .source a reason l =>
    if a = ip then
      if cleared x.pre.blocker x.post.blocker ip l then [] else reason.isSome :: h
    else h
  | .failed a reason _ => if a = ip then reason.isSome :: h else h
  | _ => h

/-- The windows of `ip` since its strikes were last cleared. -/
def history (ip : Addr) (tr : List (Trans State Ev)) : List Bool := tr.foldl (remember ip) []

lemma history_snoc (ip : Addr) (tr : List (Trans State Ev)) (x : Trans State Ev) :
    history ip (tr ++ [x]) = remember ip (history ip tr) x := by
  unfold history
  rw [List.foldl_append]
  rfl

/-- The window of a step, if it is one of `ip`. -/
def verdict (ip : Addr) (x : Trans State Ev) : Option Bool :=
  match x.ev with
  | .source a reason _ => if a = ip then some reason.isSome else none
  | .failed a reason _ => if a = ip then some reason.isSome else none
  | _ => none

/-- All windows of `ip`, the last one first. -/
def verdicts (ip : Addr) (tr : List (Trans State Ev)) : List Bool :=
  (tr.filterMap (verdict ip)).reverse

lemma verdicts_append (ip : Addr) (tr tr' : List (Trans State Ev)) :
    verdicts ip (tr ++ tr') = verdicts ip tr' ++ verdicts ip tr := by
  unfold verdicts
  rw [List.filterMap_append, List.reverse_append]

lemma verdicts_snoc (ip : Addr) (tr : List (Trans State Ev)) (x : Trans State Ev) :
    verdicts ip (tr ++ [x]) = (verdict ip x).toList ++ verdicts ip tr := by
  rw [verdicts_append]
  unfold verdicts
  cases hv : verdict ip x <;> simp [hv]

lemma remember_begins (ip : Addr) {h v : List Bool} (x : Trans State Ev) (hp : h <+: v) :
    remember ip h x <+: (verdict ip x).toList ++ v := by
  unfold remember verdict
  cases x.ev with
  | source a reason l =>
    dsimp only
    split_ifs
    · exact List.nil_prefix
    · exact (List.prefix_cons_inj _).mpr hp
    · exact hp
  | failed a reason l =>
    dsimp only
    split_ifs
    · exact (List.prefix_cons_inj _).mpr hp
    · exact hp
  | _ => exact hp

/-- What is remembered are the last windows. -/
lemma history_begins (ip : Addr) (tr : List (Trans State Ev)) :
    history ip tr <+: verdicts ip tr := by
  induction tr using List.reverseRecOn with
  | nil => exact List.prefix_refl _
  | append_singleton tr x ih =>
    rw [history_snoc, verdicts_snoc]
    exact remember_begins ip x ih

/-! ### Runs -/

/-- What holds all along a run: the strikes of a source are the height of its walk, none are kept
of a source that has none, and the local counter says how many blocks this call has issued. -/
structure Law (tr : List (Trans State Ev)) (s : State) : Prop where
  walk : ∀ ip, s.blocker.strikes.getD ip 0 = height (history ip tr)
  pos : ∀ ip c, s.blocker.strikes.lookup ip = some c → 1 ≤ c
  cap : ∀ k, s.call = some k → k.issued = ((window tr).filter Issues).length

lemma after_height {h : List Bool} {c : ℕ} (f : Bool) (hc : c = height h) :
    (after c f).getD 0 = height (f :: h) := by
  subst hc
  unfold after
  cases f with
  | true => rfl
  | false =>
    rw [if_neg Bool.false_ne_true, height]
    split_ifs
    · rfl
    · rw [Option.getD_none]
      omega

lemma after_pos {c c' : ℕ} {f : Bool} (h : after c f = some c') : 1 ≤ c' := by
  unfold after at h
  split_ifs at h
  · cases h
    omega
  · cases h
    omega

/-- All walks after a window of `ip`, where `c` says whether it clears the strikes. -/
lemma walk_snoc {hist : Addr → List Bool} (c : Addr → Bool) {f : Bool}
    (hlookup : ∀ a, b'.strikes.lookup a =
      if a = ip then if c ip then none else after (b.strikes.getD ip 0) f
      else b.strikes.lookup a)
    (hwalk : ∀ a, b.strikes.getD a 0 = height (hist a)) (a : Addr) :
    b'.strikes.getD a 0 =
      height (if ip = a then if c a then [] else f :: hist a else hist a) := by
  change (b'.strikes.lookup a).getD 0 = _
  rw [hlookup]
  by_cases ha : a = ip
  · subst ha
    rw [if_pos rfl, if_pos rfl]
    split_ifs
    · rfl
    · exact after_height _ (hwalk a)
  · rw [if_neg ha, if_neg (Ne.symm ha)]
    exact hwalk a

lemma pos_snoc (c : Addr → Bool) {f : Bool}
    (hlookup : ∀ a, b'.strikes.lookup a =
      if a = ip then if c ip then none else after (b.strikes.getD ip 0) f
      else b.strikes.lookup a)
    (hpos : ∀ a k, b.strikes.lookup a = some k → 1 ≤ k) (a : Addr) (k : ℕ)
    (h : b'.strikes.lookup a = some k) : 1 ≤ k := by
  rw [hlookup] at h
  split_ifs at h
  · exact after_pos h
  · exact hpos a k h

lemma law_step {tr : List (Trans State Ev)} {s s' : State} {e : Ev} (hlaw : Law tr s)
    (hs : Step s e s') : Law (tr ++ [⟨s, e, s'⟩]) s' := by
  obtain ⟨hwalk, hpos, hcap⟩ := hlaw
  cases hs with
  | begin_call b now vs =>
    refine ⟨fun ip => ?_, hpos, fun k hk => ?_⟩
    · rw [history_snoc]
      exact hwalk ip
    · rw [window_snoc]
      cases hk
      rfl
  | end_call b now issued =>
    refine ⟨fun ip => ?_, hpos, nofun⟩
    rw [history_snoc]
    exact hwalk ip
  | @source b b' now issued issued' ip reason rest l h =>
    have hj := judged_of_trace h
    have hlookup := lookup_judged hj
    refine ⟨fun a => ?_, pos_snoc (fun a => cleared b b' a l) hlookup hpos, fun k hk => ?_⟩
    · rw [history_snoc]
      exact walk_snoc (fun a => cleared b b' a l) hlookup hwalk a
    · cases hk
      rw [window_snoc]
      dsimp only
      rw [List.filter_append, List.length_append, ← hcap _ rfl]
      have hissued := (counted_judged hj).2
      by_cases hi : b'.blocks_issued = b.blocks_issued + 1
      · rw [if_pos hi] at hissued
        simp [Issues, hi, hissued]
      · rw [if_neg hi] at hissued
        simp [Issues, hi, hissued]
  | @failed b b' now issued ip reason rest l err h =>
    have hlookup := fun a => (lookup_raised (judged_of_trace h) a).2
    refine ⟨fun a => ?_, pos_snoc (fun _ => false) hlookup hpos, nofun⟩
    rw [history_snoc]
    exact walk_snoc (fun _ => false) hlookup hwalk a

lemma law_init (d : Bool) : Law [] ⟨Blocker.init d, none⟩ := by
  refine ⟨fun ip => rfl, fun ip c hc => ?_, nofun⟩
  cases hc

/-- What a block takes: the source is flagged, some run of its last windows since the clearing has
`STRIKES` more flagged than clean ones, it is not under a block of the blocker's, not allowlisted,
and the call has not issued all it may. -/
def Due (tr : List (Trans State Ev)) (b : Blocker) (ip : Addr) (reason : Option String)
    (l : List (Event calls)) : Prop :=
  reason.isSome = true ∧ Climbs STRIKES (true :: history ip tr) ∧ found_lasting b ip l = false ∧
    found_allowed l = false ∧ ((window tr).filter Issues).length < MAX_PER_WINDOW

lemma issues_iff_due {tr : List (Trans State Ev)} {x : Trans State Ev} (hlaw : Law tr x.pre)
    (hx : Step x.pre x.ev x.post) (hev : x.ev = .source ip reason l) :
    Issues x ↔ Due tr x.pre.blocker ip reason l := by
  obtain ⟨pre, ev, post⟩ := x
  dsimp only at hlaw hx hev ⊢
  subst hev
  cases hx with
  | source h =>
    have hiff := (counted_judged (judged_of_trace h)).1
    have hclimbs := (le_height_iff (m := STRIKES) (l := true :: history ip tr)).symm
    unfold Issues Due
    rw [hiff, hclimbs, height, ← hlaw.walk ip, ← hlaw.cap _ rfl]
    rfl

/-- **The strikes of a source follow its windows**, whether the session is dry or live. They are
the walk over its windows since the last clearing, a block is issued exactly when one is due, and
none ever for a source whose flagged windows are separated by clean ones. -/
theorem strikes_law {d : Bool} {tr : List (Trans State Ev)} {t : State}
    (h : Path Step ⟨Blocker.init d, none⟩ tr t) :
    Throughout Step ⟨Blocker.init d, none⟩ tr t Law ∧
      (∀ tr1 x tr2 ip reason l, tr = tr1 ++ x :: tr2 → x.ev = .source ip reason l →
        (Issues x ↔ Due tr1 x.pre.blocker ip reason l) ∧
          (d = false → (Issues x ↔ ∃ bv, (LpmKey.single ip, bv) ∈ written l))) ∧
      ∀ ip, Separated (verdicts ip tr) →
        ∀ x ∈ tr, ∀ reason l, x.ev = .source ip reason l → ¬ Issues x := by
  have hlaw : Throughout Step ⟨Blocker.init d, none⟩ tr t Law :=
    throughout_of_step (law_init d) fun tr1 m e m' hm he _ => law_step hm he
  have hdue : ∀ tr1 x tr2 ip reason l, tr = tr1 ++ x :: tr2 → x.ev = .source ip reason l →
      (Issues x ↔ Due tr1 x.pre.blocker ip reason l) := by
    rintro tr1 x tr2 ip reason l rfl hev
    obtain ⟨m, h1, h2⟩ := h.cut
    obtain ⟨rfl, hstep, -⟩ := h2.uncons
    exact issues_iff_due (hlaw tr1 (x :: tr2) x.pre rfl h1 h2) hstep hev
  refine ⟨hlaw, fun tr1 x tr2 ip reason l htr hev => ⟨hdue _ _ _ _ _ _ htr hev, fun hd => ?_⟩, ?_⟩
  · have hx : x ∈ tr := by rw [htr]; simp
    have hpre : x.pre.blocker.dry_run = false := path_live h hd hx
    have hstep := h.step_of_mem hx
    obtain ⟨pre, ev, post⟩ := x
    dsimp only at hev hstep hpre ⊢
    subst hev
    cases hstep with
    | source hs => exact written_judged hpre (judged_of_trace hs)
  · intro ip hsep x hx reason l hev hissues
    obtain ⟨tr1, tr2, rfl⟩ := List.append_of_mem hx
    obtain ⟨hflag, hclimbs, -⟩ := (hdue tr1 x tr2 ip reason l rfl hev).mp hissues
    have hnow : verdict ip x = some true := by
      unfold verdict
      rw [hev, ← hflag]
      simp
    have hbegins : true :: history ip tr1 <+: true :: verdicts ip tr1 :=
      (List.prefix_cons_inj _).mpr (history_begins ip tr1)
    have hends : true :: verdicts ip tr1 <:+ verdicts ip (tr1 ++ x :: tr2) := by
      have hlast : verdicts ip (tr1 ++ [x]) = true :: verdicts ip tr1 := by
        rw [verdicts_snoc, hnow]
        rfl
      rw [List.append_cons, verdicts_append, hlast]
      exact List.suffix_append _ _
    have hchain : Separated (true :: history ip tr1) :=
      List.IsChain.infix hsep (hbegins.isInfix.trans hends.isInfix)
    have hlow := (height_separated hchain).1
    have hhigh := le_height_iff.mpr hclimbs
    have hstrikes : STRIKES = 2 := rfl
    omega

/-- A window that flags one source, and the dry session after it. -/
theorem strikes_law_flood :
    ∃ tr t, Path Step ⟨Blocker.init true, none⟩ tr t ∧ t.blocker.strikes.getD 7 0 = 1 ∧
      height (history 7 tr) = 1 := by
  have htrace := trace_events (f := exec (0 : Fin 1))
    ((Blocker.init true).update (AList.insert 7 (some "syn flood") ∅)) (World.loaded 1)
  obtain ⟨tr, htr, -⟩ := path_of_trace htrace
  have hwalk := ((strikes_law htr).1.last htr).walk 7
  exact ⟨tr, _, htr, by decide, hwalk.symm.trans (by decide)⟩

end Lookout.Strikes

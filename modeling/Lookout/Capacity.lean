import Lookout.Control
import Lookout.Sessions
import Mathlib.Tactic.Linarith

/-!
How many entries the controller keeps on the blocklist.

A source's entry stays until a cleanup finds that its block has ended, and a source that comes
back is blocked for five minutes, then for fifteen. So the entries of a controller that is alone
on the blocklist are the sources whose latest block ends after the latest cleanup.
-/

namespace Lookout.Capacity

open Lookout.Effects Lookout.Effects.Prog Lookout.Runs Lookout.Dicts Lookout.Lpm Lookout.Common
open Lookout.Kernel Lookout.Firewall Lookout.Policy Lookout.Control Lookout.Sessions

variable {n : ℕ} {cpu : Fin n}

/-! ### The history of the blocks -/

/-- When the latest block of each source ends, and when the latest cleanup was. -/
structure Ledger where
  ends : Dict Addr ℕ
  cleaned : ℕ

namespace Ledger

def empty : Ledger := ⟨∅, 0⟩

/-- The sources whose latest block ends after the latest cleanup. -/
def running (l : Ledger) : Dict Addr ℕ :=
  l.ends.filterMap fun _ e => if l.cleaned < e then some e else none

/-- When a block of `ip` ends that is issued now. -/
def ending (b : Blocker) (ip : Addr) (w : World n) : ℕ :=
  w.clock.toNat + b.duration ip * 1000000000

/-- A call that goes on to a block, and a cleanup, are written down. -/
def record (l : Ledger) (x : Trans (Session n) Ev) : Ledger :=
  match x.ev, x.pre.call with
  | .source ip reason, some k =>
    if Blocks x.pre.blocker x.pre.world k.issued ip reason then
      { l with ends := l.ends.insert ip (ending x.pre.blocker ip x.pre.world) }
    else l
  | .clean_up, _ => { l with cleaned := x.pre.world.clock.toNat }
  | _, _ => l

lemma lookup_running (l : Ledger) (ip : Addr) :
    l.running.lookup ip = (l.ends.lookup ip).bind fun e => if l.cleaned < e then some e else none :=
  Dict.lookup_filterMap _ _ _

/-- A block that ends in the future is running. -/
lemma lookup_running_insert (l : Ledger) {ip : Addr} {e : ℕ} (h : l.cleaned < e) (a : Addr) :
    ({ l with ends := l.ends.insert ip e } : Ledger).running.lookup a =
      if a = ip then some e else l.running.lookup a := by
  rw [lookup_running, lookup_running]
  by_cases ha : a = ip
  · subst ha
    simp [h]
  · simp [ha]

end Ledger

lemma single_injective : Function.Injective LpmKey.single := by
  intro a b h
  cases h
  rfl

/-- What the blocklist holds, as the ledger has it. -/
structure Tracks (l : Ledger) (w : World n) : Prop where
  cleaned : l.cleaned ≤ w.clock.toNat
  entries : ∀ ip, (w.blocklist.lookup (.single ip)).map (fun bv => bv.expires_ns.toNat) =
    l.running.lookup ip
  keys : ∀ k ∈ w.blocklist, ∃ ip, k = .single ip

namespace Tracks

variable {l : Ledger} {w : World n}

lemma mem_iff (h : Tracks l w) (ip : Addr) : .single ip ∈ w.blocklist ↔ ip ∈ l.running := by
  rw [← AList.lookup_isSome, ← AList.lookup_isSome, ← h.entries ip, Option.isSome_map]

/-- **The ledger knows the size of the blocklist.** -/
theorem length (h : Tracks l w) : w.blocklist.keys.length = l.running.keys.length := by
  have hnodup : (l.running.keys.map LpmKey.single).Nodup :=
    l.running.keys_nodup.map single_injective
  have hperm : w.blocklist.keys.Perm (l.running.keys.map LpmKey.single) := by
    refine (List.perm_ext_iff_of_nodup w.blocklist.keys_nodup hnodup).mpr fun k => ?_
    rw [← AList.mem_keys, List.mem_map]
    constructor
    · intro hk
      obtain ⟨ip, rfl⟩ := h.keys k hk
      exact ⟨ip, AList.mem_keys.mp ((h.mem_iff ip).mp hk), rfl⟩
    · rintro ⟨ip, hip, rfl⟩
      exact (h.mem_iff ip).mpr (AList.mem_keys.mpr hip)
  rw [hperm.length_eq, List.length_map]

/-- There is room for a block of `ip` when it runs already, or fewer than the map holds do. -/
lemma room_iff (h : Tracks l w) (ip : Addr) :
    Room w (.single ip) ↔ ip ∈ l.running ∨ l.running.keys.length < MAX_BLOCKLIST := by
  unfold Room
  rw [h.mem_iff, h.length]

lemma still {w' : World n} (h : Tracks l w) (hw : Still w w') : Tracks l w' := by
  obtain ⟨hclock, halike⟩ := hw
  refine ⟨h.cleaned.trans (BitVec.le_def.mp hclock), fun ip => ?_, fun k hk => ?_⟩
  · have hmap := congrArg (Option.map BitVec.toNat) (halike (.single ip))
    rw [Option.map_map, Option.map_map] at hmap
    exact hmap.trans (h.entries ip)
  · exact h.keys k (halike.mem_iff.mp hk)

lemma put {b : Blocker} {ip : Addr} (h : Tracks l w) (ht : InTime b ip w) :
    Tracks { l with ends := l.ends.insert ip (Ledger.ending b ip w) }
      (put w (.single ip) (entry b ip w)) := by
  have hd := duration_pos b ip
  have hend : l.cleaned < Ledger.ending b ip w := by
    have hc := h.cleaned
    unfold Ledger.ending
    omega
  refine ⟨h.cleaned, fun a => ?_, fun k hk => ?_⟩
  · rw [Ledger.lookup_running_insert l hend]
    by_cases ha : a = ip
    · subst ha
      have hlookup : (Sessions.put w (.single a) (entry b a w)).blocklist.lookup (.single a) =
        some (entry b a w) := AList.lookup_insert _
      rw [hlookup, if_pos rfl]
      exact congrArg some (entry_expires ht)
    · have hne : LpmKey.single a ≠ .single ip := fun hab => ha (single_injective hab)
      have hlookup : (Sessions.put w (.single ip) (entry b ip w)).blocklist.lookup (.single a) =
        w.blocklist.lookup (.single a) := AList.lookup_insert_ne hne
      rw [hlookup, if_neg ha]
      exact h.entries a
  · rcases (AList.mem_insert _).mp hk with rfl | hk
    · exact ⟨ip, rfl⟩
    · exact h.keys k hk

lemma cleanup (h : Tracks l w) :
    Tracks { l with cleaned := w.clock.toNat } (run (exec cpu) remove_expired_blocks w).2 := by
  rw [run_remove_expired_blocks]
  refine ⟨le_rfl, fun ip => ?_, fun k hk => ?_⟩
  · have he := h.entries ip
    have hc := h.cleaned
    rw [Ledger.lookup_running] at he ⊢
    dsimp only
    rw [lookup_swept]
    cases hends : l.ends.lookup ip with
    | none =>
      rw [hends, Option.bind_none, Option.map_eq_none_iff] at he
      rw [he]
      rfl
    | some e =>
      rw [hends, Option.bind_some] at he
      rw [Option.bind_some]
      by_cases hr : l.cleaned < e
      · rw [if_pos hr] at he
        obtain ⟨bv, hbv, hexp⟩ := Option.map_eq_some_iff.mp he
        have hexpired : expired w.clock.toNat bv = !decide (w.clock.toNat < e) := by
          unfold expired
          rw [hexp, ← decide_not]
          exact decide_eq_decide.mpr (by omega)
        rw [hbv, Option.filter, hexpired, Bool.not_not]
        by_cases hlate : w.clock.toNat < e
        · simp [hlate, hexp]
        · simp [hlate]
      · rw [if_neg hr, Option.map_eq_none_iff] at he
        rw [he, if_neg (by omega)]
        rfl
  · obtain ⟨bv, hbv⟩ := lookup_of_mem hk
    rw [lookup_swept] at hbv
    exact h.keys k (mem_of_lookup (Option.filter_eq_some_iff.mp hbv).1)

end Tracks

/-! ### Runs -/

/-- The history of a run. -/
def ledger (tr : List (Trans (Session n) Ev)) : Ledger := tr.foldl Ledger.record .empty

/-- **One event keeps the ledger true to the blocklist.** -/
theorem tracks_step {l : Ledger} {s s' : Session n} {ev : Ev} (hlive : s.blocker.dry_run = false)
    (h : Step cpu Still Still s ev s') (ht : Tracks l s.world) :
    Tracks (l.record ⟨s, ev, s'⟩) s'.world := by
  cases h with
  | begin_call w b => exact ht
  | @source w w' b b' k ip reason issued h =>
    unfold Ledger.record
    cases outcome_of_run hlive h with
    | idle hidle =>
      dsimp only
      rw [if_neg hidle]
      exact ht
    | blocked hb hin =>
      dsimp only
      rw [if_pos hb]
      exact ht.put hin
  | failed h => cases outcome_of_run hlive h <;> exact ht
  | end_call w b k => exact ht
  | clean_up w b => exact ht.cleanup
  | inside b k h => exact ht.still h
  | outside b log h => exact ht.still h

/-- At every point of a run the ledger is true to the blocklist. -/
lemma tracks_throughout {w : World n} {b : Blocker} (hlive : b.dry_run = false)
    (hempty : w.blocklist = ∅) {tr : List (Trans (Session n) Ev)} {s' : Session n} :
    Throughout (Step cpu Still Still) ⟨w, b, none⟩ tr s' fun tr1 s =>
      s.blocker.dry_run = false ∧ Tracks (ledger tr1) s.world := by
  refine throughout_of_step ⟨hlive, ?_⟩ ?_
  · refine ⟨Nat.zero_le _, fun ip => ?_, fun k hk => ?_⟩
    · rw [hempty]; rfl
    · rw [hempty] at hk
      exact absurd hk (AList.notMem_empty k)
  · rintro tr1 s ev s1 ⟨hl, ht⟩ hstep -
    refine ⟨step_live hstep hl, ?_⟩
    rw [ledger, List.foldl_append]
    exact tracks_step hl hstep ht

/-- When a source is to be blocked that has no running block, fewer sources than the map holds
entries have one. -/
def Fits (l : Ledger) (x : Trans (Session n) Ev) : Prop :=
  ∀ ip reason k, (x.ev = .source ip reason ∨ ∃ e, x.ev = .failed ip reason e) →
    x.pre.call = some k → Blocks x.pre.blocker x.pre.world k.issued ip reason →
    InTime x.pre.blocker ip x.pre.world →
      ip ∈ l.running ∨ l.running.keys.length < MAX_BLOCKLIST

/-- A block fails for want of room exactly where it does not fit. -/
lemma fits_iff {l : Ledger} {s s' : Session n} {ev : Ev} (hlive : s.blocker.dry_run = false)
    (h : Step cpu Still Still s ev s') (ht : Tracks l s.world) :
    (∀ ip reason, ev ≠ .failed ip reason blocklist_full) ↔ Fits l ⟨s, ev, s'⟩ := by
  cases h with
  | @source w w' b b' k ip reason issued h =>
    refine ⟨fun _ => ?_, fun _ _ _ hev => by cases hev⟩
    rintro ip' reason' k' (hev | ⟨e, hev⟩) hk hb -
    · cases hev
      cases hk
      cases outcome_of_run hlive h with
      | idle hidle => exact absurd hb hidle
      | blocked _ _ hr => exact (ht.room_iff ip).mp hr
    · cases hev
  | @failed w w' b b' k ip reason e h =>
    cases outcome_of_run hlive h with
    | full hb hin hr =>
      refine ⟨fun hne => absurd rfl (hne ip reason), fun hfits => ?_⟩
      exact absurd ((ht.room_iff ip).mpr (hfits ip reason k (Or.inr ⟨_, rfl⟩) rfl hb hin)) hr
    | late hb hin =>
      refine ⟨fun _ => ?_, fun _ _ _ hev => by cases hev⟩
      rintro ip' reason' k' (hev | ⟨e, hev⟩) hk - hin'
      · cases hev
      · cases hev
        exact absurd hin' hin
  | _ =>
    refine ⟨fun _ => ?_, fun _ _ _ hev => by cases hev⟩
    rintro ip reason k (hev | ⟨e, hev⟩) <;> cases hev

/-- **No block fails for want of room**, in a run that begins with an empty blocklist, exactly
when the running blocks leave room for every new one. -/
theorem never_full_iff (w : World n) (b : Blocker) (hlive : b.dry_run = false)
    (hempty : w.blocklist = ∅) (tr : List (Trans (Session n) Ev)) (s' : Session n)
    (h : Path (Step cpu Still Still) ⟨w, b, none⟩ tr s') :
    (∀ x ∈ tr, ∀ ip reason, x.ev ≠ .failed ip reason blocklist_full) ↔
      ∀ tr1 x tr2, tr = tr1 ++ x :: tr2 → Fits (ledger tr1) x := by
  have hiff : ∀ tr1 x tr2, tr = tr1 ++ x :: tr2 →
      ((∀ ip reason, x.ev ≠ .failed ip reason blocklist_full) ↔ Fits (ledger tr1) x) := by
    intro tr1 x tr2 htr
    obtain ⟨m, h1, h2⟩ := (htr ▸ h).cut
    obtain ⟨rfl, hstep, -⟩ := h2.uncons
    obtain ⟨hl, ht⟩ := tracks_throughout hlive hempty tr1 (x :: tr2) x.pre htr h1 h2
    exact fits_iff hl hstep ht
  constructor
  · intro hnever tr1 x tr2 htr
    exact (hiff tr1 x tr2 htr).mp (hnever x (by simp [htr]))
  · intro hfits x hx
    obtain ⟨tr1, tr2, htr⟩ := List.append_of_mem hx
    exact (hiff tr1 x tr2 htr).mpr (hfits tr1 x tr2 htr)

theorem never_full_second_strike : ∃ tr s',
    Path (Step 0 Still Still) ⟨World.loaded 1, one_strike, none⟩ tr s' ∧
      ∀ tr1 x tr2, tr = tr1 ++ x :: tr2 → Fits (ledger tr1) x := by
  have hb : Blocks one_strike (World.loaded 1) 0 7 (some "syn flood") :=
    ⟨⟨rfl, by decide +kernel⟩, by decide +kernel, by decide +kernel, by decide⟩
  have hrun := run_process_block 0 (b := one_strike) rfl 0 hb
  rw [if_pos (by decide +kernel), if_pos (by decide +kernel)] at hrun
  have hpath : Path (Step 0 Still Still) ⟨World.loaded 1, one_strike, none⟩ _ _ :=
    .snoc (.snoc .nil (.begin_call (World.loaded 1) one_strike)) (.source hrun)
  refine ⟨_, _, hpath, (never_full_iff (World.loaded 1) one_strike rfl rfl _ _ hpath).mp ?_⟩
  intro x hx ip reason hev
  simp only [List.nil_append, List.mem_append, List.mem_singleton] at hx
  rcases hx with rfl | rfl <;> cases hev

/-! ### A step of the controller -/

lemma load_level_error {pps : ℚ} {e : PyError} (h : Aggressiveness.load_level pps = .error e) :
    e ≠ blocklist_full := by
  unfold Aggressiveness.load_level at h
  split at h
  · cases h
  · cases h
    simp [blocklist_full]

lemma update_error {a : Aggressiveness} {pps drop_ratio : ℚ} {e : PyError}
    (h : a.update pps drop_ratio = .error e) : e ≠ blocklist_full := by
  unfold Aggressiveness.update Aggressiveness.target at h
  cases hl : Aggressiveness.load_level pps with
  | error e' =>
    rw [hl] at h
    cases h
    exact load_level_error hl
  | ok lvl =>
    rw [hl] at h
    cases h

/-- What the tier's part of a step can come to. -/
lemma run_tune (cpu : Fin n) (c : Controller) (w : World n) :
    ∃ r w', run (exec cpu) (tune c) w = (r, w') ∧ Still w w' ∧ r ≠ .error blocklist_full ∧
      ∀ c', r = .ok c' → ∃ log, c'.blocker = { c.blocker with log } := by
  have hsame : Still w w := ⟨BitVec.le_refl _, fun _ => rfl⟩
  unfold tune
  by_cases hauto : c.args.no_auto_tune = true
  · rw [if_pos hauto]
    exact ⟨_, _, rfl, hsame, nofun, fun c' hc => ⟨c.blocker.log, by cases hc; rfl⟩⟩
  rw [if_neg hauto]
  cases hup : c.aggr.update c.pps c.drop_ratio with
  | error e =>
    exact ⟨_, _, rfl, hsame, fun he => update_error hup (by cases he; rfl),
      fun c' hc => by cases hc⟩
  | ok r =>
    obtain ⟨changed, aggr⟩ := r
    cases changed with
    | false => exact ⟨_, _, rfl, hsame, nofun, fun c' hc => ⟨c.blocker.log, by cases hc; rfl⟩⟩
    | true =>
      have hnote : ∀ w1 : World n, run (exec cpu) (do
          let blocker ← c.blocker.note (tier_msg c.args.dry_run aggr)
          return { c with aggr, blocker } : Py Controller) w1 =
          (.ok { c with
            aggr
            blocker := { c.blocker with
              log := Blocker.append_log c.blocker.log
                (w1.localtime, tier_msg c.args.dry_run aggr) } }, w1) := fun _ => rfl
      by_cases hdry : c.args.dry_run = true
      · have hskip : ¬ (!c.args.dry_run) = true := by simp [hdry]
        dsimp only
        rw [if_neg hskip]
        exact ⟨_, _, hnote w, hsame, nofun, fun c' hc => ⟨_, by cases hc; rfl⟩⟩
      · have hwrite : (!c.args.dry_run) = true := by simpa using hdry
        have hrun := run_update_config cpu (tier_changes aggr) w
        dsimp only
        rw [if_pos hwrite]
        split_ifs at hrun
        · refine ⟨_, _, (Exc.run_bind_ok hrun).trans (hnote _), ?_, nofun, ?_⟩
          · exact hsame
          · exact fun c' hc => ⟨_, by cases hc; rfl⟩
        · exact ⟨_, _, Exc.run_bind_error hrun, hsame, nofun, fun c' hc => by cases hc⟩

lemma raised_append (tr tr' : List (Trans (Session n) Ev)) (e : PyError) :
    Raised (tr ++ tr') e ↔ Raised tr e ∨ Raised tr' e := by
  simp only [Raised, List.mem_append, or_and_right, exists_or]

lemma not_raised_outside (s s' : Session n) (e : PyError) : ¬ Raised [⟨s, .outside, s'⟩] e := by
  simp [Raised]

lemma run_delete_states (cpu : Fin n) (as : List Addr) (w : World n) :
    ∃ m, (run (exec cpu) (delete_states as) w).2 = { w with srcstate := m } := by
  induction as generalizing w with
  | nil => exact ⟨w.srcstate, rfl⟩
  | cons a as ih =>
    obtain ⟨m, hm⟩ := ih { w with srcstate := w.srcstate.erase a }
    exact ⟨m, hm⟩

lemma run_idle_states (cpu : Fin n) (w : World n) :
    ∃ m, (run (exec cpu) remove_idle_states w).2 = { w with srcstate := m } := by
  unfold remove_idle_states
  rw [run_bind, run_bind, run_bind]
  exact run_delete_states cpu _ w

/-- The cleanup at the end of a step is part of a session too. -/
lemma path_of_clean_up (cpu : Fin n) (c : Controller) (w : World n) :
    ∃ tr c' w', run (exec cpu) (clean_up c) w = (c', w') ∧ c'.blocker = c.blocker ∧
      Path (Step cpu Still Still) ⟨w, c.blocker, none⟩ tr ⟨w', c.blocker, none⟩ ∧
      ∀ e, ¬ Raised tr e := by
  unfold clean_up
  split_ifs
  · obtain ⟨m, hm⟩ := run_idle_states cpu (run (exec cpu) remove_expired_blocks w).2
    have hidle : Still (run (exec cpu) remove_expired_blocks w).2
        { (run (exec cpu) remove_expired_blocks w).2 with srcstate := m } :=
      ⟨BitVec.le_refl _, fun _ => rfl⟩
    refine ⟨_, { c with cycles := c.cycles + 1 }, _, ?_, rfl,
      .snoc (.snoc .nil (.clean_up w c.blocker)) (.outside c.blocker c.blocker.log hidle),
      by simp [Raised]⟩
    rw [run_bind, run_bind, hm]
    rfl
  · exact ⟨[], _, w, rfl, rfl, .nil, by simp [Raised]⟩

/-- **A step of the controller alone on the machine is a run of a session.** The step ends in the
exception of a full blocklist exactly when the run says so. -/
theorem path_of_act {c : Controller} {vs : Dict Addr (Option String)} {stats : Stats} {now : ℚ}
    {w w' : World n} {r : Except PyError Controller}
    (h : run (exec cpu) (act c vs stats now) w = (r, w')) :
    ∃ tr b', Path (Step cpu Still Still) ⟨w, c.blocker, none⟩ tr ⟨w', b', none⟩ ∧
      (∀ c', r = .ok c' → c'.blocker = b') ∧
      (Raised tr blocklist_full ↔ r = .error blocklist_full) := by
  rcases hup : run (exec cpu) (c.blocker.update vs) w with ⟨ru, w1⟩
  have hpath : ∃ tr, Path (Step cpu Still Still) ⟨w, c.blocker, none⟩ tr ⟨w1, left ru, none⟩ ∧
    ∀ e, Raised tr e ↔ ru.mapError Prod.fst = .error e := path_of_update hup
  obtain ⟨tr, htr, hraised⟩ := hpath
  have hcall := Exc.run_rethrow (f := exec cpu) Prod.fst (c.blocker.update vs) w
  rw [hup] at hcall
  unfold act at h
  rcases ru with ⟨e, b⟩ | b
  · rw [Exc.run_bind_error hcall] at h
    cases h
    exact ⟨tr, b, htr, fun c' hc => (by cases hc), (hraised _).trans (by simp [Except.mapError])⟩
  rw [Exc.run_bind_ok hcall] at h
  have hquiet : ∀ e, ¬ Raised tr e := fun e he => by cases (hraised e).mp he
  have hb1 := (measure_keeps { c with blocker := b } stats now).2.2
  obtain ⟨rt, w2, htune, hstill, hne, hlog⟩ :=
    run_tune cpu (({ c with blocker := b } : Controller).measure stats now) w1
  rcases rt with e | c2
  · rw [Exc.run_bind_error htune] at h
    cases h
    have htr2 := htr.snoc (.outside b b.log hstill)
    refine ⟨_, _, htr2, fun c' hc => (by cases hc), ?_⟩
    rw [raised_append]
    exact iff_of_false (by simp [hquiet, not_raised_outside]) fun he => hne (by cases he; rfl)
  · rw [Exc.run_bind_ok htune] at h
    obtain ⟨log, hb2⟩ := hlog c2 rfl
    rw [hb1] at hb2
    obtain ⟨tr3, c3, w3, hclean, hb3, htr3, hquiet3⟩ := path_of_clean_up cpu c2 w2
    have hlift := Exc.run_lift (ε := PyError) (f := exec cpu) (clean_up c2) w2
    rw [hclean] at hlift
    have hr : (Except.ok c3, w3) = (r, w') := hlift.symm.trans h
    cases hr
    have htr2 := htr.snoc (.outside b log hstill)
    dsimp only at hb2
    rw [hb2] at htr3 hb3
    refine ⟨_, _, htr2.append htr3, fun c' hc => by cases hc; exact hb3, ?_⟩
    rw [raised_append, raised_append]
    exact iff_of_false (by simp [hquiet, hquiet3, not_raised_outside]) nofun

/-! ### Everybody comes back -/

def addr (i : ℕ) : Addr := BitVec.ofNat 32 i

lemma addr_inj {i j : ℕ} (hi : i ≤ 4096) (hj : j ≤ 4096) (h : addr i = addr j) : i = j := by
  have hnat := congrArg BitVec.toNat h
  rw [addr, addr, BitVec.toNat_ofNat, BitVec.toNat_ofNat] at hnat
  omega

/-- The verdicts that flag these sources. -/
def flags (l : List ℕ) : List ((_ : Addr) × Option String) :=
  l.map fun i => ⟨addr i, some "syn flood"⟩

/-- Different sources of the list of 4097. -/
def Sources (l : List ℕ) : Prop := l.Nodup ∧ ∀ i ∈ l, i ≤ 4096

lemma Sources.tail {i : ℕ} {l : List ℕ} (h : Sources (i :: l)) : Sources l :=
  ⟨(List.nodup_cons.mp h.1).2, fun j hj => h.2 j (List.mem_cons_of_mem _ hj)⟩

lemma Sources.head_notMem {i : ℕ} {l : List ℕ} (h : Sources (i :: l)) :
    addr i ∉ l.map addr := by
  intro hi
  obtain ⟨j, hj, hij⟩ := List.mem_map.mp hi
  have hji := addr_inj (h.2 j (List.mem_cons_of_mem _ hj)) (h.2 i List.mem_cons_self) hij
  exact (List.nodup_cons.mp h.1).1 (hji ▸ hj)

lemma Sources.ne_head {i j : ℕ} {l : List ℕ} (h : Sources (i :: l)) (hj : j ∈ l) :
    addr j ≠ addr i := fun hij => h.head_notMem (hij ▸ List.mem_map_of_mem hj)

/-- A first window gives each of the sources a strike. -/
lemma run_first_window (cpu : Fin n) {l : List ℕ} (hl : Sources l) (now : ℚ) (issued : ℕ)
    (w : World n) (b : Blocker) (h0 : ∀ i ∈ l, b.strikes.getD (addr i) 0 = 0) :
    ∃ b', run (exec cpu) (b.process_all now issued (flags l)) w = (.ok b', w) ∧
      b'.dry_run = b.dry_run ∧ b'.until_ = b.until_ ∧ b'.offences = b.offences ∧
      (∀ i ∈ l, b'.strikes.getD (addr i) 0 = 1) ∧
      ∀ a, a ∉ l.map addr → b'.strikes.getD a 0 = b.strikes.getD a 0 := by
  induction l generalizing b with
  | nil =>
    have hnil : ∀ i ∈ ([] : List ℕ), b.strikes.getD (addr i) 0 = 1 := fun i hi => by cases hi
    exact ⟨b, rfl, rfl, rfl, rfl, hnil, fun _ _ => rfl⟩
  | cons i l ih =>
    have hstrikes : ∀ a, (b.strike (addr i)).strikes.getD a 0 =
        if a = addr i then 1 else b.strikes.getD a 0 := by
      intro a
      unfold Blocker.strike Dict.getD
      by_cases ha : a = addr i
      · have hb := h0 i List.mem_cons_self
        unfold Dict.getD at hb
        subst ha
        simp [hb]
      · simp [ha]
    have hfirst : run (exec cpu) (b.process now issued (addr i) (some "syn flood")) w =
        (.ok (b.strike (addr i), issued), w) := by
      have hlt : (b.strike (addr i)).strikes.getD (addr i) 0 < STRIKES := by
        rw [hstrikes, if_pos rfl]
        decide
      have hjudge : b.process now issued (addr i) (some "syn flood") =
        (b.strike (addr i)).judge now issued (addr i) "syn flood" := rfl
      rw [hjudge]
      unfold Blocker.judge
      rw [if_pos hlt]
      rfl
    obtain ⟨b', hrun, hd, hu, ho, hon, hoff⟩ := ih hl.tail (b.strike (addr i)) fun j hj => by
      rw [hstrikes, if_neg (hl.ne_head hj)]
      exact h0 j (List.mem_cons_of_mem _ hj)
    have hall : run (exec cpu) (b.process_all now issued (flags (i :: l))) w =
        run (exec cpu) ((b.strike (addr i)).process_all now issued (flags l)) w :=
      Exc.run_bind_ok (g := fun r : Blocker × ℕ => r.1.process_all now r.2 (flags l)) hfirst
    refine ⟨b', hall.trans hrun, hd, hu, ho, fun j hj => ?_, fun a ha => ?_⟩
    · rcases List.mem_cons.mp hj with rfl | hj
      · rw [hoff _ hl.head_notMem, hstrikes, if_pos rfl]
      · exact hon j hj
    · rw [List.map_cons, List.mem_cons, not_or] at ha
      rw [hoff a ha.2, hstrikes, if_neg ha.1]

/-- Nobody but the first 4096 sources is on the blocklist. -/
def Known (w : World n) : Prop := ∀ k ∈ w.blocklist, ∃ i < 4096, k = .single (addr i)

/-- So there is room for each of them. -/
lemma Known.room {w : World n} (h : Known w) {i : ℕ} (hi : i < 4096) :
    Room w (.single (addr i)) := by
  by_cases hmem : .single (addr i) ∈ w.blocklist
  · exact Or.inl hmem
  right
  have hsub : w.blocklist.keys ⊆ ((List.range 4096).erase i).map fun j => .single (addr j) := by
    intro k hk
    obtain ⟨j, hj, rfl⟩ := h k (AList.mem_keys.mpr hk)
    have hne : j ≠ i := by rintro rfl; exact hmem (AList.mem_keys.mpr hk)
    exact List.mem_map_of_mem ((List.mem_erase_of_ne hne).mpr (List.mem_range.mpr hj))
  have hle := (w.blocklist.keys_nodup.subperm hsub).length_le
  rw [List.length_map, List.length_erase_of_mem (List.mem_range.mpr hi), List.length_range] at hle
  have hmax : MAX_BLOCKLIST = 4096 := rfl
  omega

/-- The sources have been blocked at `now`, and nobody else. -/
structure Punished (l : List ℕ) (now : ℚ) (b : Blocker) (w : World n) (b' : Blocker)
    (w' : World n) : Prop where
  live : b'.dry_run = false
  strikes : ∀ i ∈ l, b'.strikes.getD (addr i) 0 = 0
  strikes_off : ∀ a, a ∉ l.map addr → b'.strikes.getD a 0 = b.strikes.getD a 0
  offences : ∀ i ∈ l, b'.offences.getD (addr i) 0 = b.offences.getD (addr i) 0 + 1
  offences_off : ∀ a, a ∉ l.map addr → b'.offences.getD a 0 = b.offences.getD a 0
  ends : ∀ i ∈ l, b'.until_.getD (addr i) 0 = now + b.duration (addr i)
  ends_off : ∀ a, a ∉ l.map addr → b'.until_.getD a 0 = b.until_.getD a 0
  entries : ∀ i ∈ l, ∃ bv, w'.blocklist.lookup (.single (addr i)) = some bv ∧
    bv.expires_ns.toNat = w.clock.toNat + b.duration (addr i) * 1000000000
  entries_off : ∀ a, a ∉ l.map addr →
    w'.blocklist.lookup (.single a) = w.blocklist.lookup (.single a)
  known : Known w'
  rest : w' = { w with blocklist := w'.blocklist }

lemma duration_congr {b b' : Blocker} {a : Addr}
    (h : b'.offences.getD a 0 = b.offences.getD a 0) : b'.duration a = b.duration a := by
  unfold Blocker.duration
  rw [h]

lemma duration_of {b : Blocker} {a : Addr} {k : ℕ} (h : b.offences.getD a 0 = k) :
    b.duration a = DURATIONS.getD (min k 2) 0 := by
  unfold Blocker.duration
  rw [h]
  rfl

lemma duration_le (b : Blocker) (a : Addr) : b.duration a ≤ 900 := by
  have hall : ∀ i < 3, DURATIONS.getD i 0 ≤ 900 := by decide
  have hlt : min (b.offences.getD a 0) (DURATIONS.length - 1) < 3 := by
    have hlen : DURATIONS.length = 3 := rfl
    omega
  exact hall _ hlt

/-- One source is blocked. -/
lemma punished_one {i : ℕ} (hi : i < 4096) {b : Blocker} (hlive : b.dry_run = false) (now : ℚ)
    {w : World n} (hk : Known w) (hin : InTime b (addr i) w) (msg lt : String) :
    Punished [i] now b w (after_block (b.strike (addr i)) now (addr i) msg lt)
      (put w (.single (addr i)) (entry b (addr i) w)) := by
  have hone : ∀ j ∈ [i], j = i := fun j hj => List.mem_singleton.mp hj
  have hoff : ∀ a, a ∉ [i].map addr → a ≠ addr i := fun a ha hai => ha (by simp [hai])
  refine ⟨hlive, ?_, ?_, ?_, ?_, ?_, ?_, ?_, ?_, ?_, rfl⟩
  · intro j hj
    obtain rfl := hone j hj
    simp [after_block, Blocker.issue, Dict.getD]
  · intro a ha
    simp [after_block, Blocker.issue, Blocker.strike, Dict.getD, hoff a ha]
  · intro j hj
    obtain rfl := hone j hj
    exact Dict.getD_insert _ _ _ _
  · exact fun a ha => Dict.getD_insert_ne _ _ _ (hoff a ha)
  · intro j hj
    obtain rfl := hone j hj
    exact Dict.getD_insert _ _ _ _
  · exact fun a ha => Dict.getD_insert_ne _ _ _ (hoff a ha)
  · intro j hj
    obtain rfl := hone j hj
    exact ⟨_, AList.lookup_insert _, entry_expires hin⟩
  · intro a ha
    exact AList.lookup_insert_ne fun hab => hoff a ha (single_injective hab)
  · intro k hmem
    rcases (AList.mem_insert _).mp hmem with rfl | hmem
    · exact ⟨i, hi, rfl⟩
    · exact hk k hmem

lemma Punished.clock {l : List ℕ} {now : ℚ} {b b' : Blocker} {w w' : World n}
    (h : Punished l now b w b' w') : w'.clock = w.clock := by rw [h.rest]

/-- One source and then the others. -/
lemma Punished.cons {i : ℕ} {l : List ℕ} (hl : Sources (i :: l)) {now : ℚ}
    {b b1 b2 : Blocker} {w w1 w2 : World n} (h1 : Punished [i] now b w b1 w1)
    (h2 : Punished l now b1 w1 b2 w2) : Punished (i :: l) now b w b2 w2 := by
  have hhead : i ∈ [i] := List.mem_singleton_self i
  have hnot := hl.head_notMem
  have hne : ∀ j ∈ l, addr j ∉ [i].map addr := fun j hj hij =>
    hl.ne_head hj (List.mem_singleton.mp hij)
  have hsplit : ∀ a, a ∉ (i :: l).map addr → a ∉ [i].map addr ∧ a ∉ l.map addr := by
    intro a ha
    rw [List.map_cons, List.mem_cons, not_or] at ha
    exact ⟨fun h => ha.1 (List.mem_singleton.mp h), ha.2⟩
  have hdur : ∀ j ∈ l, b1.duration (addr j) = b.duration (addr j) := fun j hj =>
    duration_congr (h1.offences_off _ (hne j hj))
  refine ⟨h2.live, ?_, ?_, ?_, ?_, ?_, ?_, ?_, ?_, h2.known, ?_⟩
  · intro j hj
    rcases List.mem_cons.mp hj with rfl | hj
    · rw [h2.strikes_off _ hnot, h1.strikes j hhead]
    · exact h2.strikes j hj
  · intro a ha
    rw [h2.strikes_off a (hsplit a ha).2, h1.strikes_off a (hsplit a ha).1]
  · intro j hj
    rcases List.mem_cons.mp hj with rfl | hj
    · rw [h2.offences_off _ hnot, h1.offences j hhead]
    · rw [h2.offences j hj, h1.offences_off _ (hne j hj)]
  · intro a ha
    rw [h2.offences_off a (hsplit a ha).2, h1.offences_off a (hsplit a ha).1]
  · intro j hj
    rcases List.mem_cons.mp hj with rfl | hj
    · rw [h2.ends_off _ hnot, h1.ends j hhead]
    · rw [h2.ends j hj, hdur j hj]
  · intro a ha
    rw [h2.ends_off a (hsplit a ha).2, h1.ends_off a (hsplit a ha).1]
  · intro j hj
    rcases List.mem_cons.mp hj with rfl | hj
    · rw [h2.entries_off _ hnot]
      exact h1.entries j hhead
    · rw [← h1.clock, ← hdur j hj]
      exact h2.entries j hj
  · intro a ha
    rw [h2.entries_off a (hsplit a ha).2, h1.entries_off a (hsplit a ha).1]
  · rw [h2.rest, h1.rest]

/-- A source with a strike, no block that lasts and no allowlist entry is blocked. -/
lemma blocks_of {i : ℕ} {b : Blocker} {w : World n} {issued : ℕ}
    (h1 : b.strikes.getD (addr i) 0 = 1) (hu : b.until_.getD (addr i) 0 ≤ w.wall)
    (ha : w.allowlist = ∅) (hi : issued < MAX_PER_WINDOW) :
    Blocks b w issued (addr i) (some "syn flood") := by
  refine ⟨⟨rfl, ?_⟩, ?_, ?_, hi⟩
  · have hs : (b.strike (addr i)).strikes.getD (addr i) 0 = b.strikes.getD (addr i) 0 + 1 :=
      Dict.getD_insert _ _ _ _
    rw [hs, h1]
    decide
  · exact decide_eq_false (not_lt.mpr hu)
  · rw [ha]
    exact find_none.mpr fun k hk => absurd hk (AList.notMem_empty k)

/-- A second window blocks the sources, when they are no more than one window may block. -/
lemma run_second_window (cpu : Fin n) {l : List ℕ} (hl : Sources l) (hlt : ∀ i ∈ l, i < 4096)
    (now : ℚ) {issued : ℕ} (hi : issued + l.length ≤ MAX_PER_WINDOW) {w : World n} {b : Blocker}
    (hlive : b.dry_run = false) (h1 : ∀ i ∈ l, b.strikes.getD (addr i) 0 = 1)
    (hu : ∀ i ∈ l, b.until_.getD (addr i) 0 ≤ w.wall) (ha : w.allowlist = ∅)
    (ht : w.clock.toNat + 900000000000 < 2 ^ 64) (hk : Known w) :
    ∃ b' w', run (exec cpu) (b.process_all now issued (flags l)) w = (.ok b', w') ∧
      Punished l now b w b' w' := by
  induction l generalizing b w issued with
  | nil =>
    refine ⟨b, w, rfl, hlive, ?_, fun _ _ => rfl, ?_, fun _ _ => rfl, ?_, fun _ _ => rfl, ?_,
      fun _ _ => rfl, hk, rfl⟩ <;> exact fun i hi => absurd hi List.not_mem_nil
  | cons i l ih =>
    have hi' : issued + (l.length + 1) ≤ MAX_PER_WINDOW := hi
    have hlti := hlt i List.mem_cons_self
    have hb := blocks_of (h1 i List.mem_cons_self) (hu i List.mem_cons_self) ha
      (show issued < MAX_PER_WINDOW by omega)
    have hin : InTime b (addr i) w := by
      have hd := duration_le b (addr i)
      unfold InTime
      omega
    have hfirst := run_process_block cpu hlive now hb
    rw [if_pos hin, if_pos (hk.room hlti)] at hfirst
    have hp := punished_one hlti hlive now hk hin (b.block_msg (addr i) "syn flood") w.localtime
    have hne : ∀ j ∈ l, addr j ∉ [i].map addr := fun j hj hij =>
      hl.ne_head hj (List.mem_singleton.mp hij)
    have h1' : ∀ j ∈ l, _ = 1 := fun j hj =>
      (hp.strikes_off _ (hne j hj)).trans (h1 j (List.mem_cons_of_mem _ hj))
    have hu' : ∀ j ∈ l, _ ≤ w.wall := fun j hj =>
      (hp.ends_off _ (hne j hj)).trans_le (hu j (List.mem_cons_of_mem _ hj))
    obtain ⟨b', w', hrun, hrest⟩ := ih (w := put w (.single (addr i)) (entry b (addr i) w))
      hl.tail (fun j hj => hlt j (List.mem_cons_of_mem _ hj))
      (show issued + 1 + l.length ≤ MAX_PER_WINDOW by omega) hp.live h1' hu' ha ht hp.known
    have hall : run (exec cpu) (b.process_all now issued (flags (i :: l))) w = _ :=
      Exc.run_bind_ok (g := fun r : Blocker × ℕ => r.1.process_all now r.2 (flags l)) hfirst
    exact ⟨b', w', hall.trans hrun, hp.cons hl hrest⟩

/-! ### The controller's steps -/

/-- The options: a live session that leaves the rate limit alone. -/
def args : Args := ⟨false, true, []⟩

/-- What a cleanup can do to the blocklist. -/
structure Cleaned (w w' : World n) : Prop where
  rest : w' = { w with blocklist := w'.blocklist }
  known : Known w → Known w'
  kept : ∀ k bv, w.blocklist.lookup k = some bv → w.clock.toNat < bv.expires_ns.toNat →
    w'.blocklist.lookup k = some bv

lemma cleaned_refl (w : World n) : Cleaned w w := ⟨rfl, id, fun _ _ h _ => h⟩

lemma cleaned_swept (w : World n) : Cleaned w (swept w) := by
  refine ⟨rfl, fun hk k hmem => ?_, fun k bv hbv hlate => ?_⟩
  · obtain ⟨bv, hbv⟩ := lookup_of_mem hmem
    rw [lookup_swept] at hbv
    exact hk k (mem_of_lookup (Option.filter_eq_some_iff.mp hbv).1)
  · have hexpired : expired w.clock.toNat bv = false := decide_eq_false (by omega)
    rw [lookup_swept, hbv, Option.filter, hexpired]
    rfl

/-- Without tracked sources there is nothing to forget. -/
lemma run_remove_idle_states {w : World n} (h : w.srcstate = .empty) :
    run (exec cpu) remove_idle_states w = (0, w) := by
  obtain ⟨clock, wall, localtime, allowlist, blocklist, portrules, srcstate, stats, config⟩ := w
  dsimp only at h
  subst h
  rfl

lemma run_clean_up (cpu : Fin n) {c : Controller} (hargs : c.args = args) {w : World n}
    (hsrc : w.srcstate = .empty) :
    ∃ c' w', run (exec cpu) (clean_up c) w = (c', w') ∧ c'.args = c.args ∧
      c'.blocker = c.blocker ∧ Cleaned w w' := by
  have hlive : (!c.args.dry_run) = true := by rw [hargs]; rfl
  unfold clean_up
  by_cases h5 : c.cycles % 5 = 0
  · have hsrc' : (swept w).srcstate = .empty := hsrc
    refine ⟨{ c with cycles := c.cycles + 1 }, swept w, ?_, rfl, rfl, cleaned_swept w⟩
    rw [if_pos ⟨h5, hlive⟩, run_bind, run_bind, run_remove_expired_blocks]
    dsimp only
    rw [run_remove_idle_states hsrc']
    rfl
  · refine ⟨{ c with cycles := c.cycles + 1 }, w, ?_, rfl, rfl, cleaned_refl w⟩
    rw [if_neg fun h => h5 h.1]
    rfl

/-- The verdicts of one window. -/
def window (l : List ℕ) (hl : Sources l) : Dict Addr (Option String) where
  entries := flags l
  nodupKeys := by
    have hkeys : (flags l).keys = l.map addr := by
      simp [flags, List.keys, Function.comp_def]
    have hnodup : (l.map addr).Nodup := List.Nodup.map_on
      (fun i hi j hj h => addr_inj (hl.2 i hi) (hl.2 j hj) h) hl.1
    rwa [← hkeys] at hnodup

/-- A step of the controller whose call of `update` comes to this. -/
lemma run_act {c : Controller} {vs : Dict Addr (Option String)} {w w1 : World n}
    {r : Except (PyError × Blocker) Blocker}
    (h : run (exec cpu) (c.blocker.process_all w.wall 0 vs.entries) w = (r, w1)) :
    run (exec cpu) (Exc.rethrow Prod.fst (c.blocker.update vs)) w = (r.mapError Prod.fst, w1) := by
  have hupdate : run (exec cpu) (c.blocker.update vs) w = (r, w1) := h
  rw [Exc.run_rethrow, hupdate]

lemma run_act_ok {c : Controller} (hargs : c.args = args) {vs : Dict Addr (Option String)}
    {b' : Blocker} {w w1 : World n}
    (h : run (exec cpu) (c.blocker.process_all w.wall 0 vs.entries) w = (.ok b', w1))
    (hsrc : w1.srcstate = .empty) (stats : Stats) (now : ℚ) :
    ∃ c' w', run (exec cpu) (act c vs stats now) w = (.ok c', w') ∧ c'.args = args ∧
      c'.blocker = b' ∧ Cleaned w1 w' := by
  obtain ⟨hargs', -, hblocker⟩ := measure_keeps { c with blocker := b' } stats now
  have hlive := hargs'.trans hargs
  obtain ⟨c', w', hrun, ha, hb, hc⟩ := run_clean_up cpu hlive hsrc
  refine ⟨c', w', ?_, ha.trans hlive, hb.trans hblocker, hc⟩
  have htune : run (exec cpu) (tune (({ c with blocker := b' } : Controller).measure stats now)) w1 =
      (.ok (({ c with blocker := b' } : Controller).measure stats now), w1) := by
    unfold tune
    rw [if_pos (by rw [hlive]; rfl)]
    rfl
  unfold act
  rw [Exc.run_bind_ok (run_act h), Exc.run_bind_ok htune]
  change run (exec cpu) (Exc.lift (clean_up _)) w1 = _
  rw [Exc.run_lift, hrun]

/-- The world one second later. -/
def later (w : World n) : World n :=
  { w with clock := w.clock + 1000000000, wall := w.wall + 1 }

/-- A step of the controller on these verdicts, and a second until the next one. -/
def Second (cpu : Fin n) (s : World n × Controller) (vs : Dict Addr (Option String))
    (s' : World n × Controller) : Prop :=
  ∃ stats now w', run (exec cpu) (act s.2 vs stats now) s.1 = (.ok s'.2, w') ∧ s'.1 = later w'

/-- The sources of one group. -/
def group (g : ℕ) : List ℕ := List.range' (32 * g) 32

lemma mem_group {i g : ℕ} : i ∈ group g ↔ i / 32 = g := by
  rw [group, List.mem_range'_1]
  omega

lemma sources_group {g : ℕ} (hg : g < 128) : Sources (group g) :=
  ⟨List.nodup_range', fun i hi => by have := mem_group.mp hi; omega⟩

lemma notMem_group {i g : ℕ} (hg : g < 128) (hi : i ≤ 4096) (hne : i / 32 ≠ g) :
    addr i ∉ (group g).map addr := by
  intro hmem
  obtain ⟨j, hj, hij⟩ := List.mem_map.mp hmem
  have hji := addr_inj ((sources_group hg).2 j hj) hi hij
  subst hji
  exact hne (mem_group.mp hj)

/-- After `m` visits, to the groups in turn: everybody has been blocked once in the first round,
and keeps the block of the second round. -/
structure Stage (m : ℕ) (s : World n × Controller) : Prop where
  args : s.2.args = args
  live : s.2.blocker.dry_run = false
  clock : s.1.clock.toNat = 2 * m * 1000000000
  wall : s.1.wall = 2 * m
  allow : s.1.allowlist = ∅
  sources : s.1.srcstate = .empty
  strikes : ∀ i ≤ 4096, s.2.blocker.strikes.getD (addr i) 0 = 0
  offences : ∀ i < 4096, s.2.blocker.offences.getD (addr i) 0 = (m + 127 - i / 32) / 128
  ends : ∀ i < 4096, ∀ m', m ≤ m' → m' < 256 → m' % 128 = i / 32 →
    s.2.blocker.until_.getD (addr i) 0 ≤ 2 * m'
  new : s.2.blocker.until_.getD (addr 4096) 0 = 0
  known : Known s.1
  kept : ∀ i < 4096, 128 + i / 32 < m →
    ∃ bv, s.1.blocklist.lookup (.single (addr i)) = some bv ∧
      557000000000 ≤ bv.expires_ns.toNat

lemma stage_start : Stage 0 (World.loaded n, Controller.init Capacity.args) where
  args := rfl
  live := rfl
  clock := rfl
  wall := by norm_num [World.loaded]
  allow := rfl
  sources := rfl
  strikes _ _ := rfl
  offences i hi := by
    have h0 : (0 + 127 - i / 32) / 128 = 0 := by omega
    rw [h0]
    rfl
  ends i _ m' _ _ _ := by
    have hm : (0 : ℚ) ≤ m' := Nat.cast_nonneg m'
    have h0 : (Controller.init Capacity.args).blocker.until_.getD (addr i) 0 = 0 := rfl
    rw [h0]
    linarith
  new := rfl
  known k hk := absurd hk (AList.notMem_empty k)
  kept i _ hm := by omega

lemma later_blocklist (w : World n) : (later w).blocklist = w.blocklist := by
  unfold later
  rfl

lemma Known.later {w : World n} (h : Known w) : Known (later w) := by
  intro k hk
  rw [later_blocklist] at hk
  exact h k hk

lemma later_clock {w : World n} (h : w.clock.toNat + 1000000000 < 2 ^ 64) :
    (later w).clock.toNat = w.clock.toNat + 1000000000 := by
  rw [later, BitVec.toNat_add]
  exact Nat.mod_eq_of_lt h

/-- What one second does to the rest of the world. -/
structure Moved (w w' : World n) : Prop where
  clock : w.clock.toNat + 1000000000 < 2 ^ 64 → w'.clock.toNat = w.clock.toNat + 1000000000
  wall : w'.wall = w.wall + 1
  allow : w'.allowlist = w.allowlist
  sources : w'.srcstate = w.srcstate

lemma Cleaned.moved {w w1 w' : World n} (h : Cleaned w1 w')
    (h1 : w1 = { w with blocklist := w1.blocklist }) : Moved w (later w') := by
  have hw : w' = { w with blocklist := w'.blocklist } := by rw [h.rest, h1]
  have hclock : w'.clock = w.clock := by rw [hw]
  refine ⟨fun ht => ?_, ?_, ?_, ?_⟩
  · rw [← hclock] at ht ⊢
    exact later_clock ht
  all_goals
    rw [later, hw]

lemma second_of_run {c : Controller} (hargs : c.args = Capacity.args)
    (vs : Dict Addr (Option String)) {b' : Blocker} {w w1 : World n}
    (h : run (exec cpu) (c.blocker.process_all w.wall 0 vs.entries) w = (.ok b', w1))
    (h1 : w1 = { w with blocklist := w1.blocklist }) (hsrc : w.srcstate = .empty) :
    ∃ c' w', Second cpu (w, c) vs (later w', c') ∧ c'.args = Capacity.args ∧ c'.blocker = b' ∧
      Cleaned w1 w' ∧ Moved w (later w') := by
  have hsrc1 : w1.srcstate = .empty := by
    rw [h1]
    exact hsrc
  obtain ⟨c', w', hrun, ha, hb, hc⟩ := run_act_ok hargs h hsrc1 ⟨fun _ => 0, 0, 0⟩ 0
  exact ⟨c', w', ⟨_, _, w', hrun, rfl⟩, ha, hb, hc, hc.moved h1⟩

/-- After a window that gave each of the sources a strike. -/
structure Warned (l : List ℕ) (s s' : World n × Controller) : Prop where
  args : s'.2.args = Capacity.args
  moved : Moved s.1 s'.1
  dry_run : s'.2.blocker.dry_run = s.2.blocker.dry_run
  ends : s'.2.blocker.until_ = s.2.blocker.until_
  offences : s'.2.blocker.offences = s.2.blocker.offences
  strikes : ∀ i ∈ l, s'.2.blocker.strikes.getD (addr i) 0 = 1
  strikes_off : ∀ a, a ∉ l.map addr →
    s'.2.blocker.strikes.getD a 0 = s.2.blocker.strikes.getD a 0
  known : Known s.1 → Known s'.1
  kept : ∀ k bv, s.1.blocklist.lookup k = some bv → s.1.clock.toNat < bv.expires_ns.toNat →
    s'.1.blocklist.lookup k = some bv

lemma first_window (cpu : Fin n) {l : List ℕ} (hl : Sources l) {s : World n × Controller}
    (hargs : s.2.args = Capacity.args) (hsrc : s.1.srcstate = .empty)
    (h0 : ∀ i ∈ l, s.2.blocker.strikes.getD (addr i) 0 = 0) :
    ∃ s', Second cpu s (window l hl) s' ∧ Warned l s s' := by
  obtain ⟨w, c⟩ := s
  obtain ⟨b', hrun, hd, hu, ho, hon, hoff⟩ :=
    run_first_window cpu hl w.wall 0 w c.blocker h0
  obtain ⟨c', w', hsec, hargs', rfl, hclean, hmoved⟩ :=
    second_of_run hargs (window l hl) hrun rfl hsrc
  refine ⟨_, hsec, hargs', hmoved, hd, hu, ho, hon, hoff, ?_, ?_⟩
  · exact fun hk => (hclean.known hk).later
  · intro k bv hbv hlate
    rw [later_blocklist]
    exact hclean.kept k bv hbv hlate

/-- After a window that blocked the sources. -/
lemma second_window (cpu : Fin n) {l : List ℕ} (hl : Sources l) (hlt : ∀ i ∈ l, i < 4096)
    (hlen : l.length ≤ MAX_PER_WINDOW) {s : World n × Controller}
    (hargs : s.2.args = Capacity.args) (hsrc : s.1.srcstate = .empty)
    (hlive : s.2.blocker.dry_run = false)
    (h1 : ∀ i ∈ l, s.2.blocker.strikes.getD (addr i) 0 = 1)
    (hu : ∀ i ∈ l, s.2.blocker.until_.getD (addr i) 0 ≤ s.1.wall) (ha : s.1.allowlist = ∅)
    (ht : s.1.clock.toNat + 900000000000 < 2 ^ 64) (hk : Known s.1) :
    ∃ s' w', Second cpu s (window l hl) s' ∧ s'.2.args = Capacity.args ∧ Moved s.1 s'.1 ∧
      Punished l s.1.wall s.2.blocker s.1 s'.2.blocker w' ∧ Known s'.1 ∧
      ∀ k bv, w'.blocklist.lookup k = some bv → w'.clock.toNat < bv.expires_ns.toNat →
        s'.1.blocklist.lookup k = some bv := by
  obtain ⟨w, c⟩ := s
  have hissued : 0 + l.length ≤ MAX_PER_WINDOW := by omega
  obtain ⟨b1, w1, hrun, hp⟩ :=
    run_second_window cpu hl hlt w.wall hissued hlive h1 hu ha ht hk
  obtain ⟨c', w', hsec, hargs', rfl, hclean, hmoved⟩ :=
    second_of_run hargs (window l hl) hrun hp.rest hsrc
  refine ⟨_, w1, hsec, hargs', hmoved, hp, (hclean.known hp.known).later, ?_⟩
  intro k bv hbv hlate
  rw [later_blocklist]
  exact hclean.kept k bv hbv hlate

/-! What the two windows of a visit come to for a source, of the visited group or not. -/

section Visit

variable {m : ℕ} {s s1 : World n × Controller} {b : Blocker} {w : World n}

lemma visit_strikes (h : Stage m s) (h1 : Warned (group (m % 128)) s s1)
    (hp : Punished (group (m % 128)) s1.1.wall s1.2.blocker s1.1 b w) :
    ∀ i ≤ 4096, b.strikes.getD (addr i) 0 = 0 := by
  intro i hi
  by_cases hig : i / 32 = m % 128
  · exact hp.strikes i (mem_group.mpr hig)
  · have hnot := notMem_group (Nat.mod_lt m (by norm_num)) hi hig
    rw [hp.strikes_off _ hnot, h1.strikes_off _ hnot]
    exact h.strikes i hi

lemma warned_offences (h : Stage m s) (h1 : Warned (group (m % 128)) s s1) :
    ∀ i < 4096, s1.2.blocker.offences.getD (addr i) 0 = (m + 127 - i / 32) / 128 := by
  rw [h1.offences]
  exact h.offences

lemma visit_offences (h : Stage m s) (h1 : Warned (group (m % 128)) s s1)
    (hp : Punished (group (m % 128)) s1.1.wall s1.2.blocker s1.1 b w) :
    ∀ i < 4096, b.offences.getD (addr i) 0 = (m + 1 + 127 - i / 32) / 128 := by
  intro i hi
  have ho := warned_offences h h1 i hi
  by_cases hig : i / 32 = m % 128
  · rw [hp.offences i (mem_group.mpr hig), ho]
    omega
  · rw [hp.offences_off _ (notMem_group (Nat.mod_lt m (by norm_num)) (by omega) hig), ho]
    omega

/-- A block of the first round has ended when its group is visited again. -/
lemma visit_ends (h : Stage m s) (h1 : Warned (group (m % 128)) s s1)
    (hp : Punished (group (m % 128)) s1.1.wall s1.2.blocker s1.1 b w)
    (hwall : s1.1.wall = 2 * m + 1) :
    ∀ i < 4096, ∀ m', m + 1 ≤ m' → m' < 256 → m' % 128 = i / 32 →
      b.until_.getD (addr i) 0 ≤ 2 * m' := by
  intro i hi m' hm' hlt hmod
  by_cases hig : i / 32 = m % 128
  · have h0 : (m + 127 - i / 32) / 128 = 0 := by omega
    have hd : s1.2.blocker.duration (addr i) = 60 :=
      duration_of ((warned_offences h h1 i hi).trans h0)
    have hback : ((m + 128 : ℕ) : ℚ) ≤ m' := Nat.cast_le.mpr (by omega)
    rw [hp.ends i (mem_group.mpr hig), hd, hwall]
    push_cast at hback ⊢
    linarith
  · rw [hp.ends_off _ (notMem_group (Nat.mod_lt m (by norm_num)) (by omega) hig), h1.ends]
    exact h.ends i hi m' (by omega) hlt hmod

/-- A block of the second round lasts. -/
lemma visit_entries (h : Stage m s) (h1 : Warned (group (m % 128)) s s1) (hm : m < 256)
    (hp : Punished (group (m % 128)) s1.1.wall s1.2.blocker s1.1 b w)
    (hclock : s1.1.clock.toNat = s.1.clock.toNat + 1000000000) :
    ∀ i < 4096, 128 + i / 32 < m + 1 →
      ∃ bv, w.blocklist.lookup (.single (addr i)) = some bv ∧
        557000000000 ≤ bv.expires_ns.toNat := by
  intro i hi hlate
  have hstart := h.clock
  by_cases hig : i / 32 = m % 128
  · have h300 : (m + 127 - i / 32) / 128 = 1 := by omega
    have hd : s1.2.blocker.duration (addr i) = 300 :=
      duration_of ((warned_offences h h1 i hi).trans h300)
    obtain ⟨bv, hbv, hexp⟩ := hp.entries i (mem_group.mpr hig)
    rw [hd] at hexp
    exact ⟨bv, hbv, by omega⟩
  · obtain ⟨bv, hbv, hexp⟩ := h.kept i hi (by omega)
    have hoff := hp.entries_off _ (notMem_group (Nat.mod_lt m (by norm_num)) (by omega) hig)
    rw [h1.kept _ _ hbv (by omega)] at hoff
    exact ⟨bv, hoff, hexp⟩

end Visit

/-- **One visit**: two windows, the first for the strikes and the second for the blocks. -/
theorem Stage.visit (cpu : Fin n) {m : ℕ} {s : World n × Controller} (h : Stage m s)
    (hm : m < 256) : ∃ tr s', Path (Second cpu) s tr s' ∧ Stage (m + 1) s' := by
  have hg : m % 128 < 128 := Nat.mod_lt _ (by norm_num)
  have hl := sources_group hg
  have hclock := h.clock
  obtain ⟨s1, hsec1, h1⟩ := first_window cpu hl h.args h.sources fun i hi =>
    h.strikes i (hl.2 i hi)
  have hclock1 := h1.moved.clock (by omega)
  have hwall1 : s1.1.wall = 2 * m + 1 := by rw [h1.moved.wall, h.wall]
  have hends : ∀ i ∈ group (m % 128), s1.2.blocker.until_.getD (addr i) 0 ≤ s1.1.wall := by
    intro i hi
    have hig := mem_group.mp hi
    have hend := h.ends i (by omega) m le_rfl hm hig.symm
    rw [h1.ends, hwall1]
    linarith
  obtain ⟨s2, w2, hsec2, hargs2, hmoved2, hp, hknown2, hkept2⟩ := second_window cpu hl
    (fun i hi => by have hig := mem_group.mp hi; omega)
    (by rw [group, List.length_range']; decide) h1.args (h1.moved.sources.trans h.sources)
    (h1.dry_run.trans h.live) h1.strikes hends (h1.moved.allow.trans h.allow) (by omega)
    (h1.known h.known)
  have hclock2 := hmoved2.clock (by omega)
  have hw2 : w2.clock.toNat = s1.1.clock.toNat := congrArg BitVec.toNat hp.clock
  refine ⟨_, s2, .snoc (.snoc .nil hsec1) hsec2, hargs2, hp.live, ?_, ?_, ?_, ?_,
    visit_strikes h h1 hp, visit_offences h h1 hp, visit_ends h h1 hp hwall1, ?_, hknown2, ?_⟩
  · rw [hclock2, hclock1, hclock]
    omega
  · rw [hmoved2.wall, hwall1]
    push_cast
    linarith
  · rw [hmoved2.allow, h1.moved.allow, h.allow]
  · rw [hmoved2.sources, h1.moved.sources, h.sources]
  · rw [hp.ends_off _ (notMem_group hg le_rfl (show 4096 / 32 ≠ m % 128 by omega)), h1.ends]
    exact h.new
  · intro i hi hlate
    obtain ⟨bv, hbv, hexp⟩ := visit_entries h h1 hm hp hclock1 i hi hlate
    exact ⟨bv, hkept2 _ _ hbv (by omega), hexp⟩

lemma stage_reached (cpu : Fin n) {m : ℕ} (hm : m ≤ 256) :
    ∃ tr s', Path (Second cpu) (World.loaded n, Controller.init Capacity.args) tr s' ∧
      Stage m s' := by
  induction m with
  | zero => exact ⟨[], _, .nil, stage_start⟩
  | succ m ih =>
    obtain ⟨tr, s, h, hs⟩ := ih (by omega)
    obtain ⟨tr', s', h', hs'⟩ := hs.visit cpu hm
    exact ⟨tr ++ tr', s', h.append h', hs'⟩

/-- Entries for all the sources fill the blocklist. -/
lemma full_of_kept {w : World n} (hk : Known w)
    (hall : ∀ i < 4096, .single (addr i) ∈ w.blocklist) : ¬ Room w (.single (addr 4096)) := by
  rintro (hmem | hlt)
  · obtain ⟨i, hi, heq⟩ := hk _ hmem
    have hi' := addr_inj le_rfl hi.le (single_injective heq)
    omega
  · have hnodup : ((List.range 4096).map fun i => LpmKey.single (addr i)).Nodup := by
      refine List.Nodup.map_on (fun i hi j hj hij => ?_) List.nodup_range
      have hi' := List.mem_range.mp hi
      have hj' := List.mem_range.mp hj
      exact addr_inj hi'.le hj'.le (single_injective hij)
    have hsub : ((List.range 4096).map fun i => LpmKey.single (addr i)) ⊆ w.blocklist.keys := by
      intro k hmem
      obtain ⟨i, hi, rfl⟩ := List.mem_map.mp hmem
      exact AList.mem_keys.mp (hall i (List.mem_range.mp hi))
    have hle := (hnodup.subperm hsub).length_le
    rw [List.length_map, List.length_range] at hle
    have hmax : MAX_BLOCKLIST = 4096 := rfl
    omega

/-- A step of the controller whose call of `update` raises. -/
lemma run_act_error {c : Controller} {vs : Dict Addr (Option String)} {w w1 : World n}
    {e : PyError} {b' : Blocker}
    (h : run (exec cpu) (c.blocker.process_all w.wall 0 vs.entries) w = (.error (e, b'), w1))
    (stats : Stats) (now : ℚ) : run (exec cpu) (act c vs stats now) w = (.error e, w1) := by
  unfold act
  exact Exc.run_bind_error (run_act h)

/-- **Everybody comes back.** 4096 sources, 32 each second window, are blocked for a minute, and
then again for five; the next source makes a step of the controller fail. -/
theorem offenders_fill_blocklist : ∃ tr s' vs stats now,
    Path (Second 0) (World.loaded 1, Controller.init Capacity.args) tr s' ∧
      (run (exec 0) (act s'.2 vs stats now) s'.1).1 = .error blocklist_full := by
  obtain ⟨tr, s, h, hs⟩ := stage_reached (0 : Fin 1) (le_refl 256)
  have hl : Sources [4096] := by
    refine ⟨List.nodup_singleton _, fun i hi => ?_⟩
    rw [List.mem_singleton.mp hi]
  have hmem : 4096 ∈ [4096] := List.mem_singleton_self _
  obtain ⟨s1, hsec1, h1⟩ := first_window 0 hl hs.args hs.sources fun i hi =>
    hs.strikes i (hl.2 i hi)
  have hclock := hs.clock
  have hclock1 := h1.moved.clock (by omega)
  have hu : s1.2.blocker.until_.getD (addr 4096) 0 ≤ s1.1.wall := by
    rw [h1.ends, h1.moved.wall, hs.new, hs.wall]
    norm_num
  have hb : Blocks s1.2.blocker s1.1 0 (addr 4096) (some "syn flood") :=
    blocks_of (h1.strikes 4096 hmem) hu (h1.moved.allow.trans hs.allow) (by decide)
  have hin : InTime s1.2.blocker (addr 4096) s1.1 := by
    have hd := duration_le s1.2.blocker (addr 4096)
    unfold InTime
    omega
  have hroom : ¬ Room s1.1 (.single (addr 4096)) := by
    refine full_of_kept (h1.known hs.known) fun i hi => ?_
    obtain ⟨bv, hbv, hexp⟩ := hs.kept i hi (by omega)
    exact mem_of_lookup (h1.kept _ _ hbv (by omega))
  have hrun := run_process_block 0 (h1.dry_run.trans hs.live) s1.1.wall hb
  rw [if_pos hin, if_neg hroom] at hrun
  have hall : run (exec 0) (s1.2.blocker.process_all s1.1.wall 0 (window [4096] hl).entries) s1.1 =
      _ := Exc.run_bind_error (g := fun r : Blocker × ℕ => r.1.process_all s1.1.wall r.2 []) hrun
  refine ⟨_, s1, window [4096] hl, ⟨fun _ => 0, 0, 0⟩, 0, h.snoc hsec1, ?_⟩
  rw [run_act_error hall]
  rfl

end Lookout.Capacity

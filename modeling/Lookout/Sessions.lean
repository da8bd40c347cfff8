import Lookout.Policy
import Lookout.Runs

/-!
The controller's work on the blocklist, as a run of small steps: a call of `Blocker.update`
begins, judges one source after another and ends; between two calls the expired entries are
removed, and others have their turn.
-/

namespace Lookout.Sessions

open Lookout.Effects Lookout.Effects.Prog Lookout.Runs Lookout.Dicts Lookout.Lpm Lookout.Common
open Lookout.Kernel Lookout.Firewall Lookout.Policy

variable {n : ℕ}

/-! ### One source -/

/-- The entry of a block of `ip` that the blocker issues at `w`. -/
def entry (b : Blocker) (ip : Addr) (w : World n) : BlockVal where
  expires_ns := BitVec.ofNat 64 (w.clock.toNat + b.duration ip * 1000000000)
  hits := 0
  reason := BLOCK_AUTO

/-- The deadline fits its field. -/
def InTime (b : Blocker) (ip : Addr) (w : World n) : Prop :=
  w.clock.toNat + b.duration ip * 1000000000 < 2 ^ 64

instance (b : Blocker) (ip : Addr) (w : World n) : Decidable (InTime b ip w) :=
  inferInstanceAs (Decidable (_ < _))

/-- The trie takes an entry for `k`. -/
def Room (w : World n) (k : LpmKey) : Prop :=
  k ∈ w.blocklist ∨ w.blocklist.keys.length < MAX_BLOCKLIST

instance (w : World n) (k : LpmKey) : Decidable (Room w k) :=
  inferInstanceAs (Decidable (_ ∨ _))

/-- The source is flagged and has its strikes. -/
def Struck (b : Blocker) (ip : Addr) (reason : Option String) : Prop :=
  reason.isSome ∧ STRIKES ≤ (b.strike ip).strikes.getD ip 0

/-- Nothing keeps the blocker from blocking a struck source but its own table. -/
def Eligible (w : World n) (issued : ℕ) (ip : Addr) : Prop :=
  find w.allowlist ip = none ∧ issued < MAX_PER_WINDOW

/-- The blocker goes on to the block. -/
def Blocks (b : Blocker) (w : World n) (issued : ℕ) (ip : Addr) (reason : Option String) : Prop :=
  Struck b ip reason ∧ b.lasts ip w.wall = false ∧ Eligible w issued ip

instance (b : Blocker) (w : World n) (issued : ℕ) (ip : Addr) (reason : Option String) :
    Decidable (Blocks b w issued ip reason) :=
  inferInstanceAs (Decidable ((_ ∧ _) ∧ _ ∧ _ ∧ _))

/-- The world with the new entry. -/
def put (w : World n) (k : LpmKey) (bv : BlockVal) : World n :=
  { w with blocklist := w.blocklist.insert k bv }

lemma duration_pos (b : Blocker) (ip : Addr) : 0 < b.duration ip := by
  have hall : ∀ i < 3, 0 < DURATIONS.getD i 0 := by decide
  have hlt : min (b.offences.getD ip 0) (DURATIONS.length - 1) < 3 := by
    have hlen : DURATIONS.length = 3 := rfl
    omega
  exact hall _ hlt

lemma entry_expires {b : Blocker} {ip : Addr} {w : World n} (ht : InTime b ip w) :
    (entry b ip w).expires_ns.toNat = w.clock.toNat + b.duration ip * 1000000000 := by
  rw [entry, BitVec.toNat_ofNat]
  exact Nat.mod_eq_of_lt ht

lemma run_store (cpu : Fin n) (k : LpmKey) (expires : ℕ) (reason : U32) (w : World n) :
    run (exec cpu) (store k reason expires) w =
      if expires < 2 ^ 64 then
        if k ∈ w.blocklist ∨ w.blocklist.keys.length < MAX_BLOCKLIST then
          (.ok (), put w k ⟨BitVec.ofNat 64 expires, 0, reason⟩)
        else (.error (.BpfError (PIN_DIR ++ "/" ++ "blocklist")), w)
      else (.error .struct_error, w) := by
  by_cases h : expires < 2 ^ 64
  · rw [store_fits k reason h, if_pos h]
    change run (exec cpu) (updated "blocklist" (update MAX_BLOCKLIST w.blocklist k _).1)
      { w with blocklist := (update MAX_BLOCKLIST w.blocklist k _).2 } = _
    unfold update
    split_ifs <;> rfl
  · rw [store_not_fits k reason h, if_neg h]
    rfl

lemma run_clock {α : Type} (cpu : Fin n) (q : U64 → Call α) (w : World n) :
    run (exec cpu) (.call (S := calls) Op.ktime_get_ns q) w = run (exec cpu) (q w.clock) w := rfl

/-- A block of `d` nanoseconds needs a deadline that fits and room for its key. -/
lemma run_block (cpu : Fin n) (k : LpmKey) (d : ℕ) (reason : U32) (w : World n) :
    run (exec cpu) (block k (some d) reason) w =
      if w.clock.toNat + d < 2 ^ 64 then
        if k ∈ w.blocklist ∨ w.blocklist.keys.length < MAX_BLOCKLIST then
          (.ok (), put w k ⟨BitVec.ofNat 64 (w.clock.toNat + d), 0, reason⟩)
        else (.error (.BpfError (PIN_DIR ++ "/" ++ "blocklist")), w)
      else (.error .struct_error, w) := by
  rw [block_some]
  exact (run_clock cpu (fun now => store k reason (now.toNat + d)) w).trans
    (run_store cpu k (w.clock.toNat + d) reason w)

/-- A permanent block needs room for its key only. -/
lemma run_block_permanent (cpu : Fin n) (k : LpmKey) (reason : U32) (w : World n) :
    run (exec cpu) (block k none reason) w =
      if k ∈ w.blocklist ∨ w.blocklist.keys.length < MAX_BLOCKLIST then
        (.ok (), put w k ⟨0, 0, reason⟩)
      else (.error (.BpfError (PIN_DIR ++ "/" ++ "blocklist")), w) := by
  have hstore := run_store cpu k 0 reason w
  rw [if_pos (by decide)] at hstore
  rw [block_none]
  exact hstore

/-- The blocker after a block at `now`, with its message. -/
def after_block (b : Blocker) (now : ℚ) (ip : Addr) (msg localtime : String) : Blocker :=
  { b.issue ip now with log := Blocker.append_log b.log (localtime, msg) }

lemma run_issue_block (cpu : Fin n) {b : Blocker} (hlive : b.dry_run = false) (now : ℚ)
    (issued : ℕ) (ip : Addr) (reason : String) (w : World n) :
    run (exec cpu) (b.issue_block now issued ip reason) w =
      if InTime b ip w then
        if Room w (.single ip) then
          (.ok (after_block b now ip (b.block_msg ip reason) w.localtime, issued + 1),
            put w (.single ip) (entry b ip w))
        else (.error (.BpfError (PIN_DIR ++ "/" ++ "blocklist"), b), w)
      else (.error (.struct_error, b), w) := by
  have hblock : run (exec cpu) (block (.single ip) (seconds (b.duration ip)) BLOCK_AUTO) w =
      if InTime b ip w then
        if Room w (.single ip) then (.ok (), put w (.single ip) (entry b ip w))
        else (.error (.BpfError (PIN_DIR ++ "/" ++ "blocklist")), w)
      else (.error .struct_error, w) :=
    run_block cpu (.single ip) (b.duration ip * 1000000000) BLOCK_AUTO w
  have hrethrow := Exc.run_rethrow (f := exec cpu) (·, b)
    (block (.single ip) (seconds (b.duration ip)) BLOCK_AUTO) w
  have hif : (!b.dry_run) = true := by rw [hlive]; rfl
  unfold Blocker.issue_block
  rw [if_pos hif]
  split_ifs at hblock ⊢ <;> rw [hblock] at hrethrow
  · rw [Exc.run_bind_ok hrethrow]
    rfl
  · exact Exc.run_bind_error hrethrow
  · exact Exc.run_bind_error hrethrow

/-- **A source the blocker does not block** leaves the maps, the deadlines and the offences
alone. -/
theorem run_process_idle (cpu : Fin n) {b : Blocker} (now : ℚ) {issued : ℕ} {ip : Addr}
    {reason : Option String} {w : World n} (h : ¬ Blocks b w issued ip reason) :
    ∃ b', run (exec cpu) (b.process now issued ip reason) w = (.ok (b', issued), w) ∧
      b'.dry_run = b.dry_run ∧ b'.until_ = b.until_ ∧ b'.offences = b.offences := by
  cases reason with
  | none => exact ⟨b.decay ip, rfl, rfl, rfl, rfl⟩
  | some reason =>
    have htime : run (exec cpu) (liftM ((b.strike ip).is_blocked ip) : Blocker.Method Bool) w =
      (.ok (b.lasts ip w.wall), w) := rfl
    have hallow : run (exec cpu) (liftM (is_allowed ip) : Blocker.Method Bool) w =
      (.ok (find w.allowlist ip).isSome, w) := rfl
    have hjudge : b.process now issued ip (some reason) =
      (b.strike ip).judge now issued ip reason := rfl
    rw [hjudge]
    unfold Blocker.judge
    by_cases hs : (b.strike ip).strikes.getD ip 0 < STRIKES
    · rw [if_pos hs]
      exact ⟨b.strike ip, rfl, rfl, rfl, rfl⟩
    rw [if_neg hs, Exc.run_bind_ok htime]
    by_cases hl : b.lasts ip w.wall = true
    · rw [if_pos hl]
      exact ⟨(b.strike ip).forget ip, rfl, rfl, rfl, rfl⟩
    rw [if_neg hl, Exc.run_bind_ok hallow]
    by_cases ha : (find w.allowlist ip).isSome = true
    · rw [if_pos ha]
      exact ⟨_, rfl, rfl, rfl, rfl⟩
    rw [if_neg ha]
    by_cases hi : issued ≥ MAX_PER_WINDOW
    · rw [if_pos hi]
      exact ⟨b.strike ip, rfl, rfl, rfl, rfl⟩
    · exact absurd ⟨⟨rfl, by omega⟩, by simpa using hl, by simpa using ha, by omega⟩ h

/-- **A source the blocker blocks**, in a live session. -/
theorem run_process_block (cpu : Fin n) {b : Blocker} (hlive : b.dry_run = false) (now : ℚ)
    {issued : ℕ} {ip : Addr} {reason : String} {w : World n}
    (h : Blocks b w issued ip (some reason)) :
    run (exec cpu) (b.process now issued ip (some reason)) w =
      if InTime b ip w then
        if Room w (.single ip) then
          (.ok (after_block (b.strike ip) now ip (b.block_msg ip reason) w.localtime, issued + 1),
            put w (.single ip) (entry b ip w))
        else (.error (.BpfError (PIN_DIR ++ "/" ++ "blocklist"), b.strike ip), w)
      else (.error (.struct_error, b.strike ip), w) := by
  obtain ⟨⟨-, hs⟩, hl, ha, hi⟩ := h
  have htime : run (exec cpu) (liftM ((b.strike ip).is_blocked ip) : Blocker.Method Bool) w =
      (.ok false, w) := by
    rw [← hl]; rfl
  have hallow : run (exec cpu) (liftM (is_allowed ip) : Blocker.Method Bool) w =
      (.ok false, w) := by
    have hnone : (find w.allowlist ip).isSome = false := by rw [ha]; rfl
    rw [← hnone]; rfl
  have hjudge : b.process now issued ip (some reason) =
    (b.strike ip).judge now issued ip reason := rfl
  rw [hjudge]
  unfold Blocker.judge
  rw [if_neg (by omega), Exc.run_bind_ok htime, if_neg Bool.false_ne_true,
    Exc.run_bind_ok hallow, if_neg Bool.false_ne_true, if_neg (by omega)]
  have hlive' : (b.strike ip).dry_run = false := hlive
  exact run_issue_block cpu hlive' now issued ip reason w

/-- The exception of a full blocklist. -/
def blocklist_full : PyError := .BpfError (PIN_DIR ++ "/" ++ "blocklist")

/-- What can come of judging one source. -/
inductive Outcome (b : Blocker) (now : ℚ) (issued : ℕ) (ip : Addr) (reason : Option String)
    (w : World n) : Except (PyError × Blocker) (Blocker × ℕ) → World n → Prop
  | idle {b' : Blocker} (h : ¬ Blocks b w issued ip reason) (hd : b'.dry_run = b.dry_run)
    (hu : b'.until_ = b.until_) (ho : b'.offences = b.offences) :
    Outcome b now issued ip reason w (.ok (b', issued)) w
  | blocked {b' : Blocker} (h : Blocks b w issued ip reason) (ht : InTime b ip w)
    (hr : Room w (.single ip)) (hd : b'.dry_run = b.dry_run)
    (hu : b'.until_ = (b.issue ip now).until_) (ho : b'.offences = (b.issue ip now).offences) :
    Outcome b now issued ip reason w (.ok (b', issued + 1)) (put w (.single ip) (entry b ip w))
  | full (h : Blocks b w issued ip reason) (ht : InTime b ip w) (hr : ¬ Room w (.single ip)) :
    Outcome b now issued ip reason w (.error (blocklist_full, b.strike ip)) w
  | late (h : Blocks b w issued ip reason) (ht : ¬ InTime b ip w) :
    Outcome b now issued ip reason w (.error (.struct_error, b.strike ip)) w

/-- **Judging a source in a live session** comes to one of these. -/
theorem outcome_of_run {cpu : Fin n} {b : Blocker} (hlive : b.dry_run = false) {now : ℚ}
    {issued : ℕ} {ip : Addr} {reason : Option String} {w w' : World n}
    {r : Except (PyError × Blocker) (Blocker × ℕ)}
    (h : run (exec cpu) (b.process now issued ip reason) w = (r, w')) :
    Outcome b now issued ip reason w r w' := by
  by_cases hb : Blocks b w issued ip reason
  · obtain ⟨reason, rfl⟩ := Option.isSome_iff_exists.mp hb.1.1
    rw [run_process_block cpu hlive now hb] at h
    split_ifs at h with ht hr
    · cases h; exact .blocked hb ht hr rfl rfl rfl
    · cases h; exact .full hb ht hr
    · cases h; exact .late hb ht
  · obtain ⟨b', hrun, hd, hu, ho⟩ := run_process_idle cpu now hb
    rw [hrun] at h
    cases h
    exact .idle hb hd hu ho

/-! ### The cleanup -/

/-- The world after some entries were deleted. -/
def drop_blocks (w : World n) (ks : List LpmKey) : World n :=
  { w with blocklist := ks.foldl (fun m k => m.erase k) w.blocklist }

lemma run_delete_blocks (cpu : Fin n) (ks : List LpmKey) (w : World n) :
    run (exec cpu) (delete_blocks ks) w = ((), drop_blocks w ks) := by
  induction ks generalizing w with
  | nil => rfl
  | cons k ks ih => exact ih { w with blocklist := w.blocklist.erase k }

/-- The keys of the entries that have run out at `w`. -/
def doomed (w : World n) : List LpmKey :=
  ((Dict.items w.blocklist).filter fun e => expired w.clock.toNat e.2).map Prod.fst

/-- The world after `remove_expired_blocks`. -/
def swept (w : World n) : World n := drop_blocks w (doomed w)

lemma run_remove_expired_blocks (cpu : Fin n) (w : World n) :
    run (exec cpu) remove_expired_blocks w = ((doomed w).length, swept w) := by
  unfold remove_expired_blocks
  simp only [ktime_ns, op_eq, call_bind, ret_bind, pure_eq, run_call, exec]
  rw [run_bind, run_delete_blocks]
  rfl

lemma lookup_drop_blocks (w : World n) (ks : List LpmKey) (k : LpmKey) :
    (drop_blocks w ks).blocklist.lookup k = if k ∈ ks then none else w.blocklist.lookup k :=
  Dict.lookup_eraseAll w.blocklist ks k

/-- **The cleanup keeps the entries that have not run out**, and only these. -/
theorem lookup_swept (w : World n) (k : LpmKey) :
    (swept w).blocklist.lookup k =
      (w.blocklist.lookup k).filter fun bv => !expired w.clock.toNat bv := by
  unfold swept
  rw [lookup_drop_blocks]
  have hmem : k ∈ doomed w ↔
      ∃ bv, w.blocklist.lookup k = some bv ∧ expired w.clock.toNat bv = true := by
    simp only [doomed, List.mem_map, List.mem_filter, Prod.exists, exists_and_right,
      exists_eq_right, Dict.mem_items]
  cases hbv : w.blocklist.lookup k with
  | none => simp
  | some bv =>
    cases he : expired w.clock.toNat bv with
    | true =>
      rw [if_pos (hmem.mpr ⟨bv, hbv, he⟩), Option.filter, he]
      rfl
    | false =>
      have hk : k ∉ doomed w := by
        intro h
        obtain ⟨bv', hbv', he'⟩ := hmem.mp h
        rw [hbv] at hbv'
        cases hbv'
        rw [he] at he'
        cases he'
      rw [if_neg hk, Option.filter, he]
      rfl

/-! ### Sessions -/

/-- The locals of a running call of `update`, and the world in which it began. -/
structure Running (n : ℕ) where
  start : World n
  now : ℚ
  issued : ℕ

structure Session (n : ℕ) where
  world : World n
  blocker : Blocker
  call : Option (Running n)

inductive Ev
  | begin_call
  | source (ip : Addr) (reason : Option String)
  | failed (ip : Addr) (reason : Option String) (e : PyError)
  | end_call
  | clean_up
  | inside
  | outside

/-- What can happen next. `inside` and `outside` say what the others may do during a call and
between two. -/
inductive Step (cpu : Fin n) (inside outside : World n → World n → Prop) :
    Session n → Ev → Session n → Prop
  | begin_call (w : World n) (b : Blocker) :
    Step cpu inside outside ⟨w, b, none⟩ .begin_call ⟨w, b, some ⟨w, w.wall, 0⟩⟩
  | source {w w' : World n} {b b' : Blocker} {k : Running n} {ip : Addr}
    {reason : Option String} {issued : ℕ}
    (h : run (exec cpu) (b.process k.now k.issued ip reason) w = (.ok (b', issued), w')) :
    Step cpu inside outside ⟨w, b, some k⟩ (.source ip reason)
      ⟨w', b', some { k with issued }⟩
  | failed {w w' : World n} {b b' : Blocker} {k : Running n} {ip : Addr}
    {reason : Option String} {e : PyError}
    (h : run (exec cpu) (b.process k.now k.issued ip reason) w = (.error (e, b'), w')) :
    Step cpu inside outside ⟨w, b, some k⟩ (.failed ip reason e) ⟨w', b', none⟩
  | end_call (w : World n) (b : Blocker) (k : Running n) :
    Step cpu inside outside ⟨w, b, some k⟩ .end_call ⟨w, b, none⟩
  | clean_up (w : World n) (b : Blocker) :
    Step cpu inside outside ⟨w, b, none⟩ .clean_up
      ⟨(run (exec cpu) remove_expired_blocks w).2, b, none⟩
  | inside {w w' : World n} (b : Blocker) (k : Running n) (h : inside w w') :
    Step cpu inside outside ⟨w, b, some k⟩ .inside ⟨w', b, some k⟩
  | outside {w w' : World n} (b : Blocker) (log : List (String × String)) (h : outside w w') :
    Step cpu inside outside ⟨w, b, none⟩ .outside ⟨w', { b with log }, none⟩

/-- The packets count their hits and time passes; anything else but the blocklist may change
too. -/
def Still (w w' : World n) : Prop :=
  w.clock ≤ w'.clock ∧ Alike BlockVal.expires_ns w.blocklist w'.blocklist

variable {cpu : Fin n} {inside outside : World n → World n → Prop}

/-- A session stays live. -/
lemma step_live {s s' : Session n} {ev : Ev} (h : Step cpu inside outside s ev s')
    (hlive : s.blocker.dry_run = false) : s'.blocker.dry_run = false := by
  cases h with
  | source h => cases outcome_of_run hlive h with
    | idle _ hd => exact hd.trans hlive
    | blocked _ _ _ hd => exact hd.trans hlive
  | failed h => cases outcome_of_run hlive h <;> exact hlive
  | _ => exact hlive

/-- The blocker after a call, whether it has returned or raised. -/
def left : Except (PyError × Blocker) Blocker → Blocker
  | .ok b => b
  | .error e => e.2

/-- A call raised `e` in this run. -/
def Raised (tr : List (Trans (Session n) Ev)) (e : PyError) : Prop :=
  ∃ x ∈ tr, ∃ ip reason, x.ev = .failed ip reason e

lemma path_of_process_all {b : Blocker} {now : ℚ} {issued : ℕ}
    {vs : List ((_ : Addr) × Option String)} {w w' : World n}
    {r : Except (PyError × Blocker) Blocker} (start : World n)
    (h : run (exec cpu) (b.process_all now issued vs) w = (r, w')) :
    ∃ tr, Path (Step cpu inside outside) ⟨w, b, some ⟨start, now, issued⟩⟩ tr
      ⟨w', left r, none⟩ ∧ ∀ e, Raised tr e ↔ r.mapError Prod.fst = .error e := by
  induction vs generalizing b issued w with
  | nil =>
    cases h
    exact ⟨_, .snoc .nil (.end_call _ _ _), fun e => by simp [Raised, Except.mapError]⟩
  | cons v vs ih =>
    obtain ⟨ip, reason⟩ := v
    rcases hp : run (exec cpu) (b.process now issued ip reason) w with ⟨⟨e, b1⟩ | ⟨b1, issued1⟩, w1⟩
    · have hall := Exc.run_bind_error (g := fun r : Blocker × ℕ => r.1.process_all now r.2 vs) hp
      have hr : (Except.error (e, b1), w1) = (r, w') := hall.symm.trans h
      cases hr
      exact ⟨_, .snoc .nil (.failed hp), fun e => by simp [Raised, Except.mapError]⟩
    · have hall := Exc.run_bind_ok (g := fun r : Blocker × ℕ => r.1.process_all now r.2 vs) hp
      obtain ⟨tr, htr, hraised⟩ := ih (hall.symm.trans h)
      exact ⟨_, .cons (.source hp) htr, fun e => by rw [← hraised]; simp [Raised]⟩

/-- **A call of `update` alone on the machine is a run of a session**, which fails at a source
when the call raises. -/
theorem path_of_update {b : Blocker} {vs : Dict Addr (Option String)} {w w' : World n}
    {r : Except (PyError × Blocker) Blocker} (h : run (exec cpu) (b.update vs) w = (r, w')) :
    ∃ tr, Path (Step cpu inside outside) ⟨w, b, none⟩ tr ⟨w', left r, none⟩ ∧
      ∀ e, Raised tr e ↔ r.mapError Prod.fst = .error e := by
  have hall : run (exec cpu) (b.process_all w.wall 0 vs.entries) w = (r, w') := h
  obtain ⟨tr, htr, hraised⟩ := path_of_process_all w hall
  exact ⟨_, .cons (.begin_call w b) htr, fun e => by rw [← hraised]; simp [Raised]⟩

/-- The session after a whole call, alone on the machine. -/
def Session.after_call (cpu : Fin n) (s : Session n) (vs : Dict Addr (Option String)) :
    Session n :=
  ⟨(run (exec cpu) (s.blocker.update vs) s.world).2,
    left (run (exec cpu) (s.blocker.update vs) s.world).1, none⟩

lemma path_after_call (cpu : Fin n) (inside outside : World n → World n → Prop) (s : Session n)
    (vs : Dict Addr (Option String)) (h : s.call = none) :
    ∃ tr, Path (Step cpu inside outside) s tr (s.after_call cpu vs) := by
  obtain ⟨w, b, call⟩ := s
  subst h
  obtain ⟨tr, htr, -⟩ := path_of_update (r := (run (exec cpu) (b.update vs) w).1) rfl
  exact ⟨tr, htr⟩

/-! ### A session with one source -/

/-- A window that flags one source. -/
def flood : Dict Addr (Option String) := AList.insert 7 (some "syn flood") ∅

/-- The source has one strike already. -/
def one_strike : Blocker := (Blocker.init false).strike 7

end Lookout.Sessions

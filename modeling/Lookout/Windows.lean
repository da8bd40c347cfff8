import Lookout.Policy
import Lookout.Runs

/-!
`Blocker.update`, window after window.

A call judges the sources of its window one after another, in the order of the dictionary. What it
is told meanwhile — the time, the answer of the allowlist, whether a write has failed — may be
anything, so a step of a run is any trace of the loop's body.
-/

namespace Lookout.Windows

open Lookout.Effects Lookout.Effects.Prog Lookout.Runs Lookout.Dicts Lookout.Lpm Lookout.Common
open Lookout.Kernel Lookout.Firewall Lookout.Policy

/-! ### One source -/

/-- The entry of a block of `ip` that is written at `clock`. -/
def entry (b : Blocker) (ip : Addr) (clock : U64) : BlockVal where
  expires_ns := BitVec.ofNat 64 (clock.toNat + b.duration ip * 1000000000)
  hits := 0
  reason := BLOCK_AUTO

/-- The deadline fits its field. -/
def InTime (b : Blocker) (ip : Addr) (clock : U64) : Prop :=
  clock.toNat + b.duration ip * 1000000000 < 2 ^ 64

/-- The strikes of `ip` once this window is counted are enough. -/
def Struck (b : Blocker) (ip : Addr) : Prop := STRIKES ≤ b.strikes.getD ip 0 + 1

instance (b : Blocker) (ip : Addr) : Decidable (Struck b ip) := inferInstanceAs (Decidable (_ ≤ _))

/-- With another message in the log. -/
def noted (b : Blocker) (log : List (String × String)) : Blocker := { b with log }

/-- What can come of judging a source: the operations with their answers, and the result. -/
inductive Judged (b : Blocker) (now : ℚ) (issued : ℕ) (ip : Addr) :
    Option String → List (Event calls) → Except (PyError × Blocker) (Blocker × ℕ) → Prop
  | clean : Judged b now issued ip none [] (.ok (b.decay ip, issued))
  | light {reason : String} (hs : ¬ Struck b ip) :
    Judged b now issued ip (some reason) [] (.ok (b.strike ip, issued))
  | lasting {reason : String} {time : ℚ} (hs : Struck b ip) (hl : b.lasts ip time = true) :
    Judged b now issued ip (some reason) [⟨.time, time⟩] (.ok ((b.strike ip).forget ip, issued))
  | allowed {reason : String} {time : ℚ} {e : LpmKey × AllowVal} {localtime : String}
    (log : List (String × String)) (hs : Struck b ip) (hl : b.lasts ip time = false) :
    Judged b now issued ip (some reason)
      [⟨.time, time⟩, ⟨.allow_lookup ip, some e⟩, ⟨.strftime, localtime⟩]
      (.ok (noted ((b.strike ip).forget ip) log, issued))
  | capped {reason : String} {time : ℚ} (hs : Struck b ip) (hl : b.lasts ip time = false)
    (hi : MAX_PER_WINDOW ≤ issued) :
    Judged b now issued ip (some reason) [⟨.time, time⟩, ⟨.allow_lookup ip, none⟩]
      (.ok (b.strike ip, issued))
  | dry {reason : String} {time : ℚ} {localtime : String} (log : List (String × String))
    (hd : b.dry_run = true) (hs : Struck b ip) (hl : b.lasts ip time = false)
    (hi : issued < MAX_PER_WINDOW) :
    Judged b now issued ip (some reason)
      [⟨.time, time⟩, ⟨.allow_lookup ip, none⟩, ⟨.strftime, localtime⟩]
      (.ok (noted ((b.strike ip).issue ip now) log, issued + 1))
  | blocked {reason : String} {time : ℚ} {clock : U64} {localtime : String}
    (log : List (String × String)) (hd : b.dry_run = false) (hs : Struck b ip)
    (hl : b.lasts ip time = false) (hi : issued < MAX_PER_WINDOW) (ht : InTime b ip clock) :
    Judged b now issued ip (some reason)
      [⟨.time, time⟩, ⟨.allow_lookup ip, none⟩, ⟨.ktime_get_ns, clock⟩,
        ⟨.block_update (.single ip) (entry b ip clock), false⟩, ⟨.strftime, localtime⟩]
      (.ok (noted ((b.strike ip).issue ip now) log, issued + 1))
  | full {reason : String} {time : ℚ} {clock : U64} (hd : b.dry_run = false) (hs : Struck b ip)
    (hl : b.lasts ip time = false) (hi : issued < MAX_PER_WINDOW) (ht : InTime b ip clock) :
    Judged b now issued ip (some reason)
      [⟨.time, time⟩, ⟨.allow_lookup ip, none⟩, ⟨.ktime_get_ns, clock⟩,
        ⟨.block_update (.single ip) (entry b ip clock), true⟩]
      (.error (.BpfError (PIN_DIR ++ "/" ++ "blocklist"), b.strike ip))
  | late {reason : String} {time : ℚ} {clock : U64} (hd : b.dry_run = false) (hs : Struck b ip)
    (hl : b.lasts ip time = false) (hi : issued < MAX_PER_WINDOW) (ht : ¬ InTime b ip clock) :
    Judged b now issued ip (some reason)
      [⟨.time, time⟩, ⟨.allow_lookup ip, none⟩, ⟨.ktime_get_ns, clock⟩]
      (.error (.struct_error, b.strike ip))

lemma trace_is_blocked {b : Blocker} {ip : Addr} {l : List (Event calls)} {blocked : Bool}
    (h : Trace (b.is_blocked ip) l (.ret blocked)) :
    ∃ time : ℚ, l = [⟨Op.time, time⟩] ∧ blocked = b.lasts ip time := by
  obtain ⟨time, l', rfl, hret⟩ := trace_call_ret.mp h
  obtain ⟨rfl, heq⟩ := trace_ret.mp hret
  cases heq
  exact ⟨time, rfl, rfl⟩

lemma trace_is_allowed {ip : Addr} {l : List (Event calls)} {allowed : Bool}
    (h : Trace (is_allowed ip) l (.ret allowed)) :
    ∃ e : Option (LpmKey × AllowVal), l = [⟨Op.allow_lookup ip, e⟩] ∧ allowed = e.isSome := by
  obtain ⟨e, l', rfl, hret⟩ := trace_call_ret.mp h
  obtain ⟨rfl, heq⟩ := trace_ret.mp hret
  cases heq
  exact ⟨e, rfl, rfl⟩

lemma trace_note {b b' : Blocker} {msg : String} {l : List (Event calls)}
    (h : Trace (b.note msg) l (.ret b')) :
    ∃ localtime log, l = [⟨Op.strftime, localtime⟩] ∧ b' = noted b log := by
  obtain ⟨localtime, l', rfl, hret⟩ := trace_call_ret.mp h
  obtain ⟨rfl, heq⟩ := trace_ret.mp hret
  cases heq
  exact ⟨localtime, _, rfl, rfl⟩

/-- A write of the blocklist, and what it answers. -/
lemma trace_put_block {k : LpmKey} {bv : BlockVal} {l : List (Event calls)}
    {r : Except PyError Unit} (h : Trace (put_block k bv) l (.ret r)) :
    l = [⟨.block_update k bv, false⟩] ∧ r = .ok () ∨
      l = [⟨.block_update k bv, true⟩] ∧ r = .error (.BpfError (PIN_DIR ++ "/" ++ "blocklist")) := by
  obtain ⟨failed, l1, l2, rfl, hop, hup⟩ := Exc.trace_lift_bind_inv h
  obtain ⟨failed', l', rfl, hret⟩ := trace_call_ret.mp hop
  obtain ⟨rfl, heq⟩ := trace_ret.mp hret
  cases heq
  cases failed with
  | false =>
    obtain ⟨rfl, hr⟩ := trace_ret.mp hup
    cases hr
    exact Or.inl ⟨rfl, rfl⟩
  | true =>
    obtain ⟨rfl, hr⟩ := trace_ret.mp hup
    cases hr
    exact Or.inr ⟨rfl, rfl⟩

/-- A block of the blocker's. -/
lemma trace_block {b : Blocker} {ip : Addr} {l : List (Event calls)} {r : Except PyError Unit}
    (h : Trace (block (.single ip) (seconds (b.duration ip)) BLOCK_AUTO) l (.ret r)) :
    ∃ clock : U64,
      (InTime b ip clock ∧
        (l = [⟨Op.ktime_get_ns, clock⟩, ⟨.block_update (.single ip) (entry b ip clock), false⟩] ∧
            r = .ok () ∨
          l = [⟨Op.ktime_get_ns, clock⟩, ⟨.block_update (.single ip) (entry b ip clock), true⟩] ∧
            r = .error (.BpfError (PIN_DIR ++ "/" ++ "blocklist")))) ∨
      (¬ InTime b ip clock ∧ l = [⟨Op.ktime_get_ns, clock⟩] ∧ r = .error .struct_error) := by
  rw [seconds, block_some] at h
  obtain ⟨clock, l', rfl, hstore⟩ := trace_call_ret.mp h
  refine ⟨clock, ?_⟩
  by_cases ht : InTime b ip clock
  · rw [store_fits _ _ ht] at hstore
    refine Or.inl ⟨ht, ?_⟩
    rcases trace_put_block hstore with ⟨rfl, rfl⟩ | ⟨rfl, rfl⟩
    · exact Or.inl ⟨rfl, rfl⟩
    · exact Or.inr ⟨rfl, rfl⟩
  · rw [store_not_fits _ _ ht] at hstore
    obtain ⟨rfl, hr⟩ := trace_ret.mp hstore
    cases hr
    exact Or.inr ⟨ht, rfl, rfl⟩

variable {b : Blocker} {now : ℚ} {issued : ℕ} {ip : Addr}

/-- The block itself, of a source that nothing keeps the blocker from blocking. -/
lemma judged_of_issue {reason : String} {time : ℚ} {l : List (Event calls)}
    {r : Except (PyError × Blocker) (Blocker × ℕ)} (hs : Struck b ip)
    (hl : b.lasts ip time = false) (hi : issued < MAX_PER_WINDOW)
    (h : Trace ((b.strike ip).issue_block now issued ip reason) l (.ret r)) :
    Judged b now issued ip (some reason)
      (⟨.time, time⟩ :: ⟨.allow_lookup ip, none⟩ :: l) r := by
  have hnote : ∀ {l' : List (Event calls)}, Trace (do
      let b' ← ((b.strike ip).issue ip now).note ((b.strike ip).block_msg ip reason)
      return (b', issued + 1) : Blocker.Method (Blocker × ℕ)) l' (.ret r) →
      ∃ localtime log, l' = [⟨.strftime, localtime⟩] ∧
        r = .ok (noted ((b.strike ip).issue ip now) log, issued + 1) := by
    intro l' h'
    obtain ⟨b', l1, l2, rfl, hn, hret⟩ := Exc.trace_lift_bind_inv h'
    obtain ⟨localtime, log, rfl, rfl⟩ := trace_note hn
    obtain ⟨rfl, hr⟩ := trace_ret.mp hret
    cases hr
    exact ⟨localtime, log, rfl, rfl⟩
  unfold Blocker.issue_block at h
  by_cases hd : b.dry_run = true
  · have hskip : ¬ (!(b.strike ip).dry_run) = true := by
      rw [Bool.not_eq_true']
      exact fun hlive => Bool.false_ne_true (hlive.symm.trans hd)
    rw [if_neg hskip] at h
    obtain ⟨localtime, log, rfl, rfl⟩ := hnote h
    exact .dry log hd hs hl hi
  · have hlive : b.dry_run = false := by simpa using hd
    have hwrite : (!(b.strike ip).dry_run) = true := by
      rw [Bool.not_eq_true']
      exact hlive
    rw [if_pos hwrite] at h
    rcases Exc.trace_bind_inv h with ⟨u, l1, l2, rfl, hb, hn⟩ | ⟨e, rfl, hb⟩
    · obtain ⟨localtime, log, rfl, rfl⟩ := hnote hn
      obtain ⟨r', hr', hb'⟩ := Exc.trace_rethrow_inv hb
      rcases trace_block (b := b) hb' with
        ⟨clock, ⟨ht, ⟨rfl, rfl⟩ | ⟨rfl, rfl⟩⟩ | ⟨ht, rfl, rfl⟩⟩
      · exact .blocked log hlive hs hl hi ht
      · cases hr'
      · cases hr'
    · obtain ⟨r', hr', hb'⟩ := Exc.trace_rethrow_inv hb
      rcases trace_block (b := b) hb' with
        ⟨clock, ⟨ht, ⟨rfl, rfl⟩ | ⟨rfl, rfl⟩⟩ | ⟨ht, rfl, rfl⟩⟩
      · cases hr'
      · cases hr'
        exact .full hlive hs hl hi ht
      · cases hr'
        exact .late hlive hs hl hi ht

/-- **Judging a source**, whatever the answers, comes to one of these. -/
theorem judged_of_trace {reason : Option String} {l : List (Event calls)}
    {r : Except (PyError × Blocker) (Blocker × ℕ)}
    (h : Trace (b.process now issued ip reason) l (.ret r)) :
    Judged b now issued ip reason l r := by
  cases reason with
  | none =>
    obtain ⟨rfl, hr⟩ := trace_ret.mp h
    cases hr
    exact .clean
  | some reason =>
    have hstrikes : (b.strike ip).strikes.getD ip 0 = b.strikes.getD ip 0 + 1 :=
      Dict.getD_insert _ _ _ _
    have h' : Trace ((b.strike ip).judge now issued ip reason) l (.ret r) := h
    unfold Blocker.judge at h'
    by_cases hs : Struck b ip
    · have henough : ¬ (b.strike ip).strikes.getD ip 0 < STRIKES := by
        rw [hstrikes, not_lt]
        exact hs
      rw [if_neg henough] at h'
      obtain ⟨blocked, l1, l2, rfl, htime, hrest⟩ := Exc.trace_lift_bind_inv h'
      obtain ⟨time, rfl, rfl⟩ := trace_is_blocked htime
      have hsame : (b.strike ip).lasts ip time = b.lasts ip time := rfl
      rw [hsame] at hrest
      cases hl : b.lasts ip time with
      | true =>
        rw [hl, if_pos rfl] at hrest
        obtain ⟨rfl, hr⟩ := trace_ret.mp hrest
        cases hr
        exact .lasting hs hl
      | false =>
        rw [hl, if_neg Bool.false_ne_true] at hrest
        obtain ⟨allowed, l3, l4, rfl, hallow, hrest⟩ := Exc.trace_lift_bind_inv hrest
        obtain ⟨e, rfl, rfl⟩ := trace_is_allowed hallow
        cases e with
        | some e =>
          rw [Option.isSome_some, if_pos rfl] at hrest
          obtain ⟨b', l5, l6, rfl, hnote, hret⟩ := Exc.trace_lift_bind_inv hrest
          obtain ⟨localtime, log, rfl, rfl⟩ := trace_note hnote
          obtain ⟨rfl, hr⟩ := trace_ret.mp hret
          cases hr
          exact .allowed log hs hl
        | none =>
          rw [Option.isSome_none, if_neg Bool.false_ne_true] at hrest
          by_cases hi : issued ≥ MAX_PER_WINDOW
          · rw [if_pos hi] at hrest
            obtain ⟨rfl, hr⟩ := trace_ret.mp hrest
            cases hr
            exact .capped hs hl hi
          · rw [if_neg hi] at hrest
            exact judged_of_issue hs hl (by omega) hrest
    · have hfew : (b.strike ip).strikes.getD ip 0 < STRIKES := by
        rw [hstrikes]
        unfold Struck at hs
        omega
      rw [if_pos hfew] at h'
      obtain ⟨rfl, hr⟩ := trace_ret.mp h'
      cases hr
      exact .light hs

/-- A blocker stays dry, or live. -/
lemma Judged.dry_run {reason : Option String} {l : List (Event calls)}
    {r : Except (PyError × Blocker) (Blocker × ℕ)} (h : Judged b now issued ip reason l r) :
    (∀ b' issued', r = .ok (b', issued') → b'.dry_run = b.dry_run) ∧
      ∀ e b', r = .error (e, b') → b'.dry_run = b.dry_run := by
  constructor
  · rintro b' issued' rfl
    cases h <;> rfl
  · rintro e b' rfl
    cases h <;> rfl

/-! ### Windows -/

/-- The locals of a call, and the sources it has not judged yet. -/
structure Running where
  now : ℚ
  issued : ℕ
  rest : List ((_ : Addr) × Option String)

structure State where
  blocker : Blocker
  call : Option Running

inductive Ev
  | begin_call (now : ℚ) (verdicts : Dict Addr (Option String))
  | source (ip : Addr) (reason : Option String) (l : List (Event calls))
  | failed (ip : Addr) (reason : Option String) (l : List (Event calls))
  | end_call

/-- What happens next. A write that fails ends the call with its exception; a call that has judged
every source returns. -/
inductive Step : State → Ev → State → Prop
  | begin_call (b : Blocker) (now : ℚ) (verdicts : Dict Addr (Option String)) :
    Step ⟨b, none⟩ (.begin_call now verdicts) ⟨b, some ⟨now, 0, verdicts.entries⟩⟩
  | source {b b' : Blocker} {now : ℚ} {issued issued' : ℕ} {ip : Addr} {reason : Option String}
    {rest : List ((_ : Addr) × Option String)} {l : List (Event calls)}
    (h : Trace (b.process now issued ip reason) l (.ret (.ok (b', issued')))) :
    Step ⟨b, some ⟨now, issued, ⟨ip, reason⟩ :: rest⟩⟩ (.source ip reason l)
      ⟨b', some ⟨now, issued', rest⟩⟩
  | failed {b b' : Blocker} {now : ℚ} {issued : ℕ} {ip : Addr} {reason : Option String}
    {rest : List ((_ : Addr) × Option String)} {l : List (Event calls)} {e : PyError}
    (h : Trace (b.process now issued ip reason) l (.ret (.error (e, b')))) :
    Step ⟨b, some ⟨now, issued, ⟨ip, reason⟩ :: rest⟩⟩ (.failed ip reason l) ⟨b', none⟩
  | end_call (b : Blocker) (now : ℚ) (issued : ℕ) :
    Step ⟨b, some ⟨now, issued, []⟩⟩ .end_call ⟨b, none⟩

/-- What the program performs meanwhile. -/
def Ev.log : Ev → List (Event calls)
  | .begin_call now _ => [⟨.time, now⟩]
  | .source _ _ l => l
  | .failed _ _ l => l
  | .end_call => []

/-- What it performs in a run. -/
def logged (tr : List (Trans State Ev)) : List (Event calls) := tr.flatMap fun x => x.ev.log

/-- The blocker after a call, whether it has returned or raised. -/
def left : Except (PyError × Blocker) Blocker → Blocker
  | .ok b => b
  | .error e => e.2

lemma path_of_process_all {vs : List ((_ : Addr) × Option String)} {l : List (Event calls)}
    {r : Except (PyError × Blocker) Blocker}
    (h : Trace (b.process_all now issued vs) l (.ret r)) :
    ∃ tr, Path Step ⟨b, some ⟨now, issued, vs⟩⟩ tr ⟨left r, none⟩ ∧ logged tr = l := by
  induction vs generalizing b issued l with
  | nil =>
    obtain ⟨rfl, hr⟩ := trace_ret.mp h
    cases hr
    exact ⟨_, .snoc .nil (.end_call b now issued), rfl⟩
  | cons v vs ih =>
    obtain ⟨ip, reason⟩ := v
    rcases Exc.trace_bind_inv h with ⟨⟨b', issued'⟩, l1, l2, rfl, hp, hrest⟩ | ⟨⟨e, b'⟩, rfl, hp⟩
    · obtain ⟨tr, htr, rfl⟩ := ih hrest
      exact ⟨_, .cons (.source hp) htr, rfl⟩
    · exact ⟨_, .snoc .nil (.failed hp), List.append_nil l⟩

/-- **A call of `update`**, whatever it is told, is a run, and performs what its steps do. -/
theorem path_of_trace {vs : Dict Addr (Option String)} {l : List (Event calls)}
    {r : Except (PyError × Blocker) Blocker} (h : Trace (b.update vs) l (.ret r)) :
    ∃ tr, Path Step ⟨b, none⟩ tr ⟨left r, none⟩ ∧ logged tr = l := by
  obtain ⟨now, l1, l2, rfl, htime, hrest⟩ := Exc.trace_lift_bind_inv h
  obtain ⟨now', l', rfl, hret⟩ := trace_call_ret.mp htime
  obtain ⟨rfl, heq⟩ := trace_ret.mp hret
  cases heq
  obtain ⟨tr, htr, rfl⟩ := path_of_process_all hrest
  exact ⟨_, .cons (.begin_call b now vs) htr, rfl⟩

/-- So is every execution of it in the kernel, whatever the others do meanwhile. -/
theorem path_of_exec {n : ℕ} {E : World n → World n → Prop} {cpu : Fin n} {w w' : World n}
    {vs : Dict Addr (Option String)} {r : Except (PyError × Blocker) Blocker}
    (h : Exec (kernel E cpu) w (b.update vs) r w') :
    ∃ tr, Path Step ⟨b, none⟩ tr ⟨left r, none⟩ := by
  obtain ⟨l, hl⟩ := h.trace
  obtain ⟨tr, htr, -⟩ := path_of_trace hl
  exact ⟨tr, htr⟩

lemma step_dry_run {s s' : State} {e : Ev} (h : Step s e s') :
    s'.blocker.dry_run = s.blocker.dry_run := by
  cases h with
  | source h => exact (judged_of_trace h).dry_run.1 _ _ rfl
  | failed h => exact (judged_of_trace h).dry_run.2 _ _ rfl
  | _ => rfl

/-- A live session stays one. -/
lemma path_live {s t : State} {tr : List (Trans State Ev)} (h : Path Step s tr t)
    (hlive : s.blocker.dry_run = false) {x : Trans State Ev} (hx : x ∈ tr) :
    x.pre.blocker.dry_run = false :=
  h.inv_pre (fun s => s.blocker.dry_run = false)
    (fun _ _ _ hs hlive => (step_dry_run hs).trans hlive) hlive hx

/-- The steps of the call that is running, or of the last one. -/
def window (tr : List (Trans State Ev)) : List (Trans State Ev) :=
  tr.foldl (fun l x => match x.ev with | .begin_call .. => [] | _ => l ++ [x]) []

lemma window_snoc (tr : List (Trans State Ev)) (x : Trans State Ev) :
    window (tr ++ [x]) = match x.ev with | .begin_call .. => [] | _ => window tr ++ [x] := by
  unfold window
  rw [List.foldl_append]
  rfl

/-- The blocker counts a block. -/
def Issues (x : Trans State Ev) : Prop :=
  x.post.blocker.blocks_issued = x.pre.blocker.blocks_issued + 1

instance (x : Trans State Ev) : Decidable (Issues x) := inferInstanceAs (Decidable (_ = _))

/-- The blocker was told a time at which its block of the source lasts. -/
def found_lasting (b : Blocker) (ip : Addr) (l : List (Event calls)) : Bool :=
  l.any fun | ⟨.time, time⟩ => b.lasts ip time | _ => false

/-- The blocker was told of an allowlist entry that covers the source. -/
def found_allowed (l : List (Event calls)) : Bool :=
  l.any fun | ⟨.allow_lookup _, e⟩ => e.isSome | _ => false

/-- The entries written to the blocklist. -/
def written (l : List (Event calls)) : List (LpmKey × BlockVal) :=
  l.filterMap fun | ⟨.block_update k bv, false⟩ => some (k, bv) | _ => none

end Lookout.Windows

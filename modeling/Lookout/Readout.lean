import Lookout.Accounting
import Lookout.Firewall
import Mathlib.Algebra.Order.BigOperators.Group.Finset

/-!
Reading the counters while packets arrive.

`read_stats` reads one counter after another, `rx_packets` first. A packet that gets its
verdict in the meantime is counted by the verdict's counter, which is read later, and perhaps
not by `rx_packets`. What has been read and what is still to be read are kept in one sum,
which a read leaves alone.
-/

namespace Lookout.Readout

open Lookout.Effects Lookout.Effects.Prog Lookout.Runs Lookout.Common Lookout.Packet
open Lookout.Kernel Lookout.Xdp Lookout.Accounting Lookout.Firewall

variable {n : ℕ}

/-- The counters of verdicts. -/
def KINDS : List Stat := STAT_NAMES.filter fun s => s.is_pass || s.is_drop

/-- The packets whose verdict is counted. -/
def decided (g : Stat → ℕ) : ℕ := (KINDS.map g).sum

lemma decided_eq (g : Stat → ℕ) :
    decided g =
      ((STAT_NAMES.filter Stat.is_pass).map g).sum +
        ((STAT_NAMES.filter Stat.is_drop).map g).sum := by
  unfold decided
  simp only [KINDS, STAT_NAMES, List.filter, Stat.is_pass, Stat.is_drop, List.map_cons,
    List.map_nil, List.sum_cons, List.sum_nil, Bool.or_false, Bool.or_true]
  omega

lemma decided_mono {g g' : Stat → ℕ} (h : ∀ s, g s ≤ g' s) : decided g ≤ decided g' := by
  unfold decided
  exact List.sum_le_sum fun s _ => h s

/-- Advancing one counter. -/
lemma decided_add {g g' : Stat → ℕ} {s : Stat} {x : ℕ}
    (h : ∀ s', g' s' = g s' + if s' = s then x else 0) :
    decided g' = decided g + if s ∈ KINDS then x else 0 := by
  have hg : g' = fun s' => g s' + if s' = s then x else 0 := funext h
  rw [hg, decided, decided, List.sum_map_add]
  congr 1
  cases s <;> simp [KINDS, STAT_NAMES, List.filter, Stat.is_pass, Stat.is_drop]

/-! ### A packet is counted by `rx_packets` before its verdict is -/

lemma written_mono (l l' : List (Event calls)) (s : Stat) :
    (written l).stats s ≤ (written (l ++ l')).stats s := by
  induction l' using List.reverseRecOn with
  | nil => simp
  | append_singleton l' e ih =>
    rw [← List.append_assoc, written_snoc, write_stats]
    omega

/-- The start of an execution: `rx_packets` first, and nothing before it. -/
lemma written_start {f : Frame} {l : List (Event calls)} {q : Call Verdict}
    (h : Trace (xdp_firewall f) l q) :
    1 ≤ (written l).stats .rx_packets ∨ decided (written l).stats = 0 := by
  have hzero : decided Books.zero.stats = 0 := by decide
  unfold xdp_firewall at h
  simp only [stat_inc, stat_add, op_eq, call_bind, ret_bind] at h
  rcases trace_call.mp h with ⟨rfl, -⟩ | ⟨b, l1, rfl, h1⟩
  · exact Or.inr hzero
  rcases trace_call.mp h1 with ⟨rfl, -⟩ | ⟨b', l2, rfl, -⟩
  · exact Or.inr hzero
  · exact Or.inl (written_mono [⟨.ktime_get_ns, b⟩, ⟨.stat_add .rx_packets 1, b'⟩] l2 .rx_packets)

/-- **At every point of an execution** its verdict is counted at most as often as its arrival. -/
theorem decided_le_rx {f : Frame} {l : List (Event calls)} {q : Call Verdict}
    (h : Trace (xdp_firewall f) l q) (hl : ∀ e ∈ l, Allowed e) :
    decided (written l).stats ≤ (written l).stats .rx_packets := by
  -- the rest of the execution, with any answers the kernel may give
  have hans : ∀ o : Op, ∃ b : Ans o, Allowed ⟨o, b⟩ := by
    intro o
    cases o with
    | config_lookup => exact ⟨some default_config, nofun⟩
    | state_locked r p => exact ⟨(p.verdict, p.reason), Or.inl rfl⟩
    | state_insert _ _ => exact ⟨true, trivial⟩
    | ktime_get_ns => exact ⟨0, trivial⟩
    | _ => exact ⟨default, trivial⟩
  obtain ⟨l', v, h', hl'⟩ := Trace.complete hans q
  have hend := (h.append h').wp (fun e he => (List.mem_append.mp he).elim (hl e) (hl' e))
    (wp_xdp_firewall f .zero)
  have hone : decided (written (l ++ l')).stats = (written (l ++ l')).stats .rx_packets :=
    (decided_eq _).trans (kinds_of_closed hend)
  have hrx : (written (l ++ l')).stats .rx_packets = 1 := (counted_of_closed hend).rx_packets
  have hle : decided (written l).stats ≤ decided (written (l ++ l')).stats :=
    decided_mono fun s => written_mono l l' s
  rcases written_start h with h1 | h0 <;> omega

/-! ### The reader -/

/-- The dictionary made of what was read. -/
def tally (out : List (Stat × ℕ)) : Stats where
  count := fun s => (out.lookup s).getD 0
  drops_total := ((out.filter fun e => e.1.is_drop).map Prod.snd).sum
  passes_total := ((out.filter fun e => e.1.is_pass).map Prod.snd).sum

lemma getD_lookup {out : List (Stat × ℕ)} (hnd : (out.map Prod.fst).Nodup) :
    ∀ e ∈ out, (out.lookup e.1).getD 0 = e.2 := by
  induction out with
  | nil => nofun
  | cons r out ih =>
    obtain ⟨hr, hnd⟩ := List.nodup_cons.mp hnd
    intro e he
    rcases List.mem_cons.mp he with rfl | he
    · rw [List.lookup_cons, beq_self_eq_true]
      rfl
    · have hne : e.1 ≠ r.1 := fun h => hr (h ▸ List.mem_map_of_mem he)
      rw [List.lookup_cons, beq_false_of_ne hne]
      exact ih hnd e he

lemma sum_filter_snd {out : List (Stat × ℕ)} (hnd : (out.map Prod.fst).Nodup)
    (p : Stat → Bool) :
    ((out.filter fun e => p e.1).map Prod.snd).sum =
      (((out.map Prod.fst).filter p).map (tally out).count).sum := by
  have hmap : ((out.map Prod.fst).filter p).map (tally out).count =
      (out.filter fun e => p e.1).map fun e => (tally out).count e.1 := by
    rw [List.filter_map, List.map_map]
    rfl
  rw [hmap]
  congr 1
  refine List.map_congr_left fun e he => ?_
  exact (getD_lookup hnd e (List.mem_filter.mp he).1).symm

/-- The two totals of the dictionary are those of its entries. -/
lemma tally_totals {out : List (Stat × ℕ)} (h : out.map Prod.fst = STAT_NAMES) :
    (tally out).passes_total + (tally out).drops_total = decided (tally out).count := by
  have hnd : (out.map Prod.fst).Nodup := by rw [h]; decide
  rw [decided_eq, ← h, ← sum_filter_snd hnd, ← sum_filter_snd hnd]
  rfl

/-- The event of one read. -/
def reading (e : Stat × ℕ) : Event calls := ⟨.stat_sum e.1, e.2⟩

lemma reading_inj {e e' : Stat × ℕ} (h : reading e = reading e') : e = e' := by
  obtain ⟨s, x⟩ := e
  obtain ⟨s', x'⟩ := e'
  simp only [reading, Sigma.mk.injEq, Op.stat_sum.injEq] at h
  obtain ⟨rfl, hx⟩ := h
  rw [eq_of_heq hx]

/-- What has been read is the first counters of the list; the program goes on with the rest. -/
lemma trace_reads {α : Type} {l : List Stat} {g : List (Stat × ℕ) → α} {es : List (Event calls)}
    {q : Call α} (h : Trace (sum_percpu l >>= fun out => .ret (g out)) es q) :
    ∃ rd rest, l = rd.map Prod.fst ++ rest ∧ es = rd.map reading ∧
      q = (sum_percpu rest >>= fun out => .ret (g (rd ++ out))) := by
  induction l generalizing g es with
  | nil =>
    obtain ⟨rfl, rfl⟩ := trace_ret.mp h
    exact ⟨[], [], rfl, rfl, rfl⟩
  | cons s l ih =>
    rcases trace_call.mp h with ⟨rfl, rfl⟩ | ⟨x, es, rfl, h'⟩
    · exact ⟨[], s :: l, rfl, rfl, rfl⟩
    · change Trace ((sum_percpu l >>= fun rest => .ret ((s, x) :: rest)) >>=
        fun out => .ret (g out)) es q at h'
      rw [bind_bind] at h'
      obtain ⟨rd, rest, rfl, rfl, rfl⟩ := ih (g := fun out => g ((s, x) :: out)) h'
      exact ⟨(s, x) :: rd, rest, rfl, rfl, rfl⟩

/-! ### The reader among packets -/

variable {ι : Type}

/-- The reader, and the packets. -/
def program (frames : ι → Frame) : Option ι → Call (Option Stats)
  | none => do
    let stats ← read_stats
    return some stats
  | some i => do
    let _ ← xdp_firewall (frames i)
    return none

lemma program_reader (frames : ι → Frame) :
    program frames none = (sum_percpu STAT_NAMES >>= fun out => .ret (some (tally out))) :=
  bind_bind _ _ _

/-- What an observer of the run notes. -/
structure Watch where
  reads : List (Stat × ℕ)
  /-- The packets that had been received, but not counted by their verdict, when `rx_packets`
  was read. -/
  undecided : ℕ
  /-- The verdicts counted after `rx_packets` was read, by a counter that was not read yet. -/
  late : ℕ

namespace Watch

def start : Watch := ⟨[], 0, 0⟩

def has_read (v : Watch) (s : Stat) : Prop := (v.reads.lookup s).isSome

instance (v : Watch) (s : Stat) : Decidable (v.has_read s) := by unfold has_read; infer_instance

/-- The reader is between `rx_packets` and the verdict counter `s`. -/
def between (v : Watch) (s : Stat) : Prop := v.has_read .rx_packets ∧ s ∈ KINDS ∧ ¬ v.has_read s

instance (v : Watch) (s : Stat) : Decidable (v.between s) := by unfold between; infer_instance

def see (v : Watch) (x : Trans (Pool calls (World n) (Option Stats) (Option ι))
    (Option ι × Event calls)) : Watch :=
  match x.ev with
  | (none, ⟨.stat_sum s, a⟩) =>
    { v with
      reads := v.reads ++ [(s, a)]
      undecided := if s = .rx_packets then a - decided x.pre.1.total else v.undecided }
  | (some _, ⟨.stat_add s a, _⟩) =>
    { v with late := v.late + if v.between s then a else 0 }
  | _ => v

/-- The value a counter was read with or, if it has not been read, its value now. -/
def value (v : Watch) (g : Stat → ℕ) (s : Stat) : ℕ := (v.reads.lookup s).getD (g s)

end Watch

/-- The notes on a run. -/
def watch (tr : Turns calls (World n) (Option Stats) (Option ι)) : Watch :=
  tr.foldl Watch.see .start

lemma watch_snoc (tr : Turns calls (World n) (Option Stats) (Option ι))
    (x : Trans (Pool calls (World n) (Option Stats) (Option ι)) (Option ι × Event calls)) :
    watch (tr ++ [x]) = (watch tr).see x := by
  simp [watch]

/-! ### The sum that a read leaves alone -/

/-- Once `rx_packets` is read, the verdicts that are read or still to be read add up to its
value, without those that were undecided then, and with the late ones. -/
structure Seen (v : Watch) (g : Stat → ℕ) : Prop where
  before : ¬ v.has_read .rx_packets → v.reads = [] ∧ v.late = 0
  after : v.has_read .rx_packets →
    decided (v.value g) + v.undecided = v.value g .rx_packets + v.late

lemma lookup_singleton (s s' : Stat) (a : ℕ) :
    [(s, a)].lookup s' = if s' = s then some a else none := by
  by_cases h : s' = s
  · rw [h, if_pos rfl, List.lookup_cons, beq_self_eq_true]
  · rw [if_neg h, List.lookup_cons, beq_false_of_ne h]
    rfl

lemma has_read_append (v : Watch) (u l : ℕ) (s s' : Stat) (a : ℕ) :
    (⟨v.reads ++ [(s, a)], u, l⟩ : Watch).has_read s' ↔ v.has_read s' ∨ s' = s := by
  unfold Watch.has_read
  rw [List.lookup_append, lookup_singleton]
  cases v.reads.lookup s' <;> by_cases hs : s' = s <;> simp [hs]

/-- Reading a counter changes no value. -/
lemma value_append (v : Watch) (u l : ℕ) (g : Stat → ℕ) (s : Stat) :
    (⟨v.reads ++ [(s, g s)], u, l⟩ : Watch).value g = v.value g := by
  funext s'
  unfold Watch.value
  rw [List.lookup_append, lookup_singleton]
  cases v.reads.lookup s' with
  | some a => rfl
  | none =>
    by_cases hs : s' = s
    · simp [hs]
    · simp [hs]

lemma see_read {v : Watch} {g : Stat → ℕ} {s : Stat}
    {x : Trans (Pool calls (World n) (Option Stats) (Option ι)) (Option ι × Event calls)}
    (hx : x.ev = (none, ⟨.stat_sum s, g s⟩)) (hpre : x.pre.1.total = g) (hv : Seen v g)
    (hs : s = .rx_packets ↔ v.reads = []) (hle : decided g ≤ g .rx_packets) :
    Seen (v.see x) g := by
  have hsee : v.see x = ⟨v.reads ++ [(s, g s)],
      if s = .rx_packets then g s - decided g else v.undecided, v.late⟩ := by
    unfold Watch.see
    rw [hx, hpre]
  rw [hsee]
  by_cases hrx : s = .rx_packets
  · -- the first read: what is decided now is part of what is received
    have hnil := hs.mp hrx
    have hlate : v.late = 0 := by
      refine (hv.before ?_).2
      simp [Watch.has_read, hnil]
    refine ⟨fun h => absurd ((has_read_append _ _ _ _ _ _).mpr (Or.inr hrx.symm)) h, fun _ => ?_⟩
    have hval : v.value g = g := by
      funext s'
      simp [Watch.value, hnil]
    rw [value_append, hval, if_pos hrx, hlate]
    dsimp only
    rw [hrx]
    omega
  · have hread : v.has_read .rx_packets := by
      by_contra h
      exact hrx (hs.mpr (hv.before h).1)
    refine ⟨fun h => absurd ((has_read_append _ _ _ _ _ _).mpr (Or.inl hread)) h, fun _ => ?_⟩
    rw [value_append, if_neg hrx]
    exact hv.after hread

/-- Advancing a counter changes its value, unless it has been read. -/
lemma value_add {v : Watch} {g g' : Stat → ℕ} {s : Stat} {a : ℕ}
    (hg : ∀ s', g' s' = g s' + if s' = s then a else 0) (s' : Stat) :
    v.value g' s' = v.value g s' + if s' = s then (if v.has_read s then 0 else a) else 0 := by
  by_cases hs : s' = s
  · subst hs
    by_cases hr : v.has_read s'
    · obtain ⟨x, hx⟩ := Option.isSome_iff_exists.mp hr
      simp [Watch.value, hx, hr]
    · have hx : v.reads.lookup s' = none := Option.not_isSome_iff_eq_none.mp hr
      simp [Watch.value, hx, hr, hg]
  · simp [Watch.value, hg, hs]

lemma see_packet {v : Watch} {g g' : Stat → ℕ} {i : ι} {e : Event calls}
    {x : Trans (Pool calls (World n) (Option Stats) (Option ι)) (Option ι × Event calls)}
    (hx : x.ev = (some i, e)) (hg : ∀ s, g' s = g s + amount s e) (hv : Seen v g) :
    Seen (v.see x) g' := by
  obtain ⟨o, b⟩ := e
  cases o with
  | stat_add s a =>
    have hsee : v.see x = { v with late := v.late + if v.between s then a else 0 } := by
      unfold Watch.see
      rw [hx]
    rw [hsee]
    refine ⟨fun h => ?_, fun h => ?_⟩
    · have hr : ¬ v.has_read .rx_packets := h
      obtain ⟨hnil, hlate⟩ := hv.before hr
      exact ⟨hnil, by simp [hlate, hr, Watch.between]⟩
    · have hr : v.has_read .rx_packets := h
      have hval := value_add (v := v) hg
      have hrx : v.value g' .rx_packets = v.value g .rx_packets := by
        rw [hval]
        by_cases hs : Stat.rx_packets = s
        · simp [← hs, hr]
        · simp [hs]
      have hdec : decided (v.value g') =
          decided (v.value g) + if v.between s then a else 0 := by
        rw [decided_add hval]
        by_cases hk : s ∈ KINDS <;> by_cases hrs : v.has_read s <;>
          simp [hk, hrs, hr, Watch.between]
      have := hv.after hr
      change decided (v.value g') + v.undecided = v.value g' .rx_packets + (v.late + _)
      rw [hdec, hrx]
      omega
  | _ =>
    have hsee : v.see x = v := by
      unfold Watch.see
      rw [hx]
    have hsame : g' = g := funext fun s => hg s
    rw [hsee, hsame]
    exact hv

/-! ### The reader among packets -/

variable [DecidableEq ι] {cpu : Option ι → Fin n} {frames : ι → Frame} {w : World n}
  {c' : Pool calls (World n) (Option Stats) (Option ι)}
  {tr : Turns calls (World n) (Option Stats) (Option ι)}

lemma reader_trace
    (h : Path (turn fun i => kernel Others (cpu i)) (w, program frames) tr c') :
    ∃ rd rest, STAT_NAMES = rd.map Prod.fst ++ rest ∧ own none tr = rd.map reading ∧
      c'.2 none = (sum_percpu rest >>= fun out => .ret (some (tally (rd ++ out)))) := by
  have htr : Trace (program frames none) (own none tr) (c'.2 none) := own_trace h none
  rw [program_reader] at htr
  exact trace_reads htr

/-- The next read is of the next counter: of `rx_packets` when nothing has been read. -/
lemma next_read (h : Path (turn fun i => kernel Others (cpu i)) (w, program frames) tr c')
    {o : Op} {k : Ans o → Call (Option Stats)} (hk : c'.2 none = .call o k)
    {rd : List (Stat × ℕ)} (hrd : own none tr = rd.map reading) :
    ∃ s, o = .stat_sum s ∧ (s = .rx_packets ↔ rd = []) := by
  obtain ⟨rd', rest, hnames, hes, hq⟩ := reader_trace h
  have heq : rd = rd' := List.map_injective_iff.mpr (fun _ _ => reading_inj) (hrd.symm.trans hes)
  subst heq
  cases rest with
  | nil => cases hq.symm.trans hk
  | cons s rest =>
    have ho : o = .stat_sum s := by
      have hcall := hq.symm.trans hk
      cases hcall
      rfl
    refine ⟨s, ho, ?_⟩
    cases rd with
    | nil => exact ⟨fun _ => rfl, fun _ => (List.cons.inj hnames).1.symm⟩
    | cons e rd =>
      have hnd : (STAT_NAMES).Nodup := by decide
      have he : Stat.rx_packets = e.1 := (List.cons.inj hnames).1
      rw [hnames, List.map_cons, List.cons_append, List.nodup_cons] at hnd
      refine ⟨fun hs => absurd ?_ hnd.1, nofun⟩
      rw [← he, ← hs]
      exact List.mem_append_right _ List.mem_cons_self

/-- **While packets are handled**, the counted verdicts are at most the received packets. -/
lemma decided_le_total [Fintype ι]
    (h : Path (turn fun i => kernel Others (cpu i)) (w, program frames) tr c')
    (h0 : decided w.total ≤ w.total .rx_packets) :
    decided c'.1.total ≤ c'.1.total .rx_packets := by
  have hone : ∀ i, decided (written (own i tr)).stats ≤ (written (own i tr)).stats .rx_packets := by
    intro i
    cases i with
    | some i =>
      obtain ⟨q, hq⟩ := (own_trace h (some i)).of_map
      exact decided_le_rx hq (own_allowed h (some i))
    | none =>
      -- the reader writes nothing
      obtain ⟨rd, -, -, hes, -⟩ := reader_trace h
      have hnone : (written (rd.map reading)).stats = Books.zero.stats := by
        clear hes
        induction rd using List.reverseRecOn with
        | nil => rfl
        | append_singleton rd e ih =>
          rw [List.map_append, List.map_singleton, written_snoc]
          exact ih
      rw [hes, hnone]
      exact Nat.le_of_eq (by decide)
  have htot : ∀ s, c'.1.total s = w.total s + ∑ i, (written (own i tr)).stats s :=
    fun s => total_eq_written h s
  have hdec : decided c'.1.total = decided w.total + ∑ i, decided (written (own i tr)).stats := by
    rw [funext htot, decided, List.sum_map_add, sum_totals]
    rfl
  rw [hdec, htot]
  exact Nat.add_le_add h0 (Finset.sum_le_sum fun i _ => hone i)

/-- **The notes are true** all along the run. -/
theorem seen_of_path [Fintype ι]
    (h : Path (turn fun i => kernel Others (cpu i)) (w, program frames) tr c')
    (h0 : decided w.total ≤ w.total .rx_packets) :
    own none tr = (watch tr).reads.map reading ∧ Seen (watch tr) c'.1.total := by
  induction h with
  | nil => exact ⟨rfl, fun _ => ⟨rfl, rfl⟩, nofun⟩
  | @snoc tr t u e h he ih =>
    obtain ⟨j, o, b⟩ := e
    obtain ⟨hreads, hseen⟩ := ih
    obtain ⟨k, hk, ⟨w1, hw, hx⟩, -⟩ := he
    have hpre : ∀ s, w1.total s = t.1.total s := by
      intro s
      rw [World.total, hw]
      rfl
    have htot : ∀ s, u.1.total s = t.1.total s + amount s ⟨o, b⟩ := by
      intro s
      rw [exec_total hx, hpre]
    rw [watch_snoc, own_snoc]
    cases j with
    | some i =>
      have hreads' : ((watch tr).see ⟨t, (some i, ⟨o, b⟩), u⟩).reads = (watch tr).reads := by
        unfold Watch.see
        cases o <;> rfl
      refine ⟨?_, see_packet rfl htot hseen⟩
      rw [hreads', if_neg (by simp), List.append_nil]
      exact hreads
    | none =>
      obtain ⟨s, rfl, hs⟩ := next_read h hk hreads
      have hb : b = t.1.total s := by
        rw [← hpre]
        cases hx
        rfl
      have hsame : u.1.total = t.1.total := funext htot
      subst hb
      rw [hsame]
      refine ⟨?_, see_read rfl rfl hseen hs (decided_le_total h h0)⟩
      rw [if_pos rfl, hreads]
      exact (List.map_append : ((watch tr).reads ++ [(s, t.1.total s)]).map reading = _).symm

/-- **What `read_stats` returns adds up** exactly when the verdicts counted between the read of
`rx_packets` and the read of their own counter are at most the packets that had been received
and not decided when `rx_packets` was read. -/
theorem adds_up_iff [Fintype ι] (frames : ι → Frame) (w : World n)
    (c' : Pool calls (World n) (Option Stats) (Option ι))
    (tr : Turns calls (World n) (Option Stats) (Option ι)) (stats : Stats)
    (h : Path (turn fun i => kernel Others (cpu i)) (w, program frames) tr c')
    (h0 : w.passes_total + w.drops_total ≤ w.total .rx_packets)
    (hdone : c'.2 none = .ret (some stats)) :
    stats.passes_total + stats.drops_total ≤ stats.count .rx_packets ↔
      (watch tr).late ≤ (watch tr).undecided := by
  have h0' : decided w.total ≤ w.total .rx_packets := by
    rw [decided_eq]
    exact h0
  obtain ⟨hreads, hseen⟩ := seen_of_path h h0'
  obtain ⟨rd, rest, hnames, hes, hq⟩ := reader_trace h
  have hrd : (watch tr).reads = rd :=
    List.map_injective_iff.mpr (fun _ _ => reading_inj) (hreads.symm.trans hes)
  cases rest with
  | cons s rest => cases hdone.symm.trans hq
  | nil =>
    rw [List.append_nil] at hnames
    have hstats : stats = tally rd := by
      have hret : (Prog.ret (some stats) : Call (Option Stats)) = .ret (some (tally (rd ++ []))) :=
        hdone.symm.trans hq
      rw [List.append_nil] at hret
      cases hret
      rfl
    have hread : ∀ s, (watch tr).has_read s := by
      intro s
      have hs : s ∈ rd.map Prod.fst := by
        rw [← hnames]
        cases s <;> decide
      obtain ⟨e, he, rfl⟩ := List.mem_map.mp hs
      rw [Watch.has_read, hrd, List.lookup_isSome_iff]
      exact ⟨e, he, beq_self_eq_true _⟩
    have hval : (watch tr).value c'.1.total = stats.count := by
      funext s
      obtain ⟨a, ha⟩ := Option.isSome_iff_exists.mp (hread s)
      rw [hrd] at ha
      rw [hstats, Watch.value, tally, hrd, ha]
      exact (congrArg (Option.getD · 0) ha).symm
    have hsum := hseen.after (hread _)
    rw [hval] at hsum
    rw [hstats, tally_totals hnames.symm, ← hstats]
    omega

/-! ### A packet between two reads -/

/-- The reader and one packet on one CPU, taking turns in the order of `is`. -/
def meeting (is : List (Option Unit)) :
    Turns calls (World 1) (Option Stats) (Option Unit) ×
      Pool calls (World 1) (Option Stats) (Option Unit) :=
  play (fun _ => exec 0) is (World.loaded 1, program fun _ => header_from 7)

lemma path_meeting (is : List (Option Unit)) :
    Path (turn fun _ => kernel Others 0) (World.loaded 1, program fun _ => header_from 7)
      (meeting is).1 (meeting is).2 := by
  have hE : ∀ w : World 1, Others w w := fun _ => rfl
  exact path_play hE _ _ _

/-- The counted verdicts and the received packets, as the reader has them. -/
def sums (r : Option (Option Stats)) : Option (ℕ × ℕ) :=
  r.join.map fun stats => (stats.passes_total + stats.drops_total, stats.count .rx_packets)

lemma done_of_sums {p : Call (Option Stats)} {a b : ℕ} (h : sums p.result = some (a, b)) :
    ∃ stats, p = .ret (some stats) ∧ stats.passes_total + stats.drops_total = a ∧
      stats.count .rx_packets = b := by
  obtain ⟨stats, hr, heq⟩ := Option.map_eq_some_iff.mp h
  have hp := result_eq_some.mp (Option.join_eq_some_iff.mp hr)
  obtain ⟨ha, hb⟩ := Prod.mk.inj heq
  exact ⟨stats, hp, ha, hb⟩

/-- The packet is received before the reader starts, and decided after its first read. -/
def in_flight : List (Option Unit) :=
  List.replicate 3 (some ()) ++ none :: List.replicate 10 (some ()) ++ List.replicate 13 none

theorem in_flight_adds_up : ∃ stats, (meeting in_flight).2.2 none = .ret (some stats) ∧
    stats.passes_total + stats.drops_total ≤ stats.count .rx_packets := by
  obtain ⟨stats, hdone, -, -⟩ :=
    done_of_sums (show sums ((meeting in_flight).2.2 none).result = some (1, 1) by decide +kernel)
  have hlate : (watch (meeting in_flight).1).late ≤ (watch (meeting in_flight).1).undecided := by
    decide +kernel
  exact ⟨stats, hdone, (adds_up_iff _ _ _ _ stats (path_meeting in_flight) (Nat.le_refl 0)
    hdone).mpr hlate⟩

/-- The whole packet comes after the first read. -/
def overtaken : List (Option Unit) :=
  none :: List.replicate 13 (some ()) ++ List.replicate 13 none

theorem overtaken_does_not_add_up :
    ∃ tr c' stats, Path (turn fun _ => kernel Others 0)
        (World.loaded 1, program fun _ : Unit => header_from 7) tr c' ∧
      (World.loaded 1).passes_total + (World.loaded 1).drops_total ≤
        (World.loaded 1).total .rx_packets ∧
      c'.2 none = .ret (some stats) ∧
      ¬ stats.passes_total + stats.drops_total ≤ stats.count .rx_packets := by
  obtain ⟨stats, hdone, hsum, hrx⟩ :=
    done_of_sums (show sums ((meeting overtaken).2.2 none).result = some (1, 0) by decide +kernel)
  refine ⟨_, _, stats, path_meeting overtaken, Nat.le_refl 0, hdone, ?_⟩
  rw [hsum, hrx]
  decide

end Lookout.Readout

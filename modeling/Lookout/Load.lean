import Lookout.Control
import Lookout.Traffic

/-!
The load the tier follows, while the operator resets the counters.

A step of the controller takes the difference of two reads of the counters for the traffic in
between. It notices a reset only when a difference is negative: when fewer packets have been
counted since the reset than had been counted before.
-/

namespace Lookout.Load

open Lookout.Effects Lookout.Effects.Prog Lookout.Runs Lookout.Dicts Lookout.Common
open Lookout.Packet Lookout.Kernel Lookout.Accounting Lookout.Traffic Lookout.Firewall
open Lookout.Detect Lookout.Policy Lookout.Policy.Blocker Lookout.Control

variable {n : ℕ}

/-! ### What a step does with the counters -/

/-- The dictionary `read_stats` returns when nothing comes between its reads. -/
def stats_of (cpu : Fin n) (w : World n) : Stats := (run (exec cpu) read_stats w).1

lemma run_sum_percpu (cpu : Fin n) (l : List Stat) (w : World n) :
    run (exec cpu) (sum_percpu l) w = (l.map fun s => (s, w.total s), w) := by
  induction l with
  | nil => rfl
  | cons s l ih =>
    change run (exec cpu) (sum_percpu l >>= fun rest => .ret ((s, w.total s) :: rest)) w = _
    rw [run_bind, ih]
    rfl

lemma lookup_names (g : Stat → ℕ) (s : Stat) :
    (STAT_NAMES.map fun s => (s, g s)).lookup s = some (g s) := by
  cases s <;> rfl

lemma count_stats_of (cpu : Fin n) (w : World n) : (stats_of cpu w).count = w.total := by
  funext s
  unfold stats_of read_stats
  rw [run_bind, run_sum_percpu]
  exact congrArg (Option.getD · 0) (lookup_names w.total s)

/-- The fields of the load after a step that has read `stats` at the time `now`. -/
def Measures (c : Controller) (stats : Stats) (now : ℚ) (c' : Controller) : Prop :=
  c'.prev = some (stats, now) ∧ c'.pps = (c.measure stats now).pps ∧
    c'.drop_ratio = (c.measure stats now).drop_ratio

/-- Two controllers with the same load. -/
def SameLoad (c c' : Controller) : Prop :=
  c'.prev = c.prev ∧ c'.pps = c.pps ∧ c'.drop_ratio = c.drop_ratio

lemma SameLoad.measures {c c' : Controller} (h : SameLoad c c') (stats : Stats) (now : ℚ) :
    Measures c stats now (c'.measure stats now) := by
  obtain ⟨hprev, hpps, hratio⟩ := h
  unfold Measures Controller.measure
  rw [hprev]
  cases c.prev with
  | none => exact ⟨rfl, hpps, hratio⟩
  | some r =>
    dsimp only
    split_ifs
    · exact ⟨rfl, rfl, rfl⟩
    · exact ⟨rfl, rfl, rfl⟩
    · exact ⟨rfl, hpps, hratio⟩

lemma Measures.keep {c c1 c2 : Controller} {stats : Stats} {now : ℚ}
    (h : Measures c stats now c1) (h' : SameLoad c1 c2) : Measures c stats now c2 :=
  ⟨h'.1.trans h.1, h'.2.1.trans h.2.1, h'.2.2.trans h.2.2⟩

lemma exec_tune_load {R : Machine calls (World n)} {c c' : Controller} {w w' : World n}
    (hx : Exec R w (tune c) (.ok c') w') : SameLoad c c' := by
  unfold tune at hx
  by_cases htune : c.args.no_auto_tune = true
  · rw [if_pos htune] at hx
    obtain ⟨hr, -⟩ := Exc.exec_pure.mp hx
    cases hr
    exact ⟨rfl, rfl, rfl⟩
  rw [if_neg htune] at hx
  cases hup : c.aggr.update c.pps c.drop_ratio with
  | error e =>
    rw [hup] at hx
    obtain ⟨hr, -⟩ := Exc.exec_raise.mp hx
    cases hr
  | ok r =>
    obtain ⟨changed, a⟩ := r
    rw [hup] at hx
    cases changed with
    | false =>
      obtain ⟨hr, -⟩ := Exc.exec_pure.mp hx
      cases hr
      exact ⟨rfl, rfl, rfl⟩
    | true =>
      have hnote : ∀ w1, Exec R w1 (do
          let blocker ← c.blocker.note (tier_msg c.args.dry_run a)
          return { c with aggr := a, blocker } : Py Controller) (.ok c') w' → SameLoad c c' := by
        intro w1 hx1
        obtain ⟨blocker, _, -, hx2⟩ := Exc.lift_bind_inv hx1
        obtain ⟨hr, -⟩ := Exc.exec_pure.mp hx2
        cases hr
        exact ⟨rfl, rfl, rfl⟩
      dsimp only at hx
      split_ifs at hx
      · obtain ⟨_, w1, -, hx⟩ := Exc.bind_ok hx
        exact hnote w1 hx
      · exact hnote w hx

lemma exec_clean_up_load {R : Machine calls (World n)} {c c' : Controller} {w w' : World n}
    (hx : Exec R w (clean_up c) c' w') : SameLoad c c' := by
  unfold clean_up at hx
  split_ifs at hx
  · obtain ⟨_, _, -, hx⟩ := hx.bind_inv
    obtain ⟨_, _, -, hx⟩ := hx.bind_inv
    obtain ⟨rfl, -⟩ := exec_ret.mp hx
    exact ⟨rfl, rfl, rfl⟩
  · obtain ⟨rfl, -⟩ := exec_ret.mp hx
    exact ⟨rfl, rfl, rfl⟩

/-- **A step that returns has measured** the statistics it shows, whatever else it did and
whatever the others did meanwhile. -/
theorem measures_of_step {R : Machine calls (World n)} {c c' : Controller} {w w' : World n}
    {rows : Dict Addr Row} {verdicts : Dict Addr (Option String)} {stats : Stats}
    (hx : Exec R w (step c) (.ok (c', rows, verdicts, stats)) w') :
    ∃ w1 w2 now, Exec R w read_stats stats w1 ∧ Exec R w1 monotonic now w2 ∧
      Measures c stats now c' := by
  unfold step at hx
  obtain ⟨stats, w1, hx1, hx⟩ := Exc.lift_bind_inv hx
  obtain ⟨now, w2, hx2, hx⟩ := Exc.lift_bind_inv hx
  obtain ⟨states, w3, -, hx⟩ := Exc.lift_bind_inv hx
  obtain ⟨now_ns, w4, -, hx⟩ := Exc.lift_bind_inv hx
  obtain ⟨c1, w5, hx5, hx⟩ := Exc.bind_ok hx
  obtain ⟨hr, -⟩ := Exc.exec_pure.mp hx
  cases hr
  refine ⟨w1, w2, now, hx1, hx2, ?_⟩
  unfold act at hx5
  obtain ⟨blocker, w6, -, hx5⟩ := Exc.bind_ok hx5
  obtain ⟨c2, w7, hx6, hx5⟩ := Exc.bind_ok hx5
  obtain ⟨c3, hr, hx7⟩ := Exc.lift_inv hx5
  cases hr
  have hsame : SameLoad c { c with window := (c.window.update states now_ns).2, blocker } :=
    ⟨rfl, rfl, rfl⟩
  exact ((hsame.measures stats now).keep (exec_tune_load hx6)).keep (exec_clean_up_load hx7)

/-! ### Runs -/

/-- `reset_stats`, as one step. -/
def reset_stats (w : World n) : World n := { w with stats := fun _ _ => 0 }

inductive Ev (n : ℕ)
  | packet (cpu : Fin n) (f : Frame)
  | reset
  | other
  | poll (now : ℚ)

/-- A packet, a reset, anything else that leaves the counters alone, or the controller's step,
at the moment when it reads the counters. -/
inductive Step (cpu : Fin n) : World n × Controller → Ev n → World n × Controller → Prop
  | packet (w : World n) (c : Controller) (k : Fin n) (f : Frame) :
    Step cpu (w, c) (.packet k f) ((handle k f w).2, c)
  | reset (w : World n) (c : Controller) : Step cpu (w, c) .reset (reset_stats w, c)
  | other {w w' : World n} (c : Controller) (h : Others w w') : Step cpu (w, c) .other (w', c)
  | poll (w : World n) {c c' : Controller} {now : ℚ} (h : Measures c (stats_of cpu w) now c') :
    Step cpu (w, c) (.poll now) (w, c')

abbrev Turn (n : ℕ) := Trans (World n × Controller) (Ev n)

/-- What an observer of the traffic counts. -/
structure Meter where
  /-- The packets since the last reset, and those of them that reached the limiter. -/
  rx : ℕ
  reached : ℕ
  /-- The packets that reached the limiter since the last poll. -/
  since : ℕ
  /-- There was a reset since the last poll. -/
  was_reset : Bool
  /-- `rx` and `reached` at the last poll, and its time. -/
  old : Option (ℕ × ℕ × ℚ)

namespace Meter

/-- The meter at the start of a run. -/
def start (w : World n) : Meter := ⟨w.total .rx_packets, limiter_input w.total, 0, false, none⟩

def see (m : Meter) (x : Turn n) : Meter :=
  match x.ev with
  | .packet cpu f =>
    { m with
      rx := m.rx + 1
      reached := m.reached + (reaches cpu f x.pre.1).toNat
      since := m.since + (reaches cpu f x.pre.1).toNat }
  | .reset => { m with rx := 0, reached := 0, was_reset := true }
  | .other => m
  | .poll now => { m with since := 0, was_reset := false, old := some (m.rx, m.reached, now) }

/-- A reset shows: since then fewer packets came, or fewer reached the limiter, than had been
counted at the last poll, or no time has passed. -/
def Shows (m : Meter) (now : ℚ) : Prop :=
  match m.old with
  | none => True
  | some (rx, reached, time) =>
    m.was_reset = true → m.rx < rx ∨ m.reached < reached ∨ now ≤ time

instance (m : Meter) (now : ℚ) : Decidable (m.Shows now) :=
  match m with
  | ⟨_, _, _, _, none⟩ => isTrue trivial
  | ⟨mrx, mreached, _, was_reset, some (rx, reached, time)⟩ =>
    inferInstanceAs
      (Decidable (was_reset = true → mrx < rx ∨ mreached < reached ∨ now ≤ time))

end Meter

/-- `P` at every poll of the run, with the meter up to there. -/
def AtPolls (P : Meter → Turn n → ℚ → Prop) : Meter → List (Turn n) → Prop
  | _, [] => True
  | m, x :: tr =>
    (match x.ev with
      | .poll now => P m x now
      | _ => True) ∧ AtPolls P (m.see x) tr

/-- The step takes the interval since the counters `old` were read at `time`. -/
def Accepts (old stats : Stats) (time now : ℚ) : Prop :=
  (stats.count .rx_packets : ℤ) - old.count .rx_packets ≥ 0 ∧
    (LIMITER_INPUT.map fun s => (stats.count s : ℤ) - old.count s).sum ≥ 0 ∧ now > time

/-- When the poll takes the interval, the load is that of its packets, the ratio is one, and
there was no reset. -/
def Right (cpu : Fin n) (m : Meter) (x : Turn n) (now : ℚ) : Prop :=
  ∀ old time, x.pre.2.prev = some (old, time) → Accepts old (stats_of cpu x.pre.1) time now →
    x.post.2.pps * (now - time) = m.since ∧
    (0 ≤ x.post.2.drop_ratio ∧ x.post.2.drop_ratio ≤ 1) ∧ m.was_reset = false

/-- The meter and the state. -/
structure Tracks (m : Meter) (s : World n × Controller) : Prop where
  rx : s.1.total .rx_packets = m.rx
  reached : limiter_input s.1.total = m.reached
  first : s.2.prev = none → m.old = none
  old : ∀ old time, s.2.prev = some (old, time) →
    m.old = some (old.count .rx_packets, limiter_input old.count, time) ∧
    (m.was_reset = false → (∀ s', old.count s' ≤ s.1.total s') ∧
      m.reached = limiter_input old.count + m.since)

lemma tracks_step {cpu : Fin n} {m : Meter} {s s' : World n × Controller} {e : Ev n}
    (he : Step cpu s e s') (h : Tracks m s) : Tracks (m.see ⟨s, e, s'⟩) s' := by
  cases he with
  | packet w c k f =>
    refine ⟨?_, ?_, h.first, fun old time hp => ?_⟩
    · exact (rx_handle k f w).trans (congrArg (· + 1) h.rx)
    · exact (limiter_input_handle k f w).trans (congrArg (· + _) h.reached)
    · obtain ⟨hold, hkeep⟩ := h.old old time hp
      refine ⟨hold, fun hr => ?_⟩
      obtain ⟨hle, hsum⟩ := hkeep hr
      refine ⟨fun s' => (hle s').trans (total_le_handle k f w s'), ?_⟩
      change m.reached + _ = limiter_input old.count + (m.since + _)
      rw [hsum, Nat.add_assoc]
  | reset w c =>
    have hzero : (reset_stats w).total = fun _ => 0 := funext fun s => Finset.sum_const_zero
    refine ⟨?_, ?_, h.first, fun old time hp => ⟨(h.old old time hp).1, fun hr => ?_⟩⟩
    · rw [hzero]
      rfl
    · rw [hzero]
      rfl
    · exact absurd hr (by simp [Meter.see])
  | @other w w' c hw =>
    have htot : w'.total = w.total := by
      funext s
      unfold World.total
      rw [hw]
    refine ⟨by rw [htot]; exact h.rx, by rw [htot]; exact h.reached, h.first,
      fun old time hp => ?_⟩
    rw [htot]
    exact h.old old time hp
  | @poll w c c' now hm =>
    refine ⟨h.rx, h.reached, fun hp => ?_, fun old time hp => ?_⟩
    · rw [hm.1] at hp
      cases hp
    · rw [hm.1] at hp
      obtain ⟨hstats, htime⟩ := Prod.ext_iff.mp (Option.some.inj hp)
      dsimp only at hstats htime
      subst hstats htime
      rw [count_stats_of]
      have hrx : w.total .rx_packets = m.rx := h.rx
      have hre : limiter_input w.total = m.reached := h.reached
      refine ⟨?_, fun _ => ⟨fun s' => le_rfl, ?_⟩⟩
      · rw [hrx, hre]
        rfl
      · rw [hre]
        rfl

lemma load_eq (old stats : Stats) :
    (LIMITER_INPUT.map fun s => (stats.count s : ℤ) - old.count s).sum =
      (limiter_input stats.count : ℤ) - limiter_input old.count := by
  simp only [limiter_input, LIMITER_INPUT, List.map_cons, List.map_nil, List.sum_cons,
    List.sum_nil]
  omega

lemma accepts_iff {old stats : Stats} {time now : ℚ} :
    Accepts old stats time now ↔ old.count .rx_packets ≤ stats.count .rx_packets ∧
      limiter_input old.count ≤ limiter_input stats.count ∧ time < now := by
  unfold Accepts
  rw [load_eq]
  constructor
  · rintro ⟨h1, h2, h3⟩
    exact ⟨by omega, by omega, h3⟩
  · rintro ⟨h1, h2, h3⟩
    exact ⟨by omega, by omega, h3⟩

/-- What an accepted interval leaves. -/
lemma measure_accepts {c : Controller} {old stats : Stats} {time now : ℚ}
    (hp : c.prev = some (old, time)) (h : Accepts old stats time now) :
    let load : ℤ := limiter_input stats.count - limiter_input old.count
    let drops : ℤ := stats.count .drop_ratelimit - old.count .drop_ratelimit
    (c.measure stats now).pps = load / (now - time) ∧
      (c.measure stats now).drop_ratio = if load ≠ 0 then (drops : ℚ) / load else 0 := by
  unfold Accepts at h
  unfold Controller.measure
  rw [hp]
  dsimp only
  rw [if_pos h, load_eq]
  exact ⟨rfl, rfl⟩

/-- **Without a reset** the load and the ratio are right. -/
lemma right_of_no_reset {g g' : Stat → ℕ} {since : ℕ} (hle : ∀ s, g s ≤ g' s)
    (hsum : limiter_input g' = limiter_input g + since) {time now : ℚ} (ht : time < now) :
    let load : ℤ := limiter_input g' - limiter_input g
    let drops : ℤ := g' .drop_ratelimit - g .drop_ratelimit
    (load : ℚ) / (now - time) * (now - time) = since ∧
      0 ≤ (drops : ℚ) / load ∧ (drops : ℚ) / load ≤ 1 := by
  intro load drops
  have hload : load = since := by omega
  have hpos : (now - time : ℚ) ≠ 0 := by
    have := sub_pos.mpr ht
    exact this.ne'
  have hdrop : 0 ≤ drops := by
    have := hle .drop_ratelimit
    omega
  have hpart : drops ≤ since := by
    have h1 := hle .pass_rule
    have h2 := hle .pass_default
    simp only [limiter_input, LIMITER_INPUT, List.map_cons, List.map_nil, List.sum_cons,
      List.sum_nil] at hsum
    omega
  rw [hload]
  refine ⟨by rw [div_mul_cancel₀ _ hpos]; rfl, ?_, ?_⟩
  · exact div_nonneg (by exact_mod_cast hdrop) (by positivity)
  · exact div_le_one_of_le₀ (by exact_mod_cast hpart) (by positivity)

lemma right_iff {cpu : Fin n} {m : Meter} {w : World n} {c c' : Controller} {now : ℚ}
    (hm : Measures c (stats_of cpu w) now c') (h : Tracks m (w, c)) :
    Right cpu m ⟨(w, c), .poll now, (w, c')⟩ now ↔ m.Shows now := by
  have hrx : w.total .rx_packets = m.rx := h.rx
  have hre : limiter_input w.total = m.reached := h.reached
  have hiff : ∀ old time, Accepts old (stats_of cpu w) time now ↔
      old.count .rx_packets ≤ m.rx ∧ limiter_input old.count ≤ m.reached ∧ time < now := by
    intro old time
    rw [accepts_iff, count_stats_of, hrx, hre]
  constructor
  · intro hright
    cases hp : c.prev with
    | none =>
      rw [Meter.Shows, h.first hp]
      trivial
    | some r =>
      obtain ⟨old, time⟩ := r
      rw [Meter.Shows, (h.old old time hp).1]
      intro hreset
      by_contra hno
      rw [not_or, not_or, not_lt, not_lt, not_le] at hno
      have hfalse := (hright old time hp ((hiff old time).mpr hno)).2.2
      rw [hreset] at hfalse
      cases hfalse
  · intro hshows old time hp hacc
    obtain ⟨hold, hkeep⟩ := h.old old time hp
    rw [Meter.Shows, hold] at hshows
    have hno : m.was_reset = false := by
      by_contra hreset
      have hacc' := (hiff old time).mp hacc
      rcases hshows (by simpa using hreset) with h1 | h1 | h1
      · omega
      · omega
      · exact absurd hacc'.2.2 (not_lt.mpr h1)
    obtain ⟨hle, hsum⟩ := hkeep hno
    obtain ⟨hpps, hratio⟩ := measure_accepts hp hacc
    rw [count_stats_of] at hpps hratio
    obtain ⟨h1, h2⟩ := right_of_no_reset hle (hre.trans hsum) ((hiff old time).mp hacc).2.2
    refine ⟨?_, ?_, hno⟩
    · change c'.pps * _ = _
      rw [hm.2.1, hpps]
      exact h1
    · change 0 ≤ c'.drop_ratio ∧ c'.drop_ratio ≤ 1
      rw [hm.2.2, hratio]
      split_ifs
      · exact h2
      · exact ⟨le_rfl, zero_le_one⟩

lemma at_polls_iff {cpu : Fin n} {m : Meter} {s s' : World n × Controller} {tr : List (Turn n)}
    (h : Path (Step cpu) s tr s') (hm : Tracks m s) :
    AtPolls (Right cpu) m tr ↔ AtPolls (fun m _ now => m.Shows now) m tr := by
  induction tr generalizing m s with
  | nil => rfl
  | cons x tr ih =>
    obtain ⟨rfl, hx, hrest⟩ := h.uncons
    have hsee : Tracks (m.see x) x.post := tracks_step hx hm
    refine and_congr ?_ (ih hrest hsee)
    obtain ⟨s, e, t⟩ := x
    cases hx with
    | poll w hmeas => exact right_iff hmeas hm
    | _ => rfl

/-- **The load is right at every poll** exactly when every reset shows: since the reset, fewer
packets came, or fewer reached the limiter, than had been counted at the last poll. -/
theorem loads_right_iff (cpu : Fin n) (args : Args) (w : World n) (tr : List (Turn n))
    (s' : World n × Controller) (h : Path (Step cpu) (w, .init args) tr s') :
    AtPolls (Right cpu) (.start w) tr ↔
      AtPolls (fun m _ now => m.Shows now) (.start w) tr :=
  at_polls_iff h ⟨rfl, rfl, fun _ => rfl, nofun⟩

/-! ### A reset that does not show -/

/-- What the events do, with nothing else going on. -/
def next (cpu : Fin n) (s : World n × Controller) : Ev n → World n × Controller
  | .packet k f => ((handle k f s.1).2, s.2)
  | .reset => (reset_stats s.1, s.2)
  | .other => s
  | .poll now => (s.1, s.2.measure (stats_of cpu s.1) now)

def follow (cpu : Fin n) : List (Ev n) → World n × Controller → List (Turn n)
  | [], _ => []
  | e :: es, s => ⟨s, e, next cpu s e⟩ :: follow cpu es (next cpu s e)

lemma path_follow (cpu : Fin n) (es : List (Ev n)) (s : World n × Controller) :
    Path (Step cpu) s (follow cpu es s) (es.foldl (next cpu) s) := by
  induction es generalizing s with
  | nil => exact .nil
  | cons e es ih =>
    refine .cons ?_ (ih _)
    have hsame : SameLoad s.2 s.2 := ⟨rfl, rfl, rfl⟩
    cases e with
    | packet k f => exact .packet s.1 s.2 k f
    | reset => exact .reset s.1 s.2
    | other =>
      have hothers : Others s.1 s.1 := rfl
      exact .other s.2 hothers
    | poll now => exact .poll s.1 (hsame.measures _ now)

/-- A session that only looks, on the maps as they were loaded. -/
def fresh : World 1 × Controller := (World.loaded 1, .init ⟨true, true, []⟩)

/-- Two packets before the reset and one after it, each time followed by a poll. -/
def noticed : List (Turn 1) :=
  follow 0 [.packet 0 (header_from 7), .packet 0 (header_from 7), .poll 0, .reset,
    .packet 0 (header_from 7), .poll 1] fresh

theorem noticed_right : AtPolls (Right 0) (.start (World.loaded 1)) noticed := by
  refine (loads_right_iff 0 _ _ noticed _ (path_follow 0 _ fresh)).mpr ?_
  refine ⟨trivial, trivial, ?_, trivial, trivial, ?_, trivial⟩
  · change Meter.Shows _ 0
    decide +kernel
  · change Meter.Shows _ 1
    decide +kernel

/-- As much traffic after the reset as before it. -/
def unnoticed : List (Turn 1) :=
  follow 0 [.packet 0 (header_from 7), .poll 0, .reset, .packet 0 (header_from 7), .poll 1] fresh

theorem unnoticed_wrong :
    ∃ s', Path (Step 0) fresh unnoticed s' ∧
      ¬ AtPolls (Right 0) (.start (World.loaded 1)) unnoticed := by
  have hpath := path_follow 0
    [.packet 0 (header_from 7), .poll 0, .reset, .packet 0 (header_from 7), .poll 1] fresh
  refine ⟨_, hpath, fun hright => ?_⟩
  obtain ⟨-, -, -, -, hshows, -⟩ :=
    (at_polls_iff hpath ⟨rfl, rfl, fun _ => rfl, nofun⟩).mp hright
  exact absurd (hshows : Meter.Shows _ 1) (by decide +kernel)

end Lookout.Load

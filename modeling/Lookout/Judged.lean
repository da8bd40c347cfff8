import Lookout.Polls
import Lookout.Runs
import Lookout.Tracking

/-!
A session's windows, added up.

Each poll judges a source by the difference of two snapshots. Entries are deleted and made anew
between polls, and polls may come too close to each other to be judged at all. Over any number of
polls no packet of a source is judged twice, and when its entry is let alone, each is judged once.
-/

namespace Lookout.Judged

open Lookout.Effects Lookout.Runs Lookout.Dicts Lookout.Handles Lookout.Common Lookout.Packet
open Lookout.Limiter Lookout.Kernel Lookout.Detect Lookout.Polls

variable {n : ℕ}

/-! ### What a row says -/

/-- What can be told from a row of the packets of its window. -/
inductive Kind
  | packets
  | bytes
  | dropped
  | syn
  | icmp

namespace Kind

def part : Kind → Delta → ℤ
  | packets => Delta.packets
  | bytes => Delta.bytes
  | dropped => Delta.dropped
  | syn => Delta.syn
  | icmp => Delta.icmp

/-- For each packet of the row. -/
def share : Kind → Row → ℚ
  | packets => fun _ => 1
  | bytes => Row.mean_len
  | dropped => Row.drop_ratio
  | syn => Row.syn_ratio
  | icmp => Row.icmp_ratio

variable (k : Kind)

lemma part_zero : k.part .zero = 0 := by cases k <;> rfl

lemma part_add (c d : Delta) : k.part (Delta.add c d) = k.part c + k.part d := by
  cases k <;> rfl

lemma part_sub (c d : Delta) : k.part (Delta.sub c d) = k.part c - k.part d := by
  cases k <;> rfl

lemma part_counters_nonneg (st : SrcState) : 0 ≤ k.part (counters st) := by
  cases k <;> exact Int.natCast_nonneg _

lemma part_totals_nonneg (l : List Counted) : 0 ≤ k.part (totals l) := by
  have h := totals_nonneg l
  unfold Delta.Nonneg at h
  cases k <;> simp only [part] <;> omega

end Kind

/-- What a row says of a window of `secs` seconds. -/
def said (k : Kind) (row : Row) (secs : ℚ) : ℚ := k.share row * (row.pps * secs)

lemma said_of (k : Kind) {d : Delta} (b : U64) {secs : ℚ} (hd : d.packets ≠ 0) (hs : secs ≠ 0) :
    said k (.of d b secs) secs = k.part d := by
  have hd' : (d.packets : ℚ) ≠ 0 := Int.cast_ne_zero.mpr hd
  have hpackets : (d.packets : ℚ) / secs * secs = d.packets := div_mul_cancel₀ _ hs
  unfold said
  cases k with
  | packets => exact (one_mul _).trans hpackets
  | _ =>
    simp only [Kind.share, Kind.part, Row.of]
    rw [hpackets, div_mul_cancel₀ _ hd']

lemma totals_append (l l' : List Counted) :
    totals (l ++ l') = Delta.add (totals l) (totals l') := by
  induction l' using List.reverseRecOn with
  | nil => simp [totals, add_zero]
  | append_singleton l' c ih => rw [← List.append_assoc, totals_snoc, totals_snoc, ih, add_assoc]

/-! ### One window -/

section

variable {old : Option SrcState} {t : Life} {cur : SrcState}

/-- The difference is what the entry has counted when it is the one of the last poll, or there was
none. -/
lemma delta_eq_totals (h : Sound old t) (hcur : t.entry = some cur)
    (hnew : t.renewed = true → old = none) : delta old cur = totals t.seen := by
  cases hr : t.renewed with
  | true =>
    rw [hnew hr, ← h.renewed cur hcur hr]
    exact sub_zero _
  | false =>
    obtain ⟨st, rfl, hc⟩ := h.same cur hcur hr
    have hp : ¬ cur.packets < st.packets := by
      have hpackets := congrArg Delta.packets hc
      simp only [Delta.add, totals_packets, counters] at hpackets
      omega
    unfold delta baseline
    simp only [if_neg hp, hc, add_sub]

/-- Another entry than at the last poll has counted all it shows since. -/
lemma part_delta_le (k : Kind) (h : Sound old t) (hcur : t.entry = some cur) :
    k.part (delta old cur) ≤ k.part (totals t.seen) := by
  cases hr : t.renewed with
  | false =>
    refine le_of_eq (congrArg k.part (delta_eq_totals h hcur fun hnew => ?_))
    rw [hr] at hnew
    cases hnew
  | true =>
    have hbase : 0 ≤ k.part (baseline old cur) := by
      unfold baseline
      cases old with
      | none => exact (k.part_zero).ge
      | some st =>
        dsimp only
        split_ifs
        · exact (k.part_zero).ge
        · exact k.part_counters_nonneg st
    rw [← h.renewed cur hcur hr, delta, k.part_sub]
    omega

/-- What is said of the source at a poll `secs` seconds after the last one. -/
def judged (k : Kind) (row : Option Row) (secs : ℚ) : ℚ := row.elim 0 fun row => said k row secs

/-- The row of a source with the entry `cur`, if the polls are far enough from each other. -/
def row_of (old cur : Option SrcState) (secs : ℚ) : Option Row :=
  if secs < 1 / 1000 then none else cur.bind fun cur => measurements old cur secs

/-- **No more is said of the source than its entry has counted.** -/
lemma judged_le (k : Kind) (h : Sound old t) (secs : ℚ) :
    judged k (row_of old t.entry secs) secs ≤ k.part (totals t.seen) := by
  have hnonneg : (0 : ℚ) ≤ k.part (totals t.seen) := by exact_mod_cast k.part_totals_nonneg t.seen
  unfold row_of
  split_ifs with hsecs
  · exact hnonneg
  cases hcur : t.entry with
  | none => exact hnonneg
  | some cur =>
    rw [Option.bind_some, measurements]
    split_ifs with hpos
    · exact hnonneg
    · have hpos' : (delta old cur).packets ≠ 0 := by omega
      have hsecs' : secs ≠ 0 := by
        rintro rfl
        exact hsecs (by norm_num)
      change said k (.of (delta old cur) cur.port_bitmap secs) secs ≤ _
      rw [said_of k _ hpos' hsecs']
      exact_mod_cast part_delta_le k h hcur

/-- All of it is said when the entry was let alone. -/
lemma judged_eq (k : Kind) (h : Sound old t) (hnew : t.renewed = true → old = none) {secs : ℚ}
    (hsecs : ¬ secs < 1 / 1000) :
    judged k (row_of old t.entry secs) secs = k.part (totals t.seen) := by
  have hzero : (0 : ℚ) = k.part (totals []) := by exact_mod_cast (k.part_zero).symm
  unfold row_of
  rw [if_neg hsecs]
  cases hcur : t.entry with
  | none =>
    rw [h.gone hcur]
    exact hzero
  | some cur =>
    have hdelta := delta_eq_totals h hcur hnew
    rw [Option.bind_some, measurements]
    split_ifs with hpos
    · have hnil : t.seen = [] := by
        rw [hdelta, totals_packets] at hpos
        exact List.length_eq_zero_iff.mp (by omega)
      rw [hnil]
      exact hzero
    · have hpos' : (delta old cur).packets ≠ 0 := by omega
      have hsecs' : secs ≠ 0 := by
        rintro rfl
        exact hsecs (by norm_num)
      change said k (.of (delta old cur) cur.port_bitmap secs) secs = _
      rw [said_of k _ hpos' hsecs', hdelta]

/-- How long the source is said to have flooded. -/
def flood_time (row : Option Row) (secs : ℚ) : ℚ :=
  if row.bind classify = some "volumetric flood" then secs else 0

lemma flood_pps {row : Row} (h : classify row = some "volumetric flood") : FLOOD_PPS < row.pps := by
  unfold classify at h
  split_ifs at h with hflood
  · exact hflood.1
  all_goals exact absurd (Option.some.inj h) (by decide)

/-- A flood has its packets. -/
lemma flood_time_le (old cur : Option SrcState) (secs : ℚ) :
    FLOOD_PPS * flood_time (row_of old cur secs) secs ≤
      judged .packets (row_of old cur secs) secs := by
  unfold row_of
  split_ifs with hsecs
  · exact le_of_eq (mul_zero _)
  have hpos : 0 < secs := lt_of_lt_of_le (by norm_num) (not_lt.mp hsecs)
  cases cur with
  | none => exact le_of_eq (mul_zero _)
  | some cur =>
    rw [Option.bind_some, measurements]
    split_ifs with hfew
    · exact le_of_eq (mul_zero _)
    obtain ⟨row, hrow⟩ : ∃ row, row = Row.of (delta old cur) cur.port_bitmap secs := ⟨_, rfl⟩
    have hpps : 0 < row.pps := by
      rw [hrow]
      exact div_pos (by exact_mod_cast not_le.mp hfew) hpos
    rw [← hrow]
    change FLOOD_PPS * flood_time (some row) secs ≤ 1 * (row.pps * secs)
    rw [one_mul, flood_time, Option.bind_some]
    split_ifs with hflood
    · exact mul_le_mul_of_nonneg_right (flood_pps hflood).le hpos.le
    · rw [mul_zero]
      exact (mul_pos hpps hpos).le

end

/-! ### Runs -/

inductive Ev (n : ℕ)
  | op (cpu : Fin n) (e : Event calls)
  | poll (now : ℕ)
  | other

/-- An entry that is inserted is a new one of the XDP program. -/
def OfProgram (o : Op) : Prop := ∀ a st, o = .state_insert a st → ∃ p, st = init p

/-- Any operation of any program, a poll of the controller, or anything else that leaves
`srcstate` alone. -/
inductive Step : World n × Window → Ev n → World n × Window → Prop
  | op {w w' : World n} (win : Window) (cpu : Fin n) {o : Op} {b : Ans o} (ho : OfProgram o)
    (h : exec cpu w o = (b, w')) : Step (w, win) (.op cpu ⟨o, b⟩) (w', win)
  | poll (w : World n) (win : Window) (now : ℕ) :
    Step (w, win) (.poll now) (w, (win.update (Dict.ofItems (states w.srcstate)) now).2)
  | other {w w' : World n} (win : Window) (h : w'.srcstate = w.srcstate) :
    Step (w, win) .other (w', win)

abbrev Turn (n : ℕ) := Trans (World n × Window) (Ev n)

/-- The row a poll shows of `ip`. -/
def row_at (ip : Addr) (x : Turn n) (now : ℕ) : Option Row :=
  (x.pre.2.update (Dict.ofItems (states x.pre.1.srcstate)) now).1.lookup ip

/-- What an observer notes of `ip`. -/
structure Tally where
  /-- What the rows have said, and for how many seconds they showed a flood. -/
  judged : Kind → ℚ
  flooded : ℚ
  /-- The packets its entry has counted since the first poll, up to the last one and after it. -/
  before : List Counted
  since : List Counted

namespace Tally

def start : Tally := ⟨fun _ => 0, 0, [], []⟩

def see (ip : Addr) (m : Tally) (x : Turn n) : Tally :=
  match x.ev with
  | .op _ ⟨.state_locked r p, b⟩ =>
    if x.pre.1.srcstate.find ip = some r then { m with since := m.since ++ [(p, b.1)] } else m
  | .poll now =>
    match x.pre.2.prev with
    | none => start
    | some (_, old) =>
      { judged := fun k => m.judged k + Judged.judged k (row_at ip x now) (seconds old now)
        flooded := m.flooded + flood_time (row_at ip x now) (seconds old now)
        before := m.before ++ m.since
        since := [] }
  | _ => m

end Tally

/-- The notes on a run. -/
def tally (ip : Addr) (tr : List (Turn n)) : Tally := tr.foldl (Tally.see ip) .start

/-- The entry of `ip` is let alone, and the polls are a millisecond from each other. -/
def Gentle (ip : Addr) (x : Turn n) : Prop :=
  match x.ev with
  | .op _ ⟨.state_delete a, _⟩ => a ≠ ip
  | .poll now => ∀ s old, x.pre.2.prev = some (s, old) → old + 1000000 ≤ now
  | _ => True

/-- What the notes say of the rows, and of the entry since the last poll; `whole` when all was
gentle. -/
structure Tracks (ip : Addr) (whole : Prop) (m : Tally) (c : World n × Window) : Prop where
  le : ∀ k, m.judged k ≤ k.part (totals m.before)
  eq : whole → ∀ k, m.judged k = k.part (totals m.before)
  floods : FLOOD_PPS * m.flooded ≤ m.judged .packets
  life : ∀ s old, c.2.prev = some (s, old) → ∃ t : Life, Sound (s.lookup ip) t ∧
    t.entry = c.1.srcstate.get ip ∧ (∃ l, m.since = l ++ t.seen) ∧
    (whole → m.since = t.seen ∧
      (t.renewed = true ∨ t.entry = none → s.lookup ip = none))

variable {ip : Addr} {whole : Prop} {m : Tally}

/-- The row a poll shows is that of the entry then. -/
lemma row_at_eq {w : World n} {win : Window} {s : Dict Addr SrcState} {old now : ℕ}
    {c : World n × Window} (hp : win.prev = some (s, old)) :
    row_at ip ⟨(w, win), .poll now, c⟩ now =
      row_of (s.lookup ip) (w.srcstate.get ip) (seconds old now) := by
  unfold row_at row_of Window.update seconds
  rw [hp]
  dsimp only
  split_ifs
  · rfl
  · rw [Dict.lookup_filterMap, lookup_states]

section

variable {w w' : World n} {win : Window}

/-- The entry stays as it is. -/
lemma Tracks.same (h : Tracks ip whole m (w, win))
    (hget : w'.srcstate.get ip = w.srcstate.get ip) : Tracks ip whole m (w', win) where
  le := h.le
  eq := h.eq
  floods := h.floods
  life s old hp := by
    obtain ⟨t, hsound, hentry, hrest⟩ := h.life s old hp
    exact ⟨t, hsound, hentry.trans hget.symm, hrest⟩

/-- A new entry, of a source that has none. -/
lemma Tracks.create (h : Tracks ip whole m (w, win)) (p : Pending)
    (hnone : w.srcstate.get ip = none) (hnew : w'.srcstate.get ip = some (init p)) :
    Tracks ip whole m (w', win) where
  le := h.le
  eq := h.eq
  floods := h.floods
  life s old hp := by
    obtain ⟨t, hsound, hentry, ⟨l, hl⟩, hwhole⟩ := h.life s old hp
    have hgone : t.entry = none := hentry.trans hnone
    have hstep : t.step (.create p) = ⟨some (init p), true, []⟩ := by
      unfold Life.step
      rw [hgone]
    have hsound' := sound_step hsound (.create p)
    rw [hstep] at hsound'
    rw [hsound.gone hgone] at hl hwhole
    refine ⟨_, hsound', hnew.symm, ⟨l, hl⟩, fun hall => ?_⟩
    obtain ⟨hsince, hlookup⟩ := hwhole hall
    exact ⟨hsince, fun _ => hlookup (Or.inr hgone)⟩

/-- A packet that the entry counts. -/
lemma Tracks.count (h : Tracks ip whole m (w, win)) (p : Pending) {st : SrcState}
    (hst : w.srcstate.get ip = some st) (hnew : w'.srcstate.get ip = some (locked p st).1) :
    Tracks ip whole { m with since := m.since ++ [(p, (locked p st).2.1)] } (w', win) where
  le := h.le
  eq := h.eq
  floods := h.floods
  life s old hp := by
    obtain ⟨t, hsound, hentry, ⟨l, hl⟩, hwhole⟩ := h.life s old hp
    have hthere : t.entry = some st := hentry.trans hst
    have hstep : t.step (.count p) =
        ⟨some (locked p st).1, t.renewed, t.seen ++ [(p, (locked p st).2.1)]⟩ := by
      unfold Life.step
      rw [hthere]
    have hsound' := sound_step hsound (.count p)
    rw [hstep] at hsound'
    refine ⟨_, hsound', hnew.symm, ⟨l, ?_⟩, fun hall => ?_⟩
    · dsimp only
      rw [hl, List.append_assoc]
    · obtain ⟨hsince, hlookup⟩ := hwhole hall
      refine ⟨by rw [hsince], fun hr => hlookup (Or.inl ?_)⟩
      exact hr.resolve_right (by simp)

/-- The entry is deleted, which is not gentle. -/
lemma Tracks.delete (h : Tracks ip whole m (w, win)) (hnot : ¬ whole)
    (hnew : w'.srcstate.get ip = none) : Tracks ip whole m (w', win) where
  le := h.le
  eq := h.eq
  floods := h.floods
  life s old hp := by
    obtain ⟨t, hsound, -⟩ := h.life s old hp
    exact ⟨_, sound_step hsound .delete, hnew.symm, ⟨m.since, (List.append_nil _).symm⟩,
      fun hall => absurd hall hnot⟩

/-- **One operation** of any program. -/
lemma tracks_op {cpu : Fin n} {o : Op} {b : Ans o} (h : Tracks ip whole m (w, win))
    (ho : OfProgram o) (hop : exec cpu w o = (b, w'))
    (hg : whole → Gentle ip ⟨(w, win), .op cpu ⟨o, b⟩, (w', win)⟩) :
    Tracks ip whole (m.see ip ⟨(w, win), .op cpu ⟨o, b⟩, (w', win)⟩) (w', win) := by
  cases o with
  | state_insert a st =>
    obtain ⟨p, rfl⟩ := ho a st rfl
    cases hop
    change Tracks ip whole m _
    simp only [insert_noexist]
    split_ifs with hfull
    · exact h.same rfl
    · by_cases ha : ip = a
      · subst ha
        rw [not_or, Option.not_isSome_iff_eq_none] at hfull
        exact h.create p (RefMap.get_eq_none.mpr hfull.1) (RefMap.get_insert _ _ _)
      · exact h.same (RefMap.get_insert_ne _ _ ha)
  | state_locked r p =>
    cases hop
    unfold Tally.see
    dsimp only
    split_ifs with hr
    · obtain ⟨st, hst⟩ := RefMap.deref_of_find hr
      have hlocked : update_locked w.srcstate r p =
          ((locked p st).2, w.srcstate.set r (locked p st).1) := by
        simp only [update_locked, hst]
      rw [hlocked]
      exact h.count p ((RefMap.get_eq hr).trans hst) (RefMap.get_set _ _ hr)
    · refine h.same ?_
      simp only [update_locked]
      cases w.srcstate.deref r with
      | none => rfl
      | some st => exact RefMap.get_set_ne _ _ hr
  | state_delete a =>
    cases hop
    by_cases ha : ip = a
    · subst ha
      exact h.delete (fun hall => hg hall rfl) (RefMap.get_erase _ _)
    · exact h.same (RefMap.get_erase_ne _ ha)
  | _ =>
    cases hop
    exact h.same rfl

/-- **One poll.** -/
lemma tracks_poll (h : Tracks ip whole m (w, win)) (now : ℕ)
    (hg : whole → ∀ s old, win.prev = some (s, old) → old + 1000000 ≤ now) :
    Tracks ip whole (m.see ip ⟨(w, win), .poll now,
        (w, (win.update (Dict.ofItems (states w.srcstate)) now).2)⟩)
      (w, (win.update (Dict.ofItems (states w.srcstate)) now).2) := by
  -- the snapshot the next poll compares with is the entry itself
  have hlife : ∀ s old, (win.update (Dict.ofItems (states w.srcstate)) now).2.prev = some (s, old) →
      ∃ t : Life, Sound (s.lookup ip) t ∧ t.entry = w.srcstate.get ip ∧
        (∃ l, [] = l ++ t.seen) ∧
        (whole → [] = t.seen ∧ (t.renewed = true ∨ t.entry = none → s.lookup ip = none)) := by
    intro s old hp
    cases hp
    rw [lookup_states]
    refine ⟨live (w.srcstate.get ip) [], sound_live _ [], rfl, ⟨[], rfl⟩, fun _ => ⟨rfl, ?_⟩⟩
    rintro (hr | hnone)
    · cases hr
    · exact hnone
  cases hp : win.prev with
  | none =>
    have hsee : m.see ip ⟨(w, win), .poll now,
        (w, (win.update (Dict.ofItems (states w.srcstate)) now).2)⟩ = .start := by
      unfold Tally.see
      rw [hp]
    have hzero : ∀ k : Kind, (0 : ℚ) = k.part (totals []) := fun k => by
      exact_mod_cast (k.part_zero).symm
    rw [hsee]
    exact ⟨fun k => (hzero k).le, fun _ k => hzero k, le_of_eq (mul_zero _), hlife⟩
  | some r =>
    obtain ⟨s, old⟩ := r
    obtain ⟨t, hsound, hentry, ⟨l, hl⟩, hwhole⟩ := h.life s old hp
    have hrow : row_at ip ⟨(w, win), .poll now,
        (w, (win.update (Dict.ofItems (states w.srcstate)) now).2)⟩ now =
        row_of (s.lookup ip) t.entry (seconds old now) := by
      rw [row_at_eq hp, hentry]
    have hsee : m.see ip ⟨(w, win), .poll now,
        (w, (win.update (Dict.ofItems (states w.srcstate)) now).2)⟩ =
        ⟨fun k => m.judged k + judged k (row_of (s.lookup ip) t.entry (seconds old now))
            (seconds old now),
          m.flooded + flood_time (row_of (s.lookup ip) t.entry (seconds old now)) (seconds old now),
          m.before ++ m.since, []⟩ := by
      unfold Tally.see
      rw [hp]
      dsimp only
      rw [hrow]
    have hsum : ∀ k : Kind, (k.part (totals (m.before ++ m.since)) : ℚ) =
        k.part (totals m.before) + k.part (totals m.since) := fun k => by
      rw [totals_append, k.part_add]
      push_cast
      rfl
    rw [hsee]
    refine ⟨fun k => ?_, fun hall k => ?_, ?_, hlife⟩
    · have hseen : (k.part (totals t.seen) : ℚ) ≤ k.part (totals m.since) := by
        rw [hl, totals_append, k.part_add]
        have := k.part_totals_nonneg l
        exact_mod_cast le_add_of_nonneg_left this
      calc m.judged k + judged k (row_of (s.lookup ip) t.entry (seconds old now)) (seconds old now)
          ≤ k.part (totals m.before) + k.part (totals t.seen) :=
            add_le_add (h.le k) (judged_le k hsound _)
        _ ≤ k.part (totals m.before) + k.part (totals m.since) := add_le_add le_rfl hseen
        _ = k.part (totals (m.before ++ m.since)) := (hsum k).symm
    · obtain ⟨hsince, hlookup⟩ := hwhole hall
      have hsecs := seconds_ge (hg hall s old hp)
      have hall' := judged_eq k hsound (fun hr => hlookup (Or.inl hr)) hsecs
      dsimp only
      rw [hsum, h.eq hall k, hall', hsince]
    · have hflood := flood_time_le (s.lookup ip) t.entry (seconds old now)
      have hbefore := h.floods
      dsimp only
      rw [mul_add]
      exact add_le_add hbefore hflood

end

lemma tracks_step {c c' : World n × Window} {e : Ev n} (h : Tracks ip whole m c)
    (hs : Step c e c') (hg : whole → Gentle ip ⟨c, e, c'⟩) :
    Tracks ip whole (m.see ip ⟨c, e, c'⟩) c' := by
  cases hs with
  | op win cpu ho hop => exact tracks_op h ho hop hg
  | poll w win now => exact tracks_poll h now hg
  | other win hw => exact h.same (by rw [hw])

lemma tracks_run {w : World n} {tr : List (Turn n)} {c' : World n × Window}
    (h : Path Step (w, .init) tr c') (hg : whole → ∀ x ∈ tr, Gentle ip x) :
    Tracks ip whole (tally ip tr) c' := by
  induction h with
  | nil =>
    have hzero : ∀ k : Kind, (0 : ℚ) = k.part (totals []) := fun k => by
      exact_mod_cast (k.part_zero).symm
    exact ⟨fun k => (hzero k).le, fun _ k => hzero k, le_of_eq (mul_zero _), fun s old hp => by
      cases hp⟩
  | @snoc tr t u e _ he ih =>
    have hprefix := ih fun hall x hx => hg hall x (List.mem_append_left _ hx)
    have hlast : whole → Gentle ip ⟨t, e, u⟩ := fun hall => hg hall _ (by simp)
    rw [tally, List.foldl_append]
    exact tracks_step hprefix he hlast

/-- **No packet is judged twice**: in any run of any operations on the maps and of polls at any
times, what the rows of a source say adds up to no more than its entries have counted since the
first poll, and a flood is never shown without its packets. When nobody deletes the source's entry
and the polls are a millisecond from each other, the rows leave nothing out either. -/
theorem judged_once (ip : Addr) (w : World n) (tr : List (Turn n)) (c' : World n × Window)
    (h : Path Step (w, .init) tr c') :
    (∀ k, (tally ip tr).judged k ≤ k.part (totals (tally ip tr).before)) ∧
      FLOOD_PPS * (tally ip tr).flooded ≤ (tally ip tr).before.length ∧
      ((∀ x ∈ tr, Gentle ip x) → ∀ k, (tally ip tr).judged k = k.part (totals (tally ip tr).before)) := by
  have hany : Tracks ip False (tally ip tr) c' := tracks_run h nofun
  have hall : (∀ x ∈ tr, Gentle ip x) → Tracks ip True (tally ip tr) c' := fun hg =>
    tracks_run h fun _ => hg
  refine ⟨hany.le, ?_, fun hg => (hall hg).eq trivial⟩
  calc FLOOD_PPS * (tally ip tr).flooded
      ≤ (tally ip tr).judged .packets := hany.floods
    _ ≤ Kind.packets.part (totals (tally ip tr).before) := hany.le .packets
    _ = (tally ip tr).before.length := by
      change ((totals (tally ip tr).before).packets : ℚ) = _
      rw [totals_packets]
      exact Int.cast_natCast _

/-! ### A source that comes twice -/

/-- What comes next. -/
inductive Move
  | op (o : Op)
  | poll (now : ℕ)

def move (c : World 1 × Window) : Move → Ev 1 × (World 1 × Window)
  | .op o => (.op 0 ⟨o, (exec 0 c.1 o).1⟩, ((exec 0 c.1 o).2, c.2))
  | .poll now => (.poll now, (c.1, (c.2.update (Dict.ofItems (states c.1.srcstate)) now).2))

def follow : List Move → World 1 × Window → List (Turn 1)
  | [], _ => []
  | x :: xs, c => ⟨c, (move c x).1, (move c x).2⟩ :: follow xs (move c x).2

lemma path_follow {xs : List Move} (hxs : ∀ o, .op o ∈ xs → OfProgram o) (c : World 1 × Window) :
    ∃ c', Path Step c (follow xs c) c' := by
  induction xs generalizing c with
  | nil => exact ⟨c, .nil⟩
  | cons x xs ih =>
    obtain ⟨c', hrest⟩ := ih (fun o ho => hxs o (List.mem_cons_of_mem _ ho)) (move c x).2
    refine ⟨c', .cons ?_ hrest⟩
    cases x with
    | op o => exact .op c.2 0 (hxs o List.mem_cons_self) rfl
    | poll now => exact .poll c.1 c.2 now

/-- A source sends a packet in each of two windows; its entry is deleted in between. -/
def two_visits : List Move :=
  [.poll 0, .op (.state_insert 7 (init one_packet)), .op (.state_locked 0 one_packet),
    .poll 1000000000, .op (.state_delete 7), .op (.state_insert 7 (init one_packet)),
    .op (.state_locked 1 one_packet), .poll 2000000000]

theorem judged_once_two_visits :
    (tally 7 (follow two_visits (World.loaded 1, .init))).judged .packets ≤ 2 := by
  have hprogram : ∀ o, .op o ∈ two_visits → OfProgram o := by
    rintro o ho a st rfl
    have hmem : a = 7#32 ∧ st = init one_packet := by simpa [two_visits] using ho
    exact ⟨one_packet, hmem.2⟩
  obtain ⟨c', h⟩ := path_follow hprogram (World.loaded 1, .init)
  have htwo : Kind.packets.part
      (totals (tally 7 (follow two_visits (World.loaded 1, .init))).before) = 2 := by
    decide +kernel
  have hle := (judged_once 7 _ _ c' h).1 .packets
  rw [htwo] at hle
  exact hle

end Lookout.Judged

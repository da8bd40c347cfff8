import Lookout.Views

/-!
Traffic that is decided before the limiter leaves the limiter alone.

A run with extra packets and the run without them look the same after every other packet: the
extra ones write counters, but nothing of what the limiter sees.
-/

namespace Lookout.Undisturbed

open Lookout.Effects Lookout.Effects.Prog Lookout.Handles Lookout.Common Lookout.Packet
open Lookout.Limiter Lookout.Kernel Lookout.Xdp Lookout.Accounting Lookout.Traffic
open Lookout.Views

variable {n : ℕ}

/-- A packet, with the clock it reads; `extra` marks those that are put in. -/
structure Arrival (n : ℕ) where
  cpu : Fin n
  frame : Frame
  now : U64
  extra : Bool

/-- The maps when the packet comes. -/
def at_arrival (a : Arrival n) (w : World n) : World n := { w with clock := a.now }

def arrive (a : Arrival n) (w : World n) : Verdict × World n :=
  handle a.cpu a.frame (at_arrival a w)

/-- The tokens and refill times of all sources. -/
def buckets (w : World n) (s : Addr) : Option (U64 × U64) := (w.srcstate.get s).map tok

/-- What is seen after each packet that is not extra: its verdict, the buckets, the limiter's
counters. -/
def observed : List (Arrival n) → World n → List (Verdict × (Addr → Option (U64 × U64)) × ℕ)
  | [], _ => []
  | a :: l, w =>
    let r := arrive a w
    if a.extra then observed l r.2
    else (r.1, buckets r.2, limiter_input r.2.total) :: observed l r.2

/-- The maps after all packets. -/
def final : List (Arrival n) → World n → World n
  | [], w => w
  | a :: l, w => final l (arrive a w).2

/-- The reasons given before the token bucket. -/
def EARLY : List Stat :=
  [.pass_non_ipv4, .drop_malformed, .pass_allowlist, .drop_blocklist, .drop_proto,
    .drop_port_rule, .drop_default, .drop_fragment]

/-- The packet is decided before the token bucket and, if it comes to `update_state`, its
source has an entry. -/
structure Harmless (a : Arrival n) (w : World n) : Prop where
  early : ∃ r ∈ EARLY, (written (log a.cpu a.frame (at_arrival a w))).stats r = 1
  tracked : ∀ v r, ⟨.update_state_label v r, ()⟩ ∈ log a.cpu a.frame (at_arrival a w) →
    ∃ ip, parse_l3 a.frame = .ipv4 ip ∧ (w.srcstate.find ip.saddr).isSome

def AllHarmless : List (Arrival n) → World n → Prop
  | [], _ => True
  | a :: l, w => (a.extra = true → Harmless a w) ∧ AllHarmless l (arrive a w).2

/-! ### An extra packet -/

/-- A packet with an early reason does not reach the limiter. -/
lemma reaches_of_early {cpu : Fin n} {f : Frame} {w : World n} {r : Stat} (hr : r ∈ EARLY)
    (h1 : (written (log cpu f w)).stats r = 1) : reaches cpu f w = false := by
  obtain ⟨-, -, r0, hk, -, -, hzero⟩ := counted_of_closed (closed_log cpu f w)
  have hkind : ∀ r ∈ EARLY, (r.is_pass ∨ r.is_drop) ∧ r ∉ LIMITER_INPUT := by decide
  have hinput : ∀ s ∈ LIMITER_INPUT, s.is_pass ∨ s.is_drop := by decide
  have hr0 : r0 = r := by
    by_contra hne
    have := hzero r (hkind r hr).1 (Ne.symm hne)
    omega
  have hsum : (LIMITER_INPUT.map (written (log cpu f w)).stats).sum = 0 := by
    refine List.sum_eq_zero fun x hx => ?_
    obtain ⟨s, hs, rfl⟩ := List.mem_map.mp hx
    refine hzero s (hinput s hs) ?_
    rintro rfl
    exact (hkind r hr).2 (hr0 ▸ hs)
  obtain ⟨hpass, -⟩ := limiter_of_closed (closed_log cpu f w)
  by_contra hreach
  have := (written_passing (log cpu f w)).mp (by simpa [reaches] using hreach)
  omega

/-- A packet that comes to `update_state` has the source of its IP header. -/
lemma way_update {v : View n} {cpu : Fin n} {f : Frame} {now : U64} {p : Pending}
    (h : v.way cpu f now = .update p) : ∃ ip, parse_l3 f = .ipv4 ip ∧ p.saddr = ip.saddr := by
  unfold View.way at h
  split at h
  · cases h
  · cases h
  · next ip hip =>
    refine ⟨ip, hip, ?_⟩
    split_ifs at h
    unfold View.l4_way at h
    split at h
    · cases h
    · cases h
      rfl

lemma limit_decided {p : Pending} (t : U64 × U64) (h : limited p = false) :
    View.limit p t = (t, p.verdict, p.reason) := by
  unfold View.limit locked charge
  rw [if_neg (by simp [h])]
  simp only [tok_count_drop]
  rfl

/-- A decided packet of a source with an entry takes nothing. -/
lemma update_decided {v : View n} {p : Pending} {t : U64 × U64}
    (ht : v.bucket p.saddr = some t) (h : limited p = false) :
    (v.update p).2 = v.count p.reason := by
  unfold View.update
  by_cases htrack : has p.feat FEAT_TRACK_STATE = true
  · rw [if_pos htrack, ht]
    dsimp only
    rw [limit_decided t h, View.settle, ← ht, Function.update_eq_self]
  · rw [if_neg htrack]

/-- **An extra packet leaves the view as it is.** -/
theorem view_of_harmless {a : Arrival n} {w : World n} (h : Harmless a w) :
    view (arrive a w).2 = view w := by
  obtain ⟨r, hr, hone⟩ := h.early
  have hreach := reaches_of_early hr hone
  have hinput : (view (arrive a w).2).input = (view w).input := by
    have hin := limiter_input_handle a.cpu a.frame (at_arrival a w)
    rw [hreach] at hin
    exact hin
  obtain ⟨-, hview⟩ := handle_view a.cpu a.frame (at_arrival a w)
  have hgoes := goes_way a.cpu a.frame (at_arrival a w)
  have hw : view (at_arrival a w) = view w := rfl
  cases hway : (view (at_arrival a w)).way a.cpu a.frame (at_arrival a w).clock with
  | out v =>
    rw [hway] at hgoes
    exact hgoes.2
  | update p =>
    rw [hway] at hgoes
    obtain ⟨hlabel, -⟩ := hgoes
    -- a passing packet at the label would reach the limiter
    have hdrop : limited p = false := by
      by_contra hl
      have hpass := limited_pass (by simpa using hl)
      rw [hpass] at hlabel
      have : reaches a.cpu a.frame (at_arrival a w) = true :=
        List.any_eq_true.mpr ⟨_, hlabel, rfl⟩
      rw [hreach] at this
      cases this
    obtain ⟨ip, hip, hsome⟩ := h.tracked _ _ hlabel
    obtain ⟨ip', hip', hsaddr⟩ := way_update hway
    obtain rfl : ip = ip' := by
      rw [hip] at hip'
      cases hip'
      rfl
    obtain ⟨ref, href⟩ := Option.isSome_iff_exists.mp hsome
    obtain ⟨st, hst⟩ := RefMap.deref_of_find href
    rw [← RefMap.get_eq href] at hst
    have hbucket : (view w).bucket p.saddr = some (tok st) := by
      rw [hsaddr]
      exact congrArg (Option.map tok) hst
    unfold View.handle at hview
    rw [hway, hw] at hview
    change view (arrive a w).2 = ((view w).update p).2 at hview
    rw [update_decided hbucket hdrop] at hview
    rw [hview] at hinput
    rw [hview]
    exact View.ext rfl rfl rfl rfl rfl rfl hinput

/-! ### Two runs -/

lemma arrive_congr {a : Arrival n} {w w' : World n} (h : view w = view w') :
    (arrive a w).1 = (arrive a w').1 ∧ view (arrive a w).2 = view (arrive a w').2 := by
  obtain ⟨hv, hview⟩ := handle_view a.cpu a.frame (at_arrival a w)
  obtain ⟨hv', hview'⟩ := handle_view a.cpu a.frame (at_arrival a w')
  have hat : view (at_arrival a w) = view (at_arrival a w') := h
  rw [hat] at hv hview
  exact ⟨hv.trans hv'.symm, hview.trans hview'.symm⟩

lemma buckets_eq {w w' : World n} (h : view w = view w') : buckets w = buckets w' :=
  congrArg View.bucket h

lemma input_eq {w w' : World n} (h : view w = view w') :
    limiter_input w.total = limiter_input w'.total :=
  congrArg View.input h

/-- The run with the extra packets and the run without them, from worlds that look alike. -/
theorem runs_alike (l : List (Arrival n)) {w w' : World n} (hw : view w = view w')
    (h : AllHarmless l w) :
    observed l w = observed (l.filter fun a => !a.extra) w' ∧
      view (final l w) = view (final (l.filter fun a => !a.extra) w') := by
  induction l generalizing w w' with
  | nil => exact ⟨rfl, hw⟩
  | cons a l ih =>
    obtain ⟨ha, hl⟩ := h
    by_cases hextra : a.extra = true
    · have hview := (view_of_harmless (ha hextra)).trans hw
      have hfilter : (a :: l).filter (fun a => !a.extra) = l.filter fun a => !a.extra := by
        simp [hextra]
      rw [hfilter, observed, if_pos hextra]
      exact ih hview hl
    · obtain ⟨hv, hview⟩ := arrive_congr (a := a) hw
      have hfilter : (a :: l).filter (fun a => !a.extra) =
          a :: l.filter fun a => !a.extra := by
        simp [hextra]
      obtain ⟨hobs, hfin⟩ := ih hview hl
      rw [hfilter, observed, observed, if_neg hextra, if_neg hextra, hv, buckets_eq hview,
        input_eq hview, hobs]
      exact ⟨rfl, hfin⟩

/-- **Extra packets that are decided before the limiter disturb nothing**: the verdict on every
other packet, the buckets and the limiter's counters after it, and those at the end, are what
they are without the extra packets. -/
theorem undisturbed (l : List (Arrival n)) (w : World n) (h : AllHarmless l w) :
    observed l w = observed (l.filter fun a => !a.extra) w ∧
      buckets (final l w) = buckets (final (l.filter fun a => !a.extra) w) ∧
      limiter_input (final l w).total =
        limiter_input (final (l.filter fun a => !a.extra) w).total := by
  obtain ⟨hobs, hview⟩ := runs_alike l rfl h
  exact ⟨hobs, buckets_eq hview, input_eq hview⟩

/-- A later fragment from `saddr`: the header with an offset. -/
def fragment_from (saddr : Addr) : Frame where
  bytes := (header_from saddr).bytes.set 21 1
  lt := by
    rw [List.length_set]
    exact (header_from saddr).lt

/-- Maps under which fragments are dropped. -/
def dropping_frags : World 1 :=
  { World.loaded 1 with
    config := { default_config with features := FEAT_DEFAULT ||| FEAT_DROP_FRAGS } }

/-- Two packets of one source, with a fragment of its own between them. -/
def with_fragment : List (Arrival 1) :=
  [⟨0, header_from 7, 0, false⟩, ⟨0, fragment_from 7, 5, true⟩, ⟨0, header_from 7, 10, false⟩]

theorem undisturbed_by_fragment :
    observed with_fragment dropping_frags =
        observed (with_fragment.filter fun a => !a.extra) dropping_frags ∧
      buckets (final with_fragment dropping_frags) =
        buckets (final (with_fragment.filter fun a => !a.extra) dropping_frags) ∧
      limiter_input (final with_fragment dropping_frags).total =
        limiter_input (final (with_fragment.filter fun a => !a.extra) dropping_frags).total := by
  refine undisturbed with_fragment dropping_frags
    ⟨nofun, fun _ => ⟨?_, fun v r _ => ?_⟩, nofun, trivial⟩
  · exact ⟨.drop_fragment, by decide, by decide +kernel⟩
  · exact ⟨⟨34, 7, 253, 1⟩, by decide +kernel, by decide +kernel⟩

end Lookout.Undisturbed

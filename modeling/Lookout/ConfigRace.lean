import Lookout.Fwctl
import Lookout.Policy
import Lookout.Runs

/-!
The configuration, written by two processes.

`update_config` reads the whole entry, changes some fields and writes the whole entry back.
The controller changes the limits only, but its write carries the policy and the features it
has read, which need not be the ones that are stored by then.
-/

namespace Lookout.ConfigRace

open Lookout.Effects Lookout.Effects.Prog Lookout.Runs Lookout.Common Lookout.Kernel
open Lookout.Firewall Lookout.Fwctl

/-- The calls that write the configuration. -/
inductive Job
  | tune (rate_pps burst_pkts aggressiveness : ℤ)
  | policy (p : Policy)
  | config (args : ConfigArgs)

namespace Job

/-- The fields the controller names. -/
def limits (rate_pps burst_pkts aggressiveness : ℤ) : Changes :=
  { rate_pps := some rate_pps, burst_pkts := some burst_pkts,
    aggressiveness := some aggressiveness }

/-- The controller's call. -/
def update_limits (rate_pps burst_pkts aggressiveness : ℤ) : Py Unit := do
  let _ ← update_config (limits rate_pps burst_pkts aggressiveness)
  return ()

def prog : Job → Py Unit
  | tune rate burst level => update_limits rate burst level
  | policy p => cmd_policy p
  | config args => cmd_config_set args

def is_tune : Job → Bool
  | tune .. => true
  | _ => false

end Job

/-- What belongs to the operator. -/
def settings (c : FwConfig) : U32 × U32 := (c.default_policy, c.features)

variable {n : ℕ} {ι : Type}

/-- The settings after an event, if it is a write of the operator's. -/
def operator_write (job : ι → Job) (e : ι × Event calls) (s : U32 × U32) : U32 × U32 :=
  if (job e.1).is_tune then s
  else
    match e.2.1 with
    | .config_update cfg => settings cfg
    | _ => s

/-- The settings an operator command has stored last, `s` if none has. -/
def last_stored (job : ι → Job) (s : U32 × U32)
    (tr : Turns calls (World n) (Except PyError Unit) ι) : U32 × U32 :=
  tr.foldl (fun s x => operator_write job x.ev s) s

/-! ### What a controller's call does -/

/-- What a controller's call has done so far: nothing, its read, or its read and a write that
carries the settings it has read. -/
def Carries (l : List (Event calls)) : Prop :=
  l = [] ∨ (∃ c, l = [⟨.config_lookup, c⟩]) ∨
    ∃ c cfg, settings cfg = settings c ∧ l = [⟨.config_lookup, some c⟩, ⟨.config_update cfg, ()⟩]

lemma update_limits_carries {rate burst level : ℤ} {l : List (Event calls)}
    {q : Prog calls (Except PyError Unit)}
    (h : Trace (Job.update_limits rate burst level : Prog calls (Except PyError Unit)) l q) :
    Carries l := by
  have heq : (Job.update_limits rate burst level : Prog calls (Except PyError Unit)) =
      Prog.bind (update_config (Job.limits rate burst level)) fun
        r : Except PyError Config => .ret (r.map fun _ => ()) :=
    congrArg (Prog.bind _) (funext fun r => by cases r <;> rfl)
  rw [heq] at h
  obtain ⟨q', h1⟩ := h.of_map
  rw [update_config_eq] at h1
  rcases trace_call.mp h1 with ⟨rfl, -⟩ | ⟨c, l, rfl, h2⟩
  · exact Or.inl rfl
  cases c with
  | none =>
    obtain ⟨rfl, -⟩ := trace_ret.mp h2
    exact Or.inr (Or.inl ⟨none, rfl⟩)
  | some c =>
    by_cases hfit : Fits ((unpack_config c).update (Job.limits rate burst level))
    · rw [after_read_fits hfit] at h2
      rcases trace_call.mp h2 with ⟨rfl, -⟩ | ⟨_, l, rfl, h3⟩
      · exact Or.inr (Or.inl ⟨some c, rfl⟩)
      · obtain ⟨rfl, -⟩ := trace_ret.mp h3
        have hs : settings (packed ((unpack_config c).update (Job.limits rate burst level))) =
            settings c := rfl
        exact Or.inr (Or.inr ⟨c, _, hs, rfl⟩)
    · rw [after_read_not_fits hfit] at h2
      obtain ⟨rfl, -⟩ := trace_ret.mp h2
      exact Or.inr (Or.inl ⟨some c, rfl⟩)

lemma Carries.read_of_write {l : List (Event calls)} (h : Carries l) {cfg : FwConfig} {u : Unit}
    (hw : ⟨.config_update cfg, u⟩ ∈ l) :
    ∃ c, ⟨.config_lookup, some c⟩ ∈ l ∧ settings cfg = settings c ∧
      ∀ c', ⟨.config_lookup, c'⟩ ∈ l → c' = some c := by
  rcases h with rfl | ⟨c, rfl⟩ | ⟨c, cfg', hs, rfl⟩
  · simp at hw
  · simp at hw
  · simp at hw
    subst hw
    exact ⟨c, by simp, hs, by simp⟩

/-! ### Runs -/

variable [DecidableEq ι] {cpu : ι → Fin n}

lemma turn_config {c c' : Pool calls (World n) (Except PyError Unit) ι} {e : ι × Event calls}
    (h : turn (fun i => kernel Quiet (cpu i)) c e c') :
    c'.1.config = config_after e.2.1 c.1.config := by
  obtain ⟨k, -, ⟨w, hw, hx⟩, -⟩ := h
  have hc := exec_config (cpu e.1) w e.2.1
  rw [hx, hw] at hc
  exact hc

lemma turn_lookup {c c' : Pool calls (World n) (Except PyError Unit) ι} {i : ι}
    {b : Option FwConfig}
    (h : turn (fun i => kernel Quiet (cpu i)) c (i, ⟨.config_lookup, b⟩) c') :
    b = some c.1.config := by
  obtain ⟨k, -, ⟨w, hw, hx⟩, -⟩ := h
  cases hx
  exact congrArg some hw

/-- What a call has read is what was there. -/
lemma read_of_run {c c' : Pool calls (World n) (Except PyError Unit) ι}
    {tr : Turns calls (World n) (Except PyError Unit) ι} {i : ι} {b : Option FwConfig}
    {y : Trans (Pool calls (World n) (Except PyError Unit) ι) (ι × Event calls)}
    (h : Path (turn fun i => kernel Quiet (cpu i)) c tr c') (hy : y ∈ tr)
    (hev : y.ev = (i, ⟨.config_lookup, b⟩)) : b = some y.pre.1.config := by
  have hstep := h.step_of_mem hy
  rw [hev] at hstep
  exact turn_lookup hstep

lemma carries_of_tune {job : ι → Job} {w : World n}
    {c' : Pool calls (World n) (Except PyError Unit) ι}
    {tr : Turns calls (World n) (Except PyError Unit) ι}
    (h : Path (turn fun i => kernel Quiet (cpu i)) (w, fun i => (job i).prog) tr c') {i : ι}
    (hi : (job i).is_tune = true) : Carries (own i tr) := by
  have ht := own_trace h i
  cases hj : job i with
  | tune rate burst level =>
    simp only [hj, Job.prog] at ht
    exact update_limits_carries ht
  | policy p => simp [hj, Job.is_tune] at hi
  | config args => simp [hj, Job.is_tune] at hi

/-- A call of the controller writes the settings that it has read. -/
lemma wrote_read {job : ι → Job} {w : World n}
    {c' : Pool calls (World n) (Except PyError Unit) ι}
    {tr : Turns calls (World n) (Except PyError Unit) ι} {i : ι} {cfg : FwConfig}
    {x : Trans (Pool calls (World n) (Except PyError Unit) ι) (ι × Event calls)}
    (h : Path (turn fun i => kernel Quiet (cpu i)) (w, fun i => (job i).prog) tr c')
    (hi : (job i).is_tune = true) (hx : x ∈ tr) (hev : x.ev = (i, ⟨.config_update cfg, ()⟩)) :
    (∃ y ∈ tr, ∃ b, y.ev = (i, ⟨.config_lookup, b⟩)) ∧
      ∀ y ∈ tr, (∃ b, y.ev = (i, ⟨.config_lookup, b⟩)) →
        settings cfg = settings y.pre.1.config := by
  obtain ⟨c, hc, hs, honly⟩ :=
    (carries_of_tune h hi).read_of_write (mem_own.mpr ⟨x, hx, hev⟩)
  obtain ⟨y, hy, hyev⟩ := mem_own.mp hc
  refine ⟨⟨y, hy, _, hyev⟩, ?_⟩
  rintro y' hy' ⟨b, hyev'⟩
  have hb : b = some c := honly b (mem_own.mpr ⟨y', hy', hyev'⟩)
  have hread := read_of_run h hy' hyev'
  rw [hb] at hread
  rw [hs, Option.some.inj hread]

/-- **The operator's settings survive exactly the runs in which no call of the controller
writes over settings other than those it has read.** -/
theorem settings_kept_iff (job : ι → Job) (w : World n)
    (c' : Pool calls (World n) (Except PyError Unit) ι)
    (tr : Turns calls (World n) (Except PyError Unit) ι)
    (h : Path (turn fun i => kernel Quiet (cpu i)) (w, fun i => (job i).prog) tr c') :
    Throughout (turn fun i => kernel Quiet (cpu i)) (w, fun i => (job i).prog) tr c'
      (fun tr1 m => settings m.1.config = last_stored job (settings w.config) tr1) ↔
    ∀ i, (job i).is_tune = true →
      ∀ y ∈ tr, (∃ b, y.ev = (i, ⟨.config_lookup, b⟩)) →
      ∀ x ∈ tr, (∃ cfg, x.ev = (i, ⟨.config_update cfg, ()⟩)) →
        settings x.pre.1.config = settings y.pre.1.config := by
  constructor
  · rintro hkept i hi y hy hyev x hx ⟨cfg, hxev⟩
    -- the write changes nothing of the operator's
    obtain ⟨tr1, tr2, htr, h1, hstep, h2⟩ := h.split hx
    have hpre : settings x.pre.1.config = last_stored job (settings w.config) tr1 :=
      hkept tr1 (x :: tr2) x.pre htr h1 (.cons hstep h2)
    have hpost : settings x.post.1.config = last_stored job (settings w.config) (tr1 ++ [x]) :=
      hkept (tr1 ++ [x]) tr2 x.post (by simp [htr]) (.snoc h1 hstep) h2
    have hwrite : x.post.1.config = cfg := by rw [turn_config hstep, hxev]; rfl
    have hlast : last_stored job (settings w.config) (tr1 ++ [x]) =
        last_stored job (settings w.config) tr1 := by
      simp [last_stored, operator_write, hxev, hi]
    rw [hwrite, hlast, ← hpre] at hpost
    -- and it carries what was read
    rw [← hpost]
    exact (wrote_read h hi hx hxev).2 y hy hyev
  · intro hcond
    refine throughout_of_step rfl ?_
    rintro tr1 m ⟨i, o, b⟩ m' hP hstep hx
    have hnext := turn_config hstep
    rw [last_stored, List.foldl_append]
    change _ = operator_write job (i, ⟨o, b⟩) (last_stored job (settings w.config) tr1)
    rw [← hP, hnext]
    unfold operator_write
    split_ifs with hi
    · cases o with
      | config_update cfg =>
        obtain ⟨⟨y, hy, hyev⟩, hwrote⟩ := wrote_read h hi hx rfl
        have hsame := hcond i hi y hy hyev _ hx ⟨cfg, rfl⟩
        rw [hsame]
        exact hwrote y hy hyev
      | _ => rfl
    · cases o <;> rfl

/-! ### A lost command -/

/-- The controller tightens the limits while the operator closes the firewall. -/
def race (i : Fin 2) : Job := if i = 0 then .tune 5000 10000 1 else .policy .deny

/-- The controller reads, the operator's command runs, the controller writes. -/
def race_run : Turns calls (World 1) (Except PyError Unit) (Fin 2) ×
    Pool calls (World 1) (Except PyError Unit) (Fin 2) :=
  play (fun _ => exec 0) [0, 1, 1, 0] (World.loaded 1, fun i => (race i).prog)

lemma path_race : Path (turn fun _ => kernel Quiet 0) (World.loaded 1, fun i => (race i).prog)
    race_run.1 race_run.2 := by
  have hE : ∀ w : World 1, Quiet w w := fun _ => rfl
  exact path_play hE _ _ _

lemma race_lost : settings race_run.2.1.config ≠
    last_stored race (settings (World.loaded 1).config) race_run.1 := by
  decide +kernel

theorem race_condition_fails :
    ¬ ∀ i, (race i).is_tune = true →
      ∀ y ∈ race_run.1, (∃ b, y.ev = (i, ⟨.config_lookup, b⟩)) →
      ∀ x ∈ race_run.1, (∃ cfg, x.ev = (i, ⟨.config_update cfg, ()⟩)) →
        settings x.pre.1.config = settings y.pre.1.config := fun hcond =>
  race_lost (((settings_kept_iff race _ _ _ path_race).mpr hcond).last path_race)

theorem policy_reopened :
    ∃ tr c', Path (turn fun _ => kernel Quiet 0) (World.loaded 1, fun i => (race i).prog) tr c' ∧
      (∀ i, (c'.2 i).result = some (.ok ())) ∧
      last_stored race (settings (World.loaded 1).config) tr = (ACTION_DENY, FEAT_DEFAULT) ∧
      settings c'.1.config = (ACTION_ALLOW, FEAT_DEFAULT) :=
  ⟨race_run.1, race_run.2, path_race, by decide +kernel, by decide +kernel, by decide +kernel⟩

end Lookout.ConfigRace

import Lookout.Loader

/-!
A load that fails over a firewall that runs.

The loader writes the configuration and pins the program before it attaches, and its one cleanup
label closes the object and undoes nothing. A failure before these steps leaves all as it was; a
failure of the attach itself comes too late.
-/

namespace Lookout.Reload

open Lookout.Effects Lookout.Effects.Prog Lookout.Common Lookout.Loader

/-! ### What the kernel and libbpf document -/

/-- The pins, by name, and what the maps of one entry hold. A pin refers to an object by its
number. -/
structure Host where
  pins : String → Option ℕ
  config : ℕ → FwConfig

/-- Which steps fail. -/
structure Faults where
  euid : ℕ
  ifindex : String → ℕ
  mkdir : Option Errno
  open_file : String → Bool
  load : Bool
  map_update_elem : Bool
  unlink : String → Bool
  pin : Bool
  attach : AttachMode → Bool

/-- What `unlink` leaves. -/
def unlinked (flt : Faults) (s : Host) (name : String) : Host :=
  if flt.unlink name then s else { s with pins := Function.update s.pins name none }

/-- What `bpf_program__pin` leaves; a path that exists is not written over. -/
def repinned (flt : Faults) (s : Host) (prog : ℕ) (name : String) : Host :=
  if flt.pin ∨ (s.pins name).isSome then s
  else { s with pins := Function.update s.pins name (some prog) }

/-- The documented behaviour, as far as the loader relies on it. A load that fails leaves the pins
alone; one that succeeds reuses the pinned maps with what they hold, and its program is a new one.
A call that changes no pin and no map leaves the host as it is. -/
structure Documented (flt : Faults) (R : Machine syscalls Host) : Prop where
  geteuid : ∀ s a t, R s .geteuid a t → a = flt.euid ∧ t = s
  if_nametoindex : ∀ s iface a t, R s (.if_nametoindex iface) a t → a = flt.ifindex iface ∧ t = s
  setrlimit : ∀ s a t, R s .setrlimit a t → t = s
  mkdir : ∀ s a t, R s .mkdir a t → a = flt.mkdir ∧ t = s
  open_file : ∀ s path a t, R s (.open_file path) a t → a = flt.open_file path ∧ t = s
  load_failed : ∀ s t, R s .load none t → flt.load = true ∧ t = s
  load_done : ∀ s obj t, R s .load (some obj) t → flt.load = false ∧
    (∀ m, s.pins "config" = some m →
      obj.config = m ∧ t.pins "config" = some m ∧ t.config m = s.config m) ∧
    t.pins PROG_NAME = s.pins PROG_NAME ∧ s.pins PROG_NAME ≠ some obj.prog
  map_update_elem : ∀ s m cfg a t, R s (.map_update_elem m cfg) a t → a = flt.map_update_elem ∧
    t = if a then s else { s with config := Function.update s.config m cfg }
  unlink : ∀ s name a t, R s (.unlink name) a t → t = unlinked flt s name
  pin : ∀ s prog name a t, R s (.pin prog name) a t → t = repinned flt s prog name
  attach : ∀ s ifindex prog mode a t, R s (.attach ifindex prog mode) a t →
    a = flt.attach mode ∧ t = s
  detach : ∀ s ifindex a t, R s (.detach ifindex) a t → t = s
  rmdir : ∀ s a t, R s .rmdir a t → t = s

/-! ### Where it stops -/

/-- The program ends before its first write: the arguments, the user, the interface, or one of the
first steps. -/
def Stops (flt : Faults) (st : Settings) : Prop :=
  st.iface = none ∨ (st.mode ≠ "auto" ∧ st.mode ≠ "native" ∧ st.mode ≠ "skb") ∨ flt.euid ≠ 0 ∨
    (∃ iface, st.iface = some iface ∧ flt.ifindex iface = 0) ∨ flt.mkdir = some .other ∨
    flt.open_file st.obj_path = true ∨ flt.load = true ∨ flt.map_update_elem = true

/-- The running firewall is left alone: its configuration, and the program its path refers to. -/
structure Kept (m : ℕ) (s t : Host) : Prop where
  config_pin : t.pins "config" = some m
  config : t.config m = s.config m
  prog : t.pins PROG_NAME = s.pins PROG_NAME

/-- The program's path cannot be changed: it exists and is not removed, or is not made. -/
def Stuck (flt : Faults) (s : Host) : Prop :=
  if (s.pins PROG_NAME).isSome then flt.unlink PROG_NAME = true else flt.pin = true

/-! ### The program's path -/

variable {flt : Faults} {R : Machine syscalls Host} {s t : Host} {m : ℕ}

lemma Kept.refl (hm : s.pins "config" = some m) : Kept m s s := ⟨hm, rfl, rfl⟩

lemma config_ne_prog : "config" ≠ PROG_NAME := by decide

/-- Removing and making the program's path does not touch the others. -/
lemma config_repinned (flt : Faults) (s : Host) (prog : ℕ) :
    (repinned flt (unlinked flt s PROG_NAME) prog PROG_NAME).pins "config" = s.pins "config" ∧
      (repinned flt (unlinked flt s PROG_NAME) prog PROG_NAME).config = s.config := by
  have hunlinked : (unlinked flt s PROG_NAME).pins "config" = s.pins "config" ∧
      (unlinked flt s PROG_NAME).config = s.config := by
    unfold unlinked
    split_ifs
    · exact ⟨rfl, rfl⟩
    · exact ⟨Function.update_of_ne config_ne_prog none s.pins, rfl⟩
  unfold repinned
  split_ifs
  · exact hunlinked
  · exact ⟨(Function.update_of_ne config_ne_prog (some prog) _).trans hunlinked.1, hunlinked.2⟩

/-- It refers to the program it referred to only if it cannot be changed. -/
lemma prog_repinned (flt : Faults) {prog : ℕ} (hnew : s.pins PROG_NAME ≠ some prog) :
    (repinned flt (unlinked flt s PROG_NAME) prog PROG_NAME).pins PROG_NAME = s.pins PROG_NAME ↔
      Stuck flt s := by
  unfold repinned unlinked Stuck
  cases hold : s.pins PROG_NAME with
  | none =>
    cases hpin : flt.pin <;> cases hunlink : flt.unlink PROG_NAME <;> simp [hold]
  | some old =>
    rw [hold] at hnew
    cases hpin : flt.pin <;> cases hunlink : flt.unlink PROG_NAME <;>
      simp_all [Ne.symm]

/-! ### Runs -/

lemma exec_attach (hR : Documented flt R) {ifindex prog : ℕ} {mode : String} {r : Option String}
    (h : Exec R s (attach ifindex prog mode) r t) : t = s := by
  have hgeneric : ∀ {s r}, Exec R s (do
      let failed ← op (S := syscalls) (.attach ifindex prog .SKB_MODE)
      return (if failed then none else some "generic/SKB") : Sys (Option String)) r t → t = s := by
    intro s r h
    obtain ⟨failed, s1, hop, hret⟩ := exec_op_bind.mp h
    obtain ⟨-, rfl⟩ := exec_ret.mp hret
    exact (hR.attach _ _ _ _ _ _ hop).2
  unfold attach at h
  dsimp only at h
  split at h
  · obtain ⟨failed, s1, hop, hrest⟩ := exec_op_bind.mp h
    obtain rfl := (hR.attach _ _ _ _ _ _ hop).2
    split at hrest
    · exact (exec_ret.mp hrest).2
    · split at hrest
      · exact (exec_ret.mp hrest).2
      · exact hgeneric hrest
  · exact hgeneric h

/-- A load that has come to its first write. -/
lemma exec_load (hR : Documented flt R) {st : Settings} {ifindex code : ℕ}
    (hm : s.pins "config" = some m) (h : Exec R s (load st ifindex) code t) :
    (t = s ∧ (flt.mkdir = some .other ∨ flt.open_file st.obj_path = true ∨ flt.load = true)) ∨
      (Kept m s t ∧ flt.map_update_elem = true) ∨
      (flt.mkdir ≠ some .other ∧ flt.open_file st.obj_path = false ∧ flt.load = false ∧
        flt.map_update_elem = false ∧ ∃ s1 prog, s1.pins "config" = some m ∧
          s1.config m = st.cfg ∧ s1.pins PROG_NAME = s.pins PROG_NAME ∧
          s.pins PROG_NAME ≠ some prog ∧
          t = repinned flt (unlinked flt s1 PROG_NAME) prog PROG_NAME) := by
  obtain ⟨_, s1, hop, h1⟩ := exec_op_bind.mp h
  obtain rfl := hR.setrlimit _ _ _ hop
  obtain ⟨err, s2, hop, h2⟩ := exec_op_bind.mp h1
  obtain ⟨rfl, rfl⟩ := hR.mkdir _ _ _ hop
  split at h2
  · next hmkdir =>
    exact Or.inl ⟨(exec_ret.mp h2).2, Or.inl hmkdir⟩
  next hmkdir =>
  obtain ⟨failed, s3, hop, h3⟩ := exec_op_bind.mp h2
  obtain ⟨rfl, rfl⟩ := hR.open_file _ _ _ _ hop
  split at h3
  · next hopen =>
    exact Or.inl ⟨(exec_ret.mp h3).2, Or.inr (Or.inl hopen)⟩
  next hopen =>
  obtain ⟨obj, s4, hop, h4⟩ := exec_op_bind.mp h3
  cases obj with
  | none =>
    obtain ⟨hload, rfl⟩ := hR.load_failed _ _ hop
    exact Or.inl ⟨(exec_ret.mp h4).2, Or.inr (Or.inr hload)⟩
  | some obj =>
    obtain ⟨hload, hreused, hprog, hnew⟩ := hR.load_done _ _ _ hop
    obtain ⟨hobj, hpin, hconfig⟩ := hreused m hm
    obtain ⟨failed, s5, hop, h5⟩ := exec_op_bind.mp h4
    obtain ⟨hfailed, rfl⟩ := hR.map_update_elem _ _ _ _ _ hop
    split at h5
    · next hupdate =>
      obtain ⟨-, rfl⟩ := exec_ret.mp h5
      exact Or.inr (Or.inl ⟨⟨hpin, hconfig, hprog⟩, hfailed.symm.trans hupdate⟩)
    · next hupdate =>
      obtain ⟨_, s6, hop, h6⟩ := exec_op_bind.mp h5
      obtain rfl := hR.unlink _ _ _ _ hop
      obtain ⟨_, s7, hop, h7⟩ := exec_op_bind.mp h6
      obtain rfl := hR.pin _ _ _ _ _ hop
      obtain ⟨r, s8, hattach, h8⟩ := Exec.bind_inv h7
      obtain rfl := exec_attach hR hattach
      have hstored : Function.update s4.config obj.config st.cfg m = st.cfg := by
        rw [hobj, Function.update_self]
      refine Or.inr (Or.inr ⟨hmkdir, by simpa using hopen, hload, ?_,
        { s4 with config := Function.update s4.config obj.config st.cfg }, obj.prog, hpin,
        hstored, hprog, hnew, ?_⟩)
      · rw [← hfailed]
        simpa using hupdate
      · cases r with
        | none => exact (exec_ret.mp h8).2
        | some r => exact (exec_ret.mp h8).2

/-- Unloading does not fail. -/
lemma exec_unload {ifindex code : ℕ} (h : Exec R s (unload ifindex) code t) : code = 0 := by
  obtain ⟨_, s1, -, h1⟩ := exec_op_bind.mp h
  obtain ⟨_, s2, -, h2⟩ := Exec.bind_inv h1
  obtain ⟨_, s3, -, h3⟩ := exec_op_bind.mp h2
  exact (exec_ret.mp h3).1

/-- The last of the steps that stop the program. -/
lemma stops_of_step {st : Settings}
    (h : flt.mkdir = some .other ∨ flt.open_file st.obj_path = true ∨ flt.load = true ∨
      flt.map_update_elem = true) : Stops flt st :=
  Or.inr (Or.inr (Or.inr (Or.inr h)))

/-- What a failed load leaves, once the arguments are read. -/
lemma kept_of_load (hR : Documented flt R) {st : Settings} {ifindex code : ℕ} {iface : String}
    (hm : s.pins "config" = some m) (hiface : st.iface = some iface)
    (hmode : ¬ (st.mode ≠ "auto" ∧ st.mode ≠ "native" ∧ st.mode ≠ "skb")) (heuid : flt.euid = 0)
    (hindex : flt.ifindex iface ≠ 0) (h : Exec R s (load st ifindex) code t) :
    Kept m s t ↔ Stops flt st ∨ (st.cfg = s.config m ∧ Stuck flt s) := by
  rcases exec_load hR hm h with ⟨rfl, hstop⟩ | ⟨hkept, hupdate⟩ |
    ⟨hmkdir, hopen, hload, hupdate, s1, prog, hpin, hcfg, hprog, hnew, rfl⟩
  · refine iff_of_true (.refl hm) (Or.inl (stops_of_step ?_))
    exact hstop.imp_right fun h => h.imp_right Or.inl
  · exact iff_of_true hkept (Or.inl (stops_of_step (Or.inr (Or.inr (Or.inr hupdate)))))
  · have hgoes : ¬ Stops flt st := by
      rintro (hnone | hbad | huser | ⟨iface', hiface', hzero⟩ | hbad | hbad | hbad | hbad)
      · rw [hiface] at hnone
        cases hnone
      · exact hmode hbad
      · exact huser heuid
      · rw [hiface] at hiface'
        cases hiface'
        exact hindex hzero
      · exact hmkdir hbad
      · exact Bool.false_ne_true (hopen.symm.trans hbad)
      · exact Bool.false_ne_true (hload.symm.trans hbad)
      · exact Bool.false_ne_true (hupdate.symm.trans hbad)
    obtain ⟨hpins, hconfig⟩ := config_repinned flt s1 prog
    have hnew1 : s1.pins PROG_NAME ≠ some prog := by rwa [hprog]
    have hpath := prog_repinned flt hnew1
    have hstuck : Stuck flt s1 ↔ Stuck flt s := by
      unfold Stuck
      rw [hprog]
    constructor
    · rintro ⟨-, hsame, hback⟩
      rw [hconfig, hcfg] at hsame
      exact Or.inr ⟨hsame, hstuck.mp (hpath.mp (hback.trans hprog.symm))⟩
    · rintro (hstop | ⟨hsame, hst⟩)
      · exact absurd hstop hgoes
      · refine ⟨hpins.trans hpin, ?_, (hpath.mpr (hstuck.mpr hst)).trans hprog⟩
        rw [hconfig, hcfg, hsame]

/-- **A load that fails leaves a running firewall alone** exactly when it stops before its first
write, or when there is nothing for it to change: it would write the configuration that is there
already, and the program's path cannot be changed. -/
theorem kept_iff (hR : Documented flt R) {opts : List Opt} {code : ℕ}
    (hm : s.pins "config" = some m) (h : Exec R s (main opts) code t) (hcode : code ≠ 0) :
    Kept m s t ↔
      ∀ st, getopts opts = .ok st → Stops flt st ∨ (st.cfg = s.config m ∧ Stuck flt s) := by
  unfold main at h
  cases hopts : getopts opts with
  | error e =>
    rw [hopts] at h
    obtain ⟨-, rfl⟩ := exec_ret.mp h
    exact iff_of_true (.refl hm) nofun
  | ok st =>
    rw [hopts] at h
    dsimp only at h
    suffices hst : Kept m s t ↔ Stops flt st ∨ (st.cfg = s.config m ∧ Stuck flt s) by
      simpa only [Except.ok.injEq, forall_eq'] using hst
    cases hiface : st.iface with
    | none =>
      rw [hiface] at h
      obtain ⟨-, rfl⟩ := exec_ret.mp h
      exact iff_of_true (.refl hm) (Or.inl (Or.inl hiface))
    | some iface =>
      rw [hiface] at h
      dsimp only at h
      split at h
      · next hmode =>
        obtain ⟨-, rfl⟩ := exec_ret.mp h
        exact iff_of_true (.refl hm) (Or.inl (Or.inr (Or.inl hmode)))
      next hmode =>
      obtain ⟨euid, s1, hop, h1⟩ := exec_op_bind.mp h
      obtain ⟨rfl, rfl⟩ := hR.geteuid _ _ _ hop
      split at h1
      · next heuid =>
        obtain ⟨-, rfl⟩ := exec_ret.mp h1
        exact iff_of_true (.refl hm) (Or.inl (Or.inr (Or.inr (Or.inl heuid))))
      next heuid =>
      obtain ⟨ifindex, s2, hop, h2⟩ := exec_op_bind.mp h1
      obtain ⟨rfl, rfl⟩ := hR.if_nametoindex _ _ _ _ hop
      split at h2
      · next hindex =>
        obtain ⟨-, rfl⟩ := exec_ret.mp h2
        refine iff_of_true (.refl hm) (Or.inl ?_)
        exact Or.inr (Or.inr (Or.inr (Or.inl ⟨iface, hiface, hindex⟩)))
      next hindex =>
      split at h2
      · exact absurd (exec_unload h2) hcode
      · exact kept_of_load hR hm hiface hmode (not_not.mp heuid) hindex h2

/-! ### A busy device -/

/-- The maps of the object. -/
def MAPS : List String := ["allowlist", "blocklist", "portrules", "srcstate", "stats", "config"]

/-- What a load leaves: every map is pinned. -/
def loaded (s : Host) : Host :=
  { s with
    pins := fun name => if name ∈ MAPS then some ((s.pins name).getD (MAPS.idxOf name))
      else s.pins name }

/-- A machine that behaves as documented. -/
def exec (flt : Faults) (s : Host) : (o : Op) → Ans o × Host
  | .geteuid => (flt.euid, s)
  | .if_nametoindex iface => (flt.ifindex iface, s)
  | .setrlimit => (false, s)
  | .mkdir => (flt.mkdir, s)
  | .open_file path => (flt.open_file path, s)
  | .load =>
    if flt.load then (none, s)
    else (some ⟨(s.pins "config").getD 5, (s.pins PROG_NAME).elim 6 (· + 1)⟩, loaded s)
  | .map_update_elem m cfg =>
    (flt.map_update_elem,
      if flt.map_update_elem then s else { s with config := Function.update s.config m cfg })
  | .unlink name => (flt.unlink name || (s.pins name).isNone, unlinked flt s name)
  | .pin prog name => (flt.pin || (s.pins name).isSome, repinned flt s prog name)
  | .attach _ _ mode => (flt.attach mode, s)
  | .detach _ => (false, s)
  | .rmdir => (true, s)

lemma documented (flt : Faults) : Documented flt fun s o b t => exec flt s o = (b, t) where
  geteuid _ _ _ h := by cases h; exact ⟨rfl, rfl⟩
  if_nametoindex _ _ _ _ h := by cases h; exact ⟨rfl, rfl⟩
  setrlimit _ _ _ h := by cases h; rfl
  mkdir _ _ _ h := by cases h; exact ⟨rfl, rfl⟩
  open_file _ _ _ _ h := by cases h; exact ⟨rfl, rfl⟩
  load_failed s t h := by
    unfold exec at h
    dsimp only at h
    split_ifs at h with hload
    · exact ⟨hload, (Prod.mk.inj h).2.symm⟩
    · cases h
  load_done s obj t h := by
    unfold exec at h
    dsimp only at h
    split_ifs at h with hload
    · cases h
    · cases h
      refine ⟨by simpa using hload, fun m hm => ?_, rfl, ?_⟩
      · have hpin : (loaded s).pins "config" = some ((s.pins "config").getD 5) := rfl
        rw [hpin, hm]
        exact ⟨rfl, rfl, rfl⟩
      · cases s.pins PROG_NAME with
        | none => nofun
        | some old => simp
  map_update_elem _ _ _ _ _ h := by cases h; exact ⟨rfl, rfl⟩
  unlink _ _ _ _ h := by cases h; rfl
  pin _ _ _ _ _ h := by cases h; rfl
  attach _ _ _ _ _ _ h := by cases h; exact ⟨rfl, rfl⟩
  detach _ _ _ _ h := by cases h; rfl
  rmdir _ _ _ h := by cases h; rfl

/-- Nothing fails but the steps that a device with another program makes fail. -/
def busy : Faults where
  euid := 0
  ifindex _ := 2
  mkdir := some .EEXIST
  open_file _ := false
  load := false
  map_update_elem := false
  unlink _ := false
  pin := false
  attach _ := true

/-- A firewall that denies by default. -/
def denying : Host where
  pins name := if name ∈ pinned then some (pinned.idxOf name) else none
  config _ := { Kernel.default_config with default_policy := ACTION_DENY }

/-- The verifier rejects the program, and the firewall runs on. -/
theorem kept_iff_rejected :
    ∃ code t, Exec (fun s o b t => exec { busy with load := true } s o = (b, t)) denying
      (main [.i "veth-fw"]) code t ∧ code ≠ 0 ∧ Kept 5 denying t := by
  have hexec := exec_alone (f := exec { busy with load := true }) (main [.i "veth-fw"]) denying
  have hcode : (run (exec { busy with load := true }) (main [.i "veth-fw"]) denying).1 ≠ 0 := by
    decide +kernel
  refine ⟨_, _, hexec, hcode, (kept_iff (documented _) rfl hexec hcode).mpr fun st _ => Or.inl ?_⟩
  exact Or.inr (Or.inr (Or.inr (Or.inr (Or.inr (Or.inr (Or.inl rfl))))))

/-- The device is busy. The load fails, and the firewall that runs allows by default. -/
theorem busy_not_kept :
    ∃ code t, Exec (fun s o b t => exec busy s o = (b, t)) denying (main [.i "veth-fw"]) code t ∧
      code ≠ 0 ∧ ¬ Kept 5 denying t := by
  have hexec := exec_alone (f := exec busy) (main [.i "veth-fw"]) denying
  refine ⟨_, _, hexec, by decide +kernel, fun hkept => ?_⟩
  have hchanged : (run (exec busy) (main [.i "veth-fw"]) denying).2.config 5 ≠
      denying.config 5 := by
    decide +kernel
  exact hchanged hkept.config

end Lookout.Reload

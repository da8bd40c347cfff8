import Lookout.Polls
import Lookout.Control
import Lookout.Traffic

/-!
A source on the allowlist.

As long as some allowlist prefix covers a source, none of its packets comes further than the
allowlist, so its entry in `srcstate` stands still or disappears, and a poll sees no packets
of it. The packets of the others write through references; none of these leads to its entry.
-/

namespace Lookout.Exempt

open Lookout.Effects Lookout.Effects.Prog Lookout.Runs Lookout.Handles Lookout.Lpm
open Lookout.Lpm.Covering Lookout.Dicts Lookout.Common Lookout.Packet Lookout.Limiter
open Lookout.Kernel Lookout.Xdp Lookout.Accounting Lookout.Firewall Lookout.Detect
open Lookout.Policy Lookout.Policy.Blocker Lookout.Control
open Lookout.Polls (lookup_read_states)

variable {n : ℕ}

/-- Some stored prefix covers the source, and the allowlist is on. -/
def Listed (a : Addr) (w : World n) : Prop :=
  (∃ k ∈ w.allowlist, covers k a) ∧ has w.config.features FEAT_ALLOWLIST = true

/-- The answers the programs get meanwhile; `ref` is where the entry of `a` is, if it has one. -/
def Answers (a : Addr) (ref : Option ℕ) : Event calls → Prop
  | ⟨.config_lookup, c⟩ => ∃ cfg, c = some cfg ∧ has cfg.features FEAT_ALLOWLIST = true
  | ⟨.allow_lookup b, e⟩ => b = a → e ≠ none
  | ⟨.state_lookup b, r⟩ => b ≠ a → ∀ st, r = some st → ref ≠ some st
  | _ => True

/-- The operation does not touch the entry of `a`, except to delete it. -/
def Spares (a : Addr) (ref : Option ℕ) : Op → Prop
  | .state_insert b _ => b ≠ a
  | .state_locked st _ => ref ≠ some st
  | _ => True

/-! ### The packets -/

section

variable {a : Addr} {ref : Option ℕ}

lemma under_finish (r : Stat) (v : Verdict) : Under (Answers a ref) (Spares a ref) (finish r v) :=
  ⟨trivial, fun _ _ => trivial⟩

lemma under_locked_stage {p : Pending} {st : ℕ} (h : ref ≠ some st) :
    Under (Answers a ref) (Spares a ref) (locked_stage st p) :=
  ⟨h, fun _ _ => under_finish _ _⟩

lemma under_state_full (p : Pending) :
    Under (Answers a ref) (Spares a ref) (state_full p) :=
  ⟨trivial, fun _ _ => under_finish _ _⟩

/-- A packet of another source does not touch the entry. -/
lemma under_update_state {p : Pending} (hp : p.saddr ≠ a) :
    Under (Answers a ref) (Spares a ref) (update_state p) := by
  unfold update_state
  refine ⟨trivial, fun _ _ => ?_⟩
  simp only [op_eq, call_bind, ret_bind]
  split_ifs
  · refine ⟨trivial, fun st hst => ?_⟩
    cases st with
    | some st => exact under_locked_stage (hst hp st rfl)
    | none =>
      refine ⟨hp, fun failed _ => ?_⟩
      cases failed with
      | true => exact under_state_full p
      | false =>
        refine ⟨trivial, fun st hst => ?_⟩
        cases st with
        | some st => exact under_locked_stage (hst hp st rfl)
        | none => exact under_state_full p
  · exact under_finish _ _

lemma under_allowlist_stage {feat : U32} {b : Addr} {next : Call Verdict}
    (hfeat : has feat FEAT_ALLOWLIST = true)
    (h : b ≠ a → Under (Answers a ref) (Spares a ref) next) :
    Under (Answers a ref) (Spares a ref) (allowlist_stage feat b next) := by
  unfold allowlist_stage
  rw [if_pos hfeat]
  refine ⟨trivial, fun e he => ?_⟩
  cases e with
  | some e => exact ⟨trivial, fun _ _ => under_finish _ _⟩
  | none => exact h fun hb => he hb rfl

lemma under_blocklist_stage {feat : U32} {b : Addr} {now : U64} {next : Call Verdict}
    (h : Under (Answers a ref) (Spares a ref) next) :
    Under (Answers a ref) (Spares a ref) (blocklist_stage feat b now next) := by
  unfold blocklist_stage
  simp only [op_eq, call_bind, ret_bind]
  split_ifs
  · refine ⟨trivial, fun e _ => ?_⟩
    cases e with
    | none => exact h
    | some e =>
      dsimp only
      split_ifs
      · exact ⟨trivial, fun _ _ => under_finish _ _⟩
      · exact h
  · exact h

lemma under_port_stage (feat policy : U32) (proto : Byte) (rule_port : U16) :
    Under (Answers a ref) (Spares a ref) (port_stage feat policy proto rule_port) := by
  unfold port_stage
  split_ifs
  · refine ⟨trivial, fun pv _ => ?_⟩
    cases pv with
    | none => trivial
    | some pv => exact ⟨trivial, fun _ _ => by dsimp only; split_ifs <;> trivial⟩
  · refine ⟨trivial, fun pv _ => ?_⟩
    cases pv with
    | none => trivial
    | some pv => exact ⟨trivial, fun _ _ => by dsimp only; split_ifs <;> trivial⟩
  · trivial

lemma under_verdict_stage (cfg : FwConfig) (ip : IpHdr) (l4 : L4Hdr) :
    Under (Answers a ref) (Spares a ref) (verdict_stage cfg ip l4) := by
  unfold verdict_stage
  split_ifs
  · trivial
  · trivial
  · trivial
  · trivial
  · exact under_port_stage _ _ _ _

/-- **No packet touches the entry**: those of `a` do not come past the allowlist. -/
theorem under_xdp_firewall (f : Frame) :
    Under (Answers a ref) (Spares a ref) (xdp_firewall f) := by
  unfold xdp_firewall
  refine ⟨trivial, fun now _ => ⟨trivial, fun _ _ => ⟨trivial, fun _ _ => ⟨trivial, ?_⟩⟩⟩⟩
  rintro _ ⟨cfg, rfl, hfeat⟩
  change Under (Answers a ref) (Spares a ref) (config_stage f now cfg)
  unfold config_stage
  cases parse_l3 f with
  | malformed => exact under_finish _ _
  | non_ipv4 => exact under_finish _ _
  | ipv4 ip =>
    refine under_allowlist_stage hfeat fun hip => under_blocklist_stage ?_
    unfold l4_stage
    cases parse_l4 f ip with
    | none => exact under_finish _ _
    | some l4 =>
      refine under_bind (under_verdict_stage cfg ip l4) fun r => ?_
      exact under_update_state hip

end

/-! ### A packet of the source itself -/

/-- The operations of a packet that the allowlist passes. -/
def PassOp : Op → Prop
  | .ktime_get_ns | .stat_add .. | .config_lookup | .allow_lookup _ | .allow_hit _ => True
  | _ => False

lemma under_listed {a : Addr} {ref : Option ℕ} {f : Frame} {ip : IpHdr}
    (hip : parse_l3 f = .ipv4 ip) (ha : ip.saddr = a) :
    Under (Answers a ref) PassOp (xdp_firewall f) := by
  unfold xdp_firewall
  refine ⟨trivial, fun now _ => ⟨trivial, fun _ _ => ⟨trivial, fun _ _ => ⟨trivial, ?_⟩⟩⟩⟩
  rintro _ ⟨cfg, rfl, hfeat⟩
  change Under (Answers a ref) PassOp (config_stage f now cfg)
  unfold config_stage allowlist_stage
  rw [hip]
  dsimp only
  rw [if_pos hfeat]
  refine ⟨trivial, fun e he => ?_⟩
  cases e with
  | none => exact absurd rfl (he ha)
  | some e => exact ⟨trivial, fun _ _ => ⟨trivial, fun _ _ => trivial⟩⟩

/-- **The stages after the allowlist do not matter**, nor does the rest of the frame. -/
lemma wp_listed {a : Addr} {ref : Option ℕ} {f : Frame} {ip : IpHdr}
    (hip : parse_l3 f = .ipv4 ip) (ha : ip.saddr = a) :
    wp (books Books.write (Answers a ref)) (xdp_firewall f)
      (fun v t => v = .pass ∧ t.stats .pass_allowlist = 1) .zero := by
  unfold xdp_firewall
  simp only [stat_inc, stat_add, op_eq, call_bind, ret_bind, wp_books_call]
  rintro now - - - - - _ ⟨cfg, rfl, hfeat⟩
  unfold config_stage allowlist_stage
  rw [hip]
  dsimp only
  rw [if_pos hfeat]
  simp only [op_eq, call_bind, ret_bind, wp_books_call]
  rintro (_ | e) he
  · exact absurd rfl (he ha)
  · simp only [finish, stat_inc, stat_add, op_eq, call_bind, wp_books_call]
    rintro - - - -
    exact ⟨rfl, rfl⟩

/-! ### The entry -/

/-- The entry of `a` is the one it was, untouched, or gone; nobody else has its place. -/
structure Kept (a : Addr) (ref : Option ℕ) (cell : Option SrcState) (w : World n) : Prop where
  find : w.srcstate.find a = ref ∨ w.srcstate.find a = none
  lt : ∀ r, ref = some r → r < w.srcstate.heap.length
  mine : ∀ r, ref = some r → ∀ b, w.srcstate.find b = some r → b = a
  deref : ∀ r, ref = some r → w.srcstate.deref r = cell

/-- The entry that stands at the start. -/
lemma kept_start (a : Addr) (w : World n) :
    Kept a (w.srcstate.find a) (w.srcstate.get a) w where
  find := Or.inl rfl
  lt _ h := w.srcstate.lt h
  mine _ h _ hb := w.srcstate.inj hb h
  deref _ h := (RefMap.get_eq h).symm

lemma kept_congr {a : Addr} {ref : Option ℕ} {cell : Option SrcState} {w w' : World n}
    (hs : w'.srcstate = w.srcstate) (h : Kept a ref cell w) : Kept a ref cell w' :=
  ⟨hs ▸ h.find, hs ▸ h.lt, hs ▸ h.mine, hs ▸ h.deref⟩

/-- An entry for another source. -/
lemma kept_insert {a b : Addr} {ref : Option ℕ} {cell : Option SrcState} {w : World n}
    (st : SrcState) (hab : a ≠ b) (h : Kept a ref cell w) :
    Kept a ref cell { w with srcstate := w.srcstate.insert b st } where
  find := by
    rw [RefMap.find_insert_ne _ _ hab]
    exact h.find
  lt r hr := by
    have hlen := h.lt r hr
    simp only [RefMap.insert, List.length_append, List.length_singleton]
    omega
  mine r hr b' hb' := by
    have hlen := h.lt r hr
    by_cases hbb : b' = b
    · subst hbb
      rw [RefMap.find_insert] at hb'
      cases hb'
      omega
    · rw [RefMap.find_insert_ne _ _ hbb] at hb'
      exact h.mine r hr b' hb'
  deref r hr := (RefMap.deref_insert _ _ _ (h.lt r hr)).trans (h.deref r hr)

/-- A write through another reference. -/
lemma kept_set {a : Addr} {ref : Option ℕ} {cell : Option SrcState} {w : World n} {r' : ℕ}
    (st : SrcState) (hr' : ref ≠ some r') (h : Kept a ref cell w) :
    Kept a ref cell { w with srcstate := w.srcstate.set r' st } where
  find := h.find
  lt r hr := (h.lt r hr).trans_eq (List.length_set ..).symm
  mine := h.mine
  deref r hr := by
    have hne : r' ≠ r := by
      rintro rfl
      exact hr' hr
    exact (RefMap.deref_set_ne _ _ hne).trans (h.deref r hr)

lemma find_erase_none {a b : Addr} {m : RefMap Addr SrcState} (h : m.find a = none) :
    (m.erase b).find a = none := by
  cases hf : (m.erase b).find a with
  | none => rfl
  | some r =>
    rw [RefMap.find_of_erase hf] at h
    cases h

/-- A deletion, of this source's entry or of another one. -/
lemma kept_erase {a b : Addr} {ref : Option ℕ} {cell : Option SrcState} {w : World n}
    (h : Kept a ref cell w) : Kept a ref cell { w with srcstate := w.srcstate.erase b } where
  find := by
    cases hf : (w.srcstate.erase b).find a with
    | none => exact Or.inr rfl
    | some r =>
      left
      rcases h.find with h1 | h1
      · rw [← h1, RefMap.find_of_erase hf]
      · rw [find_erase_none h1] at hf
        cases hf
  lt := h.lt
  mine r hr b' hb' := h.mine r hr b' (RefMap.find_of_erase hb')
  deref := h.deref

/-- **An operation that spares the entry** keeps it or deletes it. -/
lemma kept_exec (cpu : Fin n) {a : Addr} {ref : Option ℕ} {cell : Option SrcState} {w : World n}
    {o : Op} (ho : Spares a ref o) (h : Kept a ref cell w) :
    Kept a ref cell (exec cpu w o).2 ∧
      (w.srcstate.find a = none → (exec cpu w o).2.srcstate.find a = none) := by
  cases o with
  | state_insert b st =>
    have hab : a ≠ b := fun hab => ho hab.symm
    simp only [exec, insert_noexist]
    split_ifs
    · exact ⟨h, id⟩
    · exact ⟨kept_insert st hab h, (RefMap.find_insert_ne _ _ hab).trans⟩
  | state_locked r' p =>
    simp only [exec, update_locked]
    split
    · exact ⟨h, id⟩
    · exact ⟨kept_set _ ho h, id⟩
  | state_delete b => exact ⟨kept_erase h, find_erase_none⟩
  | _ => exact ⟨kept_congr (w := w) rfl h, id⟩

lemma answers_exec {a : Addr} {ref : Option ℕ} {cell : Option SrcState} {cpu : Fin n}
    {w w' : World n} {o : Op} {b : Ans o} (hl : Listed a w) (h : Kept a ref cell w)
    (hx : exec cpu w o = (b, w')) : Answers a ref ⟨o, b⟩ := by
  cases o with
  | config_lookup =>
    cases hx
    exact ⟨w.config, rfl, hl.2⟩
  | allow_lookup b' =>
    cases hx
    rintro rfl hnone
    obtain ⟨⟨k, hk, hc⟩, -⟩ := hl
    exact find_none.mp hnone k hk hc
  | state_lookup b' =>
    cases hx
    intro hne st hst hr
    exact hne (h.mine st hr b' hst)
  | _ => trivial

/-! ### Packets and tools -/

/-- The system calls of the tools. -/
def SysCall : Op → Prop
  | .ktime_get_ns | .config_lookup | .allow_lookup _ | .block_lookup _ | .time | .strftime
  | .stat_sum _ | .config_update _ | .allow_update .. | .allow_delete _ | .block_update ..
  | .block_delete _ | .block_items | .state_items | .state_delete _ => True
  | _ => False

lemma spares_of_sysCall {a : Addr} {ref : Option ℕ} {o : Op} (h : SysCall o) :
    Spares a ref o := by
  cases o <;> trivial

/-- The controller is one of the tools. -/
theorem uses_step (c : Controller) : Uses SysCall (step c) := by
  have hread : ∀ o, ReadOp o → SysCall o := by intro o h; cases o <;> trivial
  have hupdate : ∀ o, UpdateOp o → SysCall o := by intro o h; cases o <;> trivial
  have hclean : ∀ o, CleanUpOp o → SysCall o := by intro o h; cases o <;> trivial
  have hktime : Uses SysCall ktime_ns := uses_ktime_ns trivial
  have hconfig : ∀ ch, Uses SysCall (update_config ch) := by
    intro ch
    rw [update_config_eq]
    refine ⟨trivial, fun c => ?_⟩
    cases c with
    | none => trivial
    | some c =>
      unfold after_read
      dsimp only
      split_ifs
      · exact ⟨trivial, fun _ => trivial⟩
      · trivial
  have hnote : ∀ (b : Blocker) msg, Uses SysCall (b.note msg) :=
    fun b msg => (uses_note b msg).mono hupdate
  have htune : ∀ c : Controller, Uses SysCall (tune c) := by
    intro c
    unfold tune
    split
    · trivial
    · split
      · trivial
      · trivial
      · dsimp only
        split
        · exact Exc.uses_bind (hconfig _) fun _ =>
            Exc.uses_bind (Exc.uses_lift (hnote _ _)) fun _ => Exc.uses_pure _ _
        · exact Exc.uses_bind (Exc.uses_lift (hnote _ _)) fun _ => Exc.uses_pure _ _
  have hsweep : ∀ c : Controller, Uses SysCall (clean_up c) := by
    intro c
    unfold clean_up
    split
    · exact uses_bind (uses_remove_expired_blocks.mono hclean) fun _ =>
        uses_bind (uses_remove_idle_states.mono hclean) fun _ => trivial
    · trivial
  have hact : ∀ (c : Controller) vs st now, Uses SysCall (act c vs st now) := fun c vs st now =>
    Exc.uses_bind (Exc.uses_rethrow ((uses_update _ _).mono hupdate)) fun _ =>
      Exc.uses_bind (htune _) fun _ => Exc.uses_lift (hsweep _)
  unfold step
  exact Exc.uses_bind (Exc.uses_lift (uses_read_stats.mono hread)) fun _ =>
    Exc.uses_bind (Exc.uses_lift (uses_bind hktime fun _ => trivial)) fun _ =>
      Exc.uses_bind (Exc.uses_lift (uses_read_states trivial)) fun _ =>
        Exc.uses_bind (Exc.uses_lift hktime) fun _ =>
          Exc.uses_bind (hact _ _ _ _) fun _ => Exc.uses_pure _ _

variable {ι κ : Type} [DecidableEq ι] [DecidableEq κ]

/-- The packets, and programs of system calls. -/
def programs (frames : ι → Frame) (tools : κ → Call (Option Verdict)) :
    ι ⊕ κ → Call (Option Verdict)
  | .inl i => do
    let v ← xdp_firewall (frames i)
    return some v
  | .inr j => tools j

/-- Between two operations anything else may change: the clocks, the port rules, the counters. -/
def Elsewhere (w w' : World n) : Prop :=
  w'.allowlist = w.allowlist ∧ w'.config = w.config ∧ w'.srcstate = w.srcstate

variable {cpu : ι ⊕ κ → Fin n} {frames : ι → Frame} {tools : κ → Call (Option Verdict)}
  {a : Addr} {c c' : Pool calls (World n) (Option Verdict) (ι ⊕ κ)}
  {tr : Turns calls (World n) (Option Verdict) (ι ⊕ κ)}

/-- **While the source is listed**, its entry is kept or deleted, and the programs go on
sparing it. -/
lemma kept_of_path {ref : Option ℕ} {cell : Option SrcState} {P : Prop}
    (h : Path (turn fun i => kernel Elsewhere (cpu i)) c tr c')
    (hl : ∀ x ∈ tr, Listed a x.pre.1) (hk : Kept a ref cell c.1)
    (hgone : P → c.1.srcstate.find a = none)
    (hp : ∀ i, (c.2 i).Under (Answers a ref) (Spares a ref)) :
    (Kept a ref cell c'.1 ∧ (P → c'.1.srcstate.find a = none)) ∧
      (∀ i, (c'.2 i).Under (Answers a ref) (Spares a ref)) ∧
      ∀ x ∈ tr, Answers a ref x.ev.2 := by
  have hrely := rely (I := fun w => Kept a ref cell w ∧ (P → w.srcstate.find a = none)) h
    (A := Answers a ref) (G := Spares a ref) ?_ ⟨hk, hgone⟩ hp
  · obtain ⟨h1, h2, h3⟩ := hrely
    exact ⟨h1, h2, fun x hx => (h3 x hx).1⟩
  · rintro x hx b t ⟨hk, hgone⟩ hspares ⟨w1, ⟨hallow, hconfig, hsrc⟩, hexec⟩
    have hl1 : Listed a w1 := by
      have := hl x hx
      rwa [Listed, ← hallow, ← hconfig] at this
    have hk1 : Kept a ref cell w1 := kept_congr hsrc hk
    obtain ⟨hkt, hnone⟩ := kept_exec (cpu x.ev.1) hspares hk1
    rw [hexec] at hkt hnone
    refine ⟨answers_exec hl1 hk1 hexec, hkt, fun hg => hnone ?_⟩
    rw [hsrc]
    exact hgone hg

/-- The operation changes none of the three maps. -/
def Untouched (o : Op) : Prop :=
  ∀ (n : ℕ) (k : Fin n) (w : World n), (exec k w o).2.srcstate = w.srcstate ∧
    (exec k w o).2.blocklist = w.blocklist ∧ (exec k w o).2.portrules = w.portrules

lemma untouched_of_passOp {o : Op} (h : PassOp o) : Untouched o := by
  intro n k w
  cases o <;> first | exact absurd h id | exact ⟨rfl, rfl, rfl⟩

/-- An entry that has not moved has no row. -/
lemma no_row {old cur : Option SrcState} (h : cur = none ∨ old = cur) {st : SrcState}
    (hcur : cur = some st) (secs : ℚ) : measurements old st secs = none := by
  rcases h with h | h
  · rw [h] at hcur
    cases hcur
  · subst h
    subst hcur
    simp [measurements, delta, baseline, counters, Delta.sub]

lemma no_row_of_kept {k k' : Fin n} {m : World n} {w : World n} {ref : Option ℕ}
    {cell : Option SrcState} (hm : Kept a ref cell m) (hw : Kept a ref cell w)
    (hgone : m.srcstate.find a = none → w.srcstate.find a = none) (t0 t1 : ℕ) :
    (Window.update ⟨some ((run (exec k) read_states m).1, t0)⟩
      (run (exec k') read_states w).1 t1).1.lookup a = none := by
  have hsame : w.srcstate.get a = none ∨ m.srcstate.get a = w.srcstate.get a := by
    rcases hw.find with h1 | h1
    · rcases hm.find with h2 | h2
      · cases ref with
        | none => exact Or.inl (RefMap.get_eq_none.mpr h1)
        | some r =>
          right
          rw [RefMap.get_eq h1, RefMap.get_eq h2, hm.deref r rfl, hw.deref r rfl]
      · exact Or.inl (RefMap.get_eq_none.mpr (hgone h2))
    · exact Or.inl (RefMap.get_eq_none.mpr h1)
  unfold Window.update
  dsimp only
  split_ifs
  · rfl
  · rw [Dict.lookup_filterMap, lookup_read_states, lookup_read_states]
    cases hcur : w.srcstate.get a with
    | none => rfl
    | some st =>
      rw [hcur] at hsame
      exact no_row hsame rfl _

omit [DecidableEq ι] [DecidableEq κ] in
lemma under_programs (a : Addr) (ref : Option ℕ) (frames : ι → Frame)
    {tools : κ → Call (Option Verdict)} (htools : ∀ j, Uses SysCall (tools j)) (i : ι ⊕ κ) :
    (programs frames tools i).Under (Answers a ref) (Spares a ref) := by
  cases i with
  | inl i => exact under_bind (under_xdp_firewall (frames i)) fun _ => trivial
  | inr j => exact ((htools j).mono fun _ => spares_of_sysCall).under

variable {w : World n}

/-- The packets of a listed source. -/
lemma exempt_packet (htools : ∀ j, Uses SysCall (tools j))
    (h : Path (turn fun i => kernel Elsewhere (cpu i)) (w, programs frames tools) tr c')
    (hl : ∀ x ∈ tr, Listed a x.pre.1) {i : ι} {ip : IpHdr} (hip : parse_l3 (frames i) = .ipv4 ip)
    (ha : ip.saddr = a) :
    (∀ v, c'.2 (.inl i) = .ret (some v) →
      v = .pass ∧ (written (own (.inl i) tr)).stats .pass_allowlist = 1) ∧
    ∀ e ∈ own (.inl i) tr, Untouched e.1 := by
  obtain ⟨-, -, hans⟩ := kept_of_path (P := False) h hl (kept_start a w) nofun
    (under_programs a _ frames htools)
  have hall : ∀ e ∈ own (.inl i) tr, Answers a (w.srcstate.find a) e := by
    intro e he
    obtain ⟨x, hx, hxe⟩ := mem_own.mp he
    have := hans x hx
    rwa [hxe] at this
  have htrace := own_trace h (.inl i)
  constructor
  · intro v hv
    rw [hv] at htrace
    have hwp : wp (books Books.write (Answers a (w.srcstate.find a)))
        (programs frames tools (.inl i)) (fun r t => ∀ v, r = some v →
          v = .pass ∧ t.stats .pass_allowlist = 1) .zero := by
      refine (wp_bind _ _ _ _).mpr (wp_mono (wp_listed hip ha) ?_)
      rintro v t ⟨hv, ht⟩ v' heq
      cases heq
      exact ⟨hv, ht⟩
    exact htrace.wp hall hwp v rfl
  · have hunder : (programs frames tools (.inl i)).Under (Answers a (w.srcstate.find a)) PassOp :=
      under_bind (under_listed hip ha) fun _ => trivial
    exact fun e he => untouched_of_passOp (htrace.under hunder hall e he)

/-- The polls of a listed source. -/
lemma exempt_row {tr1 tr2 : Turns calls (World n) (Option Verdict) (ι ⊕ κ)}
    {m : Pool calls (World n) (Option Verdict) (ι ⊕ κ)} (htools : ∀ j, Uses SysCall (tools j))
    (h1 : Path (turn fun i => kernel Elsewhere (cpu i)) (w, programs frames tools) tr1 m)
    (h2 : Path (turn fun i => kernel Elsewhere (cpu i)) m tr2 c')
    (hl1 : ∀ x ∈ tr1, Listed a x.pre.1) (hl2 : ∀ x ∈ tr2, Listed a x.pre.1) (k k' : Fin n)
    (t0 t1 : ℕ) :
    (Window.update ⟨some ((run (exec k) read_states m.1).1, t0)⟩
      (run (exec k') read_states c'.1).1 t1).1.lookup a = none := by
  obtain ⟨⟨hm, -⟩, hp, -⟩ := kept_of_path (P := False) h1 hl1 (kept_start a w) nofun
    (under_programs a _ frames htools)
  obtain ⟨⟨hw, hgone⟩, -, -⟩ := kept_of_path h2 hl2 hm id hp
  exact no_row_of_kept hm hw hgone t0 t1

/-- **A listed source is exempt.** Its packets are passed and counted as such, they touch
neither `srcstate` nor the blocklist nor the port rules, and between two polls no row of it
comes up, so there is nothing of it to judge. -/
theorem exempt (a : Addr) (frames : ι → Frame) (tools : κ → Call (Option Verdict))
    (htools : ∀ j, Uses SysCall (tools j)) (w : World n)
    (c' : Pool calls (World n) (Option Verdict) (ι ⊕ κ))
    (tr : Turns calls (World n) (Option Verdict) (ι ⊕ κ))
    (h : Path (turn fun i => kernel Elsewhere (cpu i)) (w, programs frames tools) tr c')
    (hl : ∀ x ∈ tr, Listed a x.pre.1) :
    (∀ i ip, parse_l3 (frames i) = .ipv4 ip → ip.saddr = a →
      (∀ v, c'.2 (.inl i) = .ret (some v) →
        v = .pass ∧ (written (own (.inl i) tr)).stats .pass_allowlist = 1) ∧
      ∀ e ∈ own (.inl i) tr, Untouched e.1) ∧
    ∀ tr1 tr2 m, tr = tr1 ++ tr2 →
      Path (turn fun i => kernel Elsewhere (cpu i)) (w, programs frames tools) tr1 m →
      Path (turn fun i => kernel Elsewhere (cpu i)) m tr2 c' → ∀ (k k' : Fin n) (t0 t1 : ℕ),
        let rows := (Window.update ⟨some ((run (exec k) read_states m.1).1, t0)⟩
          (run (exec k') read_states c'.1).1 t1).1
        rows.lookup a = none ∧
          (rows.filterMap fun _ r => some (classify r)).lookup a = none := by
  refine ⟨fun i ip hip ha => exempt_packet htools h hl hip ha, ?_⟩
  rintro tr1 tr2 m rfl h1 h2 k k' t0 t1 rows
  have hl1 : ∀ x ∈ tr1, Listed a x.pre.1 := fun x hx => hl x (List.mem_append_left _ hx)
  have hl2 : ∀ x ∈ tr2, Listed a x.pre.1 := fun x hx => hl x (List.mem_append_right _ hx)
  have hrow : rows.lookup a = none := exempt_row htools h1 h2 hl1 hl2 k k' t0 t1
  refine ⟨hrow, ?_⟩
  rw [Dict.lookup_filterMap, hrow]
  rfl

lemma listed_iff (a : Addr) (w : World n) :
    Listed a w ↔ (find w.allowlist a).isSome ∧ has w.config.features FEAT_ALLOWLIST = true := by
  refine and_congr_left fun _ => ?_
  rw [← not_iff_not, Option.not_isSome_iff_eq_none, find_none]
  simp only [not_exists, not_and]

/-- A source that is blocked for good, and listed. -/
def listed_and_blocked : World 1 :=
  { World.loaded 1 with
    allowlist := AList.insert (.net 0 8 (by decide)) ⟨0, 0⟩ ∅
    blocklist := AList.insert (.single 7) ⟨0, 0, BLOCK_MANUAL⟩ ∅ }

/-- Its packet, and the cleanup of the entries. -/
def listed_run : Turns calls (World 1) (Option Verdict) (Unit ⊕ Unit) ×
    Pool calls (World 1) (Option Verdict) (Unit ⊕ Unit) :=
  play (fun _ => exec 0) (List.replicate 7 [.inl (), .inr ()]).flatten
    (listed_and_blocked, programs (fun _ => header_from 7) fun _ => do
      let _ ← remove_idle_states
      return none)

theorem exempt_though_blocked :
    (written (own (.inl ()) listed_run.1)).stats .pass_allowlist = 1 := by
  have hE : ∀ w : World 1, Elsewhere w w := fun _ => ⟨rfl, rfl, rfl⟩
  have hpath : Path (turn fun _ => kernel Elsewhere 0)
      (listed_and_blocked, programs (fun _ : Unit => header_from 7) fun _ : Unit => do
        let _ ← remove_idle_states
        return none) listed_run.1 listed_run.2 := path_play hE _ _ _
  have htools : ∀ _ : Unit, Uses SysCall (do
      let _ ← remove_idle_states
      return none : Call (Option Verdict)) := by
    intro _
    have hclean : ∀ o, CleanUpOp o → SysCall o := by intro o h; cases o <;> trivial
    exact uses_bind (uses_remove_idle_states.mono hclean) fun _ => trivial
  have hl : ∀ x ∈ listed_run.1, Listed 7 x.pre.1 := by
    simp only [listed_iff]
    decide +kernel
  have hdone : (listed_run.2.2 (.inl ())).result = some (some .pass) := by decide +kernel
  have hip : parse_l3 (header_from 7) = .ipv4 ⟨34, 7, 253, 0⟩ := by decide +kernel
  exact (((exempt 7 _ _ htools _ _ _ hpath hl).1 () _ hip rfl).1 .pass
    (result_eq_some.mp hdone)).2

end Lookout.Exempt

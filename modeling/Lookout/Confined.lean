import Lookout.Atomic
import Lookout.Exempt
import Lookout.Fwctl
import Lookout.Preview
import Lookout.Reset

/-!
A source with a block of its own.

Until the deadline its packets come no further than the blocklist, so its entry in `srcstate`
stands still and no poll sees packets of it. Controllers may block the source anew, delete blocks
that have run out and change the settings: none of this lifts the block or shortens it to less
than the shortest block a controller issues.
-/

namespace Lookout.Confined

open Lookout.Effects Lookout.Effects.Prog Lookout.Runs Lookout.Dicts Lookout.Lpm
open Lookout.Lpm.Covering Lookout.Handles Lookout.Common Lookout.Packet Lookout.Limiter
open Lookout.Kernel Lookout.Xdp Lookout.Accounting Lookout.Firewall Lookout.Fwctl Lookout.Detect
open Lookout.Policy Lookout.Control Lookout.Preview Lookout.Counting

variable {n : ℕ}

/-- The block is in force until `d` at least. -/
def Lasts (d : ℕ) (bv : BlockVal) : Prop := bv.expires_ns = 0 ∨ d ≤ bv.expires_ns.toNat

/-- The blocklist is on, `a` has a block of its own until `d`, and is not on the allowlist. -/
structure Barred (a : Addr) (d : ℕ) (w : World n) : Prop where
  block : ∃ bv, w.blocklist.lookup (.single a) = some bv ∧ Lasts d bv
  allowlist : ∀ k ∈ w.allowlist, ¬ covers k a
  feature : has w.config.features FEAT_BLOCKLIST = true

/-- The answers the programs get between `t` and `d`; `ref` is where the entry of `a` is, if it
has one. -/
def Answers (a : Addr) (ref : Option ℕ) (t d : ℕ) : Event calls → Prop
  | ⟨.ktime_get_ns, now⟩ => t ≤ now.toNat ∧ now.toNat < d
  | ⟨.config_lookup, c⟩ => ∃ cfg, c = some cfg ∧ has cfg.features FEAT_BLOCKLIST = true
  | ⟨.allow_lookup b, e⟩ => b = a → e = none
  | ⟨.block_lookup b, e⟩ => b = a → ∃ k bv, e = some (k, bv) ∧ Lasts d bv
  | ⟨.block_items, l⟩ => ∀ bv, (.single a, bv) ∈ l → Lasts d bv
  | ⟨.state_lookup b, r⟩ => b ≠ a → ∀ st, r = some st → ref ≠ some st
  | _ => True

/-- The operation leaves the block, what it stands on and the entry of `a` alone. -/
def Leaves (a : Addr) (ref : Option ℕ) (d : ℕ) : Op → Prop
  | .state_insert b _ => b ≠ a
  | .state_locked st _ => ref ≠ some st
  | .config_update cfg => has cfg.features FEAT_BLOCKLIST = true
  | .allow_update k _ => ¬ covers k a
  | .block_update k bv => k = .single a → Lasts d bv
  | .block_delete k => k ≠ .single a
  | _ => True

variable {a : Addr} {ref : Option ℕ} {t d : ℕ}

lemma spares_of_leaves {o : Op} (h : Leaves a ref d o) : Exempt.Spares a ref o := by
  cases o with
  | state_insert b st => exact h
  | state_locked st p => exact h
  | _ => trivial

lemma active_of_lasts {bv : BlockVal} {now : U64} (h : Lasts d bv) (hnow : now.toNat < d) :
    active bv now = true := by
  rcases h with h | h
  · exact decide_eq_true (Or.inl h)
  · exact decide_eq_true (Or.inr (BitVec.lt_def.mpr (lt_of_lt_of_le hnow h)))

lemma not_expired_of_lasts {bv : BlockVal} {now : ℕ} (h : Lasts d bv) (hnow : now < d) :
    expired now bv = false := by
  unfold expired
  rcases h with h | h
  · rw [h]
    rfl
  · exact decide_eq_false (by omega)

/-! ### The packets -/

/-- The operations of a packet that the blocklist drops. -/
def DropOp : Op → Prop
  | .ktime_get_ns | .stat_add .. | .config_lookup | .allow_lookup _ | .block_lookup _
  | .block_hit _ => True
  | _ => False

/-- A packet of `a` comes no further than the blocklist. -/
lemma under_barred {f : Frame} (hf : SentBy a f) :
    Under (Answers a ref t d) DropOp (xdp_firewall f) := by
  obtain ⟨ip, hip, ha⟩ := hf
  unfold xdp_firewall
  refine ⟨trivial, fun now hnow => ⟨trivial, fun _ _ => ⟨trivial, fun _ _ => ⟨trivial, ?_⟩⟩⟩⟩
  rintro _ ⟨cfg, rfl, hfeat⟩
  have hblock : Under (Answers a ref t d) DropOp
      (blocklist_stage cfg.features ip.saddr now (l4_stage f now cfg ip)) := by
    unfold blocklist_stage
    rw [if_pos hfeat]
    simp only [op_eq, call_bind, ret_bind]
    refine ⟨trivial, fun e he => ?_⟩
    obtain ⟨k, bv, rfl, hbv⟩ := he ha
    simp only [active_of_lasts hbv hnow.2, if_true]
    exact ⟨trivial, fun _ _ => ⟨trivial, fun _ _ => trivial⟩⟩
  change Under (Answers a ref t d) DropOp (config_stage f now cfg)
  unfold config_stage allowlist_stage
  rw [hip]
  dsimp only
  split_ifs
  · refine ⟨trivial, fun e he => ?_⟩
    rw [he ha]
    exact hblock
  · exact hblock

lemma leaves_of_dropOp {o : Op} (h : DropOp o) : Leaves a ref d o := by
  cases o <;> trivial

/-- What a packet does before the lock leaves the block alone. -/
lemma free_leaves : Atomic.Free (Leaves a ref d) := by
  rintro o ⟨ho, -⟩ hm
  cases ho with
  | state_locked st p => cases hm
  | _ => trivial

/-- **No packet touches the block**, nor the entry of `a`. -/
theorem under_xdp_firewall (f : Frame) :
    Under (Answers a ref t d) (Leaves a ref d) (xdp_firewall f) := by
  by_cases hf : SentBy a f
  · exact (under_barred hf).mono fun _ => leaves_of_dropOp
  · unfold xdp_firewall
    refine ⟨trivial, fun now _ => ⟨trivial, fun _ _ => ⟨trivial, fun _ _ => ⟨trivial, ?_⟩⟩⟩⟩
    rintro _ ⟨cfg, rfl, -⟩
    refine Atomic.under_config_stage free_leaves now fun _ ip hip => ?_
    have hne : ip.saddr ≠ a := fun ha => hf ⟨ip, hip, ha⟩
    exact ⟨fun _ _ => hne, fun st hst _ => hst hne st rfl⟩

/-- **A packet of `a` is dropped**, and counted as blocked. -/
theorem wp_barred {f : Frame} (hf : SentBy a f) :
    wp (books Books.write (Answers a ref t d)) (xdp_firewall f)
      (fun v b => v = .drop ∧ b.stats .drop_blocklist = 1) .zero := by
  obtain ⟨ip, hip, ha⟩ := hf
  unfold xdp_firewall
  simp only [stat_inc, stat_add, op_eq, call_bind, ret_bind, wp_books_call]
  rintro now hnow - - - - _ ⟨cfg, rfl, hfeat⟩
  have hblock : ∀ b : Books, b.stats .drop_blocklist = 0 →
      wp (books Books.write (Answers a ref t d))
        (blocklist_stage cfg.features ip.saddr now (l4_stage f now cfg ip))
        (fun v b => v = .drop ∧ b.stats .drop_blocklist = 1) b := by
    intro b hb
    unfold blocklist_stage
    rw [if_pos hfeat]
    simp only [op_eq, call_bind, ret_bind, wp_books_call]
    intro e he
    obtain ⟨k, bv, rfl, hbv⟩ := he ha
    simp only [active_of_lasts hbv hnow.2, if_true, finish, stat_inc, stat_add, op_eq, call_bind,
      ret_bind, wp_books_call]
    rintro - - - -
    refine ⟨rfl, ?_⟩
    rw [write_stats, write_stats, write_stats, hb]
    rfl
  unfold config_stage allowlist_stage
  rw [hip]
  dsimp only
  split_ifs
  · simp only [op_eq, call_bind, ret_bind, wp_books_call]
    intro e he
    rw [he ha]
    exact hblock _ rfl
  · exact hblock _ rfl

/-! ### The maps -/

lemma block_update_keeps {m : Store LpmKey BlockVal} {k : LpmKey} {bv : BlockVal}
    (h : ∃ bv, m.lookup (.single a) = some bv ∧ Lasts d bv) (hk : k = .single a → Lasts d bv) :
    ∃ bv', (Kernel.update MAX_BLOCKLIST m k bv).2.lookup (.single a) = some bv' ∧
      Lasts d bv' := by
  unfold Kernel.update
  split_ifs
  · by_cases heq : k = .single a
    · subst heq
      exact ⟨bv, AList.lookup_insert m, hk rfl⟩
    · rw [AList.lookup_insert_ne (Ne.symm heq)]
      exact h
  · exact h

/-- **An operation that leaves the block alone** keeps the source barred. -/
lemma barred_exec (cpu : Fin n) {w : World n} {o : Op} (ho : Leaves a ref d o)
    (h : Barred a d w) : Barred a d (exec cpu w o).2 := by
  obtain ⟨hblock, hallow, hfeat⟩ := h
  cases o with
  | allow_hit k =>
    have hflags : ∀ v : AllowVal, ({ v with hits := v.hits + 1 } : AllowVal).flags = v.flags :=
      fun _ => rfl
    have halike := alike_modify hflags w.allowlist k
    exact ⟨hblock, fun k' hk' => hallow k' (halike.mem_iff.mp hk'), hfeat⟩
  | block_hit k =>
    refine ⟨?_, hallow, hfeat⟩
    obtain ⟨bv, hbv, hlasts⟩ := hblock
    change ∃ bv, (modify w.blocklist k fun v => { v with hits := v.hits + 1 }).lookup (.single a) =
      some bv ∧ Lasts d bv
    rw [lookup_modify]
    split_ifs with hk
    · exact ⟨{ bv with hits := bv.hits + 1 }, by rw [← hk, hbv]; rfl, hlasts⟩
    · exact ⟨bv, hbv, hlasts⟩
  | config_update cfg => exact ⟨hblock, hallow, ho⟩
  | allow_update k v =>
    refine ⟨hblock, fun k' hk' => ?_, hfeat⟩
    have hor : k' = k ∨ k' ∈ w.allowlist := by
      change k' ∈ (Kernel.update MAX_ALLOWLIST w.allowlist k v).2 at hk'
      unfold Kernel.update at hk'
      split_ifs at hk'
      · exact (AList.mem_insert w.allowlist).mp hk'
      · exact Or.inr hk'
    rcases hor with rfl | hmem
    · exact ho
    · exact hallow k' hmem
  | allow_delete k =>
    exact ⟨hblock, fun k' hk' => hallow k' ((AList.mem_erase).mp hk').2, hfeat⟩
  | block_update k bv => exact ⟨block_update_keeps hblock ho, hallow, hfeat⟩
  | block_delete k =>
    refine ⟨?_, hallow, hfeat⟩
    change ∃ bv, (w.blocklist.erase k).lookup (.single a) = some bv ∧ Lasts d bv
    rw [AList.lookup_erase_ne (Ne.symm ho)]
    exact hblock
  | _ => exact ⟨hblock, hallow, hfeat⟩

lemma answers_exec {cpu : Fin n} {w w' : World n} {o : Op} {b : Ans o} {cell : Option SrcState}
    (hb : Barred a d w) (hk : Exempt.Kept a ref cell w) (hclock : t ≤ w.clock.toNat)
    (hd : w.clock.toNat < d) (hx : exec cpu w o = (b, w')) : Answers a ref t d ⟨o, b⟩ := by
  obtain ⟨⟨bv, hbv, hlasts⟩, hallow, hfeat⟩ := hb
  cases o with
  | ktime_get_ns =>
    cases hx
    exact ⟨hclock, hd⟩
  | config_lookup =>
    cases hx
    exact ⟨w.config, rfl, hfeat⟩
  | allow_lookup b' =>
    cases hx
    rintro rfl
    exact find_none.mpr hallow
  | block_lookup b' =>
    cases hx
    rintro rfl
    have hc : covers (LpmKey.single b') b' := (covers_single b' b').mpr rfl
    exact ⟨_, bv, find_some.mpr ⟨hbv, hc, longest_single _ _⟩, hlasts⟩
  | block_items =>
    cases hx
    intro bv' hbv'
    rw [Dict.mem_items, hbv] at hbv'
    cases hbv'
    exact hlasts
  | state_lookup b' =>
    cases hx
    intro hne st hst hr
    exact hne (hk.mine st hr b' hst)
  | _ => trivial

/-! ### The system calls of the tools -/

/-- The operations of a tool that cannot matter to the block. -/
def Mild : Op → Prop
  | .ktime_get_ns | .config_lookup | .allow_lookup _ | .block_lookup _ | .time | .strftime
  | .stat_sum _ | .allow_delete _ | .block_items | .port_update .. | .port_delete _ | .port_items
  | .state_items | .state_delete _ => True
  | _ => False

lemma leaves_of_mild {o : Op} (h : Mild o) : Leaves a ref d o := by
  cases o <;> trivial

lemma under_mild {α : Type} {p : Call α} (h : Uses Mild p) :
    Under (Answers a ref t d) (Leaves a ref d) p :=
  (h.mono fun _ => leaves_of_mild).under

lemma under_put_block {k : LpmKey} {bv : BlockVal} (h : k = .single a → Lasts d bv) :
    Under (Answers a ref t d) (Leaves a ref d) (put_block k bv) :=
  Exc.under_bind (Exc.under_lift ⟨h, fun _ _ => trivial⟩) fun failed =>
    (uses_updated _ _ failed).under

/-- A deadline that fits is not too early. -/
lemma under_store {k : LpmKey} (reason : U32) {expires : ℕ}
    (h : k = .single a → expires = 0 ∨ d ≤ expires) :
    Under (Answers a ref t d) (Leaves a ref d) (store k reason expires) := by
  by_cases hfits : expires < 2 ^ 64
  · rw [store_fits k reason hfits]
    refine under_put_block fun hk => ?_
    unfold Lasts
    dsimp only
    rw [BitVec.toNat_ofNat, Nat.mod_eq_of_lt hfits]
    rcases h hk with hzero | hd
    · left
      rw [hzero]
      rfl
    · exact Or.inr hd
  · rw [store_not_fits k reason hfits]
    trivial

lemma under_clock {β : Type} {f : U64 → Call β}
    (h : ∀ now : U64, t ≤ now.toNat → Under (Answers a ref t d) (Leaves a ref d) (f now)) :
    Under (Answers a ref t d) (Leaves a ref d) (Prog.call Op.ktime_get_ns f) :=
  ⟨trivial, fun now hnow => h now hnow.1⟩

/-- **A new block of the source** is no shorter than the time that is left. -/
lemma under_block {k : LpmKey} {duration : Option ℕ} (reason : U32)
    (h : k = .single a → ∀ ns, duration = some ns → d ≤ t + ns) :
    Under (Answers a ref t d) (Leaves a ref d) (block k duration reason) := by
  cases duration with
  | none =>
    rw [block_none]
    exact under_store reason fun _ => Or.inl rfl
  | some ns =>
    rw [block_some]
    refine under_clock fun now hnow => under_store reason fun hk => Or.inr ?_
    exact (h hk ns rfl).trans (Nat.add_le_add_right hnow ns)

lemma under_delete_blocks {ks : List LpmKey} (h : ∀ k ∈ ks, k ≠ .single a) :
    Under (Answers a ref t d) (Leaves a ref d) (delete_blocks ks) := by
  induction ks with
  | nil => trivial
  | cons k ks ih =>
    obtain ⟨hk, hks⟩ := List.forall_mem_cons.mp h
    exact ⟨hk, fun _ _ => ih hks⟩

/-- **The cleanup** finds the block still in force. -/
lemma under_remove_expired_blocks :
    Under (Answers a ref t d) (Leaves a ref d) remove_expired_blocks := by
  unfold remove_expired_blocks ktime_ns
  simp only [op_eq, call_bind, ret_bind]
  refine ⟨trivial, fun now hnow => ⟨trivial, fun items hitems => ?_⟩⟩
  refine under_bind (under_delete_blocks fun k hk => ?_) fun _ => trivial
  rintro rfl
  obtain ⟨e, he, hek⟩ := List.mem_map.mp hk
  obtain ⟨k', bv⟩ := e
  obtain rfl : k' = .single a := hek
  obtain ⟨hmem, hexp⟩ := List.mem_filter.mp he
  rw [not_expired_of_lasts (hitems bv hmem) hnow.2] at hexp
  cases hexp

lemma mild_delete_states (as : List Addr) : Uses Mild (delete_states as) := by
  induction as with
  | nil => trivial
  | cons b as ih => exact ⟨trivial, fun _ => ih⟩

lemma mild_remove_idle_states : Uses Mild remove_idle_states :=
  uses_bind (uses_ktime_ns trivial) fun _ => uses_bind (uses_read_states trivial) fun _ =>
    uses_bind (mild_delete_states _) fun _ => trivial

lemma under_read_config {β : Type} {f : Config → Py β}
    (h : ∀ cfg : Config, has cfg.features FEAT_BLOCKLIST = true →
      Under (Answers a ref t d) (Leaves a ref d) (f cfg)) :
    Under (Answers a ref t d) (Leaves a ref d) (read_config >>= f : Py β) := by
  refine ⟨trivial, ?_⟩
  rintro _ ⟨c, rfl, hfeat⟩
  exact h (unpack_config c) hfeat

/-- The settings are written back with the blocklist on. -/
lemma under_update_config {ch : Changes}
    (h : ∀ f, ch.features = some f → has f FEAT_BLOCKLIST = true) :
    Under (Answers a ref t d) (Leaves a ref d) (update_config ch) := by
  rw [update_config_eq]
  refine ⟨trivial, ?_⟩
  rintro _ ⟨c, rfl, hfeat⟩
  unfold after_read
  dsimp only
  split_ifs
  · refine ⟨?_, fun _ _ => trivial⟩
    change has (ch.features.getD c.features) FEAT_BLOCKLIST = true
    cases hch : ch.features with
    | none => exact hfeat
    | some f => exact h f hch
  · trivial

/-! ### The controller -/

/-- The shortest block, in nanoseconds. -/
def shortest : ℕ := 60 * 1000000000

lemma shortest_le (b : Blocker) (ip : Addr) : shortest ≤ b.duration ip * 1000000000 := by
  have hall : ∀ i < 3, 60 ≤ DURATIONS.getD i 0 := by decide
  have hlt : min (b.offences.getD ip 0) (DURATIONS.length - 1) < 3 := by
    have hlen : DURATIONS.length = 3 := rfl
    omega
  exact Nat.mul_le_mul_right _ (hall _ hlt)

section

variable (hd : d ≤ t + shortest)

include hd

lemma under_issue_block (b : Blocker) (now : ℚ) (issued : ℕ) (ip : Addr) (reason : String) :
    Under (Answers a ref t d) (Leaves a ref d) (b.issue_block now issued ip reason) := by
  have hnote : ∀ (b : Blocker) (msg : String), Uses Mild (b.note msg) := fun b msg =>
    uses_bind (uses_op trivial) fun _ => trivial
  unfold Blocker.issue_block
  split_ifs
  · refine Exc.under_bind (Exc.under_rethrow (under_block _ fun _ ns hns => ?_)) fun _ =>
      Exc.under_bind (Exc.under_lift (under_mild (hnote _ _))) fun _ => trivial
    cases hns
    exact hd.trans (Nat.add_le_add_left (shortest_le b ip) t)
  · exact Exc.under_bind (Exc.under_lift (under_mild (hnote _ _))) fun _ => trivial

lemma under_judge (b : Blocker) (now : ℚ) (issued : ℕ) (ip : Addr) (reason : String) :
    Under (Answers a ref t d) (Leaves a ref d) (b.judge now issued ip reason) := by
  have hallowed : Uses Mild (is_allowed ip) := uses_bind (uses_op trivial) fun _ => trivial
  have hblocked : Uses Mild (b.is_blocked ip) := uses_bind (uses_op trivial) fun _ => trivial
  unfold Blocker.judge
  split
  · trivial
  · refine Exc.under_bind (Exc.under_lift (under_mild hblocked)) fun blocked => ?_
    split
    · trivial
    · refine Exc.under_bind (Exc.under_lift (under_mild hallowed)) fun allowed => ?_
      split_ifs
      · exact Exc.under_bind (Exc.under_lift (under_mild
          (uses_bind (uses_op trivial) fun _ => trivial))) fun _ => trivial
      · trivial
      · exact under_issue_block hd b now issued ip reason

lemma under_process_all (b : Blocker) (now : ℚ) (issued : ℕ)
    (vs : List ((_ : Addr) × Option String)) :
    Under (Answers a ref t d) (Leaves a ref d) (b.process_all now issued vs) := by
  induction vs generalizing b issued with
  | nil => trivial
  | cons v vs ih =>
    refine Exc.under_bind ?_ fun r => ih r.1 r.2
    obtain ⟨ip, reason⟩ := v
    cases reason with
    | none => trivial
    | some reason => exact under_judge hd (b.strike ip) now issued ip reason

end

lemma under_clean_up (c : Controller) :
    Under (Answers a ref t d) (Leaves a ref d) (clean_up c) := by
  unfold clean_up
  split_ifs
  · exact under_bind under_remove_expired_blocks fun _ =>
      under_bind (under_mild mild_remove_idle_states) fun _ => trivial
  · trivial

lemma under_tune (c : Controller) : Under (Answers a ref t d) (Leaves a ref d) (tune c) := by
  have hnote : ∀ (b : Blocker) (msg : String), Under (Answers a ref t d) (Leaves a ref d)
      (liftM (b.note msg) : Py Blocker) := fun b msg =>
    Exc.under_lift (under_mild (uses_bind (uses_op trivial) fun _ => trivial))
  unfold tune
  split
  · trivial
  · split
    · trivial
    · trivial
    · dsimp only
      split
      · exact Exc.under_bind (under_update_config fun f hf => by cases hf) fun _ =>
          Exc.under_bind (hnote _ _) fun _ => trivial
      · exact Exc.under_bind (hnote _ _) fun _ => trivial

/-- **A step of a controller**, whatever it has seen so far. -/
theorem under_step (hd : d ≤ t + shortest) (c : Controller) :
    Under (Answers a ref t d) (Leaves a ref d) (step c) := by
  have hread : ∀ o, ReadOp o → Mild o := by intro o h; cases o <;> trivial
  have hstates : Uses Mild read_states := uses_read_states trivial
  have hktime : Uses Mild ktime_ns := uses_ktime_ns trivial
  have hmonotonic : Uses Mild monotonic := uses_bind hktime fun _ => trivial
  have hupdate : ∀ (b : Blocker) vs, Under (Answers a ref t d) (Leaves a ref d) (b.update vs) :=
    fun b vs => Exc.under_bind (Exc.under_lift (under_mild (uses_op trivial))) fun now =>
      under_process_all hd b now 0 _
  have hact : ∀ (c : Controller) vs st now,
      Under (Answers a ref t d) (Leaves a ref d) (act c vs st now) := fun c vs st now =>
    Exc.under_bind (Exc.under_rethrow (hupdate _ _)) fun _ =>
      Exc.under_bind (under_tune _) fun _ => Exc.under_lift (under_clean_up _)
  unfold step
  exact Exc.under_bind (Exc.under_lift (under_mild (uses_read_stats.mono hread))) fun _ =>
    Exc.under_bind (Exc.under_lift (under_mild hmonotonic)) fun _ =>
      Exc.under_bind (Exc.under_lift (under_mild hstates)) fun _ =>
        Exc.under_bind (Exc.under_lift (under_mild hktime)) fun _ =>
          Exc.under_bind (hact _ _ _ _) fun _ => trivial

lemma under_loop (hd : d ≤ t + shortest) (k : ℕ) (c : Controller) :
    Under (Answers a ref t d) (Leaves a ref d) (loop k c) := by
  induction k generalizing c with
  | zero => trivial
  | succ k ih =>
    exact Exc.under_bind (under_step hd c) fun r => Exc.under_bind (ih r.1) fun _ => trivial

lemma under_allow_all {ks : List LpmKey} (h : ∀ k ∈ ks, ¬ covers k a) :
    Under (Answers a ref t d) (Leaves a ref d) (allow_all ks) := by
  induction ks with
  | nil => trivial
  | cons k ks ih =>
    obtain ⟨hk, hks⟩ := List.forall_mem_cons.mp h
    refine Exc.under_bind ?_ fun _ => ih hks
    exact Exc.under_bind (Exc.under_lift ⟨hk, fun _ _ => trivial⟩) fun failed =>
      (uses_updated _ _ failed).under

/-! ### The commands -/

/-- What else works on the maps: sessions of the controller, and commands. -/
inductive Tool
  | controller (args : Args) (rounds : ℕ)
  | allow_add (ks : List LpmKey)
  | allow_del (ks : List LpmKey)
  | block_add (duration : Option ℕ) (cs : List Cidr)
  | block_del (cs : List Cidr)
  | block_list (all : Bool)
  | port_set (py : Str) (action : Fwctl.Policy) (proto : String) (ports : List ℤ)
  | port_del (py : Str) (proto : String) (ports : List ℤ)
  | port_flush
  | port_list
  | policy (policy : Fwctl.Policy)
  | config_set (args : ConfigArgs)
  | forget_states
  | stats
  | top
  | selftest (py : Str) (program : Option String)

/-- `allow del`. -/
def allow_del : List LpmKey → Call Unit
  | [] => return ()
  | k :: ks => do
    let _ ← unallow k
    allow_del ks

/-- The result does not matter. -/
def ignored {β : Type} (p : Call β) : Call (Option Verdict) := do
  let _ ← p
  return none

def Tool.prog : Tool → Call (Option Verdict)
  | .controller args rounds => ignored (run_session args rounds)
  | .allow_add ks => ignored (allow_all ks)
  | .allow_del ks => ignored (Confined.allow_del ks)
  | .block_add duration cs => ignored (Fwctl.block_add duration cs)
  | .block_del cs => ignored (Fwctl.block_del cs)
  | .block_list all => ignored (list_blocked all)
  | .port_set py action proto ports => ignored (Fwctl.port_set py action proto ports)
  | .port_del py proto ports => ignored (Fwctl.port_del py proto ports)
  | .port_flush => ignored Fwctl.port_flush
  | .port_list => ignored list_port_rules
  | .policy p => ignored (cmd_policy p)
  | .config_set args => ignored (cmd_config_set args)
  | .forget_states => ignored Reset.clear_states
  | .stats => ignored read_stats
  | .top => ignored read_states
  | .selftest py program => ignored (cmd_selftest py program)

/-- The command is not about the block of `a`: it allows no prefix that covers `a`, does not
delete the block, sets no deadline before `d`, and leaves the blocklist on. Of a controller's blocks
the shortest has to last that long. -/
def Tool.Spares (a : Addr) (t d : ℕ) : Tool → Prop
  | .controller args _ => (∀ k ∈ args.allow, ¬ covers k a) ∧ d ≤ t + shortest
  | .allow_add ks => ∀ k ∈ ks, ¬ covers k a
  | .block_add duration cs =>
    ∀ c ∈ cs, lpm_key c = .single a → ∀ ns, duration = some ns → d ≤ t + ns
  | .block_del cs => ∀ c ∈ cs, lpm_key c ≠ .single a
  | .config_set args => ∀ bit ∈ args.disable, has bit FEAT_BLOCKLIST = false
  | .selftest _ _ => a ≠ test_ip ∧ ¬ covers test_net a
  | _ => True

lemma under_ignored {β : Type} {p : Call β}
    (h : Under (Answers a ref t d) (Leaves a ref d) p) :
    Under (Answers a ref t d) (Leaves a ref d) (ignored p) :=
  under_bind h fun _ => trivial

lemma under_allow_del (ks : List LpmKey) : Uses Mild (Confined.allow_del ks) := by
  induction ks with
  | nil => trivial
  | cons k ks ih => exact ⟨trivial, fun _ => ih⟩

lemma under_block_add {duration : Option ℕ} {cs : List Cidr}
    (h : ∀ c ∈ cs, lpm_key c = .single a → ∀ ns, duration = some ns → d ≤ t + ns) :
    Under (Answers a ref t d) (Leaves a ref d) (Fwctl.block_add duration cs) := by
  induction cs with
  | nil => trivial
  | cons c cs ih =>
    obtain ⟨hc, hcs⟩ := List.forall_mem_cons.mp h
    have hallowed : Uses Mild (is_allowed c.addr) := uses_bind (uses_op trivial) fun _ => trivial
    unfold Fwctl.block_add
    refine Exc.under_bind (Exc.under_lift (under_mild hallowed)) fun allowed => ?_
    split_ifs
    · exact ih hcs
    · exact Exc.under_bind (under_block _ hc) fun _ => ih hcs

lemma under_block_del {cs : List Cidr} (h : ∀ c ∈ cs, lpm_key c ≠ .single a) :
    Under (Answers a ref t d) (Leaves a ref d) (Fwctl.block_del cs) := by
  induction cs with
  | nil => trivial
  | cons c cs ih =>
    obtain ⟨hc, hcs⟩ := List.forall_mem_cons.mp h
    exact ⟨hc, fun _ _ => ih hcs⟩

lemma mild_port_key (py : Str) (proto : String) (port : ℤ) :
    Uses Mild (port_key py proto port) := by
  refine Exc.uses_bind trivial fun num => ?_
  split_ifs
  · exact Exc.uses_bind (uses_pack _ _ _) fun _ => Exc.uses_bind (uses_pack _ _ _) fun _ => trivial
  · trivial

lemma mild_set_port_rule (py : Str) (proto : String) (port : ℤ) (action : U32) :
    Uses Mild (set_port_rule py proto port action) :=
  Exc.uses_bind (mild_port_key _ _ _) fun _ =>
    Exc.uses_bind (Exc.uses_lift (uses_op trivial)) fun failed => uses_updated _ _ failed

lemma mild_port_set (py : Str) (action : Fwctl.Policy) (proto : String) (ports : List ℤ) :
    Uses Mild (Fwctl.port_set py action proto ports) := by
  induction ports with
  | nil => trivial
  | cons port ports ih => exact Exc.uses_bind (mild_set_port_rule _ _ _ _) fun _ => ih

lemma mild_del_port_rule (py : Str) (proto : String) (port : ℤ) :
    Uses Mild (del_port_rule py proto port) :=
  Exc.uses_bind (mild_port_key _ _ _) fun _ => Exc.uses_lift (uses_op trivial)

lemma mild_port_del (py : Str) (proto : String) (ports : List ℤ) :
    Uses Mild (Fwctl.port_del py proto ports) := by
  induction ports with
  | nil => trivial
  | cons port ports ih => exact Exc.uses_bind (mild_del_port_rule _ _ _) fun _ => ih

lemma mild_port_flush : Uses Mild Fwctl.port_flush := by
  have hdelete : ∀ ks, Uses Mild (delete_port_rules ks) := by
    intro ks
    induction ks with
    | nil => trivial
    | cons k ks ih => exact ⟨trivial, fun _ => ih⟩
  exact uses_bind (uses_bind (uses_op trivial) fun _ => uses_bind (hdelete _) fun _ => trivial)
    fun _ => trivial

lemma mild_list_port_rules : Uses Mild list_port_rules :=
  Exc.uses_bind (Exc.uses_lift (uses_op trivial)) fun _ => trivial

/-- The blocklist stays on if nobody disables it. -/
lemma has_features {args : ConfigArgs} (h : ∀ bit ∈ args.disable, has bit FEAT_BLOCKLIST = false)
    {f : U32} (hf : has f FEAT_BLOCKLIST = true) :
    has (args.features f) FEAT_BLOCKLIST = true := by
  have hbit : ∀ f : U32, has f FEAT_BLOCKLIST = f.getLsbD 1 := by
    intro f
    have htwo : FEAT_BLOCKLIST = BitVec.twoPow 32 1 := rfl
    unfold has
    rw [htwo, BitVec.and_twoPow]
    cases f.getLsbD 1 <;> rfl
  simp only [hbit] at h hf ⊢
  unfold ConfigArgs.features
  have henable : ∀ (l : List U32) (f : U32), f.getLsbD 1 = true →
      (l.foldl (fun f bit => f ||| bit) f).getLsbD 1 = true := by
    intro l
    induction l with
    | nil => exact fun f hf => hf
    | cons bit l ih => exact fun f hf => ih _ (by rw [BitVec.getLsbD_or, hf, Bool.true_or])
  have hdisable : ∀ (l : List U32), (∀ bit ∈ l, bit.getLsbD 1 = false) → ∀ f : U32,
      f.getLsbD 1 = true → (l.foldl (fun f bit => f &&& ~~~bit) f).getLsbD 1 = true := by
    intro l hl
    induction l with
    | nil => exact fun f hf => hf
    | cons bit l ih =>
      obtain ⟨hbit, hl⟩ := List.forall_mem_cons.mp hl
      refine fun f hf => ih hl _ ?_
      rw [BitVec.getLsbD_and, BitVec.getLsbD_not, hf, hbit]
      rfl
  exact hdisable _ h _ (henable _ _ hf)

lemma under_config_set {args : ConfigArgs}
    (h : ∀ bit ∈ args.disable, has bit FEAT_BLOCKLIST = false) :
    Under (Answers a ref t d) (Leaves a ref d) (cmd_config_set args) := by
  refine under_read_config fun cfg hcfg => ?_
  split_ifs
  · trivial
  · refine Exc.under_bind (under_update_config fun f hf => ?_) fun _ => trivial
    cases hf
    exact has_features h hcfg
  · trivial

lemma mild_clear_states : Uses Mild Reset.clear_states :=
  uses_bind (uses_op trivial) fun _ => uses_bind (mild_delete_states _) fun _ => trivial

/-- Its own entries are the only ones the self-test sets and deletes. -/
lemma under_selftest (py : Str) (program : Option String) (ha : a ≠ test_ip)
    (hnet : ¬ covers test_net a) :
    Under (Answers a ref t d) (Leaves a ref d) (cmd_selftest py program) := by
  have hne : LpmKey.single test_ip ≠ .single a := by
    intro heq
    exact ha ((covers_single test_ip a).mp (heq ▸ (covers_single a a).mpr rfl))
  have hlist : Uses Mild (list_blocked false) :=
    uses_bind (uses_ktime_ns trivial) fun _ => uses_bind (uses_op trivial) fun _ => trivial
  have hallow : Under (Answers a ref t d) (Leaves a ref d) (allow test_net) :=
    Exc.under_bind (Exc.under_lift ⟨hnet, fun _ _ => trivial⟩) fun failed =>
      (uses_updated _ _ failed).under
  have hfound : Uses Mild (is_allowed test_member) := uses_bind (uses_op trivial) fun _ => trivial
  have hread : ∀ o, ReadOp o → Mild o := by intro o h; cases o <;> trivial
  have hstates : Uses Mild read_states := uses_read_states trivial
  have hname : Uses Mild (prog_info program) := by cases program <;> trivial
  unfold cmd_selftest
  refine under_read_config fun cfg _ => ?_
  refine Exc.under_bind (under_block _ fun heq => absurd heq hne) fun _ => ?_
  refine Exc.under_bind (Exc.under_lift (under_mild hlist)) fun blocked => ?_
  refine Exc.under_bind (Exc.under_lift ⟨hne, fun _ _ => trivial⟩) fun _ => ?_
  refine Exc.under_bind hallow fun _ => ?_
  refine Exc.under_bind (Exc.under_lift (under_mild hfound)) fun _ => ?_
  refine Exc.under_bind (Exc.under_lift (under_mild (uses_op trivial))) fun _ => ?_
  refine Exc.under_bind (under_mild mild_list_port_rules) fun _ => ?_
  refine Exc.under_bind (under_mild (mild_set_port_rule _ _ _ _)) fun _ => ?_
  refine Exc.under_bind (under_mild mild_list_port_rules) fun _ => ?_
  refine Exc.under_bind ?_ fun _ => ?_
  · split_ifs
    · trivial
    · exact under_mild (mild_del_port_rule _ _ _)
  refine Exc.under_bind (Exc.under_lift (under_mild (uses_read_stats.mono hread))) fun _ => ?_
  refine Exc.under_bind (Exc.under_lift (under_mild hstates)) fun _ => ?_
  exact Exc.under_bind (under_mild hname) fun _ => trivial

/-- **A command that is not about the block** leaves it alone. -/
theorem under_tool {tool : Tool} (h : tool.Spares a t d) :
    Under (Answers a ref t d) (Leaves a ref d) tool.prog := by
  have hread : ∀ o, ReadOp o → Mild o := by intro o h; cases o <;> trivial
  cases tool with
  | controller args rounds =>
    exact under_ignored (Exc.under_bind (Exc.under_bind (under_allow_all h.1) fun _ => trivial)
      fun c => under_loop h.2 rounds c)
  | allow_add ks => exact under_ignored (under_allow_all h)
  | allow_del ks => exact under_ignored (under_mild (under_allow_del ks))
  | block_add duration cs => exact under_ignored (under_block_add h)
  | block_del cs => exact under_ignored (under_block_del h)
  | block_list all =>
    exact under_ignored (under_mild (uses_bind (uses_ktime_ns trivial) fun _ =>
      uses_bind (uses_op trivial) fun _ => trivial))
  | port_set py action proto ports => exact under_ignored (under_mild (mild_port_set _ _ _ _))
  | port_del py proto ports => exact under_ignored (under_mild (mild_port_del _ _ _))
  | port_flush => exact under_ignored (under_mild mild_port_flush)
  | port_list => exact under_ignored (under_mild mild_list_port_rules)
  | policy p =>
    refine under_ignored (Exc.under_bind (under_update_config fun f hf => ?_) fun _ => trivial)
    cases hf
  | config_set args => exact under_ignored (under_config_set h)
  | forget_states => exact under_ignored (under_mild mild_clear_states)
  | stats => exact under_ignored (under_mild (uses_read_stats.mono hread))
  | top => exact under_ignored (under_mild (uses_read_states trivial))
  | selftest py program => exact under_ignored (under_selftest py program h.1 h.2)

/-! ### Runs -/

variable {ι κ : Type} [DecidableEq ι] [DecidableEq κ]

/-- Between two operations anything else may change: the time, between `t` and `d`, the port rules,
the counters. -/
structure Elsewhere (t d : ℕ) (w w' : World n) : Prop where
  allowlist : w'.allowlist = w.allowlist
  blocklist : w'.blocklist = w.blocklist
  config : w'.config = w.config
  srcstate : w'.srcstate = w.srcstate
  after : t ≤ w'.clock.toNat
  before : w'.clock.toNat < d

omit [DecidableEq ι] [DecidableEq κ] in
lemma barred_elsewhere {w w' : World n} (hw : Elsewhere t d w w') (h : Barred a d w) :
    Barred a d w' where
  block := hw.blocklist ▸ h.block
  allowlist := hw.allowlist ▸ h.allowlist
  feature := hw.config ▸ h.feature

/-- The packets, and the tools. -/
abbrev programs (frames : ι → Frame) (tools : κ → Tool) : ι ⊕ κ → Call (Option Verdict) :=
  Exempt.programs frames fun j => (tools j).prog

variable {cpu : ι ⊕ κ → Fin n} {frames : ι → Frame} {tools : κ → Tool}
  {c c' : Pool calls (World n) (Option Verdict) (ι ⊕ κ)}
  {tr : Turns calls (World n) (Option Verdict) (ι ⊕ κ)}

/-- What holds of the maps all along; `gone` when the entry had been deleted before. -/
structure Held (a : Addr) (d : ℕ) (ref : Option ℕ) (cell : Option SrcState) (gone : Prop)
    (w : World n) : Prop where
  barred : Barred a d w
  kept : Exempt.Kept a ref cell w
  none : gone → w.srcstate.find a = none

/-- **Until the deadline** the source stays barred and its entry as it was, or is deleted. -/
lemma held_of_path {cell : Option SrcState} {gone : Prop}
    (h : Path (turn fun i => kernel (Elsewhere t d) (cpu i)) c tr c')
    (hc : Held a d ref cell gone c.1)
    (hp : ∀ i, (c.2 i).Under (Answers a ref t d) (Leaves a ref d)) :
    Held a d ref cell gone c'.1 ∧ (∀ i, (c'.2 i).Under (Answers a ref t d) (Leaves a ref d)) ∧
      ∀ x ∈ tr, Answers a ref t d x.ev.2 := by
  have hrely := rely (I := Held a d ref cell gone) h (A := Answers a ref t d)
    (G := Leaves a ref d) ?_ hc hp
  · obtain ⟨h1, h2, h3⟩ := hrely
    exact ⟨h1, h2, fun x hx => (h3 x hx).1⟩
  · rintro x - b t' hheld hleaves ⟨w1, helse, hexec⟩
    have hb1 : Barred a d w1 := barred_elsewhere helse hheld.barred
    have hk1 : Exempt.Kept a ref cell w1 := Exempt.kept_congr helse.srcstate hheld.kept
    obtain ⟨hkt, hnone⟩ := Exempt.kept_exec (cpu x.ev.1) (spares_of_leaves hleaves) hk1
    have hbt := barred_exec (cpu x.ev.1) hleaves hb1
    rw [hexec] at hkt hnone hbt
    refine ⟨answers_exec hb1 hk1 helse.after helse.before hexec, hbt, hkt, fun hg => hnone ?_⟩
    rw [helse.srcstate]
    exact hheld.none hg

omit [DecidableEq ι] [DecidableEq κ] in
lemma under_programs (frames : ι → Frame) (htools : ∀ j, (tools j).Spares a t d) (i : ι ⊕ κ) :
    (programs frames tools i).Under (Answers a ref t d) (Leaves a ref d) := by
  cases i with
  | inl i => exact under_bind (under_xdp_firewall (frames i)) fun _ => trivial
  | inr j => exact under_tool (htools j)

variable {w : World n}

/-- A packet of the source. -/
lemma dropped_packet {i : ι} (hans : ∀ x ∈ tr, Answers a ref t d x.ev.2)
    (h : Path (turn fun i => kernel (Elsewhere t d) (cpu i)) (w, programs frames tools) tr c')
    (hi : SentBy a (frames i)) :
    (∀ v, c'.2 (.inl i) = .ret (some v) →
      v = .drop ∧ (written (own (.inl i) tr)).stats .drop_blocklist = 1) ∧
    ∀ e ∈ own (.inl i) tr, DropOp e.1 := by
  have hall : ∀ e ∈ own (.inl i) tr, Answers a ref t d e := by
    intro e he
    obtain ⟨x, hx, hxe⟩ := mem_own.mp he
    have := hans x hx
    rwa [hxe] at this
  have htrace := own_trace h (.inl i)
  constructor
  · intro v hv
    rw [hv] at htrace
    have hwp : wp (books Books.write (Answers a ref t d)) (programs frames tools (.inl i))
        (fun r b => ∀ v, r = some v → v = .drop ∧ b.stats .drop_blocklist = 1) .zero := by
      refine (wp_bind _ _ _ _).mpr (wp_mono (wp_barred hi) ?_)
      rintro v b ⟨hv, hb⟩ v' heq
      cases heq
      exact ⟨hv, hb⟩
    exact htrace.wp hall hwp v rfl
  · have hunder : (programs frames tools (.inl i)).Under (Answers a ref t d) DropOp :=
      under_bind (under_barred hi) fun _ => trivial
    exact htrace.under hunder hall

/-- **A blocked source is kept out.** From when it has a block of its own until the deadline, or
for as long as the shortest block lasts where controllers run, every packet of it is dropped and
counted as blocked and comes no further than the blocklist, its entry in `srcstate` stands still or
is deleted, no poll shows a row of it, and the block is still there in the end: whatever the other
sources send, and whatever commands that are not about this block and controllers do meanwhile. -/
theorem kept_out (a : Addr) (t d : ℕ) (frames : ι → Frame) (tools : κ → Tool)
    (htools : ∀ j, (tools j).Spares a t d) (w : World n) (hw : Barred a d w)
    (c' : Pool calls (World n) (Option Verdict) (ι ⊕ κ))
    (tr : Turns calls (World n) (Option Verdict) (ι ⊕ κ))
    (h : Path (turn fun i => kernel (Elsewhere t d) (cpu i)) (w, programs frames tools) tr c') :
    Barred a d c'.1 ∧
    (c'.1.srcstate.get a = w.srcstate.get a ∨ c'.1.srcstate.get a = none) ∧
    (∀ i, SentBy a (frames i) →
      (∀ v, c'.2 (.inl i) = .ret (some v) →
        v = .drop ∧ (written (own (.inl i) tr)).stats .drop_blocklist = 1) ∧
      ∀ e ∈ own (.inl i) tr, DropOp e.1) ∧
    ∀ tr1 tr2 m, tr = tr1 ++ tr2 →
      Path (turn fun i => kernel (Elsewhere t d) (cpu i)) (w, programs frames tools) tr1 m →
      Path (turn fun i => kernel (Elsewhere t d) (cpu i)) m tr2 c' →
      ∀ (k k' : Fin n) (t0 t1 : ℕ),
        (Window.update ⟨some ((run (exec k) read_states m.1).1, t0)⟩
          (run (exec k') read_states c'.1).1 t1).1.lookup a = none := by
  have hstart : Held a d (w.srcstate.find a) (w.srcstate.get a) False w :=
    ⟨hw, Exempt.kept_start a w, nofun⟩
  obtain ⟨hend, -, hans⟩ := held_of_path h hstart (under_programs frames htools)
  refine ⟨hend.barred, ?_, fun i hi => dropped_packet hans h hi, ?_⟩
  · rcases hend.kept.find with hfind | hfind
    · cases href : w.srcstate.find a with
      | none => exact Or.inr (RefMap.get_eq_none.mpr (hfind.trans href))
      | some r =>
        left
        rw [RefMap.get_eq (hfind.trans href), hend.kept.deref r href]
    · exact Or.inr (RefMap.get_eq_none.mpr hfind)
  · rintro tr1 tr2 m rfl h1 h2 k k' t0 t1
    obtain ⟨hm, hp, -⟩ := held_of_path h1 hstart (under_programs frames htools)
    have hmid : Held a d (w.srcstate.find a) (w.srcstate.get a) (m.1.srcstate.find a = none) m.1 :=
      ⟨hm.barred, hm.kept, id⟩
    obtain ⟨hend, -, -⟩ := held_of_path h2 hmid hp
    exact Exempt.no_row_of_kept hm.kept hend.kept hend.none t0 t1

/-- A source that a controller has just blocked. -/
def just_blocked : World 1 :=
  { World.loaded 1 with
    blocklist := AList.insert (.single 7) ⟨60000000000, 0, BLOCK_AUTO⟩ ∅ }

/-- Its packet, and a round of a controller. -/
def blocked_run : Turns calls (World 1) (Option Verdict) (Unit ⊕ Unit) ×
    Pool calls (World 1) (Option Verdict) (Unit ⊕ Unit) :=
  play (fun _ => exec 0) (List.replicate 30 [.inl (), .inr ()]).flatten
    (just_blocked, programs (fun _ => header_from 7) fun _ => .controller ⟨false, false, []⟩ 1)

theorem kept_out_one_round :
    Barred 7 60000000000 blocked_run.2.1 ∧
      (written (own (.inl ()) blocked_run.1)).stats .drop_blocklist = 1 := by
  have hrun : Path (turn fun _ => kernel Eq 0)
      (just_blocked, programs (fun _ : Unit => header_from 7)
        fun _ : Unit => .controller ⟨false, false, []⟩ 1) blocked_run.1 blocked_run.2 :=
    path_play (fun _ => rfl) _ _ _
  have hclock : ∀ x ∈ blocked_run.1, x.pre.1.clock.toNat < 60000000000 := by decide +kernel
  have hpath : Path (turn fun _ => kernel (Elsewhere 0 60000000000) 0)
      (just_blocked, programs (fun _ : Unit => header_from 7)
        fun _ : Unit => .controller ⟨false, false, []⟩ 1) blocked_run.1 blocked_run.2 := by
    refine (hrun.strengthen (P := fun s _ _ => s.1.clock.toNat < 60000000000) hclock).mono ?_
    rintro s e t ⟨⟨k, hk, ⟨w1, rfl, hexec⟩, ht⟩, hlt⟩
    exact ⟨k, hk, ⟨s.1, ⟨rfl, rfl, rfl, rfl, Nat.zero_le _, hlt⟩, hexec⟩, ht⟩
  have htools : ∀ _ : Unit, Tool.Spares 7 0 60000000000 (.controller ⟨false, false, []⟩ 1) :=
    fun _ => ⟨fun _ hk => absurd hk List.not_mem_nil, by decide⟩
  have hbarred : Barred 7 60000000000 just_blocked :=
    ⟨⟨⟨60000000000, 0, BLOCK_AUTO⟩, by decide +kernel, Or.inr (by decide)⟩,
      fun k hk => absurd hk (AList.notMem_empty k), by decide⟩
  have hsent : SentBy 7 (header_from 7) := ⟨⟨34, 7, 253, 0⟩, by decide +kernel, rfl⟩
  have hdone : (blocked_run.2.2 (.inl ())).result = some (some .drop) := by decide +kernel
  obtain ⟨hend, -, hpackets, -⟩ := kept_out 7 0 60000000000 _ _ htools _ hbarred _ _ hpath
  exact ⟨hend, ((hpackets () hsent).1 .drop (result_eq_some.mp hdone)).2⟩

end Lookout.Confined

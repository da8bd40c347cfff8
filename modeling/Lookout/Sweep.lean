import Lookout.Sessions

/-!
The cleanup of the blocklist, while others write to it.

`remove_expired_blocks` decides on a snapshot which keys to delete, and deletes them one after
another by key. What is stored under a key by then need not be what the snapshot showed.
-/

namespace Lookout.Sweep

open Lookout.Effects Lookout.Effects.Prog Lookout.Runs Lookout.Dicts Lookout.Lpm Lookout.Common
open Lookout.Kernel Lookout.Firewall Lookout.Sessions

variable {n : ℕ}

inductive Ev
  | own (e : Event calls)
  | other (o : Op)
  | tick

/-- The cleanup and the others take turns, one operation at a time, and time passes. -/
inductive Step (cpu : Fin n) : World n × Call ℕ → Ev → World n × Call ℕ → Prop
  | own {w w' : World n} {o : Op} {b : Ans o} {k : Ans o → Call ℕ} (h : exec cpu w o = (b, w')) :
    Step cpu (w, .call o k) (.own ⟨o, b⟩) (w', k b)
  | other (w : World n) (p : Call ℕ) (c : Fin n) (o : Op) :
    Step cpu (w, p) (.other o) ((exec c w o).2, p)
  | tick (w : World n) (p : Call ℕ) (clock : U64) (wall : ℚ) (h : w.clock ≤ clock) :
    Step cpu (w, p) .tick ({ w with clock, wall }, p)

/-! ### What stands under a key -/

/-- When the entry under a key ends. -/
def expires (w : World n) (k : LpmKey) : Option U64 := (w.blocklist.lookup k).map BlockVal.expires_ns

/-- A block that ends at `e` is over. -/
def Over (now e : U64) : Prop := 0 < e.toNat ∧ e.toNat ≤ now.toNat

lemma expired_iff (now : U64) (bv : BlockVal) :
    expired now.toNat bv = true ↔ Over now bv.expires_ns := by
  simp [expired, Over]

/-- What stands under a key after an operation, when `e` stood there before. -/
def stores (w : World n) (k : LpmKey) (e : Option U64) : Op → Option U64
  | .block_update k' v => if k' = k ∧ Room w k' then some v.expires_ns else e
  | .block_delete k' => if k' = k then none else e
  | _ => e

lemma expires_exec (c : Fin n) (w : World n) (o : Op) (k : LpmKey) :
    expires (exec c w o).2 k = stores w k (expires w k) o := by
  unfold expires
  cases o with
  | block_update k' v =>
    change ((update MAX_BLOCKLIST w.blocklist k' v).2.lookup k).map _ =
      if k' = k ∧ Room w k' then _ else _
    by_cases hroom : Room w k'
    · have hin : (update MAX_BLOCKLIST w.blocklist k' v).2 = w.blocklist.insert k' v :=
        congrArg Prod.snd (if_pos hroom)
      rw [hin]
      by_cases hk : k' = k
      · subst hk
        rw [if_pos ⟨rfl, hroom⟩, AList.lookup_insert]
        rfl
      · rw [if_neg fun h => hk h.1, AList.lookup_insert_ne (Ne.symm hk)]
    · have hout : (update MAX_BLOCKLIST w.blocklist k' v).2 = w.blocklist :=
        congrArg Prod.snd (if_neg hroom)
      rw [hout, if_neg fun h => hroom h.2]
  | block_delete k' =>
    change ((w.blocklist.erase k').lookup k).map _ = if k' = k then none else _
    split_ifs with hk
    · subst hk
      rw [AList.lookup_erase]
      rfl
    · rw [AList.lookup_erase_ne (Ne.symm hk)]
  | block_hit k' =>
    change ((modify w.blocklist k' _).lookup k).map _ = _
    rw [lookup_modify]
    split_ifs with hk
    · subst hk
      rw [Option.map_map]
      rfl
    · rfl
  | _ => rfl

/-! ### The cleanup, step by step -/

/-- The keys of the entries that are over. -/
def listed (now : ℕ) (items : List (LpmKey × BlockVal)) : List LpmKey :=
  (items.filter fun e => expired now e.2).map Prod.fst

/-- The rest of the cleanup when `ks` are still to be deleted. -/
def deleting (ks : List LpmKey) (r : ℕ) : Call ℕ := delete_blocks ks >>= fun _ => .ret r

/-- What the others have stored under a key since the snapshot, and not removed again. -/
def renew (k : LpmKey) (e : Option U64) (x : Trans (World n × Call ℕ) Ev) : Option U64 :=
  match x.ev with
  | .own ⟨.block_items, _⟩ => none
  | .own ⟨o, _⟩ => stores x.pre.1 k e o
  | .other o => stores x.pre.1 k e o
  | .tick => e

def renewed (k : LpmKey) (tr : List (Trans (World n × Call ℕ) Ev)) : Option U64 :=
  tr.foldl (renew k) none

/-- A key on the list holds what the others have stored under it since, or nothing, or an entry
that is over. -/
def Listed (tr : List (Trans (World n × Call ℕ) Ev)) (w : World n) (ks : List LpmKey) : Prop :=
  ∀ k ∈ ks, (∀ e, renewed k tr = some e → expires w k = some e) ∧
    (renewed k tr = none → ∀ e, expires w k = some e → Over w.clock e)

/-- Where the cleanup stands. -/
inductive At (tr : List (Trans (World n × Call ℕ) Ev)) : World n → Call ℕ → Prop
  | start (w : World n) : At tr w remove_expired_blocks
  | reading {w : World n} {now : U64} (h : now ≤ w.clock) :
    At tr w (.call .block_items fun items =>
      deleting (listed now.toNat items) (listed now.toNat items).length)
  | deleting {w : World n} {ks : List LpmKey} (r : ℕ) (h : Listed tr w ks) :
    At tr w (deleting ks r)

lemma Over.mono {now now' e : U64} (h : Over now e) (hle : now ≤ now') : Over now' e :=
  ⟨h.1, h.2.trans (BitVec.le_def.mp hle)⟩

lemma renewed_snoc (k : LpmKey) (tr : List (Trans (World n × Call ℕ) Ev))
    (x : Trans (World n × Call ℕ) Ev) : renewed k (tr ++ [x]) = renew k (renewed k tr) x := by
  simp [renewed]

/-- A write keeps the list in order. -/
lemma listed_stores {tr tr' : List (Trans (World n × Call ℕ) Ev)} {w w' : World n}
    {ks : List LpmKey} (h : Listed tr w ks) {o : Op} (hclock : w'.clock = w.clock)
    (hr : ∀ k, renewed k tr' = stores w k (renewed k tr) o)
    (he : ∀ k, expires w' k = stores w k (expires w k) o) : Listed tr' w' ks := by
  intro k hk
  obtain ⟨hsome, hnone⟩ := h k hk
  rw [hr, he, hclock]
  cases o with
  | block_update k' v =>
    simp only [stores]
    split_ifs
    · exact ⟨fun e he => he, nofun⟩
    · exact ⟨hsome, hnone⟩
  | block_delete k' =>
    simp only [stores]
    split_ifs
    · exact ⟨nofun, nofun⟩
    · exact ⟨hsome, hnone⟩
  | _ => exact ⟨hsome, hnone⟩

lemma listed_tick {tr tr' : List (Trans (World n × Call ℕ) Ev)} {w : World n} {clock : U64}
    {wall : ℚ} {ks : List LpmKey} (h : Listed tr w ks) (hle : w.clock ≤ clock)
    (hr : ∀ k, renewed k tr' = renewed k tr) : Listed tr' { w with clock, wall } ks := by
  intro k hk
  obtain ⟨hsome, hnone⟩ := h k hk
  rw [hr]
  exact ⟨hsome, fun h0 e he => (hnone h0 e he).mono hle⟩

/-- The snapshot lists only what is over. -/
lemma listed_snapshot {tr : List (Trans (World n × Call ℕ) Ev)} {w : World n} {now : U64}
    (hnow : now ≤ w.clock) (hr : ∀ k, renewed k tr = none) :
    Listed tr w (listed now.toNat (Dict.items w.blocklist)) := by
  intro k hk
  refine ⟨fun e he => by (rw [hr] at he; cases he), fun _ e he => ?_⟩
  obtain ⟨⟨k', bv⟩, hmem, rfl⟩ := List.mem_map.mp hk
  obtain ⟨hitem, hexp⟩ := List.mem_filter.mp hmem
  rw [expires, Dict.mem_items.mp hitem] at he
  cases he
  exact ((expired_iff now bv).mp hexp).mono hnow

/-- **One event** of a run. -/
theorem at_step {cpu : Fin n} {tr : List (Trans (World n × Call ℕ) Ev)}
    {c c' : World n × Call ℕ} {ev : Ev} (h : At tr c.1 c.2) (hs : Step cpu c ev c') :
    At (tr ++ [⟨c, ev, c'⟩]) c'.1 c'.2 := by
  cases hs with
  | @own w w' o b k hop =>
    generalize hp : (Prog.call o k : Call ℕ) = p at h
    cases h with
    | start =>
      cases hp
      cases hop
      exact .reading (BitVec.le_refl _)
    | reading hnow =>
      cases hp
      cases hop
      exact .deleting _ (listed_snapshot hnow fun k => renewed_snoc k tr _)
    | @deleting ks r hlist =>
      cases ks with
      | nil => cases hp
      | cons k' ks =>
        cases hp
        cases hop
        have hlist' : Listed tr w ks := fun k hk => hlist k (List.mem_cons_of_mem _ hk)
        exact .deleting r (listed_stores hlist' rfl (fun k => renewed_snoc k tr _)
          fun k => expires_exec cpu w (.block_delete k') k)
  | other w p c o =>
    cases h with
    | start => exact .start _
    | reading hnow =>
      refine .reading ?_
      rw [exec_clock]
      exact hnow
    | deleting r hlist =>
      exact .deleting r (listed_stores hlist (exec_clock c w o) (fun k => renewed_snoc k tr _)
        fun k => expires_exec c w o k)
  | tick w p clock wall hle =>
    cases h with
    | start => exact .start _
    | reading hnow => exact .reading (BitVec.le_trans hnow hle)
    | deleting r hlist => exact .deleting r (listed_tick hlist hle fun k => renewed_snoc k tr _)

/-! ### Runs -/

/-- The cleanup deletes an entry. -/
def Deletes (x : Trans (World n × Call ℕ) Ev) (k : LpmKey) : Prop :=
  ∃ b, x.ev = .own ⟨.block_delete k, b⟩

lemma at_throughout {cpu : Fin n} (w : World n) (tr : List (Trans (World n × Call ℕ) Ev))
    (c' : World n × Call ℕ) :
    Throughout (Step cpu) (w, remove_expired_blocks) tr c' fun tr1 c => At tr1 c.1 c.2 :=
  throughout_of_step (.start w) fun _ _ _ _ h hs _ => at_step h hs

/-- A key that is deleted is on the list. -/
lemma listed_of_deletes {cpu : Fin n} {tr : List (Trans (World n × Call ℕ) Ev)}
    {c c' : World n × Call ℕ} {ev : Ev} {k : LpmKey} (h : At tr c.1 c.2)
    (hs : Step cpu c ev c') (hd : Deletes ⟨c, ev, c'⟩ k) : ∃ ks, k ∈ ks ∧ Listed tr c.1 ks := by
  obtain ⟨b, hev⟩ := hd
  dsimp only at hev
  subst hev
  cases hs with
  | @own w w' _ _ p hop =>
    generalize hp : (Prog.call (.block_delete k) p : Call ℕ) = q at h
    cases h with
    | start => cases hp
    | reading => cases hp
    | @deleting ks r hlist =>
      cases ks with
      | nil => cases hp
      | cons k' ks =>
        cases hp
        exact ⟨_, List.mem_cons_self, hlist⟩

/-- **What the cleanup deletes is over**, in every run, exactly when nobody has stored a block
under the key since the snapshot that is not over yet. -/
theorem deleted_expired_iff (cpu : Fin n) (w : World n)
    (tr : List (Trans (World n × Call ℕ) Ev)) (c' : World n × Call ℕ)
    (h : Path (Step cpu) (w, remove_expired_blocks) tr c') :
    (∀ x ∈ tr, ∀ k bv, Deletes x k → x.pre.1.blocklist.lookup k = some bv →
      expired x.pre.1.clock.toNat bv = true) ↔
    ∀ tr1 x tr2, tr = tr1 ++ x :: tr2 → ∀ k e, Deletes x k → renewed k tr1 = some e →
      Over x.pre.1.clock e := by
  have hlisted : ∀ tr1 x tr2, tr = tr1 ++ x :: tr2 → ∀ k, Deletes x k →
      ∃ ks, k ∈ ks ∧ Listed tr1 x.pre.1 ks := by
    intro tr1 x tr2 htr k hd
    obtain ⟨m, h1, h2⟩ := (htr ▸ h).cut
    obtain ⟨rfl, hs, -⟩ := h2.uncons
    exact listed_of_deletes (at_throughout w tr c' tr1 (x :: tr2) x.pre htr h1 h2) hs hd
  constructor
  · intro hall tr1 x tr2 htr k e hd hr
    obtain ⟨ks, hk, hlist⟩ := hlisted tr1 x tr2 htr k hd
    obtain ⟨bv, hbv, rfl⟩ := Option.map_eq_some_iff.mp ((hlist k hk).1 e hr)
    exact (expired_iff _ bv).mp (hall x (by simp [htr]) k bv hd hbv)
  · intro hall x hx k bv hd hbv
    obtain ⟨tr1, tr2, htr⟩ := List.append_of_mem hx
    obtain ⟨ks, hk, hlist⟩ := hlisted tr1 x tr2 htr k hd
    have hexp : expires x.pre.1 k = some bv.expires_ns := by
      rw [expires, hbv]
      rfl
    rw [expired_iff]
    cases hr : renewed k tr1 with
    | none => exact (hlist k hk).2 hr _ hexp
    | some e =>
      have he := (hlist k hk).1 e hr
      rw [hexp] at he
      cases he
      exact hall tr1 x tr2 htr k _ hd hr

/-! ### A block that is renewed in between -/

/-- A source's block is over and its entry still there. -/
def stale : World 1 :=
  { World.loaded 1 with
    clock := 10
    blocklist := AList.insert (.single 7) ⟨5, 0, BLOCK_AUTO⟩ ∅ }

/-- The cleanup of `stale` up to its first delete. -/
lemma path_stale : ∃ tr, Path (Step 0) (stale, remove_expired_blocks) tr
    (stale, deleting [.single 7] 1) ∧ ∀ x ∈ tr, ∀ k, ¬ Deletes x k := by
  have hlisted : listed 10 (Dict.items stale.blocklist) = [.single 7] := by decide +kernel
  have hread : Step 0 (stale, remove_expired_blocks) (.own ⟨.ktime_get_ns, (10 : U64)⟩) (stale, _) :=
    .own rfl
  have hitems : Step 0 (stale, .call .block_items fun items =>
      deleting (listed 10 items) (listed 10 items).length)
      (.own ⟨.block_items, Dict.items stale.blocklist⟩) (stale, _) := .own rfl
  have hpath := (Path.nil.snoc hread).snoc hitems
  rw [hlisted] at hpath
  refine ⟨_, hpath, ?_⟩
  rintro x hx k ⟨b, hev⟩
  simp only [List.nil_append, List.mem_append, List.mem_singleton] at hx
  rcases hx with rfl | rfl <;> cases hev

/-- The delete of the one listed key. -/
lemma step_delete (w : World 1) : Step 0 (w, deleting [.single 7] 1)
    (.own ⟨.block_delete (.single 7), decide (.single 7 ∈ w.blocklist)⟩)
    ({ w with blocklist := w.blocklist.erase (.single 7) }, deleting [] 1) :=
  .own rfl

theorem deleted_expired_alone : ∃ tr c', Path (Step 0) (stale, remove_expired_blocks) tr c' ∧
    ∀ tr1 x tr2, tr = tr1 ++ x :: tr2 → ∀ k e, Deletes x k → renewed k tr1 = some e →
      Over x.pre.1.clock e := by
  obtain ⟨tr, h, hnone⟩ := path_stale
  have hpath := h.snoc (step_delete stale)
  refine ⟨_, _, hpath, (deleted_expired_iff 0 stale _ _ hpath).mp ?_⟩
  intro x hx k bv hd hbv
  rcases List.mem_append.mp hx with hx | hx
  · exact absurd hd (hnone x hx k)
  · rw [List.mem_singleton] at hx
    subst hx
    obtain ⟨b, hev⟩ := hd
    cases hev
    cases hbv
    decide +kernel

/-- The operator blocks the source for good between the snapshot and the delete. -/
theorem renewed_block_deleted : ∃ tr c', Path (Step 0) (stale, remove_expired_blocks) tr c' ∧
    ∃ x ∈ tr, ∃ k bv, Deletes x k ∧ x.pre.1.blocklist.lookup k = some bv ∧
      expired x.pre.1.clock.toNat bv = false := by
  obtain ⟨tr, h, -⟩ := path_stale
  have hrenew : Step 0 (stale, deleting [.single 7] 1)
      (.other (.block_update (.single 7) ⟨0, 0, BLOCK_MANUAL⟩)) (_, deleting [.single 7] 1) :=
    .other stale (deleting [.single 7] 1) 0 (.block_update (.single 7) ⟨0, 0, BLOCK_MANUAL⟩)
  have hpath := (h.snoc hrenew).snoc (step_delete _)
  exact ⟨_, _, hpath, _, List.mem_append_right _ (List.mem_singleton_self _), .single 7,
    ⟨0, 0, BLOCK_MANUAL⟩, ⟨_, rfl⟩, by decide +kernel, by decide +kernel⟩

end Lookout.Sweep

import Lookout.Firewall
import Lookout.Structs

/-!
The map layouts, as `common.h` and as `firewall.py` write them.

The loader checks the sizes of the structs, and `firewall.py` those of its formats. That two
fields of one width have not been swapped, no check says; that is what is shown here.
-/

namespace Lookout.Layouts

open Lookout.Common Lookout.Firewall Lookout.Structs

/-! ### `common.h` -/

def u8 (name : String) : Member := ⟨name, 1⟩
def u16 (name : String) : Member := ⟨name, 2⟩
def u32 (name : String) : Member := ⟨name, 4⟩
def u64 (name : String) : Member := ⟨name, 8⟩

/-- `struct bpf_spin_lock` is one `__u32`. -/
def bpf_spin_lock (name : String) : Member := u32 name

def lpm_key : List Member := [u32 "prefixlen", u32 "addr"]

def allow_val : List Member := [u64 "hits", u32 "flags", u32 "_pad"]

def block_val : List Member := [u64 "expires_ns", u64 "hits", u32 "reason", u32 "_pad"]

def port_key : List Member := [u8 "proto", u8 "_pad", u16 "port"]

def port_val : List Member := [u64 "hits", u32 "action", u32 "_pad"]

def src_state : List Member :=
  [bpf_spin_lock "lock", u64 "tokens", u64 "last_refill_ns", u64 "last_seen_ns", u64 "packets",
    u64 "bytes", u64 "dropped", u64 "syn", u64 "fin", u64 "rst", u64 "udp", u64 "icmp",
    u64 "port_bitmap"]

def fw_config : List Member :=
  [u64 "rate_pps", u64 "burst_pkts", u32 "features", u32 "aggressiveness", u32 "default_policy",
    u32 "_pad"]

/-! ### `firewall.py` -/

def LPM_KEY : String := "<I4s"
def ALLOW_VAL : String := "<QII"
def BLOCK_VAL : String := "<QQII"
def PORT_KEY : String := "<BxH"
def PORT_VAL : String := "<QII"
def SRC_STATE : String := "<I4x12Q"
def CONFIG : String := "<QQIIII"

def SRC_STATE_FIELDS : List String :=
  ["lock", "tokens", "last_refill_ns", "last_seen_ns", "packets", "bytes", "dropped", "syn",
    "fin", "rst", "udp", "icmp", "port_bitmap"]

def struct_pack (fmt : String) (vs : List Val) : Option Bytes :=
  (format fmt).bind fun f => pack f vs

def struct_unpack (fmt : String) (l : Bytes) : Option (List Val) :=
  (format fmt).bind fun f => unpack f l

/-- `lpm_key`, from the network on. -/
def pack_lpm_key (prefixlen : ℤ) (packed : Bytes) : Option Bytes :=
  struct_pack LPM_KEY [.int prefixlen, .bytes packed]

/-- `allow`. -/
def pack_allow_val : Option Bytes := struct_pack ALLOW_VAL [.int 0, .int 0, .int 0]

/-- `block`. -/
def pack_block_val (expires reason : ℤ) : Option Bytes :=
  struct_pack BLOCK_VAL [.int expires, .int 0, .int reason, .int 0]

/-- `port_key`, after its checks. -/
def pack_port_key (proto port : ℤ) : Option Bytes := struct_pack PORT_KEY [.int proto, .int port]

/-- `set_port_rule`: one copy for each CPU. -/
def pack_port_val (action : ℤ) (ncpu : ℕ) : Option Bytes :=
  (struct_pack PORT_VAL [.int 0, .int action, .int 0]).map fun l => (List.replicate ncpu l).flatten

/-- `update_config`. -/
def pack_config (rate_pps burst_pkts features aggressiveness default_policy : ℤ) : Option Bytes :=
  struct_pack CONFIG
    [.int rate_pps, .int burst_pkts, .int features, .int aggressiveness, .int default_policy,
      .int 0]

/-- `unpack_cidr`: the length and the bytes of the address. -/
def unpack_lpm_key (key : Bytes) : Option (Val × Val) :=
  match struct_unpack LPM_KEY key with
  | some [plen, addr] => some (plen, addr)
  | _ => none

/-- `list_allowed`: the hits. -/
def unpack_allow_val (val : Bytes) : Option Val := (struct_unpack ALLOW_VAL val).bind List.head?

/-- `list_blocked`: `expires, hits, reason, _`. -/
def unpack_block_val (val : Bytes) : Option (Val × Val × Val) :=
  match struct_unpack BLOCK_VAL val with
  | some [expires, hits, reason, _] => some (expires, hits, reason)
  | _ => none

/-- `is_blocked` and `remove_expired_blocks`: the deadline only. -/
def unpack_expires (val : Bytes) : Option Val := (struct_unpack BLOCK_VAL val).bind List.head?

/-- `list_port_rules`: `proto, port`. -/
def unpack_port_key (key : Bytes) : Option (Val × Val) :=
  match struct_unpack PORT_KEY key with
  | some [proto, port] => some (proto, port)
  | _ => none

/-- `list_port_rules`: the hits and the action of each copy. -/
def unpack_copies (val : Bytes) : Option (List (Val × Val)) :=
  ((format PORT_VAL).bind fun f => iter_unpack f val).bind fun copies =>
    copies.mapM fun
      | [hits, action, _] => some (hits, action)
      | _ => none

/-- `read_states`: the fields of one entry, by their names. -/
def unpack_state (val : Bytes) : Option (List (String × Val)) :=
  (struct_unpack SRC_STATE val).map fun vs => SRC_STATE_FIELDS.zip vs

/-- `read_config`: the settings, by their names. -/
def unpack_config (val : Bytes) : Option (List (String × Val)) :=
  match struct_unpack CONFIG val with
  | some [rate, burst, feats, level, policy, _] =>
    some [("rate_pps", rate), ("burst_pkts", burst), ("features", feats),
      ("aggressiveness", level), ("default_policy", policy)]
  | _ => none

/-- `sum_percpu`: the number of CPU `i` in a map of one `__u64`. -/
def unpack_from (raw : Bytes) (i : ℕ) : ℕ := of_le ((raw.drop (i * 8)).take 8)

/-- `BpfMap.__init__`: the size of the buffer for a value. -/
def value_size (size ncpu : ℕ) (percpu : Bool) : ℕ :=
  if percpu then ((size + 7) / 8 * 8) * ncpu else size

/-! ### Format and struct -/

/-- A format, the struct it is for, the members its values stand for in their order, and the
members it skips. -/
structure Mirror where
  fmt : String
  struct : List Member
  places : List Place
  skipped : List Member

namespace Mirror

def lpm_key : Mirror :=
  ⟨LPM_KEY, Layouts.lpm_key, [.int (u32 "prefixlen"), .raw (u32 "addr")], []⟩

def allow_val : Mirror := ⟨ALLOW_VAL, Layouts.allow_val, Layouts.allow_val.map .int, []⟩

def block_val : Mirror := ⟨BLOCK_VAL, Layouts.block_val, Layouts.block_val.map .int, []⟩

def port_key : Mirror :=
  ⟨PORT_KEY, Layouts.port_key, [.int (u8 "proto"), .int (u16 "port")], [u8 "_pad"]⟩

def port_val : Mirror := ⟨PORT_VAL, Layouts.port_val, Layouts.port_val.map .int, []⟩

def src_state : Mirror := ⟨SRC_STATE, Layouts.src_state, Layouts.src_state.map .int, []⟩

def fw_config : Mirror := ⟨CONFIG, Layouts.fw_config, Layouts.fw_config.map .int, []⟩

end Mirror

def mirrors : List Mirror :=
  [.lpm_key, .allow_val, .block_val, .port_key, .port_val, .src_state, .fw_config]

/-- The format has the size of the struct. Packing the values of its members makes its memory,
and unpacking any memory of it gives them back. -/
def Mirror.Right (m : Mirror) : Prop :=
  ∃ f, format m.fmt = some f ∧ calcsize f = sizeof m.struct ∧
    ∀ v, InRange v (layout m.struct) →
      ((∀ p ∈ m.skipped, v p.name = 0) →
        pack f (m.places.map (Place.val v)) = some (image v (layout m.struct))) ∧
      ∀ l, Holds v (layout m.struct) l → unpack f l = some (m.places.map (Place.val v))

/-- The format of a mirror and what it is seen to skip. -/
def Mirror.check (m : Mirror) : Bool :=
  match format m.fmt with
  | some f => view f (layout m.struct) = some (m.places, m.skipped) ∧ calcsize f = sizeof m.struct
  | none => false

lemma Mirror.right_of_check {m : Mirror} (h : m.check = true) : m.Right := by
  unfold check at h
  split at h
  · next f hf =>
    obtain ⟨hview, hsize⟩ := of_decide_eq_true h
    have hm := mirrors_of_view hview
    exact ⟨f, hf, hsize, fun v hr => ⟨hm.pack hr, fun l hl => hm.unpack hr hl⟩⟩
  · cases h

lemma mirrors_check : mirrors.all Mirror.check = true := by decide +kernel

/-- **The seven formats mirror the seven structs.** -/
theorem mirrors_right : ∀ m ∈ mirrors, m.Right :=
  fun m hm => Mirror.right_of_check (List.all_eq_true.mp mirrors_check m hm)

example : mirrors.map (fun m => sizeof m.struct) = [8, 16, 24, 4, 16, 104, 32] := by decide +kernel

lemma struct_pack_eq {m : Mirror} (hm : m ∈ mirrors) {v : Values}
    (hr : InRange v (layout m.struct)) (hz : ∀ p ∈ m.skipped, v p.name = 0) :
    struct_pack m.fmt (m.places.map (Place.val v)) = some (image v (layout m.struct)) := by
  obtain ⟨f, hf, -, h⟩ := mirrors_right m hm
  rw [struct_pack, hf, Option.bind_some, (h v hr).1 hz]

lemma struct_unpack_eq {m : Mirror} (hm : m ∈ mirrors) {v : Values}
    (hr : InRange v (layout m.struct)) {l : Bytes} (hl : Holds v (layout m.struct) l) :
    struct_unpack m.fmt l = some (m.places.map (Place.val v)) := by
  obtain ⟨f, hf, -, h⟩ := mirrors_right m hm
  rw [struct_unpack, hf, Option.bind_some, (h v hr).2 l hl]

/-! ### What is packed and what is read -/

/-- What each method packs is the struct with these members. The members a method has no argument
for are zero. -/
structure Packs (v : Values) : Prop where
  lpm_key : InRange v (layout lpm_key) →
    pack_lpm_key (v "prefixlen") (le 4 (v "addr")) = some (image v (layout lpm_key))
  allow_val : InRange v (layout allow_val) → v "hits" = 0 → v "flags" = 0 → v "_pad" = 0 →
    pack_allow_val = some (image v (layout allow_val))
  block_val : InRange v (layout block_val) → v "hits" = 0 → v "_pad" = 0 →
    pack_block_val (v "expires_ns") (v "reason") = some (image v (layout block_val))
  port_key : InRange v (layout port_key) → v "_pad" = 0 →
    pack_port_key (v "proto") (v "port") = some (image v (layout port_key))
  port_val : InRange v (layout port_val) → v "hits" = 0 → v "_pad" = 0 → ∀ ncpu,
    pack_port_val (v "action") ncpu =
      some (List.replicate ncpu (image v (layout port_val))).flatten
  fw_config : InRange v (layout fw_config) → v "_pad" = 0 →
    pack_config (v "rate_pps") (v "burst_pkts") (v "features") (v "aggressiveness")
      (v "default_policy") = some (image v (layout fw_config))

lemma packs (v : Values) : Packs v where
  lpm_key hr := struct_pack_eq (m := .lpm_key) (by simp [mirrors]) hr (by simp [Mirror.lpm_key])
  allow_val hr h1 h2 h3 := by
    have h : struct_pack ALLOW_VAL [.int (v "hits"), .int (v "flags"), .int (v "_pad")] = _ :=
      struct_pack_eq (m := .allow_val) (by simp [mirrors]) hr (by simp [Mirror.allow_val])
    rw [h1, h2, h3] at h
    exact h
  block_val hr h1 h2 := by
    have h : struct_pack BLOCK_VAL
        [.int (v "expires_ns"), .int (v "hits"), .int (v "reason"), .int (v "_pad")] = _ :=
      struct_pack_eq (m := .block_val) (by simp [mirrors]) hr (by simp [Mirror.block_val])
    rw [h1, h2] at h
    exact h
  port_key hr h1 :=
    struct_pack_eq (m := .port_key) (by simp [mirrors]) hr (by simp [Mirror.port_key, u8, h1])
  port_val hr h1 h2 ncpu := by
    have h : struct_pack PORT_VAL [.int (v "hits"), .int (v "action"), .int (v "_pad")] = _ :=
      struct_pack_eq (m := .port_val) (by simp [mirrors]) hr (by simp [Mirror.port_val])
    rw [h1, h2] at h
    exact congrArg (Option.map fun l => (List.replicate ncpu l).flatten) h
  fw_config hr h1 := by
    have h : struct_pack CONFIG
        [.int (v "rate_pps"), .int (v "burst_pkts"), .int (v "features"), .int (v "aggressiveness"),
          .int (v "default_policy"), .int (v "_pad")] = _ :=
      struct_pack_eq (m := .fw_config) (by simp [mirrors]) hr (by simp [Mirror.fw_config])
    rw [h1] at h
    exact h

/-- What each method reads from the memory of a struct is the member it takes it for. The fields
of `read_states` and `read_config` have the names of the members. -/
structure Reads (v : Values) (l : Bytes) : Prop where
  lpm_key : InRange v (layout lpm_key) → Holds v (layout lpm_key) l →
    unpack_lpm_key l = some (.int (v "prefixlen"), .bytes (le 4 (v "addr")))
  allow_val : InRange v (layout allow_val) → Holds v (layout allow_val) l →
    unpack_allow_val l = some (.int (v "hits"))
  block_val : InRange v (layout block_val) → Holds v (layout block_val) l →
    unpack_block_val l = some (.int (v "expires_ns"), .int (v "hits"), .int (v "reason")) ∧
      unpack_expires l = some (.int (v "expires_ns"))
  port_key : InRange v (layout port_key) → Holds v (layout port_key) l →
    unpack_port_key l = some (.int (v "proto"), .int (v "port"))
  src_state : InRange v (layout src_state) → Holds v (layout src_state) l →
    unpack_state l = some (src_state.map fun m => (m.name, .int (v m.name)))
  fw_config : InRange v (layout fw_config) → Holds v (layout fw_config) l →
    unpack_config l = some ((fw_config.take 5).map fun m => (m.name, .int (v m.name)))

lemma reads (v : Values) (l : Bytes) : Reads v l where
  lpm_key hr hl := by
    have h : struct_unpack LPM_KEY l = some [.int (v "prefixlen"), .bytes (le 4 (v "addr"))] :=
      struct_unpack_eq (m := .lpm_key) (by simp [mirrors]) hr hl
    rw [unpack_lpm_key, h]
  allow_val hr hl := by
    have h : struct_unpack ALLOW_VAL l =
        some [.int (v "hits"), .int (v "flags"), .int (v "_pad")] :=
      struct_unpack_eq (m := .allow_val) (by simp [mirrors]) hr hl
    rw [unpack_allow_val, h]
    rfl
  block_val hr hl := by
    have h : struct_unpack BLOCK_VAL l =
        some [.int (v "expires_ns"), .int (v "hits"), .int (v "reason"), .int (v "_pad")] :=
      struct_unpack_eq (m := .block_val) (by simp [mirrors]) hr hl
    rw [unpack_block_val, unpack_expires, h]
    exact ⟨rfl, rfl⟩
  port_key hr hl := by
    have h : struct_unpack PORT_KEY l = some [.int (v "proto"), .int (v "port")] :=
      struct_unpack_eq (m := .port_key) (by simp [mirrors]) hr hl
    rw [unpack_port_key, h]
  src_state hr hl := by
    have h : struct_unpack SRC_STATE l = some ((src_state.map .int).map (Place.val v)) :=
      struct_unpack_eq (m := .src_state) (by simp [mirrors]) hr hl
    rw [unpack_state, h]
    rfl
  fw_config hr hl := by
    have h : struct_unpack CONFIG l =
        some [.int (v "rate_pps"), .int (v "burst_pkts"), .int (v "features"),
          .int (v "aggressiveness"), .int (v "default_policy"), .int (v "_pad")] :=
      struct_unpack_eq (m := .fw_config) (by simp [mirrors]) hr hl
    rw [unpack_config, h]
    rfl

/-! ### Per-CPU maps -/

/-- The elements of a value, one for each CPU, are memory of a struct with the members `vs`. -/
def Elements (s : List Member) (vs : List Values) (elems : List Bytes) : Prop :=
  List.Forall₂ (fun v l => InRange v (layout s) ∧ Holds v (layout s) l) vs elems

/-- The buffer for a value of `size` bytes from each CPU: it is as long as `BpfMap` makes it, and
its slices are the elements. -/
structure PerCpu (size : ℕ) (elems : List Bytes) (buf : Bytes) : Prop where
  length : buf.length = value_size size elems.length true
  slice : ∀ i (h : i < elems.length), slice size i buf = elems.get ⟨i, h⟩

lemma perCpu {size : ℕ} {elems : List Bytes} {buf : Bytes} (h : Copied size elems buf) :
    PerCpu size elems buf where
  length := length_of_copied h
  slice _ hi := slice_of_copied h hi

/-- The number of each CPU in a map of one `__u64`. -/
lemma unpack_from_eq {elems : List Bytes} {buf : Bytes} (h : Copied 8 elems buf) {i : ℕ}
    (hi : i < elems.length) : unpack_from buf i = of_le (elems.get ⟨i, hi⟩) :=
  congrArg of_le (slice_of_copied h hi)

/-- The hits and the action of each CPU's copy of a rule. -/
lemma unpack_copies_eq {vs : List Values} {elems : List Bytes} {buf : Bytes}
    (hel : Elements port_val vs elems) (h : Copied 16 elems buf) :
    unpack_copies buf = some (vs.map fun v => (.int (v "hits"), .int (v "action"))) := by
  obtain ⟨f, hf, hsize, hright⟩ := mirrors_right .port_val (by simp [mirrors])
  have h16 : calcsize f = 16 := hsize.trans (by decide +kernel)
  have hiter := iter_unpack_of_copied (f := f) (by omega) (by rw [h16]; rfl) (by rwa [h16])
  have hmap : elems.mapM (unpack f) =
      some (vs.map fun v => [.int (v "hits"), .int (v "action"), .int (v "_pad")]) := by
    clear h hiter
    induction hel with
    | nil => rfl
    | cons hl _ ih =>
      rw [List.mapM_cons, (hright _ hl.1).2 _ hl.2, ih]
      rfl
  have hf' : format PORT_VAL = some f := hf
  rw [unpack_copies, hf', Option.bind_some, hiter, hmap, Option.bind_some, List.mapM_map]
  exact List.mapM_pure (m := Option)

/-- A rule that Python stores is on every CPU. -/
lemma copied_port_val {v : Values} (ncpu : ℕ) :
    Copied 16 (List.replicate ncpu (image v (layout port_val)))
      (List.replicate ncpu (image v (layout port_val))).flatten := by
  induction ncpu with
  | zero => exact ⟨[], rfl, by simp, by simp, rfl⟩
  | succ ncpu ih =>
    refine copied_cons.mpr ⟨[], _, ?_, rfl, ih, by simp [List.replicate_succ]⟩
    exact (holds_length (holds_image v (layout port_val))).trans (by decide +kernel)

/-- **Both sides mean the same bytes by a record.** For each of the seven structs, packing the
values of the members makes its memory and unpacking any memory of it gives them back; each method
packs and reads the members it means to; and of a value from several CPUs each slice is the value of
its CPU. -/
theorem layouts_agree :
    (∀ m ∈ mirrors, m.Right) ∧ (∀ v, Packs v) ∧ (∀ v l, Reads v l) ∧
    (∀ size elems buf, Copied size elems buf → PerCpu size elems buf) ∧
    (∀ elems buf, Copied 8 elems buf → ∀ i (hi : i < elems.length),
      unpack_from buf i = of_le (elems.get ⟨i, hi⟩)) ∧
    (∀ vs elems buf, Elements port_val vs elems → Copied 16 elems buf →
      unpack_copies buf = some (vs.map fun v => (.int (v "hits"), .int (v "action")))) ∧
    ∀ v ncpu, Copied 16 (List.replicate ncpu (image v (layout port_val)))
      (List.replicate ncpu (image v (layout port_val))).flatten :=
  ⟨mirrors_right, packs, reads, fun _ _ _ h => perCpu h, fun _ _ h _ hi => unpack_from_eq h hi,
    fun _ _ _ hel h => unpack_copies_eq hel h, fun _ ncpu => copied_port_val ncpu⟩

/-! ### The records of the model -/

/-- The members of `struct fw_config`. -/
def config_values (c : FwConfig) : Values
  | "rate_pps" => c.rate_pps.toNat
  | "burst_pkts" => c.burst_pkts.toNat
  | "features" => c.features.toNat
  | "aggressiveness" => c.aggressiveness.toNat
  | "default_policy" => c.default_policy.toNat
  | _ => 0

lemma inRange_config (c : FwConfig) : InRange (config_values c) (layout fw_config) := by
  refine inRange_of_members (by decide +kernel) fun m hm => ?_
  simp only [fw_config, List.mem_cons, List.not_mem_nil, or_false] at hm
  rcases hm with rfl | rfl | rfl | rfl | rfl | rfl
  · exact c.rate_pps.isLt
  · exact c.burst_pkts.isLt
  · exact c.features.isLt
  · exact c.aggressiveness.isLt
  · exact c.default_policy.isLt
  · exact Nat.pow_pos (by decide)

/-- **`read_config` reads the model's configuration** from the bytes of the struct. -/
theorem read_config_bytes (c : FwConfig) {l : Bytes}
    (hl : Holds (config_values c) (layout fw_config) l) :
    unpack_config l =
      some [("rate_pps", .int (Firewall.unpack_config c).rate_pps),
        ("burst_pkts", .int (Firewall.unpack_config c).burst_pkts),
        ("features", .int (Firewall.unpack_config c).features.toNat),
        ("aggressiveness", .int (Firewall.unpack_config c).aggressiveness),
        ("default_policy", .int (Firewall.unpack_config c).default_policy.toNat)] :=
  (reads (config_values c) l).fw_config (inRange_config c) hl

/-- **`update_config` writes the bytes of the model's new configuration**, when it fits. -/
theorem write_config_bytes {cfg : Config} (h : Fits cfg) :
    pack_config cfg.rate_pps cfg.burst_pkts cfg.features.toNat cfg.aggressiveness
      cfg.default_policy.toNat = some (image (config_values (packed cfg)) (layout fw_config)) := by
  obtain ⟨⟨hr, hr'⟩, ⟨hb, hb'⟩, ha, ha'⟩ := h
  have hpack := (packs (config_values (packed cfg))).fw_config (inRange_config _) rfl
  have hint : ∀ (w : ℕ) (x : ℤ), 0 ≤ x → x < 2 ^ w → ((BitVec.ofInt w x).toNat : ℤ) = x := by
    intro w x hx hx'
    rw [BitVec.toNat_ofInt, Int.toNat_of_nonneg (Int.emod_nonneg _ (by positivity))]
    push_cast
    exact Int.emod_eq_of_lt hx hx'
  have hrate : (config_values (packed cfg) "rate_pps" : ℤ) = cfg.rate_pps := hint 64 _ hr hr'
  have hburst : (config_values (packed cfg) "burst_pkts" : ℤ) = cfg.burst_pkts := hint 64 _ hb hb'
  have hlevel : (config_values (packed cfg) "aggressiveness" : ℤ) = cfg.aggressiveness :=
    hint 32 _ ha ha'
  rw [hrate, hburst, hlevel] at hpack
  exact hpack

/-- The members of `struct block_val`. -/
def block_values (bv : BlockVal) : Values
  | "expires_ns" => bv.expires_ns.toNat
  | "hits" => bv.hits
  | "reason" => bv.reason.toNat
  | _ => 0

/-- **`list_blocked` reads the model's entry** from the bytes of the struct. -/
theorem read_block_bytes (bv : BlockVal) (hhits : bv.hits < 256 ^ 8) {l : Bytes}
    (hl : Holds (block_values bv) (layout block_val) l) :
    unpack_block_val l =
      some (.int bv.expires_ns.toNat, .int bv.hits, .int bv.reason.toNat) := by
  refine ((reads (block_values bv) l).block_val ?_ hl).1
  refine inRange_of_members (by decide +kernel) fun m hm => ?_
  simp only [block_val, List.mem_cons, List.not_mem_nil, or_false] at hm
  rcases hm with rfl | rfl | rfl | rfl
  · exact bv.expires_ns.isLt
  · exact hhits
  · exact bv.reason.isLt
  · exact Nat.pow_pos (by decide)

end Lookout.Layouts

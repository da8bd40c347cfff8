import Lookout.Fwctl
import Lookout.Stages

/-!
Port rules, from the command that sets one to the packets it decides.

The key of a rule is built twice: by `port_key` from a protocol's name and a number, and by the
program from the bytes of a frame. For a protocol without ports the program looks up port 0, while
`port_key` takes any port, and stores a rule that no frame asks for.
-/

namespace Lookout.Rules

open Lookout.Effects Lookout.Effects.Prog Lookout.Dicts Lookout.Lpm Lookout.Lpm.Covering
open Lookout.Common Lookout.Packet Lookout.Limiter Lookout.Kernel Lookout.Xdp Lookout.Firewall
open Lookout.Fwctl Lookout.Traffic Lookout.Headers Lookout.Stages

variable {n : ℕ}

/-! ### What the program asks the port rules -/

/-- The key of the last rule looked up before `update_state`, and the verdict and the reason the
packet comes there with. -/
def reading : Option PortKey → List (Event calls) → Option (PortKey × Verdict × Stat)
  | _, [] => none
  | _, ⟨.port_lookup k, _⟩ :: l => reading (some k) l
  | asked, ⟨.update_state_label verdict reason, _⟩ :: _ => asked.map fun k => (k, verdict, reason)
  | asked, _ :: l => reading asked l

/-- The key under which the program looks for a rule for the frame, and what comes of it; `none`
for a frame that does not come to the port rules. -/
def ruling (cpu : Fin n) (f : Frame) (w : World n) : Option (PortKey × Verdict × Stat) :=
  reading none (log cpu f w)

/-- What a rule says. -/
def verdict_of (action : U32) : Verdict × Stat :=
  if action = ACTION_DENY then (.drop, .drop_port_rule) else (.pass, .pass_rule)

/-- The rule of a key on one CPU, or the default policy. -/
def answer (cpu : Fin n) (w : World n) (k : PortKey) : Verdict × Stat :=
  match w.portrules.lookup k with
  | some rule => verdict_of (rule cpu).action
  | none => default_policy w

/-- The packet comes to the port rules, if its source is on neither list. -/
def Comes (cfg : FwConfig) (ip : IpHdr) (l4 : L4Hdr) : Prop :=
  ip.is_frag = false ∧
    ¬ (has cfg.features FEAT_PROTO_SANITY = true ∧ ip.proto = IPPROTO_TCP ∧
      tcp_flags_sane l4.tcp_flags = false) ∧
    has cfg.features FEAT_PORT_RULES = true

instance (cfg : FwConfig) (ip : IpHdr) (l4 : L4Hdr) : Decidable (Comes cfg ip l4) :=
  inferInstanceAs (Decidable (_ ∧ _ ∧ _))

variable {cpu : Fin n} {w : World n}

/-- A source on the blocklist does not come further. -/
lemma reading_blocklist {a : Addr} {next : Call Verdict} :
    reading none (events (exec cpu) (blocklist_stage w.config.features a w.clock next) w) =
      if has w.config.features FEAT_BLOCKLIST ∧ Blocked w a then none
      else reading none (events (exec cpu) next w) := by
  have hiff := blocked_iff w a
  unfold blocklist_stage
  by_cases hfeat : has w.config.features FEAT_BLOCKLIST = true
  · rw [if_pos hfeat]
    have hans : exec cpu w (.block_lookup a) = (find w.blocklist a, w) := rfl
    simp only [op_eq, call_bind, ret_bind, events, reading, hans]
    cases hf : find w.blocklist a with
    | none =>
      rw [hf] at hiff
      rw [if_neg fun h => absurd (hiff.mp h.2) (by simp)]
    | some e =>
      rw [hf, Option.any_some] at hiff
      by_cases hact : active e.2 w.clock = true
      · rw [if_pos ⟨hfeat, hiff.mpr hact⟩]
        simp only [hact, if_true]
        rfl
      · rw [if_neg fun h => hact (hiff.mp h.2)]
        simp only [hact, Bool.false_eq_true, if_false]
  · rw [if_neg hfeat, if_neg fun h => hfeat h.1]

/-- A source on the allowlist does not come further. -/
lemma reading_allowlist {a : Addr} {next : Call Verdict} :
    reading none (events (exec cpu) (allowlist_stage w.config.features a next) w) =
      if has w.config.features FEAT_ALLOWLIST ∧ Listed w a then none
      else reading none (events (exec cpu) next w) := by
  have hiff := listed_iff w a
  unfold allowlist_stage
  by_cases hfeat : has w.config.features FEAT_ALLOWLIST = true
  · rw [if_pos hfeat]
    have hans : exec cpu w (.allow_lookup a) = (find w.allowlist a, w) := rfl
    simp only [op_eq, call_bind, ret_bind, events, reading, hans]
    cases hf : find w.allowlist a with
    | none =>
      rw [hf] at hiff
      rw [if_neg fun h => absurd (hiff.mp h.2) (by simp)]
    | some e =>
      rw [hf] at hiff
      rw [if_pos ⟨hfeat, hiff.mpr rfl⟩]
      rfl
  · rw [if_neg hfeat, if_neg fun h => hfeat h.1]

lemma reading_port {feat policy : U32} {proto : Byte} {rule_port : U16}
    {p : Verdict × Stat → Pending}
    (hp : ∀ r, ((p r).verdict, (p r).reason) = r) (hfeat : has feat FEAT_PORT_RULES = true)
    (hpolicy : policy = w.config.default_policy) :
    reading none (events (exec cpu)
      (port_stage feat policy proto rule_port >>= fun r => update_state (p r)) w) =
        some (⟨proto, rule_port⟩, answer cpu w ⟨proto, rule_port⟩) := by
  have hlabel : ∀ (w' : World n) (k : PortKey) (r : Verdict × Stat),
      reading (some k) (events (exec cpu) (update_state (p r)) w') = some (k, r) :=
    fun w' k r => congrArg (fun r => some (k, r)) (hp r)
  have hans : exec cpu w (.port_lookup ⟨proto, rule_port⟩) =
    ((w.portrules.lookup ⟨proto, rule_port⟩).map fun v => v cpu, w) := rfl
  unfold port_stage answer verdict_of default_policy
  rw [if_pos hfeat]
  simp only [op_eq, call_bind, ret_bind, events, reading, hans]
  cases w.portrules.lookup ⟨proto, rule_port⟩ with
  | none =>
    dsimp only [Option.map_none]
    rw [hpolicy]
    split_ifs <;> exact hlabel _ _ _
  | some rule =>
    dsimp only [Option.map_some]
    simp only [call_bind, events, reading]
    split_ifs <;> exact hlabel _ _ _

/-- After the lists. -/
lemma reading_l4 (f : Frame) (ip : IpHdr) :
    reading none (events (exec cpu) (l4_stage f w.clock w.config ip) w) =
      (parse_l4 f ip).bind fun l4 =>
        if Comes w.config ip l4 then
          some (⟨ip.proto, l4.rule_port⟩, answer cpu w ⟨ip.proto, l4.rule_port⟩)
        else none := by
  unfold l4_stage
  cases parse_l4 f ip with
  | none => rfl
  | some l4 =>
    rw [Option.bind_some]
    unfold verdict_stage
    dsimp only
    by_cases hcomes : Comes w.config ip l4
    · obtain ⟨hfrag, hsane, hfeat⟩ := id hcomes
      have hwhole : ¬ ip.is_frag = true := by rw [hfrag]; decide
      rw [if_pos hcomes, if_neg hwhole, if_neg hsane]
      exact reading_port (fun _ => rfl) hfeat rfl
    · rw [if_neg hcomes]
      split_ifs with hfrag hdrop hdeny hsane
      · rfl
      · rfl
      · rfl
      · rfl
      · have hfeat : ¬ has w.config.features FEAT_PORT_RULES = true := fun h =>
          hcomes ⟨by simpa using hfrag, hsane, h⟩
        unfold port_stage
        rw [if_neg hfeat]
        rfl

/-- **What a frame asks the port rules for**, from its headers. -/
theorem ruling_eq (cpu : Fin n) (f : Frame) (w : World n) :
    ruling cpu f w =
      match parse_l3 f with
      | .ipv4 ip =>
        if has w.config.features FEAT_ALLOWLIST ∧ Listed w ip.saddr then none
        else if has w.config.features FEAT_BLOCKLIST ∧ Blocked w ip.saddr then none
        else (parse_l4 f ip).bind fun l4 =>
          if Comes w.config ip l4 then
            some (⟨ip.proto, l4.rule_port⟩, answer cpu w ⟨ip.proto, l4.rule_port⟩)
          else none
      | _ => none := by
  have hstart : ruling cpu f w = reading none (events (exec cpu)
      (config_stage f w.clock w.config) (Blocklist.received cpu f w)) := rfl
  rw [hstart]
  unfold config_stage
  cases parse_l3 f with
  | malformed => rfl
  | non_ipv4 => rfl
  | ipv4 ip =>
    refine (reading_allowlist (w := Blocklist.received cpu f w)).trans ?_
    refine if_congr Iff.rfl rfl ?_
    refine (reading_blocklist (w := Blocklist.received cpu f w)).trans ?_
    refine if_congr Iff.rfl rfl ?_
    exact reading_l4 (w := Blocklist.received cpu f w) f ip

/-! ### The key of a rule -/

/-- The key `port_key` makes of a protocol number and a port. -/
def key (num : ℕ) (port : ℤ) : PortKey := ⟨BitVec.ofNat 8 num, BitVec.ofInt 16 port⟩

/-- What `port_key` comes to. -/
def key_of (py : Str) (proto : String) (port : ℤ) : Except PyError PortKey :=
  match parse_proto py proto with
  | .ok num =>
    if 0 ≤ port ∧ port ≤ port_limit num then .ok (key num port) else .error (out_of_range num port)
  | .error e => .error e

lemma parse_proto_le {py : Str} {proto : String} {num : ℕ} (h : parse_proto py proto = .ok num) :
    num ≤ 255 := by
  unfold parse_proto at h
  dsimp only at h
  split at h
  · next num' hlookup =>
    cases h
    have hall : ∀ e ∈ PROTOCOLS, e.2 ≤ 255 := by decide
    obtain ⟨l1, l2, hl, -⟩ := List.lookup_eq_some_iff.mp hlookup
    exact hall (py.lower proto, num) (by rw [hl]; simp)
  · split_ifs at h
    split at h
    · split_ifs at h with hle
      cases h
      exact hle
    · cases h

lemma port_limit_le (num : ℕ) : port_limit num ≤ 65535 := by
  unfold port_limit
  split_ifs <;> decide

/-- The checks leave nothing for `struct.pack` to refuse. -/
lemma port_key_eq (py : Str) (proto : String) (port : ℤ) :
    port_key py proto port = .ret (key_of py proto port) := by
  unfold port_key key_of
  cases hnum : parse_proto py proto with
  | error e => rfl
  | ok num =>
    have hle := parse_proto_le hnum
    have hlimit := port_limit_le num
    change (if 0 ≤ port ∧ port ≤ port_limit num then _ else _ : Py PortKey) = _
    dsimp only
    split_ifs with hport
    · have hp : (0 : ℤ) ≤ num ∧ (num : ℤ) < 2 ^ 8 := by omega
      have hq : 0 ≤ port ∧ port < 2 ^ 16 := by omega
      rw [pack_ok hp, pack_ok hq, BitVec.ofInt_natCast]
      rfl
    · rfl

lemma digit_ascii {c : Char} (h : c.isDigit = true) : c.toNat < 128 ∧ c.toLower = c := by
  obtain ⟨hlow, hhigh⟩ := Char.isDigit_iff_toNat.mp h
  have hzero : '0'.toNat = 48 := rfl
  have hnine : '9'.toNat = 57 := rfl
  have hupper : ¬ (c.val ≥ 65 ∧ c.val ≤ 90) := by
    rintro ⟨hge, -⟩
    have hle : 65 ≤ c.toNat := hge
    omega
  refine ⟨by omega, ?_⟩
  unfold Char.toLower
  exact dif_neg hupper

/-- The interpreter reads a known name as it stands. -/
lemma parse_known (py : Str) {e : String × ℕ} (he : e ∈ PROTOCOLS) :
    parse_proto py e.1 = .ok e.2 := by
  have hnames : ∀ e ∈ PROTOCOLS, (e.1.toList.all fun c => c.toNat < 128) = true ∧
      String.ofList (e.1.toList.map Char.toLower) = e.1 ∧ PROTOCOLS.lookup e.1 = some e.2 := by
    decide +kernel
  obtain ⟨hall, hlower, hlookup⟩ := hnames e he
  have hascii : ∀ c ∈ e.1.toList, c.toNat < 128 :=
    fun c hc => of_decide_eq_true (List.all_eq_true.mp hall c hc)
  unfold parse_proto
  rw [py.lower_ascii _ hascii, hlower]
  dsimp only
  rw [hlookup]

/-- And a number from its digits. -/
lemma parse_digits (py : Str) {num : ℕ} (h : num ≤ 255) :
    parse_proto py (toString num) = .ok num := by
  have hlist : (toString num).toList = Nat.toDigits 10 num := Nat.toList_repr
  have hdigit : ∀ c ∈ (toString num).toList, c.isDigit = true := by
    rw [hlist]
    exact fun c hc => Nat.isDigit_of_mem_toDigits (by decide) (by decide) hc
  have hall : (toString num).toList.all Char.isDigit = true := List.all_eq_true.mpr hdigit
  have hascii : ∀ c ∈ (toString num).toList, c.toNat < 128 :=
    fun c hc => (digit_ascii (hdigit c hc)).1
  have hne : toString num ≠ "" := Nat.repr_ne_empty
  have hlow : py.lower (toString num) = toString num := by
    rw [py.lower_ascii _ hascii, List.map_congr_left fun c hc => (digit_ascii (hdigit c hc)).2,
      List.map_id', String.ofList_toList]
  have hlookup : PROTOCOLS.lookup (toString num) = none := by
    have hletters : ∀ e ∈ PROTOCOLS, e.1.toList.all Char.isDigit = false := by decide +kernel
    rw [List.lookup_eq_none_iff]
    intro e he
    rw [bne_iff_ne]
    intro heq
    rw [heq, hletters e he] at hall
    cases hall
  have hisdigit : py.isdigit (toString num) = true := by
    rw [py.isdigit_ascii _ hascii, hall, Bool.and_true, bne_iff_ne]
    exact hne
  have hint : py.int (toString num) = .ok num := by
    have hlen : (toString num).length ≤ 4300 := by
      rw [← String.length_toList, hlist]
      exact ((Nat.length_toDigits_le_iff (by decide) (by decide)).mpr (by omega)).trans
        (by decide : 3 ≤ 4300)
    rw [py.int_ascii _ hne hall hlen, hlist, Nat.ofDigitChars_ten_toDigits]
  unfold parse_proto
  rw [hlow]
  dsimp only
  rw [hlookup, if_pos hisdigit, hint]
  exact if_pos h

/-- **A protocol's name is read back.** -/
theorem parse_proto_name (py : Str) {num : ℕ} (h : num ≤ 255) :
    parse_proto py (proto_name num) = .ok num := by
  unfold proto_name
  cases hfind : PROTOCOLS.find? fun e => e.2 = num with
  | some e =>
    have heq : e.2 = num := by simpa using List.find?_some hfind
    exact heq ▸ parse_known py (List.mem_of_find?_eq_some hfind)
  | none => exact parse_digits py h

/-! ### Its bytes -/

/-- `struct.pack("<BxH", ..)`. -/
def PORT_KEY (k : PortKey) : List Byte :=
  [k.proto, 0, k.port.extractLsb' 0 8, k.port.extractLsb' 8 8]

/-- `struct port_key` in the memory of a little-endian host. -/
def memory (k : PortKey) : List Byte :=
  [k.proto, 0, BitVec.ofNat 8 (k.port.toNat % 256), BitVec.ofNat 8 (k.port.toNat / 256)]

/-- Both sides mean the same bytes by a key. -/
lemma PORT_KEY_eq (k : PortKey) : PORT_KEY k = memory k := by
  have hlow : k.port.extractLsb' 0 8 = BitVec.ofNat 8 (k.port.toNat % 256) := by
    apply BitVec.eq_of_toNat_eq
    simp
  have hhigh : k.port.extractLsb' 8 8 = BitVec.ofNat 8 (k.port.toNat / 256) := by
    apply BitVec.eq_of_toNat_eq
    simp [Nat.shiftRight_eq_div_pow]
  rw [PORT_KEY, memory, hlow, hhigh]

/-! ### Setting a rule -/

/-- The maps with a rule stored on every CPU. -/
def installed (w : World n) (k : PortKey) (action : U32) : World n :=
  { w with portrules := w.portrules.insert k fun _ => ⟨0, action⟩ }

/-- A rule for a protocol with a number and a port in range is stored, if there is room. -/
lemma run_set_port_rule {py : Str} (cpu : Fin n) {proto : String} {num : ℕ} {port : ℤ}
    (action : U32) {w : World n} (hproto : parse_proto py proto = .ok num)
    (hport : 0 ≤ port ∧ port ≤ port_limit num)
    (hroom : key num port ∈ w.portrules ∨ w.portrules.keys.length < MAX_PORT_RULES) :
    run (exec cpu) (set_port_rule py proto port action) w =
      (.ok (), installed w (key num port) action) := by
  unfold set_port_rule
  rw [port_key_eq, key_of, hproto]
  dsimp only
  rw [if_pos hport]
  change run (exec cpu) (updated "portrules" (update MAX_PORT_RULES w.portrules _ _).1)
    { w with portrules := (update MAX_PORT_RULES w.portrules _ _).2 } = _
  rw [update, if_pos hroom]
  rfl

lemma set_port_rule_ok {py : Str} {proto : String} {port : ℤ} {action : U32} {w w' : World n}
    (h : run (exec cpu) (set_port_rule py proto port action) w = (.ok (), w')) :
    ∃ num, parse_proto py proto = .ok num ∧ (0 ≤ port ∧ port ≤ port_limit num) ∧
      w' = installed w (key num port) action := by
  unfold set_port_rule at h
  rw [port_key_eq] at h
  cases hkey : key_of py proto port with
  | error e =>
    rw [hkey] at h
    cases h
  | ok k =>
    rw [hkey] at h
    unfold key_of at hkey
    split at hkey
    · next num hnum =>
      split_ifs at hkey with hport
      cases hkey
      refine ⟨num, hnum, hport, ?_⟩
      change run (exec cpu) (updated "portrules" (update MAX_PORT_RULES w.portrules _ _).1)
        { w with portrules := (update MAX_PORT_RULES w.portrules _ _).2 } = _ at h
      unfold update at h
      split_ifs at h
      · exact (Prod.mk.inj h).2.symm
      · cases h
    · cases hkey

/-- The frames a rule for the protocol and the port is about: those with that destination port, or
that ICMP type, or, of another protocol, all. -/
def Concerns (num : ℕ) (port : ℤ) (f : Frame) : Prop :=
  ∃ ip, parse_l3 f = .ipv4 ip ∧ ip.proto.toNat = num ∧
    (num = 6 ∨ num = 17 → ∃ h, ((f.be16 (ip.l4 + 2) h).toNat : ℤ) = port) ∧
    (num = 1 → ∃ h, ((f.byte ip.l4 h).toNat : ℤ) = port)

/-- A rule can be stored under a key that frames ask for. -/
def Known (num : ℕ) (port : ℤ) : Prop := num = 1 ∨ num = 6 ∨ num = 17 ∨ port = 0

/-- The port a rule has to have, from the bytes of the header. -/
lemma rule_port_of {f : Frame} {ip : IpHdr} {l4 : L4Hdr} (hfrag : ip.is_frag = false)
    (h : parse_l4 f ip = some l4) :
    (ip.proto = IPPROTO_TCP ∨ ip.proto = IPPROTO_UDP →
      ∃ hle, l4.rule_port = f.be16 (ip.l4 + 2) hle) ∧
    (ip.proto = IPPROTO_ICMP → ∃ hlt, l4.rule_port = (f.byte ip.l4 hlt).setWidth 16) ∧
    (ip.proto ≠ IPPROTO_TCP → ip.proto ≠ IPPROTO_UDP → ip.proto ≠ IPPROTO_ICMP →
      l4.rule_port = 0) := by
  have hwhole : ¬ ip.is_frag = true := by rw [hfrag]; decide
  unfold parse_l4 at h
  rw [if_neg hwhole] at h
  by_cases htcp : ip.proto = IPPROTO_TCP
  · rw [if_pos htcp, parse_tcp] at h
    split_ifs at h with hle
    dsimp only at h
    split_ifs at h
    cases h
    refine ⟨fun _ => ⟨by omega, rfl⟩, fun hicmp => ?_, fun hno => absurd htcp hno⟩
    rw [htcp] at hicmp
    exact absurd hicmp (by decide)
  rw [if_neg htcp] at h
  by_cases hudp : ip.proto = IPPROTO_UDP
  · rw [if_pos hudp, parse_udp] at h
    dsimp only at h
    split_ifs at h with hle
    cases h
    refine ⟨fun _ => ⟨by omega, rfl⟩, fun hicmp => ?_, fun _ hno => absurd hudp hno⟩
    rw [hudp] at hicmp
    exact absurd hicmp (by decide)
  rw [if_neg hudp] at h
  by_cases hicmp : ip.proto = IPPROTO_ICMP
  · rw [if_pos hicmp, parse_icmp] at h
    split_ifs at h with hle
    cases h
    refine ⟨fun hor => ?_, fun _ => ⟨by omega, rfl⟩, fun _ _ hno => absurd hicmp hno⟩
    exact absurd hor (by tauto)
  · rw [if_neg hicmp] at h
    cases h
    exact ⟨fun hor => absurd hor (by tauto), fun h => absurd h hicmp, fun _ _ _ => rfl⟩

lemma eq_ofInt_iff {x : U16} {port : ℤ} (h : 0 ≤ port ∧ port ≤ 65535) :
    x = BitVec.ofInt 16 port ↔ (x.toNat : ℤ) = port := by
  lift port to ℕ using h.1
  rw [BitVec.ofInt_natCast, ← BitVec.toNat_inj, BitVec.toNat_ofNat]
  omega

lemma eq_ofNat_iff {x : Byte} {num : ℕ} (h : num ≤ 255) :
    x = BitVec.ofNat 8 num ↔ x.toNat = num := by
  rw [← BitVec.toNat_inj, BitVec.toNat_ofNat]
  omega

/-- Where rules can match at all, the frames a rule is about are those that ask for its key. -/
lemma concerns_iff {f : Frame} {ip : IpHdr} {l4 : L4Hdr} {num : ℕ} {port : ℤ}
    (hip : parse_l3 f = .ipv4 ip) (hfrag : ip.is_frag = false) (hl4 : parse_l4 f ip = some l4)
    (hknown : Known num port) :
    Concerns num port f ↔ ip.proto.toNat = num ∧ (l4.rule_port.toNat : ℤ) = port := by
  obtain ⟨hports, htype, hnone⟩ := rule_port_of hfrag hl4
  have hproto : ∀ b : Byte, ip.proto = b ↔ ip.proto.toNat = b.toNat :=
    fun b => BitVec.toNat_inj.symm
  rw [hproto, hproto] at hports
  rw [hproto] at htype
  rw [ne_eq, ne_eq, ne_eq, hproto, hproto, hproto] at hnone
  change ip.proto.toNat = 6 ∨ ip.proto.toNat = 17 → _ at hports
  change ip.proto.toNat = 1 → _ at htype
  change ¬ ip.proto.toNat = 6 → ¬ ip.proto.toNat = 17 → ¬ ip.proto.toNat = 1 → _ at hnone
  have hmatch : ip.proto.toNat = num →
      (((num = 6 ∨ num = 17 → ∃ h, ((f.be16 (ip.l4 + 2) h).toNat : ℤ) = port) ∧
        (num = 1 → ∃ h, ((f.byte ip.l4 h).toNat : ℤ) = port)) ↔
          (l4.rule_port.toNat : ℤ) = port) := by
    intro hn
    rw [hn] at hports htype hnone
    by_cases hp : num = 6 ∨ num = 17
    · obtain ⟨hle, hrule⟩ := hports hp
      rw [hrule]
      constructor
      · rintro ⟨h, -⟩
        exact (h hp).2
      · exact fun h => ⟨fun _ => ⟨hle, h⟩, fun _ => by omega⟩
    by_cases hi : num = 1
    · obtain ⟨hlt, hrule⟩ := htype hi
      have hwide : ((f.byte ip.l4 hlt).setWidth 16).toNat = (f.byte ip.l4 hlt).toNat := by
        rw [BitVec.toNat_setWidth]
        have := (f.byte ip.l4 hlt).isLt
        omega
      rw [hrule, hwide]
      constructor
      · rintro ⟨-, h⟩
        exact (h hi).2
      · exact fun h => ⟨fun hc => absurd hc hp, fun _ => ⟨hlt, h⟩⟩
    · have hzero : port = 0 := by
        unfold Known at hknown
        tauto
      have hrule : l4.rule_port = 0 := hnone (by tauto) (by tauto) hi
      rw [hrule, hzero]
      exact ⟨fun _ => rfl, fun _ => ⟨fun hc => absurd hc hp, fun hc => absurd hc hi⟩⟩
  unfold Concerns
  rw [hip]
  constructor
  · rintro ⟨ip', hip', hn, hrest⟩
    cases hip'
    exact ⟨hn, (hmatch hn).mp hrest⟩
  · rintro ⟨hn, hrule⟩
    exact ⟨ip, rfl, hn, (hmatch hn).mpr hrule⟩

/-- The key a frame asks for is the key of the rule when protocol and port are. -/
lemma key_eq_iff {proto : Byte} {rule_port : U16} {num : ℕ} {port : ℤ} (hnum : num ≤ 255)
    (hport : 0 ≤ port ∧ port ≤ port_limit num) :
    (⟨proto, rule_port⟩ : PortKey) = key num port ↔
      proto.toNat = num ∧ (rule_port.toNat : ℤ) = port := by
  have hle := port_limit_le num
  rw [key, PortKey.mk.injEq, eq_ofNat_iff hnum, eq_ofInt_iff ⟨hport.1, by omega⟩]

lemma PORT_KEY_inj {k k' : PortKey} (h : PORT_KEY k = PORT_KEY k') : k = k' := by
  obtain ⟨proto, port⟩ := k
  obtain ⟨proto', port'⟩ := k'
  simp only [PORT_KEY, List.cons.injEq, and_true, true_and] at h
  obtain ⟨hproto, hlow, hhigh⟩ := h
  have hport : ∀ x : U16, x.extractLsb' 8 8 ++ x.extractLsb' 0 8 = x := fun x => by
    rw [BitVec.extractLsb'_append_extractLsb'_eq_extractLsb' (by decide)]
    simp
  rw [hproto, ← hport port, ← hport port', hlow, hhigh]

/-! ### Frames for rules -/

/-- The header of a packet from the source 0.0.0.0. -/
def bare (proto : Byte) : Ipv4 where
  tos := 0
  tot_len := 20
  id := 0
  flags := 0
  frag_off := 0
  ttl := 64
  proto := proto
  check := 0
  saddr := 0
  daddr := 0
  options := []
  options_dvd := by decide
  options_le := by decide
  tot_len_ge := by decide
  ttl_ne := by decide

lemma bare_fits (proto : Byte) (u : Upper 0 proto) (h : u.encode.length ≤ 20) :
    (Ethernet.encode ⟨fun _ => 0, fun _ => 0, none⟩ ++
      ((bare proto).encode ++ u.encode)).length < 2 ^ 32 := by
  rw [List.length_append, List.length_append, Ethernet.length_encode, Ipv4.length_encode]
  simp only [bare, Ethernet.size, Option.isSome_none, Bool.false_eq_true, if_false,
    List.length_nil]
  omega

/-- The source sends one packet. -/
def carry (proto : Byte) (u : Upper 0 proto) (h : u.encode.length ≤ 20) : Datagram where
  eth := ⟨fun _ => 0, fun _ => 0, none⟩
  ip := bare proto
  upper := u
  fits := bare_fits proto u h

/-- A segment that opens a connection. -/
def syn (dest : U16) : Tcp where
  source := 0
  dest := dest
  seq := 0
  ack_seq := 0
  doff := 5
  res := 0
  flags := TCP_SYN
  window := 0
  check := 0
  urg_ptr := 0
  doff_ge := by decide

def query (dest : U16) : Udp := ⟨0, dest, 8, 0, by decide⟩

/-- Some frame asks for the bytes of the key, wherever port rules are on and no list decides the
frame's source. -/
def Effective (n : ℕ) (k : PortKey) : Prop :=
  ∃ f : Frame, ∀ (cpu : Fin n) (w : World n), has w.config.features FEAT_PORT_RULES = true →
    (∀ ip, parse_l3 f = .ipv4 ip → ¬ Listed w ip.saddr ∧ ¬ Blocked w ip.saddr) →
      ∃ k' r, ruling cpu f w = some (k', r) ∧ PORT_KEY k = memory k'

lemma effective_of_carry {proto : Byte} {u : Upper 0 proto} (h : u.encode.length ≤ 20)
    (hsane : proto ≠ IPPROTO_TCP ∨ tcp_flags_sane u.l4.tcp_flags = true) :
    Effective n ⟨proto, u.l4.rule_port⟩ := by
  refine ⟨(carry proto u h).frame, fun cpu w hfeat hlists => ?_⟩
  obtain ⟨hlist, hblock⟩ := hlists _ (carry proto u h).parse_l3_frame
  have hcomes : Comes w.config (carry proto u h).hdr u.l4 := by
    refine ⟨is_frag_hdr _ _, ?_, hfeat⟩
    rintro ⟨-, htcp, hbad⟩
    rcases hsane with hne | hok
    · exact hne htcp
    · rw [hok] at hbad
      cases hbad
  have hl4 : parse_l4 (carry proto u h).frame (carry proto u h).hdr = some u.l4 :=
    (carry proto u h).parse_l4_frame
  refine ⟨⟨proto, u.l4.rule_port⟩, answer cpu w ⟨proto, u.l4.rule_port⟩, ?_, PORT_KEY_eq _⟩
  rw [ruling_eq, (carry proto u h).parse_l3_frame]
  dsimp only
  rw [if_neg fun hc => hlist hc.2, if_neg fun hc => hblock hc.2, hl4, Option.bind_some,
    if_pos hcomes]
  rfl

/-- A key with a protocol and a port that go together is asked for. -/
lemma effective_of_known {num : ℕ} {port : ℤ} (hnum : num ≤ 255)
    (hport : 0 ≤ port ∧ port ≤ port_limit num) (hknown : Known num port) :
    Effective n (key num port) := by
  have hle := port_limit_le num
  have hkey : ∀ (proto : Byte) {rule_port : U16}, proto.toNat = num →
      (rule_port.toNat : ℤ) = port → (⟨proto, rule_port⟩ : PortKey) = key num port :=
    fun _ _ h1 h2 => (key_eq_iff hnum hport).mpr ⟨h1, h2⟩
  have hof : (((BitVec.ofInt 16 port : U16).toNat : ℕ) : ℤ) = port :=
    (eq_ofInt_iff ⟨hport.1, by omega⟩).mp rfl
  have hflags : tcp_flags_sane TCP_SYN = true := by decide
  have hudp_size : 8 ≤ 20 := by decide
  have hicmp_size : 4 ≤ 20 := by decide
  by_cases htcp : num = 6
  · rw [← hkey IPPROTO_TCP htcp.symm hof]
    exact effective_of_carry (u := .tcp (syn (BitVec.ofInt 16 port)) []) (Nat.le_refl 20)
      (Or.inr hflags)
  by_cases hudp : num = 17
  · rw [← hkey IPPROTO_UDP hudp.symm hof]
    exact effective_of_carry (u := .udp (query (BitVec.ofInt 16 port)) []) hudp_size
      (Or.inl (by decide))
  by_cases hicmp : num = 1
  · have hlimit : port ≤ 255 := by simpa [hicmp, port_limit] using hport.2
    have htype : ((((BitVec.ofInt 8 port : Byte).setWidth 16).toNat : ℕ) : ℤ) = port := by
      lift port to ℕ using hport.1
      rw [BitVec.ofInt_natCast, BitVec.toNat_setWidth, BitVec.toNat_ofNat]
      omega
    rw [← hkey IPPROTO_ICMP hicmp.symm htype]
    exact effective_of_carry (u := .icmp ⟨BitVec.ofInt 8 port, 0, 0⟩ []) hicmp_size
      (Or.inl (by decide))
  · have hzero : port = 0 := by
      unfold Known at hknown
      tauto
    have hproto : (BitVec.ofNat 8 num).toNat = num := (eq_ofNat_iff hnum).mp rfl
    have hother : ∀ b : Byte, num ≠ b.toNat → BitVec.ofNat 8 num ≠ b := by
      rintro b hb rfl
      exact hb hproto.symm
    have hno : BitVec.ofNat 8 num ≠ IPPROTO_TCP ∧ BitVec.ofNat 8 num ≠ IPPROTO_UDP ∧
        BitVec.ofNat 8 num ≠ IPPROTO_ICMP :=
      ⟨hother _ htcp, hother _ hudp, hother _ hicmp⟩
    have hnone : (((0 : U16).toNat : ℕ) : ℤ) = port := hzero.symm
    rw [← hkey _ hproto hnone]
    exact effective_of_carry (u := .other hno []) (Nat.zero_le _) (Or.inl hno.1)

/-- Any other key is not. -/
lemma known_of_effective {num : ℕ} {port : ℤ} (cpu : Fin n) (hnum : num ≤ 255)
    (hport : 0 ≤ port ∧ port ≤ port_limit num) (h : Effective n (key num port)) :
    Known num port := by
  by_contra hunknown
  obtain ⟨hicmp, htcp, hudp, hzero⟩ : num ≠ 1 ∧ num ≠ 6 ∧ num ≠ 17 ∧ port ≠ 0 := by
    simpa [Known] using hunknown
  obtain ⟨f, hf⟩ := h
  have hfeat : has FEAT_DEFAULT FEAT_PORT_RULES = true := by decide
  obtain ⟨k', r, hr, hbytes⟩ := hf cpu (World.loaded n) hfeat fun ip _ =>
    ⟨fun hl => Bool.false_ne_true ((listed_iff _ _).mp hl),
      fun hb => Bool.false_ne_true ((blocked_iff _ _).mp hb)⟩
  rw [← PORT_KEY_eq] at hbytes
  have hk := (PORT_KEY_inj hbytes).symm
  rw [ruling_eq] at hr
  cases hip : parse_l3 f with
  | malformed => rw [hip] at hr; cases hr
  | non_ipv4 => rw [hip] at hr; cases hr
  | ipv4 ip =>
    rw [hip] at hr
    dsimp only at hr
    split_ifs at hr
    cases hl4 : parse_l4 f ip with
    | none => rw [hl4] at hr; cases hr
    | some l4 =>
      rw [hl4, Option.bind_some] at hr
      split_ifs at hr with hcomes
      cases hr
      obtain ⟨hproto, hrule⟩ := (key_eq_iff hnum hport).mp hk
      have hne : ∀ b : Byte, num ≠ b.toNat → ip.proto ≠ b := by
        rintro b hb rfl
        exact hb hproto.symm
      have hnone := (rule_port_of hcomes.1 hl4).2.2 (hne _ htcp) (hne _ hudp) (hne _ hicmp)
      rw [hnone] at hrule
      exact hzero hrule.symm

/-! ### The listing -/

lemma mapM_ok {α β ε : Type} {f : α → Except ε β} {l : List α} (h : ∀ x ∈ l, ∃ y, f x = .ok y) :
    ∃ ys, l.mapM f = .ok ys ∧ ∀ x ∈ l, ∀ y, f x = .ok y → y ∈ ys := by
  induction l with
  | nil => exact ⟨[], rfl, nofun⟩
  | cons x l ih =>
    obtain ⟨y, hy⟩ := h x List.mem_cons_self
    obtain ⟨ys, hys, hmem⟩ := ih fun x' hx' => h x' (List.mem_cons_of_mem _ hx')
    refine ⟨y :: ys, ?_, fun x' hx' y' hy' => ?_⟩
    · rw [List.mapM_cons, hy, hys]
      rfl
    · rcases List.mem_cons.mp hx' with rfl | hx'
      · rw [hy] at hy'
        cases hy'
        exact List.mem_cons_self
      · exact List.mem_cons_of_mem _ (hmem x' hx' y' hy')

lemma mem_of_mapM {α β ε : Type} {f : α → Except ε β} {l : List α} {ys : List β}
    (h : l.mapM f = .ok ys) {y : β} (hy : y ∈ ys) : ∃ x ∈ l, f x = .ok y := by
  induction l generalizing ys with
  | nil =>
    cases h
    cases hy
  | cons x l ih =>
    rw [List.mapM_cons] at h
    cases hx : f x with
    | error e =>
      rw [hx] at h
      cases h
    | ok y0 =>
      cases hl : l.mapM f with
      | error e =>
        rw [hx, hl] at h
        cases h
      | ok ys0 =>
        rw [hx, hl] at h
        cases h
        rcases List.mem_cons.mp hy with rfl | hy
        · exact ⟨x, List.mem_cons_self, hx⟩
        · obtain ⟨x', hx', hf⟩ := ih hl hy
          exact ⟨x', List.mem_cons_of_mem _ hx', hf⟩

/-- A machine has a CPU, so every stored rule can be listed. -/
lemma port_rules_ok (cpu : Fin n) (rules : Store PortKey (Fin n → PortVal)) :
    ∀ e ∈ (Dict.items rules).map fun e => (e.1, List.ofFn e.2),
      ∃ r, port_rule e.1 e.2 = .ok r := by
  intro e he
  obtain ⟨⟨k, rule⟩, -, rfl⟩ := List.mem_map.mp he
  cases n with
  | zero => exact cpu.elim0
  | succ m =>
    rw [List.ofFn_succ]
    exact ⟨_, rfl⟩

/-- Every stored rule is listed. -/
lemma run_list_port_rules (cpu : Fin n) (w : World n) :
    ∃ rules, run (exec cpu) list_port_rules w = (.ok rules, w) ∧
      ∀ k rule, w.portrules.lookup k = some rule →
        ∀ r, port_rule k (List.ofFn rule) = .ok r → r ∈ rules := by
  obtain ⟨rules, hrules, hmem⟩ := mapM_ok (port_rules_ok cpu w.portrules)
  refine ⟨rules, ?_, fun k rule hk r hr => ?_⟩
  · change ((((Dict.items w.portrules).map fun e => (e.1, List.ofFn e.2)).mapM fun e =>
      port_rule e.1 e.2), w) = _
    rw [hrules]
  · exact hmem (k, List.ofFn rule)
      (List.mem_map.mpr ⟨(k, rule), Dict.mem_items.mpr hk, rfl⟩) r hr

/-! ### What setting a rule does -/

/-- How the listing shows an action. -/
def shown : Policy → String
  | .allow => "allow"
  | .deny => "deny"

lemma lookup_shown (policy : Policy) : ACTIONS.lookup policy.action = some (shown policy) := by
  cases policy <;> rfl

/-- The rule is stored under a key that frames ask for. The frames it is about get its action, on
every CPU, and no others do. The listing has it under a name and a port of the same key. -/
structure Installed (py : Str) (cpu : Fin n) (proto : String) (num : ℕ) (port : ℤ)
    (policy : Policy) (w w' : World n) : Prop where
  effective : ∃ k, port_key py proto port = pure k ∧ Effective n k
  obeyed : ∀ (c : Fin n) (f : Frame) (k : PortKey) (r : Verdict × Stat), Concerns num port f →
    ruling c f w' = some (k, r) → r = verdict_of policy.action
  others : ∀ (c : Fin n) (f : Frame), ¬ Concerns num port f → ruling c f w' = ruling c f w
  listed : ∃ rules, run (exec cpu) list_port_rules w' = (.ok rules, w') ∧
    ∃ rule ∈ rules, rule.action = shown policy ∧
      port_key py rule.proto rule.port = port_key py proto port

lemma answer_installed (c : Fin n) (w : World n) (k k' : PortKey) (action : U32) :
    answer c (installed w k action) k' =
      if k' = k then verdict_of action else answer c w k' := by
  have hlookup : (installed w k action).portrules.lookup k' =
      if k' = k then some (fun _ => ⟨0, action⟩) else w.portrules.lookup k' := by
    split_ifs with hk
    · subst hk
      exact AList.lookup_insert _
    · exact AList.lookup_insert_ne hk
  have hpolicy : default_policy (installed w k action) = default_policy w := rfl
  unfold answer
  rw [hlookup, hpolicy]
  split_ifs <;> rfl

/-- A new rule changes what comes of the frames that ask for its key. -/
lemma ruling_installed (c : Fin n) (f : Frame) (w : World n) (k : PortKey) (action : U32) :
    ruling c f (installed w k action) =
      (ruling c f w).map fun r => (r.1, if r.1 = k then verdict_of action else r.2) := by
  rw [ruling_eq, ruling_eq]
  cases parse_l3 f with
  | malformed => rfl
  | non_ipv4 => rfl
  | ipv4 ip =>
    have hsame : (installed w k action).config = w.config := rfl
    have hlisted : Listed (installed w k action) ip.saddr ↔ Listed w ip.saddr := Iff.rfl
    have hblocked : Blocked (installed w k action) ip.saddr ↔ Blocked w ip.saddr := Iff.rfl
    dsimp only
    rw [hsame]
    simp only [hlisted, hblocked, answer_installed]
    split_ifs
    · rfl
    · rfl
    · cases parse_l4 f ip with
      | none => rfl
      | some l4 =>
        rw [Option.bind_some, Option.bind_some]
        split_ifs <;> simp_all

/-- What a frame that comes to the port rules has in its headers. -/
lemma ruling_some {c : Fin n} {f : Frame} {w : World n} {k : PortKey} {r : Verdict × Stat}
    (h : ruling c f w = some (k, r)) :
    ∃ ip l4, parse_l3 f = .ipv4 ip ∧ ip.is_frag = false ∧ parse_l4 f ip = some l4 ∧
      k = ⟨ip.proto, l4.rule_port⟩ := by
  rw [ruling_eq] at h
  split at h
  · next ip hip =>
    split_ifs at h
    obtain ⟨l4, hl4, h⟩ := Option.bind_eq_some_iff.mp h
    split_ifs at h with hcomes
    cases h
    exact ⟨ip, l4, hip, hcomes.1, hl4, rfl⟩
  · cases h

/-- Where rules can match at all, the frames a rule is about are those that ask for its key. -/
lemma concerns_of_ruling {c : Fin n} {f : Frame} {w : World n} {k : PortKey}
    {r : Verdict × Stat} {num : ℕ} {port : ℤ} (hnum : num ≤ 255)
    (hport : 0 ≤ port ∧ port ≤ port_limit num) (hknown : Known num port)
    (h : ruling c f w = some (k, r)) : Concerns num port f ↔ k = key num port := by
  obtain ⟨ip, l4, hip, hfrag, hl4, rfl⟩ := ruling_some h
  rw [concerns_iff hip hfrag hl4 hknown, key_eq_iff hnum hport]

lemma installed_of_known {py : Str} (cpu : Fin n) {proto : String} {num : ℕ} {port : ℤ}
    {policy : Policy} {w : World n} (hproto : parse_proto py proto = .ok num)
    (hport : 0 ≤ port ∧ port ≤ port_limit num) (hknown : Known num port) :
    Installed py cpu proto num port policy w (installed w (key num port) policy.action) := by
  have hnum := parse_proto_le hproto
  have hkey : port_key py proto port = pure (key num port) := by
    rw [port_key_eq, key_of, hproto]
    dsimp only
    rw [if_pos hport]
    rfl
  refine ⟨⟨_, hkey, effective_of_known hnum hport hknown⟩, fun c f k r hc hr => ?_,
    fun c f hc => ?_, ?_⟩
  · rw [ruling_installed] at hr
    obtain ⟨⟨k', r'⟩, hr', heq⟩ := Option.map_eq_some_iff.mp hr
    cases heq
    exact if_pos ((concerns_of_ruling hnum hport hknown hr').mp hc)
  · rw [ruling_installed]
    cases hr : ruling c f w with
    | none => rfl
    | some r =>
      obtain ⟨k, r⟩ := r
      have hne : k ≠ key num port :=
        fun hk => hc ((concerns_of_ruling hnum hport hknown hr).mpr hk)
      rw [Option.map_some]
      dsimp only
      rw [if_neg hne]
  · obtain ⟨rules, hrules, hmem⟩ := run_list_port_rules cpu
      (installed w (key num port) policy.action)
    refine ⟨rules, hrules, ?_⟩
    have hstored : (installed w (key num port) policy.action).portrules.lookup (key num port) =
        some fun _ => ⟨0, policy.action⟩ := AList.lookup_insert _
    obtain ⟨hname, hnumber⟩ : (key num port).proto.toNat = num ∧
        ((key num port).port.toNat : ℤ) = port := (key_eq_iff hnum hport).mp rfl
    have hback : port_key py (proto_name (key num port).proto.toNat) (key num port).port.toNat =
        port_key py proto port := by
      rw [hname, hnumber, port_key_eq, port_key_eq, key_of, key_of, parse_proto_name py hnum,
        hproto]
    cases n with
    | zero => exact cpu.elim0
    | succ m =>
      have hrule := hmem _ _ hstored _ (by rw [List.ofFn_succ]; rfl)
      refine ⟨_, hrule, ?_, hback⟩
      exact congrArg (Option.getD · _) (lookup_shown policy)

/-- **Setting a port rule**, on a call that returns, does what it is for exactly when the protocol
is ICMP, TCP or UDP or the port is 0: a rule for another protocol and port is stored under a key
that no frame asks for. -/
theorem installed_iff_known (py : Str) (cpu : Fin n) {proto : String} {num : ℕ} {port : ℤ}
    {policy : Policy} {w w' : World n} (hproto : parse_proto py proto = .ok num)
    (h : run (exec cpu) (set_port_rule py proto port policy.action) w = (.ok (), w')) :
    Installed py cpu proto num port policy w w' ↔ num = 1 ∨ num = 6 ∨ num = 17 ∨ port = 0 := by
  obtain ⟨num', hproto', hport, rfl⟩ := set_port_rule_ok h
  rw [hproto] at hproto'
  cases hproto'
  constructor
  · intro hinst
    obtain ⟨k, hkey, heff⟩ := hinst.effective
    rw [port_key_eq, key_of, hproto] at hkey
    dsimp only at hkey
    rw [if_pos hport] at hkey
    cases hkey
    exact known_of_effective cpu (parse_proto_le hproto) hport heff
  · exact installed_of_known cpu hproto hport

/-- An interpreter that knows ASCII only. -/
def ascii : Str where
  lower s := String.ofList (s.toList.map Char.toLower)
  isdigit s := s != "" && s.toList.all Char.isDigit
  int s := .ok (Nat.ofDigitChars 10 s.toList 0)
  repr s := "'" ++ s ++ "'"
  lower_ascii _ _ := rfl
  isdigit_ascii _ _ := rfl
  int_ascii _ _ _ _ := rfl

lemma parse_ascii : parse_proto ascii "TCP" = .ok 6 ∧ parse_proto ascii "47" = .ok 47 := by
  decide +kernel

/-- `port deny TCP 23`. -/
theorem installed_iff_known_telnet :
    Installed ascii (0 : Fin 1) "TCP" 6 23 .deny (World.loaded 1)
        (installed (World.loaded 1) (key 6 23) ACTION_DENY) ↔
      6 = 1 ∨ 6 = 6 ∨ 6 = 17 ∨ (23 : ℤ) = 0 := by
  have hrun : run (exec (0 : Fin 1)) (set_port_rule ascii "TCP" 23 Policy.deny.action)
      (World.loaded 1) = (.ok (), installed (World.loaded 1) (key 6 23) ACTION_DENY) :=
    run_set_port_rule 0 ACTION_DENY parse_ascii.1 (by decide) (Or.inr (by decide))
  exact installed_iff_known ascii 0 parse_ascii.1 hrun

/-- `port deny 47 5` returns, and denies nothing. -/
theorem gre_rule_not_effective :
    ∃ w' : World 1,
      run (exec 0) (set_port_rule ascii "47" 5 Policy.deny.action) (World.loaded 1) = (.ok (), w') ∧
        ¬ Installed ascii 0 "47" 47 5 .deny (World.loaded 1) w' := by
  refine ⟨_, run_set_port_rule 0 ACTION_DENY parse_ascii.2 (by decide) (Or.inr (by decide)), ?_⟩
  intro hinst
  obtain ⟨k, hkey, heff⟩ := hinst.effective
  rw [port_key_eq, key_of, parse_ascii.2] at hkey
  cases hkey
  have hknown : Known 47 5 := known_of_effective 0 (by decide) (by decide) heff
  exact absurd hknown (by unfold Known; decide)

end Lookout.Rules

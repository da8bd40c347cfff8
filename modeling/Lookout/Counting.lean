import Lookout.Accounting
import Lookout.History

/-!
What an entry of `srcstate` has counted.

The packets an entry has counted are the programs that held its lock since it was made. The locks
may be taken in any order on any CPUs, and the tools may delete entries and make room for others;
the entry stands for exactly the packets of its own source that it has seen.
-/

namespace Lookout.Counting

open Lookout.Effects Lookout.Effects.Prog Lookout.Runs Lookout.Common Lookout.Packet
open Lookout.Dicts Lookout.Handles Lookout.Limiter Lookout.Kernel Lookout.Xdp Lookout.Detect
open Lookout.Polls Lookout.History

/-! ### The packet of a frame -/

/-- The destination port the program parses: that of a TCP or UDP header, which a later fragment
does not have. -/
def dest_port (f : Frame) : Option U16 :=
  match parse_l3 f with
  | .ipv4 ip =>
    if ip.is_frag then none
    else if ip.proto = IPPROTO_TCP then (parse_tcp f ip.l4).map L4Hdr.dport
    else if ip.proto = IPPROTO_UDP then (parse_udp f ip.l4).map L4Hdr.dport
    else none
  | _ => none

/-- The locals of the program are those of the frame. -/
def FromFrame (f : Frame) (p : Pending) : Prop :=
  ∃ ip l4, parse_l3 f = .ipv4 ip ∧ parse_l4 f ip = some l4 ∧ p.saddr = ip.saddr ∧
    p.proto = ip.proto ∧ p.tcp_flags = l4.tcp_flags ∧ p.dport = l4.dport ∧
    p.pkt_len = f.pkt_len

/-- A packet that came with the frame `f`, from `a`. -/
def SentBy (a : Addr) (f : Frame) : Prop := ∃ ip, parse_l3 f = .ipv4 ip ∧ ip.saddr = a

lemma parse_icmp_dport {f : Frame} {i : ℕ} {l4 : L4Hdr} (h : parse_icmp f i = some l4) :
    l4.dport = 0 := by
  unfold parse_icmp at h
  split_ifs at h
  cases h
  rfl

/-- The program has no port, or the one of the header. -/
lemma dport_eq {f : Frame} {ip : IpHdr} {l4 : L4Hdr} (hip : parse_l3 f = .ipv4 ip)
    (hl4 : parse_l4 f ip = some l4) : l4.dport = (dest_port f).getD 0 := by
  unfold dest_port
  rw [hip]
  dsimp only
  unfold parse_l4 at hl4
  split_ifs at hl4 ⊢ with hfrag htcp hudp hicmp
  · cases hl4
    rfl
  · rw [hl4]
    rfl
  · rw [hl4]
    rfl
  · exact parse_icmp_dport hl4
  · cases hl4
    rfl

/-- A nonzero port of the program is the one of the frame's header. -/
lemma dport_iff {f : Frame} {p : Pending} (h : FromFrame f p) (b : ℕ) :
    p.dport ≠ 0 ∧ p.dport.toNat % 64 = b ↔
      ∃ d, dest_port f = some d ∧ d ≠ 0 ∧ d.toNat % 64 = b := by
  obtain ⟨ip, l4, hip, hl4, -, -, -, hdport, -⟩ := h
  rw [hdport, dport_eq hip hl4]
  cases dest_port f with
  | none => simp
  | some d => simp

lemma parse_eth_ge {f : Frame} {h_proto : U16} {nh : ℕ} (h : parse_eth f = some (h_proto, nh)) :
    14 ≤ nh := by
  unfold parse_eth at h
  dsimp only at h
  split_ifs at h <;> cases h <;> omega

/-- An Ethernet and an IPv4 header come before everything else. -/
lemma pkt_len_ge {f : Frame} {ip : IpHdr} (hip : parse_l3 f = .ipv4 ip) : 34 ≤ f.pkt_len := by
  by_contra hshort
  unfold parse_l3 at hip
  cases heth : parse_eth f with
  | none =>
    rw [heth] at hip
    cases hip
  | some e =>
    obtain ⟨h_proto, nh⟩ := e
    have hnh := parse_eth_ge heth
    have hmalformed : parse_ip f nh = .malformed := dif_neg (by omega)
    rw [heth] at hip
    dsimp only at hip
    rw [hmalformed] at hip
    split_ifs at hip

/-! ### What a list of packets adds up to -/

/-- The entry stands for the packets of `l`. -/
structure StandsFor (l : List Counted) (st : SrcState) : Prop where
  counters : counters st = totals l
  udp : st.udp = l.countP fun c => c.1.proto = IPPROTO_UDP
  ports : st.port_bitmap = marks l

/-- A new entry stands for no packet. -/
lemma standsFor_init (p : Pending) : StandsFor [] (init p) := ⟨rfl, rfl, rfl⟩

lemma udp_locked (p : Pending) (st : SrcState) :
    (locked p st).1.udp = st.udp + if p.proto = IPPROTO_UDP then 1 else 0 := by
  have hdrop : ∀ v s, (count_drop v s).udp = s.udp := by
    intro v s
    unfold count_drop
    split_ifs <;> rfl
  have hcharge : ∀ s, (charge p s).1.udp = s.udp := by
    intro s
    unfold charge token_bucket
    split_ifs
    · dsimp only
      split_ifs <;> rfl
    · rfl
  unfold locked
  rw [hdrop, hcharge]
  unfold count_packet
  dsimp only
  split_ifs <;> rfl

/-- **The locked section adds its packet**, with the verdict it goes on with. -/
theorem standsFor_locked {l : List Counted} {st : SrcState} (h : StandsFor l st) (p : Pending) :
    StandsFor (l ++ [(p, (locked p st).2.1)]) (locked p st).1 where
  counters := by rw [counters_locked, totals_snoc, h.counters]
  udp := by
    rw [udp_locked, List.countP_append, List.countP_singleton, h.udp]
    simp
  ports := by rw [bitmap_locked, marks_snoc, h.ports]

/-- No counter runs ahead of the packets. -/
lemma totals_le (l : List Counted) :
    (totals l).dropped ≤ l.length ∧ (totals l).syn ≤ l.length ∧ (totals l).fin ≤ l.length ∧
      (totals l).rst ≤ l.length ∧
      (l.countP (fun c => c.1.proto = IPPROTO_UDP) : ℤ) + (totals l).icmp ≤ l.length := by
  induction l using List.reverseRecOn with
  | nil => decide
  | append_singleton l c ih =>
    obtain ⟨h1, h2, h3, h4, h5⟩ := ih
    have hd : (amount c).dropped ≤ 1 := by
      unfold amount
      dsimp only
      split_ifs <;> omega
    have hflag : ∀ bit, tcp_flag c.1 bit ≤ 1 := by
      intro bit
      unfold tcp_flag flag
      split_ifs <;> omega
    have hs : (amount c).syn ≤ 1 := Int.ofNat_le.mpr (hflag TCP_SYN)
    have hf : (amount c).fin ≤ 1 := Int.ofNat_le.mpr (hflag TCP_FIN)
    have hr : (amount c).rst ≤ 1 := Int.ofNat_le.mpr (hflag TCP_RST)
    have hone : ((if c.1.proto = IPPROTO_UDP then 1 else 0 : ℕ) : ℤ) + (amount c).icmp ≤ 1 := by
      unfold amount
      dsimp only
      split_ifs with hudp hicmp
      · rw [hudp] at hicmp
        exact absurd hicmp (by decide)
      · omega
      · omega
      · omega
    rw [totals_snoc, List.length_append, List.length_singleton, List.countP_append,
      List.countP_singleton]
    simp only [Delta.add, decide_eq_true_eq]
    push_cast at hone ⊢
    refine ⟨?_, ?_, ?_, ?_, ?_⟩ <;> omega

/-- `dropped` counts the packets that were dropped. -/
lemma totals_dropped (l : List Counted) :
    (totals l).dropped = l.countP fun c => c.2 = .drop := by
  induction l using List.reverseRecOn with
  | nil => rfl
  | append_singleton l c ih =>
    rw [totals_snoc, List.countP_append, List.countP_singleton]
    simp only [Delta.add, amount, ih, decide_eq_true_eq]
    split_ifs <;> rfl

/-- Bytes that every packet has at least. -/
lemma totals_bytes {k : ℕ} {l : List Counted} (h : ∀ c ∈ l, k ≤ c.1.pkt_len) :
    (k * l.length : ℤ) ≤ (totals l).bytes := by
  induction l using List.reverseRecOn with
  | nil => simp [totals, Delta.zero]
  | append_singleton l c ih =>
    have hl := ih fun c' hc' => h c' (List.mem_append_left _ hc')
    have hc : (k : ℤ) ≤ c.1.pkt_len :=
      Int.ofNat_le.mpr (h c (List.mem_append_right _ List.mem_cons_self))
    rw [totals_snoc, List.length_append, List.length_singleton]
    simp only [Delta.add, amount]
    push_cast
    rw [Int.mul_add, Int.mul_one]
    omega

lemma port_bit_getLsbD (p : Pending) (b : ℕ) :
    (port_bit p).getLsbD b = true ↔ p.dport ≠ 0 ∧ p.dport.toNat % 64 = b := by
  have hlt : p.dport.toNat % 64 < 64 := Nat.mod_lt _ (by decide)
  unfold port_bit
  split_ifs with h
  · have hone : ∀ i, (1 : U64).getLsbD i = decide (i = 0) := fun i => by
      rw [show (1 : U64) = 1#64 from rfl, BitVec.getLsbD_one]
      simp
    rw [BitVec.getLsbD_shiftLeft, hone]
    simp only [h, ne_eq, not_false_eq_true, true_and, Bool.and_eq_true, decide_eq_true_eq,
      Bool.not_eq_true', decide_eq_false_iff_not]
    omega
  · exact iff_of_false (by simp) fun hp => h hp.1

/-- A bit is set for the ports that leave its rest. -/
lemma marks_getLsbD (l : List Counted) (b : ℕ) :
    (marks l).getLsbD b = true ↔ ∃ c ∈ l, c.1.dport ≠ 0 ∧ c.1.dport.toNat % 64 = b := by
  induction l using List.reverseRecOn with
  | nil => simp [marks]
  | append_singleton l c ih =>
    rw [marks_snoc, BitVec.getLsbD_or, Bool.or_eq_true, ih, port_bit_getLsbD]
    simp only [List.mem_append, List.mem_singleton, or_and_right, exists_or, exists_eq_left]

/-- Each bit that is set is the rest of a port, and no port has two. -/
lemma popcount_le {x : U64} {ports : Finset U16}
    (h : ∀ b, x.getLsbD b = true → ∃ d ∈ ports, d.toNat % 64 = b) : popcount x ≤ ports.card := by
  have hcard : popcount x = ((List.range 64).filter fun b => x.getLsbD b).toFinset.card := by
    unfold popcount
    rw [List.countP_eq_length_filter, List.toFinset_card_of_nodup (List.nodup_range.filter _)]
  have hsub : ((List.range 64).filter fun b => x.getLsbD b).toFinset ⊆
      ports.image fun d => d.toNat % 64 := by
    intro b hb
    obtain ⟨d, hd, hdb⟩ := h b (List.mem_filter.mp (List.mem_toFinset.mp hb)).2
    exact Finset.mem_image.mpr ⟨d, hd, hdb⟩
  rw [hcard]
  exact (Finset.card_le_card hsub).trans Finset.card_image_le

/-! ### What one program writes down -/

/-- The entries a program has made, and the locks it has held, with its packet and the verdict it
went on with. -/
structure Notes where
  inits : List SrcState
  locks : List (ℕ × Counted)

def Notes.write (t : Notes) : Event calls → Notes
  | ⟨.state_insert _ st, _⟩ => { t with inits := t.inits ++ [st] }
  | ⟨.state_locked r p, b⟩ => { t with locks := t.locks ++ [(r, (p, b.1))] }
  | _ => t

/-- A lookup finds an entry of the source. -/
def Answers (owner : ℕ → Addr → Prop) : Event calls → Prop
  | ⟨.state_lookup a, some r⟩ => owner r a
  | _ => True

/-- What the notes of a program hold: entries of its own making, and at most one lock, of an entry
of its source. -/
structure Fair (f : Frame) (owner : ℕ → Addr → Prop) (t : Notes) : Prop where
  inits : ∀ st ∈ t.inits, ∃ p, st = init p
  locks : t.locks = [] ∨
    ∃ r c, t.locks = [(r, c)] ∧ owner r c.1.saddr ∧ FromFrame f c.1

variable {f : Frame} {owner : ℕ → Addr → Prop}

/-- The program ends fairly, and a lock has decided its verdict. -/
def Ends (f : Frame) (owner : ℕ → Addr → Prop) (v : Verdict) (t : Notes) : Prop :=
  Fair f owner t ∧ ∀ e ∈ t.locks, e.2.2 = v

abbrev noter (owner : ℕ → Addr → Prop) : Machine calls Notes := books Notes.write (Answers owner)

lemma ends_of_no_lock {t : Notes} (hi : ∀ st ∈ t.inits, ∃ p, st = init p) (hl : t.locks = [])
    (v : Verdict) : Ends f owner v t :=
  ⟨⟨hi, Or.inl hl⟩, by simp [hl]⟩

lemma wp_finish (r : Stat) (v : Verdict) (Q : Verdict → Notes → Prop) (t : Notes) (h : Q v t) :
    wp (noter owner) (finish r v) Q t := by
  unfold finish
  simp only [stat_inc, stat_add, op_eq, call_bind, ret_bind, wp_books_call]
  exact fun _ _ => h

lemma skips_write : Accounting.Skips Notes.write := by
  intro t o b ho
  cases o <;> first | rfl | exact ho.elim

lemma wp_state_full {p : Pending} {t : Notes} (hi : ∀ st ∈ t.inits, ∃ p, st = init p)
    (hl : t.locks = []) : wp (noter owner) (state_full p) (Ends f owner) t := by
  unfold state_full
  simp only [stat_inc, stat_add, op_eq, call_bind, ret_bind, wp_books_call]
  exact fun _ _ => wp_finish _ _ _ _ (ends_of_no_lock hi hl _)

/-- The one place where the lock is taken. -/
lemma wp_locked_stage {p : Pending} {t : Notes} {r : ℕ}
    (hi : ∀ st ∈ t.inits, ∃ p, st = init p) (hl : t.locks = []) (hp : FromFrame f p)
    (hr : owner r p.saddr) : wp (noter owner) (locked_stage r p) (Ends f owner) t := by
  unfold locked_stage
  simp only [op_eq, call_bind, ret_bind, wp_books_call]
  rintro b -
  refine wp_finish _ _ _ _ ⟨⟨hi, Or.inr ⟨r, (p, b.1), ?_, hr, hp⟩⟩, ?_⟩
  · change t.locks ++ [(r, (p, b.1))] = [(r, (p, b.1))]
    rw [hl, List.nil_append]
  · change ∀ e ∈ t.locks ++ [(r, (p, b.1))], e.2.2 = b.1
    rw [hl, List.nil_append]
    exact fun e he => by rw [List.mem_singleton.mp he]

lemma wp_update_state {p : Pending} (hp : FromFrame f p) :
    wp (noter owner) (update_state p) (Ends f owner) ⟨[], []⟩ := by
  have hnone : ∀ st ∈ ([] : List SrcState), ∃ p, st = init p :=
    fun _ hst => absurd hst List.not_mem_nil
  have hinit : ∀ st ∈ [init p], ∃ q, st = init q := fun st hst => ⟨p, List.mem_singleton.mp hst⟩
  unfold update_state
  simp only [op_eq, call_bind, ret_bind, wp_books_call]
  rintro - -
  split_ifs
  · simp only [wp_books_call]
    rintro (_ | r) hr
    · simp only [wp_books_call]
      rintro (_ | _) -
      · simp only [Bool.false_eq_true, if_false, wp_books_call]
        rintro (_ | r) hr
        · exact wp_state_full hinit rfl
        · exact wp_locked_stage hinit rfl hp hr
      · exact wp_state_full hinit rfl
    · exact wp_locked_stage hnone rfl hp hr
  · exact wp_finish _ _ _ _ (ends_of_no_lock hnone rfl _)

/-- **The program locks at most one entry, of its own source**, and its verdict is the one the
lock has left it with. -/
theorem wp_xdp_firewall (f : Frame) :
    wp (noter owner) (xdp_firewall f) (Ends f owner) ⟨[], []⟩ := by
  have hnone : ∀ v, Ends f owner v ⟨[], []⟩ :=
    ends_of_no_lock (fun _ hst => absurd hst List.not_mem_nil) rfl
  unfold xdp_firewall
  simp only [stat_inc, stat_add, op_eq, call_bind, ret_bind, wp_books_call]
  rintro now - - - - - (_ | cfg) -
  · exact hnone _
  change wp (noter owner) (config_stage f now cfg) (Ends f owner) ⟨[], []⟩
  unfold config_stage
  cases hip : parse_l3 f with
  | malformed => exact wp_finish _ _ _ _ (hnone _)
  | non_ipv4 => exact wp_finish _ _ _ _ (hnone _)
  | ipv4 ip =>
    refine Accounting.wp_allowlist_stage skips_write (wp_finish _ _ _ _ (hnone _)) ?_
    refine Accounting.wp_blocklist_stage skips_write (wp_finish _ _ _ _ (hnone _)) ?_
    unfold l4_stage
    cases hl4 : parse_l4 f ip with
    | none => exact wp_finish _ _ _ _ (hnone _)
    | some l4 =>
      refine (wp_bind _ _ _ _).mpr (wp_mono (Accounting.wp_verdict_stage skips_write _ _ _) ?_)
      rintro r _ ⟨-, rfl⟩
      exact wp_update_state ⟨ip, l4, hip, hl4, rfl, rfl, rfl, rfl, rfl⟩

/-! ### An execution that is under way -/

/-- The lock an event holds. -/
def lock_of : Event calls → Option (ℕ × Counted)
  | ⟨.state_locked r p, b⟩ => some (r, (p, b.1))
  | _ => none

lemma locks_write (t : Notes) (e : Event calls) :
    (t.write e).locks = t.locks ++ (lock_of e).toList := by
  obtain ⟨o, b⟩ := e
  cases o with
  | state_locked r p => rfl
  | _ => exact (List.append_nil _).symm

lemma notes_locks (l : List (Event calls)) (t : Notes) :
    (l.foldl Notes.write t).locks = t.locks ++ l.filterMap lock_of := by
  induction l generalizing t with
  | nil => exact (List.append_nil _).symm
  | cons e l ih =>
    rw [List.foldl_cons, ih, locks_write, List.append_assoc, List.filterMap_cons]
    cases lock_of e <;> rfl

lemma notes_inits {l : List (Event calls)} {t : Notes} {a : Addr} {st : SrcState} {b : Bool}
    (h : st ∈ t.inits ∨ (⟨.state_insert a st, b⟩ : Event calls) ∈ l) :
    st ∈ (l.foldl Notes.write t).inits := by
  induction l generalizing t with
  | nil => exact h.resolve_right List.not_mem_nil
  | cons e l ih =>
    refine ih ?_
    rcases h with h | h
    · left
      obtain ⟨o, b⟩ := e
      cases o with
      | state_insert a' st' => exact List.mem_append_left _ h
      | _ => exact h
    · rcases List.mem_cons.mp h with rfl | h
      · exact Or.inl (List.mem_append_right _ List.mem_cons_self)
      · exact Or.inr h

lemma exists_answer (o : Op) : ∃ b, Answers owner ⟨o, b⟩ := by
  cases o with
  | state_lookup a => exact ⟨none, trivial⟩
  | state_locked r p => exact ⟨(.pass, .rx_packets), trivial⟩
  | _ => exact ⟨default, trivial⟩

/-- **A program that is under way** has been fair so far. -/
theorem fair_so_far {l : List (Event calls)} {q : Call Verdict} (h : Trace (xdp_firewall f) l q)
    (hA : ∀ e ∈ l, Answers owner e) :
    (∀ (a : Addr) (st : SrcState) (b : Bool), (⟨.state_insert a st, b⟩ : Event calls) ∈ l →
      ∃ p, st = init p) ∧
    (l.filterMap lock_of).length ≤ 1 ∧
    (∀ r c, (r, c) ∈ l.filterMap lock_of → owner r c.1.saddr ∧ FromFrame f c.1) ∧
    ∀ v, q = .ret v → ∀ e ∈ l.filterMap lock_of, e.2.2 = v := by
  obtain ⟨l', v, hrest, hA'⟩ := Trace.complete (A := Answers owner) exists_answer q
  have hall : ∀ e ∈ l ++ l', Answers owner e := fun e he =>
    (List.mem_append.mp he).elim (hA e) (hA' e)
  obtain ⟨⟨hinits, hlocks⟩, hv⟩ := (h.append hrest).wp hall (wp_xdp_firewall f)
  rw [notes_locks, List.nil_append, List.filterMap_append] at hlocks hv
  refine ⟨fun a st b hb => ?_, ?_, fun r c hc => ?_, fun v' hq e he => ?_⟩
  · exact hinits st (notes_inits (Or.inr (List.mem_append_left l' hb)))
  · rcases hlocks with hl | ⟨r, c, hl, -⟩
    · have hlen := congrArg List.length hl
      rw [List.length_append, List.length_nil] at hlen
      omega
    · have hlen := congrArg List.length hl
      rw [List.length_append, List.length_singleton] at hlen
      omega
  · have hmem := List.mem_append_left (l'.filterMap lock_of) hc
    rcases hlocks with hl | ⟨r', c', hl, ho, hf⟩
    · rw [hl] at hmem
      exact absurd hmem List.not_mem_nil
    · rw [hl] at hmem
      cases List.mem_singleton.mp hmem
      exact ⟨ho, hf⟩
  · subst hq
    obtain ⟨rfl, hret⟩ := trace_ret.mp hrest
    cases hret
    exact hv e (List.mem_append_left _ he)

/-! ### Runs -/

variable {n : ℕ} {ι : Type}

/-- The tools may do what they like to the other maps; of the entries they can only delete some. -/
def OnlyDeletes (w w' : World n) : Prop :=
  w'.srcstate.heap = w.srcstate.heap ∧
    ∀ a r, w'.srcstate.find a = some r → w.srcstate.find a = some r

/-- The packets the entry `r` has counted, each with the program that brought it and the verdict
it went on with. -/
def counted (r : ℕ) (tr : Turns calls (World n) Verdict ι) : List (ι × Counted) :=
  tr.filterMap fun x =>
    (lock_of x.ev.2).bind fun e => if e.1 = r then some (x.ev.1, e.2) else none

lemma counted_snoc (r : ℕ) (tr : Turns calls (World n) Verdict ι)
    (x : Trans (Pool calls (World n) Verdict ι) (ι × Event calls)) :
    counted r (tr ++ [x]) = counted r tr ++
      ((lock_of x.ev.2).bind fun e => if e.1 = r then some (x.ev.1, e.2) else none).toList := by
  unfold counted
  rw [List.filterMap_append, List.filterMap_cons, List.filterMap_nil]
  cases (lock_of x.ev.2).bind fun e => if e.1 = r then some (x.ev.1, e.2) else none <;> rfl

lemma lock_of_own [DecidableEq ι] {r : ℕ} {tr : Turns calls (World n) Verdict ι} {i : ι}
    {c : Counted} (h : (i, c) ∈ counted r tr) : (r, c) ∈ (own i tr).filterMap lock_of := by
  obtain ⟨x, hx, he⟩ := List.mem_filterMap.mp h
  obtain ⟨⟨r', c'⟩, hlock, hif⟩ := Option.bind_eq_some_iff.mp he
  dsimp only at hif
  split_ifs at hif with hr
  cases hif
  exact List.mem_filterMap.mpr ⟨x.ev.2, mem_own.mpr ⟨x, hx, rfl⟩, by rw [hlock, hr]⟩

/-- A program is counted in an entry no more often than it has held a lock. -/
lemma count_counted [DecidableEq ι] (r : ℕ) (tr : Turns calls (World n) Verdict ι) (i : ι) :
    ((counted r tr).map Prod.fst).count i ≤ ((own i tr).filterMap lock_of).length := by
  induction tr using List.reverseRecOn with
  | nil => exact le_rfl
  | append_singleton tr x ih =>
    rw [counted_snoc, own_snoc, List.map_append, List.count_append, List.filterMap_append,
      List.length_append]
    refine Nat.add_le_add ih ?_
    cases hlock : lock_of x.ev.2 with
    | none => simp
    | some e =>
      by_cases hr : e.1 = r
      · by_cases hi : x.ev.1 = i
        · simp [hr, hi, hlock]
        · simp [hr, hi]
      · simp [hr]

/-- Some lookup of `a` has found `r`. -/
def Found (tr : Turns calls (World n) Verdict ι) (r : ℕ) (a : Addr) : Prop :=
  ∃ x ∈ tr, x.ev.2 = ⟨.state_lookup a, some r⟩

/-- The entry `r` is or was that of `a`. -/
def Owned (tr : Turns calls (World n) Verdict ι) (w : World n) (r : ℕ) (a : Addr) : Prop :=
  Found tr r a ∨ w.srcstate.find a = some r

/-- What holds all along a run that began with `n0` cells: an entry has one owner, has counted
packets of this owner only, and, if it was made in the run, stands for just these. -/
structure Right (f : ι → Frame) (n0 : ℕ) (tr : Turns calls (World n) Verdict ι) (w : World n) :
    Prop where
  grows : n0 ≤ w.srcstate.heap.length
  lt : ∀ r a, Owned tr w r a → r < w.srcstate.heap.length
  one : ∀ r a a', Owned tr w r a → Owned tr w r a' → a = a'
  held : ∀ r i c, (i, c) ∈ counted r tr → Found tr r c.1.saddr ∧ FromFrame (f i) c.1
  stands : ∀ r st, n0 ≤ r → w.srcstate.deref r = some st →
    StandsFor ((counted r tr).map Prod.snd) st

variable {fr : ι → Frame} {n0 : ℕ} {tr : Turns calls (World n) Verdict ι} {w w' : World n}

lemma Owned.others {r : ℕ} {a : Addr} (hw : OnlyDeletes w w') (h : Owned tr w' r a) :
    Owned tr w r a :=
  h.imp_right (hw.2 a r)

/-- The tools leave it so. -/
lemma right_others (h : Right fr n0 tr w) (hw : OnlyDeletes w w') : Right fr n0 tr w' where
  grows := by
    rw [hw.1]
    exact h.grows
  lt r a ha := by
    rw [hw.1]
    exact h.lt r a (ha.others hw)
  one r a a' ha ha' := h.one r a a' (ha.others hw) (ha'.others hw)
  held := h.held
  stands r st hr hst := by
    refine h.stands r st hr ?_
    unfold RefMap.deref at hst ⊢
    rwa [← hw.1]

lemma right_start (w : World n) : Right fr w.srcstate.heap.length [] w where
  grows := le_rfl
  lt r a ha := by
    rcases ha with ⟨x, hx, -⟩ | ha
    · exact absurd hx List.not_mem_nil
    · exact w.srcstate.lt ha
  one r a a' ha ha' := by
    rcases ha with ⟨x, hx, -⟩ | ha
    · exact absurd hx List.not_mem_nil
    rcases ha' with ⟨x, hx, -⟩ | ha'
    · exact absurd hx List.not_mem_nil
    exact w.srcstate.inj ha ha'
  held r i c hc := absurd hc List.not_mem_nil
  stands r st hr hst := by
    have hlt := (List.getElem?_eq_some_iff.mp hst).1
    omega

/-- What one operation does to `srcstate`. -/
inductive Change (m : RefMap Addr SrcState) : Event calls → RefMap Addr SrcState → Prop
  | none {e : Event calls} (h : lock_of e = none) : Change m e m
  | insert (a : Addr) (st : SrcState) (b : Bool) :
    Change m ⟨.state_insert a st, b⟩ (m.insert a st)
  | erase (a : Addr) (b : Bool) : Change m ⟨.state_delete a, b⟩ (m.erase a)
  | locked (r : ℕ) (p : Pending) (st : SrcState) (h : m.deref r = some st) :
    Change m ⟨.state_locked r p, (locked p st).2⟩ (m.set r (locked p st).1)
  | dangling (r : ℕ) (p : Pending) (b : Verdict × Stat) (h : m.deref r = none) :
    Change m ⟨.state_locked r p, b⟩ m

lemma change_exec (cpu : Fin n) (w : World n) (o : Op) :
    Change w.srcstate ⟨o, (exec cpu w o).1⟩ (exec cpu w o).2.srcstate := by
  cases o with
  | state_insert a st =>
    simp only [exec, insert_noexist]
    split_ifs
    · exact .none rfl
    · exact .insert a st false
  | state_locked r p =>
    simp only [exec, update_locked]
    split
    · next h => exact .dangling r p _ h
    · next st h => exact .locked r p st h
  | state_delete a => exact .erase a _
  | _ => exact .none rfl

lemma Change.length_le {m m' : RefMap Addr SrcState} {e : Event calls} (h : Change m e m') :
    m.heap.length ≤ m'.heap.length := by
  cases h with
  | insert a st b =>
    simp only [RefMap.insert, List.length_append]
    omega
  | locked r p st _ => exact (List.length_set ..).ge
  | _ => exact le_rfl

/-- An entry that is found after a change was there before, or is the new one. -/
lemma Change.find {m m' : RefMap Addr SrcState} {e : Event calls} (h : Change m e m') {a : Addr}
    {r : ℕ} (hf : m'.find a = some r) :
    m.find a = some r ∨ r = m.heap.length ∧ m'.heap.length = m.heap.length + 1 ∧
      ∃ (st : SrcState) (b : Bool), e = ⟨.state_insert a st, b⟩ := by
  cases h with
  | insert a' st b =>
    by_cases ha : a = a'
    · subst ha
      rw [RefMap.find_insert] at hf
      cases hf
      exact Or.inr ⟨rfl, by simp [RefMap.insert], st, b, rfl⟩
    · rw [RefMap.find_insert_ne _ _ ha] at hf
      exact Or.inl hf
  | erase a' b => exact Or.inl (RefMap.find_of_erase hf)
  | _ => exact Or.inl hf

lemma owned_step {x : Trans (Pool calls (World n) Verdict ι) (ι × Event calls)} {r : ℕ} {a : Addr}
    (hx : Change w.srcstate x.ev.2 w'.srcstate)
    (hfind : ∀ a r, x.ev.2 = ⟨.state_lookup a, some r⟩ → w.srcstate.find a = some r)
    (h : Owned (tr ++ [x]) w' r a) :
    Owned tr w r a ∨ r = w.srcstate.heap.length ∧
      w'.srcstate.heap.length = w.srcstate.heap.length + 1 ∧
        ∃ (st : SrcState) (b : Bool), x.ev.2 = ⟨.state_insert a st, b⟩ := by
  rcases h with ⟨y, hy, hev⟩ | h
  · rcases List.mem_append.mp hy with hy | hy
    · exact Or.inl (Or.inl ⟨y, hy, hev⟩)
    · rw [List.mem_singleton.mp hy] at hev
      exact Or.inl (Or.inr (hfind a r hev))
  · rcases hx.find h with hf | hnew
    · exact Or.inl (Or.inr hf)
    · exact Or.inr hnew

lemma Found.mono {r : ℕ} {a : Addr} (h : Found tr r a)
    (x : Trans (Pool calls (World n) Verdict ι) (ι × Event calls)) : Found (tr ++ [x]) r a := by
  obtain ⟨y, hy, hev⟩ := h
  exact ⟨y, List.mem_append_left _ hy, hev⟩

lemma counted_of_no_lock {x : Trans (Pool calls (World n) Verdict ι) (ι × Event calls)}
    (h : lock_of x.ev.2 = none) (r : ℕ) : counted r (tr ++ [x]) = counted r tr := by
  rw [counted_snoc, h]
  exact List.append_nil _

/-- A cell that is not there yet has counted nothing. -/
lemma Right.counted_nil (h : Right fr n0 tr w) {r : ℕ} (hr : w.srcstate.heap.length ≤ r) :
    counted r tr = [] := by
  rw [List.eq_nil_iff_forall_not_mem]
  rintro ⟨i, c⟩ hc
  have hlt := h.lt r _ (Or.inl (h.held r i c hc).1)
  omega

/-- The lock of an entry is counted there and nowhere else. -/
lemma counted_locked {x : Trans (Pool calls (World n) Verdict ι) (ι × Event calls)} {r r' : ℕ}
    {c : Counted} (h : lock_of x.ev.2 = some (r', c)) :
    counted r (tr ++ [x]) = counted r tr ++ if r' = r then [(x.ev.1, c)] else [] := by
  rw [counted_snoc, h, Option.bind_some]
  dsimp only
  split_ifs <;> rfl

/-- The cell of a new entry is the next one. -/
lemma eq_length_of_insert {m : RefMap Addr SrcState} {a : Addr} {st st' : SrcState} {r : ℕ}
    (hst : (m.insert a st').deref r = some st) (hr : m.heap.length ≤ r) :
    r = m.heap.length ∧ st = st' := by
  have hlen := (List.getElem?_eq_some_iff.mp hst).1
  simp only [RefMap.insert, List.length_append, List.length_singleton] at hlen
  obtain rfl : r = m.heap.length := by omega
  have hcell : (m.insert a st').deref m.heap.length = some st' := List.getElem?_concat_length
  exact ⟨rfl, Option.some.inj (hst.symm.trans hcell)⟩

/-- What the cells stand for after a change. -/
lemma stands_step {x : Trans (Pool calls (World n) Verdict ι) (ι × Event calls)}
    (h : Right fr n0 tr w) (hx : Change w.srcstate x.ev.2 w'.srcstate)
    (hinit : ∀ (a : Addr) (st : SrcState) (b : Bool), x.ev.2 = ⟨.state_insert a st, b⟩ →
      ∃ p, st = init p)
    (hlock : ∀ r c, lock_of x.ev.2 = some (r, c) → r < w.srcstate.heap.length) {r : ℕ}
    {st : SrcState} (hr : n0 ≤ r) (hst : w'.srcstate.deref r = some st) :
    StandsFor ((counted r (tr ++ [x])).map Prod.snd) st := by
  obtain ⟨pre, ⟨i, e⟩, post⟩ := x
  dsimp only at hx hinit hlock
  generalize w'.srcstate = m' at hx hst
  cases hx with
  | none hno =>
    rw [counted_of_no_lock hno]
    exact h.stands r st hr hst
  | erase a b =>
    rw [counted_of_no_lock rfl]
    exact h.stands r st hr hst
  | insert a st' b =>
    rw [counted_of_no_lock rfl]
    by_cases hlt : r < w.srcstate.heap.length
    · rw [RefMap.deref_insert _ _ _ hlt] at hst
      exact h.stands r st hr hst
    · obtain ⟨hnew, rfl⟩ := eq_length_of_insert hst (not_lt.mp hlt)
      obtain ⟨p, rfl⟩ := hinit a st b rfl
      rw [h.counted_nil hnew.ge]
      exact standsFor_init p
  | locked r' p st' hcell =>
    rw [counted_locked rfl]
    by_cases hrr : r' = r
    · subst hrr
      rw [RefMap.deref_set _ hcell] at hst
      cases hst
      rw [if_pos rfl, List.map_append]
      exact standsFor_locked (h.stands r' st' hr hcell) p
    · rw [RefMap.deref_set_ne _ _ hrr] at hst
      rw [if_neg hrr, List.append_nil]
      exact h.stands r st hr hst
  | dangling r' p b hno =>
    have hlt := hlock r' (p, b.1) rfl
    rw [RefMap.deref, List.getElem?_eq_none_iff] at hno
    omega

/-- **One operation keeps the entries right**, when it is one of a program that has been fair. -/
theorem right_step {x : Trans (Pool calls (World n) Verdict ι) (ι × Event calls)}
    (h : Right fr n0 tr w) (hx : Change w.srcstate x.ev.2 w'.srcstate)
    (hfind : ∀ a r, x.ev.2 = ⟨.state_lookup a, some r⟩ → w.srcstate.find a = some r)
    (hinit : ∀ (a : Addr) (st : SrcState) (b : Bool), x.ev.2 = ⟨.state_insert a st, b⟩ →
      ∃ p, st = init p)
    (hlock : ∀ r c, lock_of x.ev.2 = some (r, c) →
      Found tr r c.1.saddr ∧ FromFrame (fr x.ev.1) c.1) : Right fr n0 (tr ++ [x]) w' where
  grows := h.grows.trans hx.length_le
  lt r a ha := by
    rcases owned_step hx hfind ha with hold | ⟨rfl, hlen, -⟩
    · exact (h.lt r a hold).trans_le hx.length_le
    · omega
  one r a a' ha ha' := by
    rcases owned_step hx hfind ha with hold | ⟨hr, -, st, b, hev⟩
    · rcases owned_step hx hfind ha' with hold' | ⟨hr', -⟩
      · exact h.one r a a' hold hold'
      · exact absurd hr' (h.lt r a hold).ne
    · rcases owned_step hx hfind ha' with hold' | ⟨-, -, st', b', hev'⟩
      · exact absurd hr (h.lt r a' hold').ne
      · rw [hev] at hev'
        cases hev'
        rfl
  held r i c hc := by
    rw [counted_snoc] at hc
    rcases List.mem_append.mp hc with hold | hnew
    · obtain ⟨hf, hp⟩ := h.held r i c hold
      exact ⟨hf.mono x, hp⟩
    · rw [Option.mem_toList] at hnew
      obtain ⟨⟨r', c'⟩, he, hif⟩ := Option.bind_eq_some_iff.mp hnew
      dsimp only at hif
      split_ifs at hif with hr
      cases hif
      subst hr
      obtain ⟨hf, hp⟩ := hlock r' c he
      exact ⟨hf.mono x, hp⟩
  stands r st hr hst :=
    stands_step h hx hinit (fun r' c' he => h.lt r' _ (Or.inl (hlock r' c' he).1)) hr hst

variable [DecidableEq ι] {cpu : ι → Fin n}

/-- The events of a program, as `fair_so_far` wants them. -/
lemma answers_found {i : ι} {e : Event calls} (he : e ∈ own i tr) : Answers (Found tr) e := by
  obtain ⟨x, hx, hev⟩ := mem_own.mp he
  obtain ⟨o, b⟩ := e
  cases o with
  | state_lookup a =>
    cases b with
    | none => trivial
    | some r => exact ⟨x, hx, congrArg Prod.snd hev⟩
  | _ => trivial

/-- **Every run keeps the entries right.** -/
theorem right_of_run {c' : Pool calls (World n) Verdict ι}
    (h : Path (turn fun i => kernel OnlyDeletes (cpu i)) (w, fun i => xdp_firewall (fr i)) tr c') :
    Right fr w.srcstate.heap.length tr c'.1 := by
  induction h with
  | nil => exact right_start w
  | @snoc tr t u e h he ih =>
    obtain ⟨i, o, b⟩ := e
    have htrace := own_trace (h.snoc he) i
    obtain ⟨-, -, ⟨w1, hw, hx⟩, -⟩ := he
    have hmem : (⟨o, b⟩ : Event calls) ∈ own i (tr ++ [⟨t, (i, ⟨o, b⟩), u⟩]) :=
      mem_own.mpr ⟨_, List.mem_append_right _ List.mem_cons_self, rfl⟩
    obtain ⟨hinits, -, hlocks, -⟩ := fair_so_far htrace fun e he => answers_found he
    have hchange : Change w1.srcstate ⟨o, b⟩ u.1.srcstate := by
      have hc := change_exec (cpu i) w1 o
      rwa [hx] at hc
    refine right_step (right_others ih hw) hchange ?_ ?_ ?_
    · intro a r hev
      cases hev
      exact (Prod.mk.inj hx).1
    · intro a st b' hev
      refine hinits a st b' ?_
      rw [← hev]
      exact hmem
    · intro r c hlock
      obtain ⟨⟨y, hy, hev⟩, hp⟩ := hlocks r c (List.mem_filterMap.mpr ⟨_, hmem, hlock⟩)
      refine ⟨⟨y, ?_, hev⟩, hp⟩
      rcases List.mem_append.mp hy with hy | hy
      · exact hy
      · rw [List.mem_singleton.mp hy] at hev
        dsimp only at hev hlock
        rw [hev] at hlock
        cases hlock

/-! ### An entry of a run -/

/-- The spread in the row of a source comes from its entry's bitmap. -/
lemma port_spread_of_row {win : Window} {states : Dict Addr SrcState} {now : ℕ} {a : Addr}
    {st : SrcState} {row : Row} (hs : states.lookup a = some st)
    (hrow : (win.update states now).1.lookup a = some row) :
    row.port_spread = popcount st.port_bitmap := by
  obtain ⟨prev⟩ := win
  cases prev with
  | none => cases hrow
  | some prev =>
    obtain ⟨prev, prev_ns⟩ := prev
    unfold Window.update at hrow
    dsimp only at hrow
    split_ifs at hrow
    · cases hrow
    · rw [Dict.lookup_filterMap, hs, Option.bind_some] at hrow
      unfold measurements at hrow
      dsimp only at hrow
      split_ifs at hrow
      cases hrow
      rfl

/-- What the fields of the entry `st` of the source `a` say of the packets of `l`. -/
structure InStep (f : ι → Frame) (a : Addr) (l : List (ι × Counted)) (st : SrcState) : Prop where
  packets : st.packets = l.length
  once : (l.map Prod.fst).Nodup
  source : ∀ e ∈ l, SentBy a (f e.1)
  dropped : st.dropped = l.countP fun e => e.2.2 = .drop
  le_packets : st.dropped ≤ st.packets ∧ st.syn ≤ st.packets ∧ st.fin ≤ st.packets ∧
    st.rst ≤ st.packets ∧ st.udp ≤ st.packets ∧ st.icmp ≤ st.packets
  udp_icmp : st.udp + st.icmp ≤ st.packets
  bytes : 34 * st.packets ≤ st.bytes
  bitmap : ∀ b, st.port_bitmap.getLsbD b = true ↔
    ∃ e ∈ l, ∃ d, dest_port (f e.1) = some d ∧ d ≠ 0 ∧ d.toNat % 64 = b

/-- The destination ports the packets of `l` really used. -/
def ports (f : ι → Frame) (l : List (ι × Counted)) : Finset U16 :=
  (l.filterMap fun e => dest_port (f e.1)).toFinset

omit [DecidableEq ι] in
lemma InStep.spread_le {f : ι → Frame} {a : Addr} {l : List (ι × Counted)} {st : SrcState}
    (h : InStep f a l st) : popcount st.port_bitmap ≤ (ports f l).card := by
  refine popcount_le fun b hb => ?_
  obtain ⟨e, he, d, hd, -, hrest⟩ := (h.bitmap b).mp hb
  exact ⟨d, List.mem_toFinset.mpr (List.mem_filterMap.mpr ⟨e, he, hd⟩), hrest⟩

omit [DecidableEq ι] in
/-- The fields of an entry that stands for the packets. -/
lemma inStep_of_stands {f : ι → Frame} {a : Addr} {l : List (ι × Counted)} {st : SrcState}
    (hst : StandsFor (l.map Prod.snd) st) (honce : (l.map Prod.fst).Nodup)
    (hfrom : ∀ e ∈ l, e.2.1.saddr = a ∧ FromFrame (f e.1) e.2.1) : InStep f a l st := by
  have hlen : (l.map Prod.snd).length = l.length := List.length_map _
  have hpackets := congrArg Delta.packets hst.counters
  have hbytes := congrArg Delta.bytes hst.counters
  have hdropped := congrArg Delta.dropped hst.counters
  have hsyn := congrArg Delta.syn hst.counters
  have hfin := congrArg Delta.fin hst.counters
  have hrst := congrArg Delta.rst hst.counters
  have hicmp := congrArg Delta.icmp hst.counters
  have hudp := hst.udp
  obtain ⟨h1, h2, h3, h4, h5⟩ := totals_le (l.map Prod.snd)
  have hlong : ∀ c ∈ l.map Prod.snd, 34 ≤ c.1.pkt_len := by
    intro c hc
    obtain ⟨e, he, rfl⟩ := List.mem_map.mp hc
    obtain ⟨-, ip, l4, hip, -, -, -, -, -, hpkt⟩ := hfrom e he
    rw [hpkt]
    exact pkt_len_ge hip
  have hsize := totals_bytes hlong
  rw [totals_packets] at hpackets
  simp only [counters] at hpackets hbytes hdropped hsyn hfin hrst hicmp
  have hdrop := totals_dropped (l.map Prod.snd)
  rw [List.countP_map] at hdrop
  refine ⟨by omega, honce, fun e he => ?_, ?_, ?_, by omega, by omega, fun b => ?_⟩
  · obtain ⟨hsaddr, ip, l4, hip, -, hs, -⟩ := hfrom e he
    exact ⟨ip, hip, hs.symm.trans hsaddr⟩
  · have hcast : (st.dropped : ℤ) = (l.countP fun e => e.2.2 = .drop : ℕ) := hdropped.trans hdrop
    exact_mod_cast hcast
  · refine ⟨?_, ?_, ?_, ?_, ?_, ?_⟩ <;> omega
  · rw [hst.ports, marks_getLsbD]
    constructor
    · rintro ⟨c, hc, hport⟩
      obtain ⟨e, he, rfl⟩ := List.mem_map.mp hc
      exact ⟨e, he, (dport_iff (hfrom e he).2 b).mp hport⟩
    · rintro ⟨e, he, hport⟩
      exact ⟨e.2, List.mem_map_of_mem he, (dport_iff (hfrom e he).2 b).mpr hport⟩

/-- **Every entry is in step with the packets it has counted since it was made**: they came from
its source, each of them once, with the verdict the program goes on to return; and the port spread
of a poll that reads the entry is not more than the number of ports they used. -/
theorem entries_in_step {f : ι → Frame} {c' : Pool calls (World n) Verdict ι}
    (h : Path (turn fun i => kernel OnlyDeletes (cpu i)) (w, fun i => xdp_firewall (f i)) tr c')
    {a : Addr} {r : ℕ} {st : SrcState} (hfind : c'.1.srcstate.find a = some r)
    (hst : c'.1.srcstate.deref r = some st) (hnew : w.srcstate.heap.length ≤ r) :
    InStep f a (counted r tr) st ∧
    (∀ e ∈ counted r tr, ∀ v, c'.2 e.1 = .ret v → e.2.2 = v) ∧
    ∀ (win : Window) (states : Dict Addr SrcState) (now : ℕ) (row : Row),
      states.lookup a = some st → (win.update states now).1.lookup a = some row →
        row.port_spread ≤ (ports f (counted r tr)).card := by
  have hright := right_of_run h
  have hfair := fun i => fair_so_far (own_trace h i) fun e he => answers_found he
  have hfrom : ∀ e ∈ counted r tr, e.2.1.saddr = a ∧ FromFrame (f e.1) e.2.1 := by
    rintro ⟨i, c⟩ he
    obtain ⟨hf, hp⟩ := hright.held r i c he
    exact ⟨hright.one r _ a (Or.inl hf) (Or.inr hfind), hp⟩
  have honce : ((counted r tr).map Prod.fst).Nodup :=
    List.nodup_iff_count_le_one.mpr fun i => (count_counted r tr i).trans (hfair i).2.1
  have hstep := inStep_of_stands (hright.stands r st hnew hst) honce hfrom
  refine ⟨hstep, fun e he v hv => ?_, fun win states now row hs hrow => ?_⟩
  · exact (hfair e.1).2.2.2 v hv _ (lock_of_own he)
  · have hspread : row.port_spread = popcount st.port_bitmap := port_spread_of_row hs hrow
    rw [hspread]
    exact hstep.spread_le

/-! ### Two queries -/

/-- A DNS query from 10.0.0.7. -/
def dns_query : Frame where
  bytes := List.replicate 12 0 ++ [0x08, 0x00] ++
    [0x45, 0, 0, 28, 0, 0, 0, 0, 64, 17, 0, 0, 10, 0, 0, 7, 10, 0, 0, 1] ++
    [0x30, 0x39, 0, 53, 0, 8, 0, 0]
  lt := by
    simp only [List.length_append, List.length_replicate, List.length_cons, List.length_nil]
    norm_num

example : dest_port dns_query = some 53 := by decide +kernel

/-- Two queries on two CPUs of a firewall that was just loaded, one after the other. -/
def two_queries : Turns calls (World 2) Verdict (Fin 2) × Pool calls (World 2) Verdict (Fin 2) :=
  play (fun i => exec i) (List.replicate 14 0 ++ List.replicate 14 1)
    (World.loaded 2, fun _ => xdp_firewall dns_query)

theorem entries_in_step_two_queries :
    ∃ st, two_queries.2.1.srcstate.deref 0 = some st ∧ st.packets = 2 ∧
      InStep (fun _ => dns_query) 0x0A000007 (counted 0 two_queries.1) st := by
  have hrun : Path (turn fun i => kernel OnlyDeletes i)
      (World.loaded 2, fun _ : Fin 2 => xdp_firewall dns_query) two_queries.1 two_queries.2 :=
    path_play (fun _ => ⟨rfl, fun _ _ h => h⟩) _ _ _
  have hpackets : (two_queries.2.1.srcstate.deref 0).map SrcState.packets = some 2 := by
    decide +kernel
  obtain ⟨st, hst, hp⟩ := Option.map_eq_some_iff.mp hpackets
  exact ⟨st, hst, hp, (entries_in_step hrun (by decide +kernel) hst le_rfl).1⟩

end Lookout.Counting

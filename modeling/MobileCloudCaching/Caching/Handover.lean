import MobileCloudCaching.Caching.PacketIn

/-!
# Which packets the daemon interprets

`input_handler` finds a UDP header behind the IP header and its options and looks at its
destination port, without asking whether the packet is one of UDP; the length check and
`insert_task` then take the message from a fixed offset.
-/

namespace MobileCloudCaching

open Octets

namespace SkBuff

/-- `ip->protocol == IPPROTO_UDP` -/
def IsUdp (skb : SkBuff) : Prop := skb.data 9 = 17

instance (skb : SkBuff) : Decidable skb.IsUdp := inferInstanceAs (Decidable (skb.data 9 = 17))

/-- The payload of a UDP packet: what follows the IP header, its options and the UDP header. -/
def udpPayload (skb : SkBuff) : List Byte :=
  (List.range (skb.len - (4 * skb.ihl + 8))).map fun i => skb.data (4 * skb.ihl + 8 + i)

/-- The octets from `start_point` on are the payload only if there are no options. -/
theorem payload_eq_udpPayload_iff {skb : SkBuff} (hihl : 5 ≤ skb.ihl) :
    skb.payload = skb.udpPayload ↔ skb.ihl = 5 ∨ skb.len ≤ startPoint := by
  constructor
  · intro h
    have hlen := congrArg List.length h
    simp only [length_payload, udpPayload, List.length_map, List.length_range, startPoint] at hlen ⊢
    omega
  · rintro (h | h)
    · rw [payload, udpPayload, h]
      rfl
    · have hle : skb.len ≤ 4 * skb.ihl + 8 := by
        unfold startPoint at h
        omega
      rw [payload, udpPayload, Nat.sub_eq_zero_of_le h, Nat.sub_eq_zero_of_le hle]
      rfl

end SkBuff

namespace Caching

open SkBuff (startPoint)

variable (p : Params)

/-- The condition under which `input_handler` calls `packet_in`. -/
def HandedOver (skb : SkBuff) : Prop :=
  skb.udpDest = cachePort ∧ skb.isIp = true ∧ p.devSaddr ≠ skb.saddr p.order

/-- What `packet_in` reads for its check: the type, and what `valid_cache_packet` reads. -/
def packetInCheck (skb : SkBuff) (d : Daemon) : Traced ℕ (Bool × Daemon) := do
  let cacheType ← readOctet skb.message 0
  validCachePacket p skb.numbytes cacheType skb.message d

/-- What is checked and copied is the payload of a UDP packet to `CACHEPORT`: the length that is
checked is that of the payload, each octet that is read stands there in the payload, and the data of
a new task are the payload. -/
structure Interpreted (skb : SkBuff) : Prop where
  udp : skb.IsUdp
  port : skb.udpDest = cachePort
  numbytes : skb.numbytes = skb.udpPayload.length
  checked : ∀ d, ∀ i ∈ (packetInCheck p skb d).trace, skb.udpPayload[i]? = some (skb.message i)
  copied : ∀ mem clk d, ∀ t ∈ (packetIn p mem clk skb d).2.taskQ,
    t ∈ d.taskQ ∨ t.data = skb.udpPayload

/-- Nothing happens to the packet and to the daemon. -/
def PassedBy (skb : SkBuff) : Prop :=
  ∀ mem clk d, ∃ fuel, (inputHandler p mem clk fuel skb d).value = some (.accept, d)

/-- Only UDP payloads are interpreted: a packet that is handed to `packet_in` is one of UDP to
`CACHEPORT`, and what is checked and copied of it is its payload; no other packet makes a task or
counts for the daemon; and a packet that is not UDP, or goes to another port than the three that the
hook knows, is passed by. -/
structure UdpOnly (skb : SkBuff) : Prop where
  handed : HandedOver p skb → Interpreted p skb ∧
    ∀ mem clk fuel d, inputHandler p mem clk fuel skb d = pure (some (packetIn p mem clk skb d))
  kept : ¬HandedOver p skb → ∀ mem clk fuel d v e,
    (inputHandler p mem clk fuel skb d).value = some (v, e) →
      e.taskQ = d.taskQ ∧ e.fOverhead = d.fOverhead ∧ e.cOverhead = d.cOverhead
  passed : ¬ skb.IsUdp ∨ skb.udpDest ∉ [cachePort, olsrPort, aodvPort] → PassedBy p skb

/-- A packet with `CACHEPORT` behind its header is one of UDP, and comes from the address of the
device or has no options and a payload, of four octets or more for a file reply; one with `OLSRPORT`
or `AODVPORT` there is one of UDP, or comes from the address of the device, or counts as no word of
AODV. -/
def Plain (skb : SkBuff) : Prop :=
  skb.isIp = true →
    (skb.udpDest = cachePort → skb.IsUdp ∧ (p.devSaddr = skb.saddr p.order ∨
      skb.ihl = 5 ∧ startPoint < skb.len ∧
        (skb.message 0 = fileRepMessage → startPoint + 3 < skb.len))) ∧
    (skb.udpDest = olsrPort → skb.IsUdp ∨ p.devSaddr = skb.saddr p.order) ∧
    (skb.udpDest = aodvPort → skb.IsUdp ∨ p.devSaddr = skb.saddr p.order ∨
      24 < skb.len ∧ skb.len < 32)

variable {p}

theorem inputHandler_of_handedOver {skb : SkBuff} (h : HandedOver p skb) (mem : Mem) (clk : Clock)
    (fuel : ℕ) (d : Daemon) :
    inputHandler p mem clk fuel skb d = pure (some (packetIn p mem clk skb d)) := by
  rw [inputHandler, if_pos ⟨h.1, h.2.1⟩, if_pos h.2.2]

/-! ## What is checked and copied -/

/-- `packet_in` acts on the result of the check. -/
theorem packetInQueue_eq_check (mem : Mem) (clk : Clock) (skb : SkBuff) (d : Daemon) :
    packetInQueue p mem clk skb d =
      match (packetInCheck p skb d).value.1, TaskType.ofMessage (skb.message 0) with
      | true, some type => (true, insertTask p mem clk type skb (packetInCheck p skb d).value.2)
      | _, _ => (false, (packetInCheck p skb d).value.2) := rfl

theorem trace_packetInCheck (skb : SkBuff) (d : Daemon) :
    (packetInCheck p skb d).trace =
      0 :: if skb.message 0 = fileReqMessage ∧ skb.numbytes = FileReq.size then [4, 5, 6, 7]
        else if skb.message 0 = fileRepMessage then [3] else [] :=
  congrArg (0 :: ·) (trace_validCachePacket p skb.numbytes (skb.message 0) skb.message d)

/-- The task of a packet, if there is one, has what follows `start_point` for its data. -/
theorem data_of_mem_packetIn {mem : Mem} {clk : Clock} {skb : SkBuff} {d : Daemon} {t : Task}
    (ht : t ∈ (packetIn p mem clk skb d).2.taskQ) : t ∈ d.taskQ ∨ t.data = skb.payload := by
  obtain ⟨f, c, d', rfl, hqueue | ⟨type, -, -, hqueue⟩⟩ := packetInQueue_cases p mem clk skb d
  · rw [packetIn, hqueue] at ht
    exact .inl ht
  · rw [packetIn, hqueue] at ht
    dsimp only [insertTask] at ht
    split at ht
    · rcases List.mem_append.1 ht with ht | ht
      · exact .inl ht
      · rw [List.mem_singleton.1 ht]
        exact .inr rfl
    · exact .inl ht

/-- The octets at `start_point` are the payload, where the check reads them, if there are no options
and the payload is long enough for what is read. -/
theorem interpreted_iff {skb : SkBuff} (hihl : 5 ≤ skb.ihl) (hport : skb.udpDest = cachePort) :
    Interpreted p skb ↔ skb.IsUdp ∧ skb.ihl = 5 ∧ startPoint < skb.len ∧
      (skb.message 0 = fileRepMessage → startPoint + 3 < skb.len) := by
  have hlen : skb.udpPayload.length = skb.len - (4 * skb.ihl + 8) := by
    rw [SkBuff.udpPayload, List.length_map, List.length_range]
  have hnum : skb.numbytes = (skb.len : ℤ) - 28 := rfl
  have hstart : startPoint = 28 := rfl
  constructor
  · intro h
    have hinside : ∀ i ∈ (packetInCheck p skb {}).trace, i < skb.udpPayload.length := fun i hi =>
      (List.getElem?_eq_some_iff.1 (h.checked {} i hi)).1
    rw [trace_packetInCheck] at hinside
    have hfirst := hinside 0 List.mem_cons_self
    have hsize := h.numbytes
    refine ⟨h.udp, by omega, by omega, fun hrep => ?_⟩
    have hreq : ¬(skb.message 0 = fileReqMessage ∧ skb.numbytes = FileReq.size) := fun hreq =>
      absurd (hrep.symm.trans hreq.1) (by decide)
    rw [if_neg hreq, if_pos hrep] at hinside
    have hthird := hinside 3 (List.mem_cons_of_mem _ List.mem_cons_self)
    omega
  · rintro ⟨hudp, hoptions, hpayload, hrep⟩
    have heq : skb.payload = skb.udpPayload :=
      (SkBuff.payload_eq_udpPayload_iff hihl).2 (.inl hoptions)
    refine ⟨hudp, hport, by omega, fun d i hi => ?_, fun mem clk d t ht => ?_⟩
    · rw [← heq]
      refine SkBuff.getElem?_payload ?_
      rw [trace_packetInCheck] at hi
      rcases List.mem_cons.1 hi with rfl | hi
      · exact hpayload
      · split at hi
        · rename_i hreq
          have hsize : skb.numbytes = 24 := hreq.2
          simp only [List.mem_cons, List.not_mem_nil, or_false] at hi
          omega
        · split at hi
          · rename_i hrepType
            rw [List.mem_singleton.1 hi]
            exact hrep hrepType
          · exact absurd hi List.not_mem_nil
    · rw [← heq]
      exact data_of_mem_packetIn ht

/-! ## Packets that are passed by -/

/-- The walk counts messages, and nothing else. -/
theorem olsrWalk_frame {data : ℕ → Byte} {fuel m : ℕ} {count : U32} {d e : Daemon}
    (h : (olsrWalk data fuel m count d).value = some e) :
    ∃ c n t, e = { d with rtHelloC := c, rtHello := n, rtTc := t } := by
  induction fuel generalizing m count d with
  | zero =>
    rw [olsrWalk, Traced.value_pure] at h
    split at h
    · cases h
    · exact ⟨_, _, _, (Option.some.inj h).symm⟩
  | succ fuel ih =>
    rw [olsrWalk] at h
    split at h
    · rw [Traced.value_bind] at h
      obtain ⟨c, n, t, rfl⟩ := ih h
      unfold countMessage
      split_ifs <;> exact ⟨_, _, _, rfl⟩
    · rw [Traced.value_pure] at h
      exact ⟨_, _, _, (Option.some.inj h).symm⟩

/-- A packet of OLSR changes nothing but the counters of OLSR. -/
theorem olsrIn_frame {fuel : ℕ} {skb : SkBuff} {d e : Daemon} {v : Verdict}
    (h : (olsrIn fuel skb d).value = some (v, e)) :
    e.taskQ = d.taskQ ∧ e.fOverhead = d.fOverhead ∧ e.cOverhead = d.cOverhead := by
  unfold olsrIn at h
  dsimp only at h
  split at h
  · obtain ⟨-, rfl⟩ := Prod.mk.inj (Option.some.inj h)
    exact ⟨rfl, rfl, rfl⟩
  · rw [Traced.value_bind, Traced.value_pure] at h
    obtain ⟨e', he, heq⟩ := Option.map_eq_some_iff.1 h
    obtain ⟨-, rfl⟩ := Prod.mk.inj heq
    obtain ⟨c, n, t, rfl⟩ := olsrWalk_frame he
    exact ⟨rfl, rfl, rfl⟩

/-- A packet that is not handed over makes no task, and does not count for the daemon. -/
theorem kept_of_not_handedOver {skb : SkBuff} (h : ¬HandedOver p skb) {mem : Mem} {clk : Clock}
    {fuel : ℕ} {d e : Daemon} {v : Verdict}
    (hrun : (inputHandler p mem clk fuel skb d).value = some (v, e)) :
    e.taskQ = d.taskQ ∧ e.fOverhead = d.fOverhead ∧ e.cOverhead = d.cOverhead := by
  have hsame : ∀ w, (pure (some (w, d)) : Traced ℕ (Option (Verdict × Daemon))).value =
      some (v, e) →
      e.taskQ = d.taskQ ∧ e.fOverhead = d.fOverhead ∧ e.cOverhead = d.cOverhead := by
    intro w hw
    obtain ⟨-, rfl⟩ := Prod.mk.inj (Option.some.inj hw)
    exact ⟨rfl, rfl, rfl⟩
  unfold inputHandler at hrun
  split at hrun
  · rename_i hcache
    split at hrun
    · rename_i hdev
      exact absurd ⟨hcache.1, hcache.2, hdev⟩ h
    · exact hsame _ hrun
  · split at hrun
    · split at hrun
      · exact olsrIn_frame hrun
      · exact hsame _ hrun
    · split at hrun
      · split at hrun
        · obtain ⟨-, rfl⟩ := Prod.mk.inj (Option.some.inj hrun)
          unfold aodvIn
          dsimp only
          split <;> exact ⟨rfl, rfl, rfl⟩
        · exact hsame _ hrun
      · exact hsame _ hrun

/-- Every OLSR packet is dropped or counted. -/
theorem olsrIn_ne (fuel : ℕ) (skb : SkBuff) (d : Daemon) :
    (olsrIn fuel skb d).value ≠ some (.accept, d) := by
  intro h
  unfold olsrIn at h
  dsimp only at h
  split at h
  · rw [Traced.value_pure, Option.some.injEq, Prod.mk.injEq] at h
    exact absurd h.1 (by decide)
  · rw [Traced.value_bind, Traced.value_pure] at h
    obtain ⟨e, he, hd⟩ := Option.map_eq_some_iff.1 h
    have hsame : e = d := (Prod.mk.inj hd).2
    obtain ⟨c, n, t, hframe⟩ := olsrWalk_frame he
    have hcount : e.rtHeader = d.rtHeader + 1 := congrArg Daemon.rtHeader hframe
    rw [hsame] at hcount
    bv_omega

/-- The words of a packet that IP allows are zero only if it is almost as long as the headers. -/
theorem words_eq_zero_iff {skb : SkBuff} (hlen : skb.len < 2 ^ 16) :
    BitVec.ofInt 32 (skb.numbytes.tdiv 4) = 0 ↔ 24 < skb.len ∧ skb.len < 32 := by
  have hnum : skb.numbytes = (skb.len : ℤ) - 28 := rfl
  have hzero : BitVec.ofInt 32 (skb.numbytes.tdiv 4) = 0 ↔ skb.numbytes.tdiv 4 % 2 ^ 32 = 0 := by
    rw [← BitVec.toNat_inj, BitVec.toNat_ofInt]
    change (skb.numbytes.tdiv 4 % 2 ^ 32).toNat = 0 ↔ _
    omega
  rw [hzero]
  rcases le_total 0 skb.numbytes with hpos | hneg
  · rw [Int.tdiv_eq_ediv_of_nonneg hpos]
    omega
  · rw [← neg_neg skb.numbytes, Int.neg_tdiv, Int.tdiv_eq_ediv_of_nonneg (by omega)]
    omega

/-- An AODV packet is counted by its words. -/
theorem aodvIn_eq_iff {skb : SkBuff} (hlen : skb.len < 2 ^ 16) (d : Daemon) :
    aodvIn p skb d = d ↔ 24 < skb.len ∧ skb.len < 32 := by
  have hadd : ∀ x : U32, x + BitVec.ofInt 32 (skb.numbytes.tdiv 4) = x ↔
      24 < skb.len ∧ skb.len < 32 := by
    intro x
    rw [← words_eq_zero_iff hlen]
    constructor
    · intro h
      bv_omega
    · intro h
      rw [h]
      exact BitVec.add_zero x
  unfold aodvIn
  dsimp only
  split
  · exact ⟨fun h => (hadd _).1 (congrArg Daemon.aodvHello h), fun h => by rw [(hadd _).2 h]⟩
  · exact ⟨fun h => (hadd _).1 (congrArg Daemon.aodvElse h), fun h => by rw [(hadd _).2 h]⟩

theorem passedBy_of_eq {skb : SkBuff}
    (h : ∀ mem clk fuel d, inputHandler p mem clk fuel skb d = pure (some (.accept, d))) :
    PassedBy p skb := fun mem clk d => ⟨0, by rw [h, Traced.value_pure]⟩

theorem not_passedBy_of_ne {skb : SkBuff}
    (h : ∀ fuel, (inputHandler p .plenty ⟨0, 0⟩ fuel skb {}).value ≠ some (.accept, {})) :
    ¬ PassedBy p skb := by
  intro hpass
  obtain ⟨fuel, hf⟩ := hpass .plenty ⟨0, 0⟩ {}
  exact h fuel hf

/-- Which packets without a message for the daemon are passed by, among those that seem
to go to a port that the hook knows. -/
theorem passedBy_iff {skb : SkBuff} (hlen : skb.len < 2 ^ 16) (hip : skb.isIp = true) :
    (skb.udpDest = cachePort → p.devSaddr = skb.saddr p.order → ¬ PassedBy p skb) ∧
    (skb.udpDest = olsrPort → (PassedBy p skb ↔ p.devSaddr = skb.saddr p.order)) ∧
    (skb.udpDest = aodvPort →
      (PassedBy p skb ↔ p.devSaddr = skb.saddr p.order ∨ 24 < skb.len ∧ skb.len < 32)) := by
  refine ⟨fun hport hdev => not_passedBy_of_ne fun fuel => ?_, fun hport => ?_, fun hport => ?_⟩
  · rw [inputHandler, if_pos ⟨hport, hip⟩, if_neg (not_not.2 hdev), Traced.value_pure]
    decide
  · have hcache : ¬ (skb.udpDest = cachePort ∧ skb.isIp = true) :=
      fun h => absurd (hport.symm.trans h.1) (by decide)
    by_cases hdev : p.devSaddr = skb.saddr p.order
    · refine iff_of_true (passedBy_of_eq fun mem clk fuel d => ?_) hdev
      rw [inputHandler, if_neg hcache, if_pos ⟨hport, hip⟩, if_neg (not_not.2 hdev)]
    · refine iff_of_false (not_passedBy_of_ne fun fuel => ?_) hdev
      rw [inputHandler, if_neg hcache, if_pos ⟨hport, hip⟩, if_pos hdev]
      exact olsrIn_ne _ _ _
  · have hcache : ¬ (skb.udpDest = cachePort ∧ skb.isIp = true) :=
      fun h => absurd (hport.symm.trans h.1) (by decide)
    have holsr : ¬ (skb.udpDest = olsrPort ∧ skb.isIp = true) :=
      fun h => absurd (hport.symm.trans h.1) (by decide)
    by_cases hdev : p.devSaddr = skb.saddr p.order
    · refine iff_of_true (passedBy_of_eq fun mem clk fuel d => ?_) (Or.inl hdev)
      rw [inputHandler, if_neg hcache, if_neg holsr, if_pos ⟨hport, hip⟩, if_neg (not_not.2 hdev)]
    · have hrun : ∀ mem clk fuel d,
          inputHandler p mem clk fuel skb d = pure (some (.accept, aodvIn p skb d)) := by
        intro mem clk fuel d
        rw [inputHandler, if_neg hcache, if_neg holsr, if_pos ⟨hport, hip⟩, if_pos hdev]
      rw [or_iff_right hdev]
      constructor
      · intro hpass
        obtain ⟨fuel, hf⟩ := hpass .plenty ⟨0, 0⟩ {}
        rw [hrun, Traced.value_pure, Option.some.injEq, Prod.mk.injEq] at hf
        exact (aodvIn_eq_iff hlen _).1 hf.2
      · exact fun h => passedBy_of_eq fun mem clk fuel d => by rw [hrun, (aodvIn_eq_iff hlen d).2 h]

/-- The other packets are passed by. -/
theorem passedBy_of_other {skb : SkBuff}
    (h : skb.isIp = false ∨ skb.udpDest ∉ [cachePort, olsrPort, aodvPort]) : PassedBy p skb := by
  refine passedBy_of_eq fun mem clk fuel d => ?_
  have hport : ∀ port ∈ [cachePort, olsrPort, aodvPort],
      ¬ (skb.udpDest = port ∧ skb.isIp = true) := by
    rintro port hmem ⟨rfl, hip⟩
    rcases h with h | h
    · rw [h] at hip
      cases hip
    · exact h hmem
  rw [inputHandler, if_neg (hport cachePort (by decide)), if_neg (hport olsrPort (by decide)),
    if_neg (hport aodvPort (by decide))]

/-- What is left of the property, besides the frames. -/
theorem udpOnly_iff_and {skb : SkBuff} : UdpOnly p skb ↔ (HandedOver p skb → Interpreted p skb) ∧
    (¬ skb.IsUdp ∨ skb.udpDest ∉ [cachePort, olsrPort, aodvPort] → PassedBy p skb) :=
  ⟨fun h => ⟨fun hh => (h.handed hh).1, h.passed⟩, fun h => ⟨fun hh => ⟨h.1 hh,
    inputHandler_of_handedOver hh⟩, fun hnot _ _ _ _ _ _ => kept_of_not_handedOver hnot, h.2⟩⟩

/-- For every packet that IP allows: only UDP payloads are
interpreted exactly if the packet is plain. -/
theorem udpOnly_iff {skb : SkBuff} (hihl : 5 ≤ skb.ihl) (hlen : skb.len < 2 ^ 16) :
    UdpOnly p skb ↔ Plain p skb := by
  cases hip : skb.isIp with
  | false =>
    refine udpOnly_iff_and.trans <|
      iff_of_true ⟨fun h => ?_, fun _ => passedBy_of_other (Or.inl hip)⟩ fun h => ?_
    · rw [h.2.1] at hip
      cases hip
    · rw [h] at hip
      cases hip
  | true =>
    obtain ⟨hcache, holsr, haodv⟩ := passedBy_iff (p := p) hlen hip
    rw [Plain, imp_iff_right hip]
    by_cases hc : skb.udpDest = cachePort
    · have ho : skb.udpDest ≠ olsrPort := fun h => absurd (hc.symm.trans h) (by decide)
      have ha : skb.udpDest ≠ aodvPort := fun h => absurd (hc.symm.trans h) (by decide)
      rw [and_iff_left ⟨fun h => absurd h ho, fun h => absurd h ha⟩, imp_iff_right hc]
      by_cases hdev : p.devSaddr = skb.saddr p.order
      · rw [and_iff_left (Or.inl hdev), udpOnly_iff_and]
        constructor
        · intro h
          by_contra hudp
          exact hcache hc hdev (h.2 (Or.inl hudp))
        · refine fun hudp => ⟨fun h => absurd hdev h.2.2, ?_⟩
          rintro (hnot | hport)
          · exact absurd hudp hnot
          · exact absurd (hc ▸ List.mem_cons_self) hport
      · rw [or_iff_right hdev, ← interpreted_iff (p := p) hihl hc, udpOnly_iff_and]
        constructor
        · exact fun h => h.1 ⟨hc, hip, hdev⟩
        · refine fun h => ⟨fun _ => h, ?_⟩
          rintro (hnot | hport)
          · exact absurd h.udp hnot
          · exact absurd (hc ▸ List.mem_cons_self) hport
    · have hhand : ¬ HandedOver p skb := fun h => hc h.1
      rw [and_iff_right fun h => absurd h hc, udpOnly_iff_and,
        and_iff_right fun h => absurd h hhand]
      by_cases ho : skb.udpDest = olsrPort
      · have ha : skb.udpDest ≠ aodvPort := fun h => absurd (ho.symm.trans h) (by decide)
        have hknown : ¬ skb.udpDest ∉ [cachePort, olsrPort, aodvPort] := by simp [ho]
        rw [and_iff_left fun h => absurd h ha, imp_iff_right ho, or_iff_left hknown, holsr ho,
          ← or_iff_not_imp_left]
      · rw [and_iff_right fun h => absurd h ho]
        by_cases ha : skb.udpDest = aodvPort
        · have hknown : ¬ skb.udpDest ∉ [cachePort, olsrPort, aodvPort] := by simp [ha]
          rw [imp_iff_right ha, or_iff_left hknown, haodv ha, ← or_iff_not_imp_left]
        · exact iff_of_true (fun _ => passedBy_of_other (Or.inr (by simp [hc, ho, ha])))
            fun h => absurd h ha

/-- A UDP packet for the daemon with one option word, from another host. -/
def optionPacket : SkBuff where
  len := 32 + 20
  data i := ([0x46, 0, 0, 0, 0, 0, 0, 0, 5, 17, 0, 0, 10, 0, 0, 1, 10, 0, 0, 2, 1, 1, 1, 1, 0, 0, 2,
    0x8F] ++ List.replicate 24 0).getD i 0
  isIp := true

theorem udpOnly_iff_optionPacket : ¬ UdpOnly testNode optionPacket := by
  rw [udpOnly_iff (by decide) (by decide)]
  intro h
  exact absurd (h rfl).1 (by decide)

/-- A packet of another protocol, with `CACHEPORT` where UDP would have its destination port. -/
def tcpPacket : SkBuff where
  len := 28
  data i := ([0x45, 0, 0, 0, 0, 0, 0, 0, 5, 6, 0, 0, 10, 0, 0, 1, 10, 0, 0, 2, 0, 0, 2, 0x8F] ++
    List.replicate 4 0).getD i 0
  isIp := true

/-- A TCP packet to port 655 is handed to `packet_in`. -/
theorem not_udpOnly_tcpPacket :
    ¬ ∀ (p : Params) (skb : SkBuff), skb.isIp = true → 5 ≤ skb.ihl → skb.len < 2 ^ 16 →
      p.devSaddr ≠ skb.saddr p.order → UdpOnly p skb := by
  intro h
  have hhanded : HandedOver testNode tcpPacket := by
    unfold HandedOver
    decide
  have hudp := ((h testNode tcpPacket rfl (by decide) (by decide) (by decide)).handed hhanded).1.udp
  exact absurd hudp (by decide)

end Caching

end MobileCloudCaching

import MobileCloudCaching.Aodv.Errors
import MobileCloudCaching.Aodv.Thread
import MobileCloudCaching.Library.Traced

/-!
# AODV messages as octets (`aodv.h`, `packet_in.c`)

The numbers of a message are put into network order before it is sent, and back when its handler
starts; addresses are in network order all the time.  `packet_in` checks the octets of a packet and
leaves the rest to the handler.
-/

namespace MobileCloudCaching.Aodv

open Octets

/-- `AODVPORT` -/
def aodvPort : ℕ := 654

def rreqMessage : Byte := 1
def rrepMessage : Byte := 2
def rerrMessage : Byte := 3

/-! ## Layout -/

/-- `sizeof(rreq)` -/
def Rreq.size : ℕ := 24

/-- `sizeof(rrep)` -/
def Rrep.size : ℕ := 20

/-- `sizeof(rrep_ack)` -/
def rrepAckSize : ℕ := 1

/-- The octets of a request or a reply that no handler reads: the one of the bit fields and the
reserved one. -/
structure Spare where
  flags : Byte
  reserved : Byte

/-- The words behind the first four octets, after `convert_rreq_to_network`. -/
def Rreq.words (o : ByteOrder) (m : Rreq) : List U32 :=
  [hton o m.rreqId, m.dstIp, hton o m.dstSeq, m.srcIp, hton o m.srcSeq]

def Rreq.octets (o : ByteOrder) (x : Spare) (m : Rreq) : List Byte :=
  [rreqMessage, x.flags, x.reserved, m.metric] ++ storeAll o (m.words o)

/-- The request in the data of a task, after `convert_rreq_to_host`. -/
def Rreq.load (o : ByteOrder) (data : List Byte) : Option Rreq := do
  return { metric := ← data[3]?, rreqId := hton o (← Octets.load o data 4),
           dstIp := ← Octets.load o data 8, dstSeq := hton o (← Octets.load o data 12),
           srcIp := ← Octets.load o data 16, srcSeq := hton o (← Octets.load o data 20) }

/-- The words behind the first four octets, after `convert_rrep_to_network`. -/
def Rrep.words (o : ByteOrder) (m : Rrep) : List U32 :=
  [m.dstIp, hton o m.dstSeq, m.srcIp, hton o m.lifetime]

def Rrep.octets (o : ByteOrder) (x : Spare) (m : Rrep) : List Byte :=
  [rrepMessage, x.flags, x.reserved, m.metric] ++ storeAll o (m.words o)

/-- The reply in the data of a task, after `convert_rrep_to_host`. -/
def Rrep.load (o : ByteOrder) (data : List Byte) : Option Rrep := do
  return { metric := ← data[3]?, dstIp := ← Octets.load o data 4,
           dstSeq := hton o (← Octets.load o data 8), srcIp := ← Octets.load o data 12,
           lifetime := hton o (← Octets.load o data 16) }

/-- The error in the data of a task, as the loop of `recv_rerr` goes through it. -/
def Rerr.load (o : ByteOrder) (data : List Byte) : Option Rerr := do
  return { dstCount := ← data[3]?, dsts := ← rerrDsts o data }

namespace Message

/-- The octets that are handed to the socket. -/
def octets (o : ByteOrder) (x : Spare) : Message → List Byte
  | .rreq m => m.octets o x
  | .rrep m => m.octets o x
  | .rerr m => m.octets o
  | .rrepAck => [4]

/-- The message in the data of a task; its first octet is the type of the task. -/
def load (o : ByteOrder) (data : List Byte) : Option Message := do
  let type ← data[0]?
  if type = rreqMessage then return .rreq (← Rreq.load o data)
  else if type = rrepMessage then return .rrep (← Rrep.load o data)
  else if type = rerrMessage then return .rerr (← Rerr.load o data)
  else if type = 4 then return .rrepAck
  else none

end Message

/-! ## The hook -/

/-- `valid_aodv_packet`; the accesses are the offsets of the octets that it reads. -/
def validAodvOctets (numbytes : ℤ) (type : Byte) (data : ℕ → Byte) (s : Router) :
    Traced ℕ (Bool × Router) :=
  if type = rreqMessage then
    return if numbytes = Rreq.size then (true, { s with overhead := s.overhead + 1 })
      else (false, s)
  else if type = rrepMessage then
    return if numbytes = Rrep.size then (true, { s with overhead := s.overhead + 1 })
      else (false, s)
  else if type = rerrMessage then do
    let dstCount ← Traced.access 3 (data 3)
    return (numbytes = (Rerr.size + AodvDst.size * dstCount.toNat : ℕ), s)
  else if type = 4 then return (numbytes = rrepAckSize, s)
  else return (false, s)

/-- What `insert_task` keeps of a packet that holds the message. -/
def arrivalOf (p : Params) (skb : SkBuff) (msg : Message) : Arrival where
  srcIp := skb.saddr p.order
  dstIp := skb.daddr p.order
  ttl := skb.ttl
  dev := p.dev
  msg := msg

/-- `packet_in` on the octets of a packet; without the message that its handler reads the data
would end too early. -/
def packetInSkb (p : Params) (mem : Mem) (clk : Clock) (skb : SkBuff) (s : Router) :
    Traced ℕ (Option (Verdict × Router)) := do
  let type ← Traced.access 0 (skb.message 0)
  let (valid, s) ← validAodvOctets skb.numbytes type skb.message s
  if valid then
    return (Message.load p.order skb.payload).map fun msg =>
      (.accept, insertTask mem clk (arrivalOf p skb msg) s)
  else return some (.drop, s)

/-- `input_handler`; `devSaddr` is what `in->ip_ptr` leads to. -/
def inputHandler (p : Params) (devSaddr : U32) (mem : Mem) (clk : Clock) (skb : SkBuff)
    (s : Router) : Traced ℕ (Option (Verdict × Router)) :=
  if skb.udpDest = aodvPort ∧ skb.isIp then
    if devSaddr ≠ skb.saddr p.order then packetInSkb p mem clk skb s else return some (.drop, s)
  else return some (.accept, s)

/-! ## What is sent is understood -/

/-- An address of a host of order `o`, as one of order `r` reads it. -/
def seenIp (o r : ByteOrder) (ip : U32) : U32 := hton r (hton o ip)

/-- A message of a host of order `o`, as one of order `r` reads it. -/
def Message.seen (o r : ByteOrder) : Message → Message
  | .rreq m => .rreq { m with dstIp := seenIp o r m.dstIp, srcIp := seenIp o r m.srcIp }
  | .rrep m => .rrep { m with dstIp := seenIp o r m.dstIp, srcIp := seenIp o r m.srcIp }
  | .rerr m => .rerr { m with dsts := m.dsts.map (AodvDst.seen o r) }
  | .rrepAck => .rrepAck

/-- A packet of a host of order `o`, as a node reads it. -/
def seenArrival (p : Params) (o : ByteOrder) (saddr daddr : U32) (ttl : Byte) (msg : Message) :
    Arrival where
  srcIp := seenIp o p.order saddr
  dstIp := seenIp o p.order daddr
  ttl := ttl
  dev := p.dev
  msg := msg.seen o p.order

/-- `rerr_size` does not wrap around. -/
def Message.Fits : Message → Prop
  | .rerr m => m.dsts.length < 2 ^ 28
  | _ => True

section

variable {p : Params} {mem : Mem} {clk : Clock} {o r : ByteOrder} {x : Spare} {s : Router}
  {msg : Message} {data : List Byte} {skb : SkBuff}

@[simp] theorem seenIp_self (ip : U32) : seenIp o o ip = ip := hton_hton o ip

@[simp] theorem Message.seen_self (msg : Message) : msg.seen o o = msg := by
  have hdst : AodvDst.seen o o = id := funext fun d => by simp [AodvDst.seen]
  cases msg <;> simp [Message.seen, hdst]

theorem validAodvPacket_seen : validAodvPacket (msg.seen o r) s = validAodvPacket msg s := by
  cases msg <;> simp [validAodvPacket, Message.seen]

/-- The word number `i` behind the first four octets. -/
theorem load_words {a b c d : Byte} {ws : List U32} {i : ℕ} (hi : i < ws.length) :
    Octets.load r ([a, b, c, d] ++ storeAll o ws) (4 + 4 * i) = some (hton r (hton o ws[i])) :=
  load_storeAll o r [a, b, c, d] ws hi

theorem Rreq.load_octets (m : Rreq) : Rreq.load r (m.octets o x) =
    some { m with dstIp := seenIp o r m.dstIp, srcIp := seenIp o r m.srcIp } := by
  have hw : ∀ i (hi : i < (m.words o).length), Octets.load r (m.octets o x) (4 + 4 * i) =
      some (hton r (hton o (m.words o)[i])) := fun i hi => load_words hi
  have h₀ : Octets.load r (m.octets o x) 4 = some (hton r (hton o (hton o m.rreqId))) :=
    hw 0 (Nat.zero_lt_succ _)
  have h₁ : Octets.load r (m.octets o x) 8 = some (seenIp o r m.dstIp) := hw 1 (by simp [words])
  have h₂ : Octets.load r (m.octets o x) 12 = some (hton r (hton o (hton o m.dstSeq))) :=
    hw 2 (by simp [words])
  have h₃ : Octets.load r (m.octets o x) 16 = some (seenIp o r m.srcIp) := hw 3 (by simp [words])
  have h₄ : Octets.load r (m.octets o x) 20 = some (hton r (hton o (hton o m.srcSeq))) :=
    hw 4 (by simp [words])
  have h₅ : (m.octets o x)[3]? = some m.metric := rfl
  simp only [Rreq.load, h₀, h₁, h₂, h₃, h₄, h₅, hton_hton, Option.bind_eq_bind, Option.bind_some]
  rfl

theorem Rrep.load_octets (m : Rrep) : Rrep.load r (m.octets o x) =
    some { m with dstIp := seenIp o r m.dstIp, srcIp := seenIp o r m.srcIp } := by
  have hw : ∀ i (hi : i < (m.words o).length), Octets.load r (m.octets o x) (4 + 4 * i) =
      some (hton r (hton o (m.words o)[i])) := fun i hi => load_words hi
  have h₀ : Octets.load r (m.octets o x) 4 = some (seenIp o r m.dstIp) :=
    hw 0 (Nat.zero_lt_succ _)
  have h₁ : Octets.load r (m.octets o x) 8 = some (hton r (hton o (hton o m.dstSeq))) :=
    hw 1 (by simp [words])
  have h₂ : Octets.load r (m.octets o x) 12 = some (seenIp o r m.srcIp) := hw 2 (by simp [words])
  have h₃ : Octets.load r (m.octets o x) 16 = some (hton r (hton o (hton o m.lifetime))) :=
    hw 3 (by simp [words])
  have h₄ : (m.octets o x)[3]? = some m.metric := rfl
  simp only [Rrep.load, h₀, h₁, h₂, h₃, h₄, hton_hton, Option.bind_eq_bind, Option.bind_some]
  rfl

theorem Rerr.load_octets {m : Rerr} (h : m.dsts.length < 2 ^ 28)
    (hcount : m.dsts.length = m.dstCount.toNat) : Rerr.load r (m.octets o) =
      some { m with dsts := m.dsts.map (AodvDst.seen o r) } := by
  rw [Rerr.load, octets_dstCount, rerrDsts_octets h hcount.ge, ← hcount, List.take_length]
  rfl

/-- A receiver of order `r` reads a message of a host of order `o`, if it takes it. -/
theorem Message.load_octets (hfits : msg.Fits) (hvalid : (validAodvPacket msg s).1 = true) :
    Message.load r (msg.octets o x) = some (msg.seen o r) := by
  cases msg with
  | rreq m =>
    have h : (Message.rreq m).octets o x = m.octets o x := rfl
    rw [h, Message.load, show (m.octets o x)[0]? = some 1 from rfl, Rreq.load_octets]
    rfl
  | rrep m =>
    have h : (Message.rrep m).octets o x = m.octets o x := rfl
    rw [h, Message.load, show (m.octets o x)[0]? = some 2 from rfl, Rrep.load_octets]
    rfl
  | rerr m =>
    have h : (Message.rerr m).octets o x = m.octets o := rfl
    have htype : (m.octets o)[0]? = some 3 := by rw [octets_eq hfits]; rfl
    rw [h, Message.load, htype, Rerr.load_octets hfits (beq_iff_eq.1 hvalid)]
    rfl
  | rrepAck => rfl

/-- The check on octets is the one on messages. -/
theorem validAodvOctets_octets (hfits : msg.Fits) :
    (validAodvOctets (msg.octets o x).length ((msg.octets o x).getD 0 0)
      ((msg.octets o x).getD · 0) s).value = validAodvPacket msg s := by
  cases msg with
  | rreq m => rfl
  | rrep m => rfl
  | rerr m =>
    have hdata : ∀ i, ((Message.rerr m).octets o x).getD i 0 = ((m.octets o)[i]?).getD 0 :=
      fun i => List.getD_eq_getElem?_getD ..
    have htype : (m.octets o)[0]? = some rerrMessage := by rw [octets_eq hfits]; rfl
    have hlen : (m.octets o).length = Rerr.size + AodvDst.size * m.dsts.length := by
      rw [octets_eq hfits, List.length_append, length_storeAll, length_words]
      simp only [Rerr.size, AodvDst.size, List.length_cons, List.length_nil]
      omega
    have hvalue : (validAodvOctets (m.octets o).length rerrMessage
        (((Message.rerr m).octets o x).getD · 0) s).value =
        (decide (((m.octets o).length : ℤ) = (Rerr.size + AodvDst.size *
          (((Message.rerr m).octets o x).getD 3 0).toNat : ℕ)), s) := rfl
    rw [hdata 0, htype, Option.getD_some]
    refine hvalue.trans ?_
    rw [hdata 3, octets_dstCount, Option.getD_some, hlen, validAodvPacket]
    refine congrArg (·, s) (Bool.eq_iff_iff.2 ?_)
    rw [decide_eq_true_iff, beq_iff_eq, AodvDst.size]
    omega
  | rrepAck => rfl

/-- What a host of order `o` sends, the hook of another host takes as that message. -/
theorem inputHandler_udp {devSaddr saddr daddr : U32} {ttl : Byte} (hfits : msg.Fits) :
    (inputHandler p devSaddr mem clk (.udp o saddr daddr ttl aodvPort (msg.octets o x)) s).value =
      some (if devSaddr = seenIp o p.order saddr then (.drop, s) else
        packetIn mem clk (seenArrival p o saddr daddr ttl msg) s) := by
  generalize hskb : SkBuff.udp o saddr daddr ttl aodvPort (msg.octets o x) = skb
  have hport : skb.udpDest = aodvPort ∧ skb.isIp = true := by
    rw [← hskb]
    exact ⟨SkBuff.udpDest_udp _ _ _ _ _ _ (by decide), rfl⟩
  have hsaddr : skb.saddr p.order = seenIp o p.order saddr := by rw [← hskb, SkBuff.saddr_udp]; rfl
  rw [inputHandler, if_pos hport, hsaddr]
  by_cases hdev : devSaddr = seenIp o p.order saddr
  · rw [if_neg (not_not.2 hdev), if_pos hdev]
    rfl
  rw [if_pos hdev, if_neg hdev]
  have hmessage : skb.message = ((msg.octets o x).getD · 0) := funext fun i => by
    rw [← hskb, SkBuff.message_udp]
  have hnum : skb.numbytes = (msg.octets o x).length := by rw [← hskb, SkBuff.numbytes_udp]
  have harrival : arrivalOf p skb (msg.seen o p.order) = seenArrival p o saddr daddr ttl msg := by
    rw [arrivalOf, hsaddr, ← hskb, SkBuff.daddr_udp]
    rfl
  have hcheck : (validAodvOctets skb.numbytes (skb.message 0) skb.message s).value =
      validAodvPacket msg s := by
    rw [hmessage, hnum]
    exact validAodvOctets_octets hfits
  have hpacket : packetIn mem clk (seenArrival p o saddr daddr ttl msg) s =
      if (validAodvPacket msg s).1 then
        (.accept,
          insertTask mem clk (seenArrival p o saddr daddr ttl msg) (validAodvPacket msg s).2)
      else (.drop, (validAodvPacket msg s).2) := by
    rw [packetIn, show (seenArrival p o saddr daddr ttl msg).msg = msg.seen o p.order from rfl,
      validAodvPacket_seen]
    rcases validAodvPacket msg s with ⟨_ | _, t⟩ <;> rfl
  simp only [packetInSkb, Traced.value_bind, Traced.value_access, hcheck]
  rw [hpacket]
  by_cases hvalid : (validAodvPacket msg s).1 = true
  · rw [if_pos hvalid, if_pos hvalid, Traced.value_pure, ← hskb, SkBuff.payload_udp,
      Message.load_octets hfits hvalid, hskb, Option.map_some, harrival]
  · rw [if_neg hvalid, if_neg hvalid]
    rfl

/-! ## Any packet -/

theorem exists_load {i : ℕ} (h : i + 4 ≤ data.length) : ∃ w, Octets.load o data i = some w :=
  Option.isSome_iff_exists.1 ((load_isSome_iff o data i).2 h)

theorem Rreq.exists_load (h : data.length = Rreq.size) : ∃ m, Rreq.load o data = some m := by
  rw [Rreq.size] at h
  obtain ⟨w₀, h₀⟩ := Aodv.exists_load (o := o) (show 4 + 4 ≤ data.length by omega)
  obtain ⟨w₁, h₁⟩ := Aodv.exists_load (o := o) (show 8 + 4 ≤ data.length by omega)
  obtain ⟨w₂, h₂⟩ := Aodv.exists_load (o := o) (show 12 + 4 ≤ data.length by omega)
  obtain ⟨w₃, h₃⟩ := Aodv.exists_load (o := o) (show 16 + 4 ≤ data.length by omega)
  obtain ⟨w₄, h₄⟩ := Aodv.exists_load (o := o) (show 20 + 4 ≤ data.length by omega)
  have h₅ : data[3]? = some data[3] := List.getElem?_eq_getElem _
  rw [Rreq.load, h₀, h₁, h₂, h₃, h₄, h₅]
  exact ⟨_, rfl⟩

theorem Rrep.exists_load (h : data.length = Rrep.size) : ∃ m, Rrep.load o data = some m := by
  rw [Rrep.size] at h
  obtain ⟨w₀, h₀⟩ := Aodv.exists_load (o := o) (show 4 + 4 ≤ data.length by omega)
  obtain ⟨w₁, h₁⟩ := Aodv.exists_load (o := o) (show 8 + 4 ≤ data.length by omega)
  obtain ⟨w₂, h₂⟩ := Aodv.exists_load (o := o) (show 12 + 4 ≤ data.length by omega)
  obtain ⟨w₃, h₃⟩ := Aodv.exists_load (o := o) (show 16 + 4 ≤ data.length by omega)
  have h₄ : data[3]? = some data[3] := List.getElem?_eq_getElem _
  rw [Rrep.load, h₀, h₁, h₂, h₃, h₄]
  exact ⟨_, rfl⟩

/-- The loop of `recv_rerr` stays inside data that is long enough. -/
theorem exists_loadDsts {n i : ℕ} (h : Rerr.size + AodvDst.size * (i + n) ≤ data.length) :
    ∃ l, loadDsts o data n i = some l := by
  induction n generalizing i with
  | zero => exact ⟨[], rfl⟩
  | succ n ih =>
    obtain ⟨l, hl⟩ := ih (i := i + 1) (by rwa [Nat.add_assoc, Nat.add_comm 1 n])
    simp only [Rerr.size, AodvDst.size] at h
    obtain ⟨ip, hip⟩ := exists_load (o := o)
      (show Rerr.size + AodvDst.size * i + 4 ≤ data.length by
        simp only [Rerr.size, AodvDst.size]; omega)
    obtain ⟨seq, hseq⟩ := exists_load (o := o)
      (show Rerr.size + AodvDst.size * i + 4 + 4 ≤ data.length by
        simp only [Rerr.size, AodvDst.size]; omega)
    rw [loadDsts, AodvDst.load, hip, hseq, hl]
    exact ⟨_, rfl⟩

theorem Rerr.exists_load {dstCount : Byte} (h : data[3]? = some dstCount)
    (hlen : data.length = Rerr.size + AodvDst.size * dstCount.toNat) :
    ∃ m, Rerr.load o data = some m ∧ m.dsts.length = m.dstCount.toNat := by
  have hinside : Rerr.size + AodvDst.size * (0 + dstCount.toNat) ≤ data.length := by
    rw [Nat.zero_add, hlen]
  obtain ⟨l, hl⟩ := exists_loadDsts (o := o) hinside
  have hdsts : rerrDsts o data = some l := by
    rw [rerrDsts, h]
    exact hl
  refine ⟨{ dstCount := dstCount, dsts := l }, ?_, length_of_loadDsts hl⟩
  rw [Rerr.load, h, hdsts]
  rfl

/-- Octets that pass the check hold a message that passes it. -/
theorem exists_message
    (hvalid : (validAodvOctets skb.numbytes (skb.message 0) skb.message s).value.1 = true) :
    ∃ msg, Message.load o skb.payload = some msg ∧ validAodvPacket msg s =
      (validAodvOctets skb.numbytes (skb.message 0) skb.message s).value := by
  have hlen : ∀ {n : ℕ}, skb.numbytes = n → skb.payload.length = n := fun {n} h => by
    rw [SkBuff.numbytes] at h
    rw [SkBuff.length_payload]
    omega
  have hat : ∀ {n i : ℕ}, skb.numbytes = n → i < n → skb.payload[i]? = some (skb.message i) :=
    fun {n i} h hi => SkBuff.getElem?_payload (by rw [SkBuff.numbytes] at h; omega)
  unfold validAodvOctets at hvalid ⊢
  by_cases hrreq : skb.message 0 = rreqMessage
  · rw [if_pos hrreq] at hvalid ⊢
    by_cases hsize : skb.numbytes = Rreq.size
    · obtain ⟨m, hm⟩ := Rreq.exists_load (o := o) (hlen hsize)
      refine ⟨.rreq m, ?_, by rw [if_pos hsize]; rfl⟩
      rw [Message.load, hat hsize (by decide), hrreq, hm]
      rfl
    · rw [if_neg hsize] at hvalid
      cases hvalid
  rw [if_neg hrreq] at hvalid ⊢
  by_cases hrrep : skb.message 0 = rrepMessage
  · rw [if_pos hrrep] at hvalid ⊢
    by_cases hsize : skb.numbytes = Rrep.size
    · obtain ⟨m, hm⟩ := Rrep.exists_load (o := o) (hlen hsize)
      refine ⟨.rrep m, ?_, by rw [if_pos hsize]; rfl⟩
      rw [Message.load, hat hsize (by decide), hrrep, hm]
      rfl
    · rw [if_neg hsize] at hvalid
      cases hvalid
  rw [if_neg hrrep] at hvalid ⊢
  by_cases hrerr : skb.message 0 = rerrMessage
  · rw [if_pos hrerr] at hvalid ⊢
    have hsize : skb.numbytes = (Rerr.size + AodvDst.size * (skb.message 3).toNat : ℕ) :=
      of_decide_eq_true hvalid
    have hthree : 3 < Rerr.size + AodvDst.size * (skb.message 3).toNat :=
      Nat.lt_add_right _ (by decide)
    obtain ⟨m, hm, hdsts⟩ := Rerr.exists_load (o := o) (hat hsize hthree) (hlen hsize)
    refine ⟨.rerr m, ?_, ?_⟩
    · rw [Message.load, hat hsize (by omega), hrerr, hm]
      rfl
    · rw [validAodvPacket, hdsts, beq_self_eq_true]
      exact (congrArg (·, s) (decide_eq_true hsize)).symm
  rw [if_neg hrerr] at hvalid ⊢
  by_cases hack : skb.message 0 = 4
  · rw [if_pos hack] at hvalid ⊢
    have hsize : skb.numbytes = rrepAckSize := of_decide_eq_true hvalid
    refine ⟨.rrepAck, ?_, (congrArg (·, s) (decide_eq_true hsize)).symm⟩
    rw [Message.load, hat hsize (by decide), hack]
    rfl
  · rw [if_neg hack] at hvalid
    cases hvalid

theorem trace_validAodvOctets {numbytes : ℤ} {type : Byte} {octet : ℕ → Byte} :
    (validAodvOctets numbytes type octet s).trace = if type = rerrMessage then [3] else [] := by
  unfold validAodvOctets
  by_cases hrerr : type = rerrMessage
  · rw [if_neg (by rw [hrerr]; decide), if_neg (by rw [hrerr]; decide), if_pos hrerr, if_pos hrerr]
    rfl
  · rw [if_neg hrerr, if_neg hrerr]
    split_ifs <;> rfl

theorem validAodvOctets_of_not {numbytes : ℤ} {type : Byte} {octet : ℕ → Byte}
    (h : (validAodvOctets numbytes type octet s).value.1 = false) :
    (validAodvOctets numbytes type octet s).value = (false, s) := by
  have hstate : (validAodvOctets numbytes type octet s).value.1 = false →
      (validAodvOctets numbytes type octet s).value.2 = s := by
    unfold validAodvOctets
    split_ifs <;> simp
  exact Prod.ext h (hstate h)

theorem trace_packetInSkb : (packetInSkb p mem clk skb s).trace =
    0 :: if skb.message 0 = rerrMessage then [3] else [] := by
  unfold packetInSkb
  rw [Traced.trace_bind, Traced.trace_bind, Traced.trace_access, Traced.value_access,
    trace_validAodvOctets]
  rcases (validAodvOctets skb.numbytes (skb.message 0) skb.message s).value with ⟨_ | _, t⟩
  · exact congrArg (0 :: ·) (List.append_nil _)
  · exact congrArg (0 :: ·) (List.append_nil _)

theorem value_packetInSkb : (packetInSkb p mem clk skb s).value =
    let c := (validAodvOctets skb.numbytes (skb.message 0) skb.message s).value
    if c.1 then (Message.load p.order skb.payload).map fun msg =>
      (.accept, insertTask mem clk (arrivalOf p skb msg) c.2)
    else some (.drop, c.2) := by
  simp only [packetInSkb, Traced.value_bind, Traced.value_access]
  split_ifs <;> rfl

/-- Whatever octets come in, `packet_in` drops them, or takes them as a message: all that its
handler will read is there.  The check itself reads the type of an empty packet behind its end, and
the count of a short route error.  Message and payload are the octets behind the first 28, which an
IP header without options and a UDP header take up. -/
theorem packetIn_inside :
    ((packetInSkb p mem clk skb s).value = some (.drop, s) ∨ ∃ msg,
      Message.load p.order skb.payload = some msg ∧ (validAodvPacket msg s).1 = true ∧
      (packetInSkb p mem clk skb s).value =
        some (packetIn mem clk (arrivalOf p skb msg) s)) ∧
    ((∀ i ∈ (packetInSkb p mem clk skb s).trace, (i : ℤ) < skb.numbytes) ↔
      0 < skb.numbytes ∧ (skb.message 0 = rerrMessage → 3 < skb.numbytes)) := by
  constructor
  · rw [value_packetInSkb]
    cases hvalid : (validAodvOctets skb.numbytes (skb.message 0) skb.message s).value.1 with
    | false =>
      rw [validAodvOctets_of_not hvalid]
      exact .inl rfl
    | true =>
      obtain ⟨msg, hmsg, hcheck⟩ := exists_message (o := p.order) hvalid
      refine .inr ⟨msg, hmsg, hcheck ▸ hvalid, ?_⟩
      have hpair : validAodvPacket msg s = (true, (validAodvPacket msg s).2) :=
        Prod.ext (hcheck ▸ hvalid) rfl
      rw [packetIn, show (arrivalOf p skb msg).msg = msg from rfl, ← hcheck, hpair, hmsg]
      rfl
  · rw [trace_packetInSkb]
    by_cases hrerr : skb.message 0 = rerrMessage
    · simp [hrerr]
    · simp [hrerr]

end

end MobileCloudCaching.Aodv

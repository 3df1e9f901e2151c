import MobileCloudCaching.Caching.PacketIn

/-!
# The walk over an OLSR packet

`input_handler` advances by the size that each message states.  A size of zero keeps it at the same
message for ever, and a size beyond the end makes the counter of the octets to go, an `uint32_t`,
wrap around.  The walk begins at a fixed offset, while the datagram begins behind the options of the
IP header.
-/

namespace MobileCloudCaching.Caching

open Octets

/-- The messages at the offsets `l` lie one behind the other from offset `i` to the end, each
with its header of type and size inside, and none of size zero. -/
inductive Messages (data : ℕ → Byte) (size : ℕ) : ℕ → List ℕ → Prop
  | nil : Messages data size size []
  | cons {i : ℕ} {l : List ℕ} (header : i + 4 ≤ size) (pos : 0 < msgSize data i)
      (next : Messages data size (i + msgSize data i) l) : Messages data size i (i :: l)

/-- The number of messages of a type. -/
def countType (data : ℕ → Byte) (type : Byte) (l : List ℕ) : ℕ := l.countP fun i => data i == type

/-- The sum of `msgsize / 4` over the messages of a type. -/
def sumType (data : ℕ → Byte) (type : Byte) (l : List ℕ) : ℕ :=
  ((l.filter fun i => data i == type).map fun i => msgSize data i / 4).sum

/-- The counters after the messages `l`. -/
def countMessages (data : ℕ → Byte) (l : List ℕ) (d : Daemon) : Daemon :=
  { d with
    rtHelloC := d.rtHelloC + BitVec.ofNat 32 (countType data lqHelloMessage l)
    rtHello := d.rtHello + BitVec.ofNat 32 (sumType data lqHelloMessage l)
    rtTc := d.rtTc + BitVec.ofNat 32 (sumType data lqTcMessage l) }

/-- What happens to an OLSR packet that does not get to the loop: one from the device's own
address goes on, one that is too short or whose own length field is wrong is dropped. -/
def olsrUnwalked (p : Params) (skb : SkBuff) : Option Verdict :=
  if p.devSaddr = skb.saddr p.order then some .accept
  else if BitVec.ofInt 32 (skb.numbytes - 4) < 4 ∨
      skb.ntohs SkBuff.startPoint ≠ skb.numbytes % 2 ^ 16 then some .drop
  else none

variable {data : ℕ → Byte}

/-! ## One round -/

@[simp] theorem olsrWalk_zero_count (fuel m : ℕ) (d : Daemon) :
    olsrWalk data fuel m 0 d = pure (some d) := by
  cases fuel <;> rfl

/-- The counter of the octets to go, when `i` octets of the packet are behind. -/
def toGo (size : ℤ) (i : ℕ) : U32 := BitVec.ofInt 32 (size - i)

theorem toGo_sub (size : ℤ) (i n : ℕ) : toGo size i - BitVec.ofNat 32 n = toGo size (i + n) := by
  have h : size - i = size - (i + n : ℕ) + n := by omega
  rw [BitVec.sub_eq_iff_eq_add, toGo, toGo, h, BitVec.ofInt_add, BitVec.ofInt_natCast]

/-- Within the range of the counter, it is zero only at the end. -/
theorem toGo_pos {size : ℤ} {i : ℕ} (hne : (i : ℤ) ≠ size) (hlow : -(2 ^ 32) < size - i)
    (hhigh : size - i < 2 ^ 32) : 0 < toGo size i := by
  have h : (0 : U32).toNat = 0 := rfl
  rw [BitVec.lt_def, toGo, BitVec.toNat_ofInt, h]
  omega

/-- With octets to go, the walk reads a header and goes on behind the message. -/
theorem olsrWalk_succ {fuel i : ℕ} {size : ℤ} {d : Daemon} (hcount : 0 < toGo size i) :
    olsrWalk data (fuel + 1) i (toGo size i) d =
      let rest := olsrWalk data fuel (i + msgSize data i) (toGo size (i + msgSize data i))
        (countMessage (data i) (msgSize data i) d)
      ⟨i :: rest.trace, rest.value⟩ := by
  rw [olsrWalk, if_pos hcount, ← toGo_sub]
  rfl

theorem countMessages_nil (d : Daemon) : countMessages data [] d = d := by
  simp [countMessages, countType, sumType]

/-- Counting one message and then the others is counting them all. -/
theorem countMessages_cons (i : ℕ) (l : List ℕ) (d : Daemon) :
    countMessages data (i :: l) d =
      countMessages data l (countMessage (data i) (msgSize data i) d) := by
  have hne : lqTcMessage ≠ lqHelloMessage := by decide
  unfold countMessage
  split
  · rename_i h
    simp only [countMessages, countType, sumType, h, List.countP_cons, List.filter_cons,
      beq_self_eq_true, if_true, List.map_cons, List.sum_cons, beq_eq_false_iff_ne.2 hne.symm,
      Bool.false_eq_true,
      if_false, BitVec.ofNat_add, Daemon.mk.injEq, and_true, true_and]
    constructor
    · rw [BitVec.add_assoc]
    · rw [BitVec.add_assoc, BitVec.add_comm (1 : U32)]
      rfl
  · split
    · rename_i h
      simp only [countMessages, countType, sumType, h, List.countP_cons, List.filter_cons,
        beq_self_eq_true, if_true, List.map_cons, List.sum_cons, beq_eq_false_iff_ne.2 hne,
        Bool.false_eq_true, if_false, BitVec.ofNat_add, Daemon.mk.injEq, and_true, true_and,
        Nat.add_zero]
      rw [BitVec.add_assoc]
    · rename_i h h'
      simp only [countMessages, countType, sumType, List.countP_cons, List.filter_cons,
        beq_eq_false_iff_ne.2 h, beq_eq_false_iff_ne.2 h', Bool.false_eq_true,
        if_false, Nat.add_zero]

/-! ## Runs of the loop -/

theorem Messages.le {size i : ℕ} {l : List ℕ} (h : Messages data size i l) : i ≤ size := by
  induction h with
  | nil => exact le_rfl
  | cons _ _ _ ih => omega

theorem Messages.ge {size i : ℕ} {l : List ℕ} (h : Messages data size i l) : ∀ m ∈ l, i ≤ m := by
  induction h with
  | nil => exact fun m hm => absurd hm List.not_mem_nil
  | cons _ _ _ ih =>
    refine List.forall_mem_cons.2 ⟨le_rfl, fun m hm => ?_⟩
    have := ih m hm
    omega

theorem Messages.header_le {size i : ℕ} {l : List ℕ} (h : Messages data size i l) :
    ∀ m ∈ l, m + 4 ≤ size := by
  induction h with
  | nil => exact fun m hm => absurd hm List.not_mem_nil
  | cons header _ _ ih => exact List.forall_mem_cons.2 ⟨header, ih⟩

/-- Over messages that end where the packet ends, the walk visits each one once and counts it. -/
theorem olsrWalk_messages {size i : ℕ} {l : List ℕ} (h : Messages data size i l)
    (hsize : size < 2 ^ 32) {fuel : ℕ} (hfuel : l.length ≤ fuel) (d : Daemon) :
    olsrWalk data fuel i (toGo size i) d = ⟨l, some (countMessages data l d)⟩ := by
  induction h generalizing fuel d with
  | nil =>
    have h0 : toGo size size = 0 := by simp [toGo]
    rw [h0, olsrWalk_zero_count, countMessages_nil]
    rfl
  | @cons i l header pos next ih =>
    have hle := next.le
    obtain ⟨fuel, rfl⟩ : ∃ n, fuel = n + 1 := Nat.exists_eq_add_one.2 (by
      rw [List.length_cons] at hfuel
      omega)
    rw [olsrWalk_succ (toGo_pos (by omega) (by omega) (by omega)), countMessages_cons,
      ih (by simpa using hfuel)]

/-- With less fuel than messages, the headers read are still among theirs. -/
theorem olsrWalk_trace_subset {size i : ℕ} {l : List ℕ} (h : Messages data size i l)
    (hsize : size < 2 ^ 32) (fuel : ℕ) (d : Daemon) :
    (olsrWalk data fuel i (toGo size i) d).trace ⊆ l := by
  induction h generalizing fuel d with
  | nil =>
    have h0 : toGo size size = 0 := by simp [toGo]
    rw [h0, olsrWalk_zero_count]
    exact List.nil_subset _
  | @cons i l header pos next ih =>
    have hle := next.le
    cases fuel with
    | zero => exact List.nil_subset _
    | succ fuel =>
      rw [olsrWalk_succ (toGo_pos (by omega) (by omega) (by omega))]
      exact List.cons_subset_cons i (ih fuel _)

/-- A message of size zero is visited for ever. -/
theorem olsrWalk_of_msgSize_eq_zero {size : ℤ} {i : ℕ} (hcount : 0 < toGo size i)
    (hzero : msgSize data i = 0) (fuel : ℕ) (d : Daemon) :
    (olsrWalk data fuel i (toGo size i) d).value = none := by
  induction fuel generalizing d with
  | zero => rw [olsrWalk, if_pos hcount, Traced.value_pure]
  | succ fuel ih =>
    rw [olsrWalk_succ hcount, hzero]
    exact ih _

/-- A walk that ends and reads headers inside the packet only has messages up to its end. -/
theorem messages_of_olsrWalk {size : ℤ} (hlow : -28 ≤ size) (hhigh : size < 2 ^ 32) (n : ℕ) :
    ∀ i : ℕ, (size - i).toNat ≤ n → (i : ℤ) ≤ max size 0 + 65536 → ∀ d : Daemon,
      (∃ fuel, (olsrWalk data fuel i (toGo size i) d).value.isSome) →
      (∀ fuel, ∀ m ∈ (olsrWalk data fuel i (toGo size i) d).trace, ((m + 4 : ℕ) : ℤ) ≤ size) →
      ∃ l, Messages data size.toNat i l := by
  induction n with
  | zero =>
    intro i hi hmax d _ hinside
    by_cases hend : (i : ℤ) = size
    · refine ⟨[], ?_⟩
      obtain rfl : i = size.toNat := by omega
      exact .nil
    · -- behind the end, the next header is outside
      have hin := hinside 1 i (by
        rw [olsrWalk_succ (toGo_pos hend (by omega) (by omega))]
        exact List.mem_cons_self)
      omega
  | succ n ih =>
    intro i hi hmax d hends hinside
    by_cases hend : (i : ℤ) = size
    · refine ⟨[], ?_⟩
      obtain rfl : i = size.toNat := by omega
      exact .nil
    have hpos : 0 < toGo size i := toGo_pos hend (by omega) (by omega)
    have hheader := hinside 1 i (by rw [olsrWalk_succ hpos]; exact List.mem_cons_self)
    have hsize : msgSize data i ≤ 65535 := by
      have h2 := (data (i + 2)).isLt
      have h3 := (data (i + 3)).isLt
      unfold msgSize
      omega
    obtain hzero | hne := Nat.eq_zero_or_pos (msgSize data i)
    · obtain ⟨fuel, hfuel⟩ := hends
      rw [olsrWalk_of_msgSize_eq_zero hpos hzero] at hfuel
      cases hfuel
    obtain ⟨l, hl⟩ := ih (i + msgSize data i) (by omega) (by omega)
      (countMessage (data i) (msgSize data i) d) (by
        obtain ⟨fuel, hfuel⟩ := hends
        cases fuel with
        | zero =>
          rw [olsrWalk, if_pos hpos] at hfuel
          cases hfuel
        | succ fuel =>
          rw [olsrWalk_succ hpos] at hfuel
          exact ⟨fuel, hfuel⟩) (by
        intro fuel m hm
        refine hinside (fuel + 1) m ?_
        rw [olsrWalk_succ hpos]
        exact List.mem_cons_of_mem _ hm)
    exact ⟨i :: l, .cons (by omega) hne hl⟩

/-! ## Packets -/

/-- An OLSR packet, in the hook. -/
structure IsOlsr (skb : SkBuff) : Prop where
  port : skb.udpDest = olsrPort
  ip : skb.isIp = true
  /-- The IP header has its five words at least. -/
  ihl : 5 ≤ skb.ihl
  /-- `len` is an `unsigned int`. -/
  len : skb.len < 2 ^ 32

/-- Where the datagram begins: behind the IP header, its options, and the UDP header. -/
def datagramStart (skb : SkBuff) : ℕ := 4 * skb.ihl + 8

/-- The octets from there on. -/
def datagram (skb : SkBuff) (i : ℕ) : Byte := skb.data (datagramStart skb + i)

/-- The messages at the offsets `l` of the datagram fill it exactly behind its OLSR header. -/
def Partition (skb : SkBuff) (l : List ℕ) : Prop :=
  Messages (datagram skb) (skb.len - datagramStart skb) 4 l

/-- The counters have grown by the messages `l`. -/
structure CountsExactly (data : ℕ → Byte) (l : List ℕ) (d e : Daemon) : Prop where
  helloC : e.rtHelloC = d.rtHelloC + BitVec.ofNat 32 (countType data lqHelloMessage l)
  hello : e.rtHello = d.rtHello + BitVec.ofNat 32 (sumType data lqHelloMessage l)
  tc : e.rtTc = d.rtTc + BitVec.ofNat 32 (sumType data lqTcMessage l)

/-- The walk ends, every header that it reads lies inside the datagram, and when messages fill the
datagram exactly it visits each of them once, in order, and counts them.  The trace has
offsets from `start_point` on. -/
structure SafeWalk (p : Params) (mem : Mem) (clk : Clock) (skb : SkBuff) (d : Daemon) : Prop where
  terminates : ∃ fuel, (inputHandler p mem clk fuel skb d).value.isSome
  inside : ∀ fuel, ∀ m ∈ (inputHandler p mem clk fuel skb d).trace,
    datagramStart skb ≤ SkBuff.startPoint + m ∧ SkBuff.startPoint + m + 4 ≤ skb.len
  exact : ∀ l, Partition skb l → ∃ fuel v e,
    (inputHandler p mem clk fuel skb d).value = some (v, e) ∧
      (inputHandler p mem clk fuel skb d).trace.map (SkBuff.startPoint + ·) =
        l.map (datagramStart skb + ·) ∧
      CountsExactly (datagram skb) l d e

/-- A packet that the tests in front of the loop stop has no message, and any other has messages
from the fourth octet behind `start_point` on that fill it exactly, which is where its datagram has
them, or, with one option word, where its datagram has none. -/
def Walkable (p : Params) (skb : SkBuff) : Prop :=
  (olsrUnwalked p skb ≠ none ∧ ∀ l, Partition skb l → l = []) ∨
    (olsrUnwalked p skb = none ∧ (∃ l, Messages skb.message skb.payload.length 4 l) ∧
      (skb.ihl = 5 ∨ skb.ihl = 6 ∧ ∀ l, ¬Partition skb l))

/-- The hook on an OLSR packet: the packet is walked from the first message on, unless the tests in
front of the loop stop it. -/
theorem inputHandler_olsr {p : Params} {skb : SkBuff} (h : IsOlsr skb) (mem : Mem) (clk : Clock)
    (fuel : ℕ) (d : Daemon) :
    inputHandler p mem clk fuel skb d =
      match olsrUnwalked p skb with
      | some verdict => ⟨[], some (verdict, d)⟩
      | none =>
        let walk := olsrWalk skb.message fuel 4 (toGo skb.numbytes 4)
          { d with rtHeader := d.rtHeader + 1 }
        ⟨walk.trace, walk.value.map fun d => (.accept, d)⟩ := by
  have hport : olsrPort ≠ cachePort := by decide
  simp only [inputHandler, h.port, h.ip, hport, false_and, if_false, and_self,
    if_true, olsrUnwalked]
  by_cases hdev : p.devSaddr = skb.saddr p.order
  · rw [if_neg (not_not.2 hdev), if_pos hdev]
    rfl
  · rw [if_pos hdev, if_neg hdev]
    unfold olsrIn
    dsimp only
    by_cases hrej : BitVec.ofInt 32 (skb.numbytes - 4) < 4 ∨
        skb.ntohs SkBuff.startPoint ≠ skb.numbytes % 2 ^ 16
    · rw [if_pos hrej, if_pos hrej]
      rfl
    · rw [if_neg hrej, if_neg hrej]
      exact congrArg (Traced.mk · _) (List.append_nil _)

/-- Without options the datagram begins at `start_point`. -/
theorem partition_iff {skb : SkBuff} (hihl : skb.ihl = 5) {l : List ℕ} :
    Partition skb l ↔ Messages skb.message skb.payload.length 4 l := by
  have hstart : datagramStart skb = 28 := by rw [datagramStart, hihl]
  have hdata : datagram skb = skb.message := by
    funext i
    rw [datagram, hstart]
    rfl
  rw [Partition, hdata, hstart, SkBuff.length_payload]
  rfl

/-- A packet that gets to the loop has octets to go. -/
theorem toGo_pos_of_walked {p : Params} {skb : SkBuff} (h : olsrUnwalked p skb = none) :
    0 < toGo skb.numbytes 4 := by
  unfold olsrUnwalked at h
  split at h
  · cases h
  · split at h
    · cases h
    · rename_i hrej
      have hle : ¬toGo skb.numbytes 4 < 4 := fun hlt => hrej (.inl hlt)
      have h4 : (4 : U32).toNat = 4 := rfl
      have h0 : (0 : U32).toNat = 0 := rfl
      rw [BitVec.lt_def, h4] at hle
      rw [BitVec.lt_def, h0]
      omega

/-- What is counted over messages that fill the packet. -/
theorem countsExactly_countMessages (data : ℕ → Byte) (l : List ℕ) (d : Daemon) (n : U32) :
    CountsExactly data l d (countMessages data l { d with rtHeader := n }) :=
  ⟨rfl, rfl, rfl⟩

/-- A packet that does not get to the loop is safe exactly if its datagram has no message. -/
theorem safeWalk_iff_of_unwalked {p : Params} {mem : Mem} {clk : Clock} {skb : SkBuff} {d : Daemon}
    {verdict : Verdict}
    (hrun : ∀ fuel, inputHandler p mem clk fuel skb d = ⟨[], some (verdict, d)⟩) :
    SafeWalk p mem clk skb d ↔ ∀ l, Partition skb l → l = [] := by
  constructor
  · intro h l hl
    obtain ⟨fuel, v, e, -, htrace, -⟩ := h.exact l hl
    rw [hrun] at htrace
    exact List.map_eq_nil_iff.1 htrace.symm
  · refine fun h => ⟨⟨0, by rw [hrun]; rfl⟩, fun fuel m hm => ?_, fun l hl => ?_⟩
    · rw [hrun] at hm
      exact absurd hm List.not_mem_nil
    · obtain rfl := h l hl
      refine ⟨0, verdict, d, by rw [hrun], by rw [hrun]; rfl, ?_⟩
      exact ⟨(BitVec.add_zero _).symm, (BitVec.add_zero _).symm, (BitVec.add_zero _).symm⟩

/-- A walk that safely ends has read its first header four octets behind `start_point`. -/
theorem exists_trace_of_walked {p : Params} {skb : SkBuff} (h : IsOlsr skb)
    (hun : olsrUnwalked p skb = none) (mem : Mem) (clk : Clock) (d : Daemon) (fuel : ℕ) :
    (inputHandler p mem clk fuel skb d).value = none ∨
      ∃ rest, (inputHandler p mem clk fuel skb d).trace = 4 :: rest := by
  have hrun := inputHandler_olsr h (p := p) mem clk fuel d
  rw [hun] at hrun
  rw [hrun]
  have hcount := toGo_pos_of_walked hun
  cases fuel with
  | zero =>
    left
    rw [olsrWalk, if_pos hcount]
    rfl
  | succ fuel =>
    right
    rw [olsrWalk_succ hcount]
    exact ⟨_, rfl⟩

/-- A packet that gets to the loop is safe exactly if messages fill it from the fourth octet behind
`start_point` on, and that is where the datagram has its messages, or it has none. -/
theorem safeWalk_iff_of_walked {p : Params} {mem : Mem} {clk : Clock} {skb : SkBuff} {d : Daemon}
    (h : IsOlsr skb) (hun : olsrUnwalked p skb = none) :
    SafeWalk p mem clk skb d ↔ (∃ l, Messages skb.message skb.payload.length 4 l) ∧
      (skb.ihl = 5 ∨ skb.ihl = 6 ∧ ∀ l, ¬Partition skb l) := by
  have hrun := fun fuel => inputHandler_olsr h (p := p) mem clk fuel d
  simp only [hun] at hrun
  have hlen := h.len
  have hihl := h.ihl
  have hstart : SkBuff.startPoint = 28 := rfl
  have hsize : skb.numbytes = skb.len - 28 := rfl
  have hpayload : skb.payload.length = skb.len - 28 := SkBuff.length_payload skb
  have hfirst := exists_trace_of_walked h hun mem clk d
  constructor
  · intro hsafe
    obtain ⟨fuel, hfuel⟩ := hsafe.terminates
    have hmessages : ∃ l, Messages skb.message skb.payload.length 4 l := by
      rw [show skb.payload.length = skb.numbytes.toNat by omega]
      refine messages_of_olsrWalk (by omega) (by omega) _ 4 le_rfl (by omega)
        { d with rtHeader := d.rtHeader + 1 } ⟨fuel, ?_⟩ fun fuel m hm => ?_
      · rw [hrun] at hfuel
        simpa using hfuel
      · have hin := (hsafe.inside fuel m (by rw [hrun]; exact hm)).2
        omega
    refine ⟨hmessages, ?_⟩
    -- the first header is read 32 octets behind the beginning of the packet
    have hin : datagramStart skb ≤ 32 := by
      rcases hfirst fuel with hnone | ⟨rest, htrace⟩
      · rw [hnone] at hfuel
        cases hfuel
      · exact (hsafe.inside fuel 4 (by rw [htrace]; exact List.mem_cons_self)).1
    unfold datagramStart at hin
    rcases Nat.eq_or_lt_of_le hihl with h5 | h6
    · exact .inl h5.symm
    · refine .inr ⟨by omega, fun l hl => ?_⟩
      obtain ⟨fuel, v, e, hvalue, hvisits, -⟩ := hsafe.exact l hl
      rcases hfirst fuel with hnone | ⟨rest, htrace⟩
      · rw [hnone] at hvalue
        cases hvalue
      · rw [htrace, List.map_cons] at hvisits
        obtain ⟨i, l, rfl⟩ : ∃ i l', l = i :: l' := List.exists_cons_of_ne_nil (by
          rintro rfl
          cases hvisits)
        have hhead : SkBuff.startPoint + 4 = 4 * skb.ihl + 8 + i := (List.cons.inj hvisits).1
        have hge := Messages.ge hl i List.mem_cons_self
        omega
  · rintro ⟨⟨l, hl⟩, hoptions⟩
    have hle := hl.le
    have hnum : skb.numbytes = skb.payload.length := by omega
    have hbegin : datagramStart skb ≤ 32 := by
      unfold datagramStart
      omega
    refine ⟨⟨l.length, ?_⟩, fun fuel m hm => ?_, fun l' hl' => ?_⟩
    · rw [hrun, hnum, olsrWalk_messages hl (by omega) le_rfl]
      rfl
    · rw [hrun, hnum] at hm
      have hmem := olsrWalk_trace_subset hl (by omega) fuel _ hm
      have hge := hl.ge m hmem
      have hend := hl.header_le m hmem
      exact ⟨by omega, by omega⟩
    · rcases hoptions with h5 | ⟨-, hnone⟩
      · have hdata : datagram skb = skb.message := by
          funext i
          rw [datagram, datagramStart, h5]
          rfl
        have hl'' := (partition_iff h5).1 hl'
        have hwalk := hrun l'.length
        rw [hnum, olsrWalk_messages hl'' (by omega) le_rfl] at hwalk
        rw [hdata, datagramStart, h5]
        exact ⟨l'.length, .accept, _, by rw [hwalk]; rfl, by rw [hwalk]; rfl,
          countsExactly_countMessages _ l' d (d.rtHeader + 1)⟩
      · exact absurd hl' (hnone l')

/-- The walk is safe exactly if the packet can be walked. -/
theorem safeWalk_iff (p : Params) (mem : Mem) (clk : Clock) (skb : SkBuff) (d : Daemon)
    (h : IsOlsr skb) :
    SafeWalk p mem clk skb d ↔ Walkable p skb := by
  unfold Walkable
  cases hun : olsrUnwalked p skb with
  | some verdict =>
    have hrun := fun fuel => inputHandler_olsr h (p := p) mem clk fuel d
    simp only [hun] at hrun
    rw [safeWalk_iff_of_unwalked hrun]
    simp
  | none =>
    rw [safeWalk_iff_of_walked h hun]
    simp

/-- A packet of one message, `LQ_HELLO`, that states the size `size`. -/
def helloPacket (size : Byte) : SkBuff :=
  .udp .big 0xC0A80014 0xFFFFFFFF 1 olsrPort [0, 8, 0, 1, lqHelloMessage, 0, 0, size]

theorem isOlsr_helloPacket (size : Byte) : IsOlsr (helloPacket size) :=
  ⟨by decide +kernel +revert, rfl, by decide +kernel +revert, show 36 < 2 ^ 32 by decide⟩

theorem safeWalk_iff_helloPacket :
    SafeWalk testNode .plenty ⟨0, 0⟩ (helloPacket 4) {} :=
  (safeWalk_iff _ _ _ _ _ (isOlsr_helloPacket 4)).2
    (.inr ⟨by decide, ⟨[4], .cons (by decide) (by decide) .nil⟩, .inl (by decide)⟩)

/-- A message of size zero keeps the hook in its loop. -/
theorem not_safeWalk_helloPacket :
    ¬ ∀ (p : Params) (mem : Mem) (clk : Clock) (skb : SkBuff) (d : Daemon), IsOlsr skb →
      SafeWalk p mem clk skb d := by
  intro h
  obtain ⟨fuel, hfuel⟩ :=
    (h testNode .plenty ⟨0, 0⟩ (helloPacket 0) {} (isOlsr_helloPacket 0)).terminates
  have hun : olsrUnwalked testNode (helloPacket 0) = none := by decide
  rw [inputHandler_olsr (isOlsr_helloPacket 0), hun] at hfuel
  dsimp only at hfuel
  rw [olsrWalk_of_msgSize_eq_zero (by decide) (by decide)] at hfuel
  cases hfuel

end MobileCloudCaching.Caching

import MobileCloudCaching.Library.Octets
import MobileCloudCaching.Library.Serial

/-!
# What the modules use of the kernel

Time (`getcurrtime`, `jiffies` and the `time_before` macro of a 32-bit kernel), packets as the
netfilter hooks see them, and the outcomes of `kmalloc`.  Addresses are kept as the kernel keeps
them: the 32-bit value that the host reads from four octets in network order.
-/

namespace MobileCloudCaching

open Octets

abbrev U32 := BitVec 32

/-- One reading of the clocks: milliseconds (`getcurrtime`) and `jiffies`. -/
structure Clock where
  now : ℕ
  jiffies : ℕ

/-- `time_before(a, b)`: both times are cut to an `unsigned long`, which has 32 bits. -/
def timeBefore (a b : ℕ) : Bool := Serial.before (BitVec.ofNat 32 a) (BitVec.ofNat 32 b)

/-- `time_after(a, b)`. -/
def timeAfter (a b : ℕ) : Bool := timeBefore b a

/-- `time_before_eq(a, b)`. -/
def timeBeforeEq (a b : ℕ) : Bool := decide (0 ≤ (BitVec.ofNat 32 b - BitVec.ofNat 32 a).toInt)

theorem timeBefore_iff {a b : ℕ} (h₁ : a < b + 2 ^ 31) (h₂ : b < a + 2 ^ 31) :
    timeBefore a b = true ↔ a < b :=
  Serial.before_ofNat_iff h₁ h₂

/-- The same where `b` may be half the circle ahead. -/
theorem timeBefore_iff_of_le {a b : ℕ} (h₁ : a < b + 2 ^ 31) (h₂ : b ≤ a + 2 ^ 31) :
    timeBefore a b = true ↔ a < b := by
  rw [timeBefore, Serial.before_iff_toNat]
  simp only [BitVec.toNat_ofNat]
  omega

/-- A time that lies ahead, by less than half the circle, is not before. -/
theorem timeBefore_add_self {n : ℕ} (h : n < 2 ^ 31)
    (now : ℕ) : timeBefore (now + n) now = false := by
  rw [Bool.eq_false_iff, Ne, timeBefore_iff (by omega) (by omega)]
  omega

/-- A time that is not far ahead and is before or now has come. -/
theorem le_of_timeBeforeEq {a b : ℕ} (h : timeBeforeEq a b = true)
    (hab : a < b + 2 ^ 31) : a ≤ b := by
  have hadvance : Serial.advance (BitVec.ofNat 32 a) (BitVec.ofNat 32 b) := of_decide_eq_true h
  rw [Serial.advance_iff_toNat, BitVec.toNat_ofNat, BitVec.toNat_ofNat] at hadvance
  omega

theorem timeBeforeEq_iff {a b : ℕ} (h₁ : a < b + 2 ^ 31) (h₂ : b < a + 2 ^ 31) :
    timeBeforeEq a b = true ↔ a ≤ b := by
  refine ⟨fun h => le_of_timeBeforeEq h h₁, fun h => ?_⟩
  have hadvance : Serial.advance (BitVec.ofNat 32 a) (BitVec.ofNat 32 b) := by
    rw [Serial.advance_iff_toNat, BitVec.toNat_ofNat, BitVec.toNat_ofNat]
    omega
  exact decide_eq_true hadvance

/-- The verdicts of a netfilter hook that the modules use. -/
inductive Verdict
  | drop
  | accept
  | queue
  deriving DecidableEq, Repr

/-- A packet in a netfilter hook.  `data` is the memory from the network header on; the packet
itself is its first `len` octets, and what follows is whatever else is in memory. -/
structure SkBuff where
  len : ℕ
  data : ℕ → Byte
  /-- `mac->h_proto == htons(ETH_P_IP)` -/
  isIp : Bool

namespace SkBuff

/-- `start_point`: the sizes of a UDP header and of an IP header without options. -/
def startPoint : ℕ := 28

/-- The 32-bit field at offset `i`, as the host reads it. -/
def word (o : ByteOrder) (skb : SkBuff) (i : ℕ) : U32 :=
  hton o (be32 (skb.data i) (skb.data (i + 1)) (skb.data (i + 2)) (skb.data (i + 3)))

/-- `ntohs` of the 16-bit field at offset `i`. -/
def ntohs (skb : SkBuff) (i : ℕ) : ℕ := (skb.data i).toNat * 256 + (skb.data (i + 1)).toNat

def saddr (o : ByteOrder) (skb : SkBuff) : U32 := skb.word o 12

def daddr (o : ByteOrder) (skb : SkBuff) : U32 := skb.word o 16

def ttl (skb : SkBuff) : Byte := skb.data 8

/-- The header length field, in 32-bit words. -/
def ihl (skb : SkBuff) : ℕ := (skb.data 0).toNat % 16

/-- `udp->dest`, in host order; the UDP header is found behind the IP header and its options. -/
def udpDest (skb : SkBuff) : ℕ := skb.ntohs (4 * skb.ihl + 2)

/-- The memory from `start_point` on. -/
def message (skb : SkBuff) (i : ℕ) : Byte := skb.data (startPoint + i)

/-- `packet->len - start_point` -/
def numbytes (skb : SkBuff) : ℤ := skb.len - startPoint

/-- The octets from `start_point` to the end of the packet. -/
def payload (skb : SkBuff) : List Byte := (List.range (skb.len - startPoint)).map skb.message

@[simp] theorem length_payload (skb : SkBuff) : skb.payload.length = skb.len - startPoint := by
  simp [payload]

theorem getElem?_payload {skb : SkBuff} {i : ℕ} (h : startPoint + i < skb.len) :
    skb.payload[i]? = some (skb.message i) := by
  have hi : i < skb.len - startPoint := by omega
  simp [payload, List.getElem?_range hi]

/-- The 32-bit field at offset `i` of the message, in host order. -/
def field (skb : SkBuff) (i : ℕ) : U32 :=
  be32 (skb.message i) (skb.message (i + 1)) (skb.message (i + 2)) (skb.message (i + 3))

theorem load_payload (o : ByteOrder) {skb : SkBuff} {i : ℕ} (h : startPoint + (i + 4) ≤ skb.len) :
    load o skb.payload i = some (hton o (skb.field i)) := by
  rw [load, getElem?_payload (by omega), getElem?_payload (by omega), getElem?_payload (by omega),
    getElem?_payload (by omega)]
  rfl

/-- A UDP packet as it comes in: an IP header without options, a UDP header and the payload.  The
header fields that no hook reads are zero. -/
def udp (o : ByteOrder) (saddr daddr : U32) (ttl : Byte) (port : ℕ)
    (payload : List Byte) : SkBuff where
  len := startPoint + payload.length
  data i := ([0x45, 0, 0, 0, 0, 0, 0, 0, ttl, 17, 0, 0] ++ store o saddr ++ store o daddr ++
    [0, 0, BitVec.ofNat 8 (port / 256), BitVec.ofNat 8 port, 0, 0, 0, 0] ++ payload).getD i 0
  isIp := true

section Udp

variable (o r : ByteOrder) (saddr daddr : U32) (ttl : Byte) (port : ℕ) (payload : List Byte)

@[simp] theorem message_udp (i : ℕ) :
    (udp o saddr daddr ttl port payload).message i = payload.getD i 0 := by
  show List.getD (_ ++ payload) (startPoint + i) 0 = _
  rw [List.getD_eq_getElem?_getD, List.getElem?_append_right (Nat.le_add_right startPoint i),
    ← List.getD_eq_getElem?_getD]
  exact congrArg (payload.getD · 0) (Nat.add_sub_cancel_left startPoint i)

@[simp] theorem numbytes_udp : (udp o saddr daddr ttl port payload).numbytes = payload.length := by
  simp [numbytes, udp]

@[simp] theorem payload_udp : (udp o saddr daddr ttl port payload).payload = payload := by
  refine List.ext_getElem (by simp [udp]) fun i _ hi => ?_
  have hmessage : (udp o saddr daddr ttl port payload).payload[i] =
      (udp o saddr daddr ttl port payload).message i := by simp [SkBuff.payload]
  rw [hmessage, message_udp, List.getD_eq_getElem?_getD, List.getElem?_eq_getElem hi,
    Option.getD_some]

@[simp] theorem saddr_udp :
    (udp o saddr daddr ttl port payload).saddr r = hton r (hton o saddr) :=
  congrArg (hton r) (be32_octet (hton o saddr))

@[simp] theorem daddr_udp :
    (udp o saddr daddr ttl port payload).daddr r = hton r (hton o daddr) :=
  congrArg (hton r) (be32_octet (hton o daddr))

@[simp] theorem ttl_udp : (udp o saddr daddr ttl port payload).ttl = ttl := rfl

theorem udpDest_udp (h : port < 2 ^ 16) :
    (udp o saddr daddr ttl port payload).udpDest = port := by
  have hhigh : (udp o saddr daddr ttl port payload).data 22 = BitVec.ofNat 8 (port / 256) := rfl
  have hlow : (udp o saddr daddr ttl port payload).data 23 = BitVec.ofNat 8 port := rfl
  have hihl : (udp o saddr daddr ttl port payload).ihl = 5 := by
    rw [ihl, show (udp o saddr daddr ttl port payload).data 0 = 0x45 from rfl]
    decide
  rw [udpDest, hihl, ntohs, hhigh, hlow, BitVec.toNat_ofNat, BitVec.toNat_ofNat]
  omega

end Udp

end SkBuff

end MobileCloudCaching

import MobileCloudCaching.Aodv.Types
import Mathlib.Data.List.Sort

/-!
# Tasks, timers, flood ids and queued packets (`task_queue.c`, `timer_queue.c`, `flood_id.c`,
`packet_queue.c`, `socket.c`)

`taskQ` lists the queued tasks oldest first: `queueAodvTask` appends and `getTask` takes the first.
The kernel timer behind the timer queue is left out: `timerQueueSignal` may run at any time.
-/

namespace MobileCloudCaching.Aodv

open Octets

/-! ## Task queue -/

def createTask (type : TaskType) (clk : Clock) : Task where
  type := type
  id := 0
  time := clk.now
  dstIp := 0
  srcIp := 0
  dev := none
  ttl := 0
  retries := 0

def queueAodvTask (t : Task) (s : Router) : Router := { s with taskQ := s.taskQ ++ [t] }

def getTask (s : Router) : Option (Task × Router) :=
  match s.taskQ with
  | [] => none
  | t :: q => some (t, { s with taskQ := q })

/-- A packet with an AODV message as the hook sees it. -/
structure Arrival where
  srcIp : U32
  dstIp : U32
  ttl : Byte
  dev : Dev
  msg : Message
  deriving DecidableEq, Repr

/-- The task that `insert_task` makes of a packet. -/
def taskOfPacket (clk : Clock) (a : Arrival) : Task :=
  { createTask (.packet a.msg) clk with
    srcIp := a.srcIp, dstIp := a.dstIp, ttl := a.ttl, dev := some a.dev }

/-- `insert_task`; without memory the packet makes no task. -/
def insertTask (mem : Mem) (clk : Clock) (a : Arrival) (s : Router) : Router :=
  if mem .task 0 && mem .taskData 0 then queueAodvTask (taskOfPacket clk a) s else s

/-! ## Timer queue -/

/-- `queue_timer`: the new entry goes in front of the first one that is not earlier. -/
def queueTimer (t : Task) (s : Router) : Router :=
  { s with timerQueue := s.timerQueue.orderedInsert (fun a b => ¬ timeAfter a.time b.time) t }

/-- The task of `insert_timer`. -/
def timerTask (clk : Clock) (type : TaskType) (delay : ℕ) (ip : U32) : Task :=
  { createTask type clk with srcIp := ip, dstIp := ip, id := ip, time := clk.now + delay }

/-- `insert_timer`; `ok` is the outcome of its allocation. -/
def insertTimer (ok : Bool) (clk : Clock) (type : TaskType) (delay : ℕ) (ip : U32) (s : Router) :
    Router :=
  if ok then queueTimer (timerTask clk type delay ip) s else s

/-- The delay that `insert_rreq_timer` computes; `^` is the exclusive or of C.
`retries` never exceeds `RREQ_RETRIES`. -/
def rreqDelay (retries : ℕ) : ℕ := (2 ^^^ (rreqRetries - retries)) * netTraversalTime

def rreqTimerTask (clk : Clock) (srcIp dstIp : U32) (retries : ℕ) : Task :=
  { createTask .resendRreq clk with
    srcIp := srcIp, dstIp := dstIp, id := dstIp, retries := retries, ttl := 30,
    time := clk.now + rreqDelay retries }

def insertRreqTimer (ok : Bool) (clk : Clock) (srcIp dstIp : U32) (retries : ℕ) (s : Router) :
    Router :=
  if ok then queueTimer (rreqTimerTask clk srcIp dstIp retries) s else s

/-- The test of `find_timer` and `delete_timer`. -/
def Task.isFor (id : U32) (type : TaskType) (t : Task) : Bool := t.id == id && t.type == type

def findTimer (id : U32) (type : TaskType) (s : Router) : Option Task :=
  s.timerQueue.find? (Task.isFor id type)

def deleteTimer (id : U32) (type : TaskType) (s : Router) : Router :=
  { s with timerQueue := s.timerQueue.filter fun t => !t.isFor id type }

/-- `timer_queue_signal`: the due entries at the head of the timer queue become tasks. -/
def timerQueueSignal (clk : Clock) (s : Router) : Router :=
  { s with
    taskQ := s.taskQ ++ s.timerQueue.takeWhile fun t => timeBeforeEq t.time clk.now
    timerQueue := s.timerQueue.dropWhile fun t => timeBeforeEq t.time clk.now }

/-! ## Flood ids -/

/-- `find_flood_id` gives up at the first entry that has expired. -/
def findFloodId (clk : Clock) (srcIp id : U32) : List FloodId → Option FloodId
  | [] => none
  | e :: l =>
    if timeBefore e.lifetime clk.now then none
    else if srcIp = e.srcIp ∧ id = e.id then some e
    else findFloodId clk srcIp id l

/-- `insert_flood_id`, its allocation having succeeded. -/
def insertFloodId (srcIp dstIp id : U32) (lt : ℕ) (s : Router) : Router :=
  { s with floodIdQueue :=
      { srcIp := srcIp, dstIp := dstIp, id := id, lifetime := lt } :: s.floodIdQueue }

def flushFloodIdQueue (p : Params) (mem : Mem) (clk : Clock) (s : Router) : Router :=
  insertTimer (mem .task 0) clk .cleanup helloInterval p.myIp
    { s with floodIdQueue := s.floodIdQueue.filter fun e => !timeBefore e.lifetime clk.now }

/-! ## Queued packets -/

namespace PacketQueue

/-- `ipq_enqueue`; a packet that is refused is freed. -/
def enqueue (e : QueueEntry) (q : PacketQueue) : PacketQueue :=
  if q.len ≥ q.maxlen then q
  else if q.flushing || q.terminate then q
  else { q with list := q.list ++ [e], len := q.len + 1 }

/-- `ipq_dequeue`: the first entry that matches. -/
def dequeue (cmp : QueueEntry → Bool) (q : PacketQueue) : Option (QueueEntry × PacketQueue) :=
  (q.list.find? cmp).map fun e => (e, { q with list := q.list.eraseP cmp, len := q.len - 1 })

/-- The loops that dequeue matching entries and give them back with a verdict; each round takes
an entry from the list, so `fuel` rounds suffice for as many entries. -/
def drain (cmp : QueueEntry → Bool) (verdict : Verdict) : ℕ → PacketQueue → PacketQueue
  | 0, q => q
  | fuel + 1, q =>
    match q.dequeue cmp with
    | none => q
    | some (e, q) => drain cmp verdict fuel { q with reinjected := q.reinjected ++ [(e, verdict)] }

/-- `ip_cmp` -/
def ipCmp (ip : U32) (e : QueueEntry) : Bool := e.postRouting && e.daddr == ip

def sendIp (ip : U32) (q : PacketQueue) : PacketQueue := q.drain (ipCmp ip) .accept q.list.length

def dropIp (ip : U32) (q : PacketQueue) : PacketQueue := q.drain (ipCmp ip) .drop q.list.length

end PacketQueue

/-- `ipq_send_ip` -/
def ipqSendIp (ip : U32) (s : Router) : Router := { s with queue := s.queue.sendIp ip }

/-- `ipq_drop_ip` -/
def ipqDropIp (ip : U32) (s : Router) : Router := { s with queue := s.queue.dropIp ip }

/-! ## Socket -/

def localBroadcast (ttl : Byte) (msg : Message) (s : Router) : Router :=
  if ttl < 1 then s
  else { s with sent := s.sent ++ [{ dst := broadcastIp, ttl := ttl, msg := msg }] }

/-! ## The queues as lists -/

theorem mem_orderedInsert_timer {t u : Task} {l : List Task} :
    u ∈ l.orderedInsert (fun a b => ¬ timeAfter a.time b.time) t ↔ u = t ∨ u ∈ l :=
  List.mem_orderedInsert _

theorem mem_insertTimer {ok : Bool} {clk : Clock} {type : TaskType} {delay : ℕ}
    {ip : U32} {s : Router} {u : Task} (h : u ∈ (insertTimer ok clk type delay ip s).timerQueue) :
    u = timerTask clk type delay ip ∨ u ∈ s.timerQueue := by
  cases ok with
  | false => exact .inr h
  | true => exact mem_orderedInsert_timer.1 h

/-- The first match of a list leaves the others when it is erased. -/
theorem find_eraseP {l : List QueueEntry} {cmp : QueueEntry → Bool} {e : QueueEntry}
    (h : l.find? cmp = some e) :
    cmp e = true ∧ (l.eraseP cmp).filter (fun e => !cmp e) = l.filter (fun e => !cmp e) ∧
      l.filter cmp = e :: (l.eraseP cmp).filter cmp := by
  obtain ⟨hcmp, l₁, l₂, rfl, hl₁⟩ := List.find?_eq_some_iff_append.1 h
  have hnone : l₁.filter cmp = [] :=
    List.filter_eq_nil_iff.2 fun b hb => by simpa using hl₁ b hb
  rw [List.eraseP_append_right _ (fun b hb => by simpa using hl₁ b hb),
    List.eraseP_cons_of_pos hcmp]
  refine ⟨hcmp, ?_, ?_⟩
  · rw [List.filter_append, List.filter_append, List.filter_cons_of_neg (by simp [hcmp])]
  · rw [List.filter_append, List.filter_append, hnone, List.filter_cons_of_pos hcmp]
    rfl

/-- Draining takes exactly the matching entries. -/
theorem PacketQueue.list_drain (cmp : QueueEntry → Bool) (verdict : Verdict) {fuel : ℕ}
    {q : PacketQueue} (h : q.list.length ≤ fuel) :
    (q.drain cmp verdict fuel).list = q.list.filter fun e => !cmp e := by
  induction fuel generalizing q with
  | zero =>
    have hnil : q.list = [] := List.length_eq_zero_iff.1 (by omega)
    rw [drain, hnil]
    rfl
  | succ fuel ih =>
    rw [drain, dequeue]
    cases hf : q.list.find? cmp with
    | none =>
      have hall : ∀ e ∈ q.list, cmp e = false := by simpa using hf
      exact (List.filter_eq_self.2 fun e he => by rw [hall e he]; rfl).symm
    | some e =>
      obtain ⟨hcmp, hkept, -⟩ := find_eraseP hf
      have hlen : (q.list.eraseP cmp).length ≤ fuel := by
        have := List.length_eraseP_of_mem (List.mem_of_find?_eq_some hf) hcmp
        omega
      exact (ih (q := { q with
        list := q.list.eraseP cmp, len := q.len - 1, reinjected := q.reinjected ++ [(e, verdict)] })
        hlen).trans hkept

/-- Draining gives back exactly the matching entries, in their order. -/
theorem PacketQueue.reinjected_drain (cmp : QueueEntry → Bool) (verdict : Verdict) {fuel : ℕ}
    {q : PacketQueue} (h : q.list.length ≤ fuel) :
    (q.drain cmp verdict fuel).reinjected =
      q.reinjected ++ (q.list.filter cmp).map fun e => (e, verdict) := by
  induction fuel generalizing q with
  | zero =>
    have hnil : q.list = [] := List.length_eq_zero_iff.1 (by omega)
    rw [drain, hnil]
    exact (List.append_nil _).symm
  | succ fuel ih =>
    rw [drain, dequeue]
    cases hf : q.list.find? cmp with
    | none =>
      have hnone : q.list.filter cmp = [] :=
        List.filter_eq_nil_iff.2 (List.find?_eq_none.1 hf)
      rw [hnone]
      exact (List.append_nil _).symm
    | some e =>
      obtain ⟨hcmp, -, hfilter⟩ := find_eraseP hf
      have hlen : (q.list.eraseP cmp).length ≤ fuel := by
        have := List.length_eraseP_of_mem (List.mem_of_find?_eq_some hf) hcmp
        omega
      refine (ih (q := { q with
        list := q.list.eraseP cmp, len := q.len - 1, reinjected := q.reinjected ++ [(e, verdict)] })
        hlen).trans ?_
      dsimp only
      rw [hfilter, List.map_cons, List.append_assoc]
      rfl

theorem PacketQueue.list_sendIp (ip : U32) (q : PacketQueue) :
    (q.sendIp ip).list = q.list.filter fun e => !ipCmp ip e := list_drain _ _ le_rfl

theorem PacketQueue.reinjected_sendIp (ip : U32) (q : PacketQueue) :
    (q.sendIp ip).reinjected =
      q.reinjected ++ (q.list.filter (ipCmp ip)).map fun e => (e, .accept) :=
  reinjected_drain _ _ le_rfl

theorem PacketQueue.reinjected_enqueue (e : QueueEntry) (q : PacketQueue) :
    (q.enqueue e).reinjected = q.reinjected := by
  unfold enqueue
  split_ifs <;> rfl

theorem PacketQueue.list_dropIp (ip : U32) (q : PacketQueue) :
    (q.dropIp ip).list = q.list.filter fun e => !ipCmp ip e := list_drain _ _ le_rfl

end MobileCloudCaching.Aodv

import MobileCloudCaching.Aodv.Queue
import MobileCloudCaching.Library.Transition

/-!
# The packet queue (`packet_queue.c`)

netfilter hands packets over to `ipq_enqueue`, and each that is taken waits on `q_list`
until one of the loops gives it back with `nf_reinject`.  A loop looks for the next entry
from the head of the list each time, and lets go of the lock between two of them: while the
queue is being flushed, packets may arrive.
-/

namespace MobileCloudCaching.Aodv.Ipq

open Transition

/-- The hook in which netfilter has queued a packet. -/
inductive Hook
  | preRouting
  | localIn
  | forward
  | localOut
  | postRouting
  deriving DecidableEq, Repr

/-- `nf_queue_entry`: its address, the hook, the indices of the devices, and the
destination in the IP header of the packet. -/
structure Entry where
  ptr : ℕ
  hook : Hook
  indev : Option U32
  outdev : Option U32
  daddr : U32
  deriving DecidableEq, Repr

/-- What becomes of an entry: `ipq_enqueue` puts it on the list or frees it;
`ip_route_me_harder`, `icmp_send` and `nf_reinject` get it from the loops. -/
inductive Event
  | accepted (e : Entry)
  | freed (e : Entry)
  | rerouted (e : Entry)
  | unreachable (e : Entry)
  | reinjected (e : Entry) (verdict : Verdict)
  deriving DecidableEq, Repr

/-- `ipq_queue_t` with `q_list`; `maxlen` is what it points to. -/
structure Queue where
  qList : List Entry := []
  len : ℤ := 0
  maxlen : ℤ := 1024
  flushing : Bool := false
  terminate : Bool := false
  /-- ghost: what has happened so far -/
  log : List Event := []
  deriving DecidableEq

/-! ## The code -/

def eBusy : ℤ := 16

def note (l : List Event) (q : Queue) : Queue := { q with log := q.log ++ l }

/-- `ipq_enqueue`, with its return value; `isQ` tells whether `g` is the queue. -/
def ipqEnqueue (isQ : Bool) (entry : Entry) (q : Queue) : ℤ × Queue :=
  if !isQ then (0, q)
  else if q.len ≥ q.maxlen then (-eBusy, note [.freed entry] q)
  else if q.flushing || q.terminate then (-eBusy, note [.freed entry] q)
  else (q.len + 1, note [.accepted entry] { q with qList := q.qList ++ [entry], len := q.len + 1 })

/-- `netfilter_receive` -/
def netfilterReceive (entry : Entry) (q : Queue) : ℤ × Queue := ipqEnqueue true entry q

/-- The test of `ipq_dequeue`: without `cmp` every entry matches. -/
def isMatch (cmp : Option (Entry → U32 → Bool)) (data : U32) (e : Entry) : Bool :=
  cmp.elim true fun cmp => cmp e data

def ipqDequeue (cmp : Option (Entry → U32 → Bool)) (data : U32)
    (q : Queue) : Option (Entry × Queue) :=
  (q.qList.find? (isMatch cmp data)).map fun e =>
    (e, { q with qList := q.qList.eraseP (isMatch cmp data), len := q.len - 1 })

def devCmp (e : Entry) (ifindex : U32) : Bool := e.indev == some ifindex || e.outdev == some ifindex

def ipCmp (e : Entry) (ip : U32) : Bool := if e.hook = .postRouting then e.daddr == ip else false

/-- `while ((e = ipq_dequeue(cmp, data))) body`, of which `fuel` tests are
made; the body is told how many are left. -/
def drain (cmp : Option (Entry → U32 → Bool)) (data : U32) (body : ℕ → Entry → Queue → Queue) :
    ℕ → Queue → Option Queue
  | 0, _ => none
  | fuel + 1, q =>
    match ipqDequeue cmp data q with
    | none => some q
    | some (e, q) => drain cmp data body fuel (body fuel e q)

/-- `nf_reinject` -/
def nfReinject (e : Entry) (verdict : Verdict) (q : Queue) : Queue := note [.reinjected e verdict] q

def receiveAll (l : List Entry) (q : Queue) : Queue :=
  l.foldl (fun q e => (netfilterReceive e q).2) q

/-- `ipq_flush`, while packets arrive each time that the lock is free. -/
def ipqFlush (arriving : ℕ → List Entry) (q : Queue) : Option Queue :=
  (drain none 0 (fun i e q => receiveAll (arriving i) (nfReinject e .drop q)) (q.qList.length + 1)
    { q with flushing := true }).map fun q => { q with flushing := false }

def ipqDevDrop (ifindex : U32) (q : Queue) : Option Queue :=
  drain (some devCmp) ifindex (fun _ e q => nfReinject e .drop q) (q.qList.length + 1) q

def ipqSendIp (ip : U32) (q : Queue) : Option Queue :=
  drain (some ipCmp) ip (fun _ e q => nfReinject e .accept (note [.rerouted e] q))
    (q.qList.length + 1) q

def ipqDropIp (ip : U32) (q : Queue) : Option Queue :=
  drain (some ipCmp) ip (fun _ e q => nfReinject e .drop (note [.unreachable e] q))
    (q.qList.length + 1) q

/-- `ipq_destroy_queue` up to the `kfree` of the queue. -/
def ipqDestroyQueue (arriving : ℕ → List Entry) (q : Queue) : Option Queue :=
  ipqFlush arriving { q with terminate := true }

/-- A call of one of the functions. -/
inductive Action
  | enqueue (isQ : Bool) (e : Entry)
  | sendIp (ip : U32)
  | dropIp (ip : U32)
  | devDrop (ifindex : U32)
  | flush (arriving : ℕ → List Entry)
  | destroy (arriving : ℕ → List Entry)

def step (a : Action) (q : Queue) : Option Queue :=
  match a with
  | .enqueue isQ e => some (ipqEnqueue isQ e q).2
  | .sendIp ip => ipqSendIp ip q
  | .dropIp ip => ipqDropIp ip q
  | .devDrop ifindex => ipqDevDrop ifindex q
  | .flush arriving => ipqFlush arriving q
  | .destroy arriving => ipqDestroyQueue arriving q

/-! ## What the loops do -/

namespace Event

def entry? : Event → Option Entry
  | accepted e => some e
  | _ => none

def verdict? : Event → Option (Entry × Verdict)
  | reinjected e verdict => some (e, verdict)
  | _ => none

end Event

namespace Queue

/-- The entries that have been put on the list. -/
def accepted (q : Queue) : List Entry := q.log.filterMap Event.entry?

/-- The entries that have been given back, with their verdicts. -/
def reinjected (q : Queue) : List (Entry × Verdict) := q.log.filterMap Event.verdict?

/-- What a loop leaves as it is. -/
def frame (q : Queue) : ℤ × Bool × Bool × List Entry :=
  (q.maxlen, q.flushing, q.terminate, q.accepted)

end Queue

/-- From `q` to `t` the entries that match have been given back, in the order of the list. -/
structure GivesBack (verdict : Verdict) (m : Entry → Bool) (q t : Queue) : Prop where
  reinjected : t.reinjected = q.reinjected ++ (q.qList.filter m).map fun e => (e, verdict)
  qList : t.qList = q.qList.filter fun e => !m e
  len : t.len = q.len - (q.qList.filter m).length
  frame : t.frame = q.frame

/-- The body of a loop gives the entry back and leaves the list alone. -/
structure Body (f : ℤ × Bool × Bool × List Entry) (verdict : Verdict)
    (body : ℕ → Entry → Queue → Queue) : Prop where
  frame : ∀ i e q, q.frame = f → (body i e q).frame = f
  qList : ∀ i e q, q.frame = f → (body i e q).qList = q.qList
  len : ∀ i e q, q.frame = f → (body i e q).len = q.len
  reinjected : ∀ i e q, q.frame = f → (body i e q).reinjected = q.reinjected ++ [(e, verdict)]

variable {cmp : Option (Entry → U32 → Bool)} {data : U32} {body : ℕ → Entry → Queue → Queue}
    {verdict : Verdict}
  {q t : Queue}

/-- `ipq_dequeue` takes the first entry that matches out of the list. -/
theorem ipqDequeue_cases (cmp : Option (Entry → U32 → Bool)) (data : U32) (q : Queue) :
    ipqDequeue cmp data q = none ∧ (∀ e ∈ q.qList, isMatch cmp data e = false) ∨
    ∃ e l₁ l₂, q.qList = l₁ ++ e :: l₂ ∧ (∀ x ∈ l₁, isMatch cmp data x = false) ∧
    isMatch cmp data e = true ∧
      ipqDequeue cmp data q = some (e, { q with qList := l₁ ++ l₂, len := q.len - 1 }) := by
  unfold ipqDequeue
  cases hfind : q.qList.find? (isMatch cmp data) with
  | none =>
    refine .inl ⟨rfl, fun e he => ?_⟩
    simpa using List.find?_eq_none.1 hfind e he
  | some e =>
    obtain ⟨he, l₁, l₂, hl, hl₁⟩ := List.find?_eq_some_iff_append.1 hfind
    have hbefore : ∀ x ∈ l₁, isMatch cmp data x = false := fun x hx => by simpa using hl₁ x hx
    refine .inr ⟨e, l₁, l₂, hl, hbefore, he, ?_⟩
    rw [hl, List.eraseP_append_right _ fun x hx => by simp [hbefore x hx],
      List.eraseP_cons_of_pos he]
    rfl

/-- The first entry that matches is given back, and then the others. -/
theorem GivesBack.cons {m : Entry → Bool} {e : Entry} {l₁ l₂ : List Entry} {u : Queue}
    (hl : q.qList = l₁ ++ e :: l₂) (hl₁ : ∀ x ∈ l₁, m x = false) (he : m e = true)
    (hqList : u.qList = l₁ ++ l₂) (hlen : u.len = q.len - 1) (hframe : u.frame = q.frame)
    (hreinjected : u.reinjected = q.reinjected ++ [(e, verdict)]) (h : GivesBack verdict m u t) :
    GivesBack verdict m q t := by
  have hnone : l₁.filter m = [] := List.filter_eq_nil_iff.2 fun x hx => by simp [hl₁ x hx]
  have hfilter : q.qList.filter m = e :: u.qList.filter m := by
    rw [hl, hqList, List.filter_append, List.filter_append, hnone, List.filter_cons_of_pos he]
    rfl
  refine ⟨?_, ?_, ?_, h.frame.trans hframe⟩
  · rw [h.reinjected, hreinjected, hfilter, List.map_cons, List.append_assoc]
    rfl
  · rw [h.qList, hqList, hl, List.filter_append, List.filter_append,
      List.filter_cons_of_neg (by simp [he])]
  · rw [h.len, hlen, hfilter, List.length_cons]
    omega

/-- A loop comes to its end within one test more than there are
entries, and gives back those that match. -/
theorem drain_givesBack (cmp : Option (Entry → U32 → Bool)) (data : U32) {fuel : ℕ}
    (hbody : Body q.frame verdict body) (hfuel : q.qList.length < fuel) :
    ∃ t, drain cmp data body fuel q = some t ∧ GivesBack verdict (isMatch cmp data) q t := by
  induction fuel generalizing q with
  | zero => exact absurd hfuel (Nat.not_lt_zero _)
  | succ fuel ih =>
    rw [drain]
    rcases ipqDequeue_cases cmp data q with ⟨hnone, hall⟩ | ⟨e, l₁, l₂, hl, hl₁, he, hsome⟩
    · rw [hnone]
      have hfilter : q.qList.filter (isMatch cmp data) = [] :=
        List.filter_eq_nil_iff.2 fun e he => by simp [hall e he]
      refine ⟨q, rfl, ?_, ?_, ?_, rfl⟩
      · simp [hfilter]
      · exact (List.filter_eq_self.2 fun e he => by simp [hall e he]).symm
      · simp [hfilter]
    · rw [hsome]
      let rest : Queue := { q with qList := l₁ ++ l₂, len := q.len - 1 }
      have hrest : rest.frame = q.frame := rfl
      have hframe := hbody.frame fuel e rest hrest
      have hqList := hbody.qList fuel e rest hrest
      have hshort : (body fuel e rest).qList.length < fuel := by
        have hlength := congrArg List.length hl
        rw [hqList]
        simp only [List.length_append, List.length_cons, rest] at hlength ⊢
        omega
      obtain ⟨t, ht, hgives⟩ := ih (hframe.symm ▸ hbody) hshort
      exact ⟨t, ht, hgives.cons hl hl₁ he hqList (hbody.len fuel e rest hrest) hframe
        (hbody.reinjected fuel e rest hrest)⟩

@[simp] theorem accepted_note (l : List Event) (q : Queue) :
    (note l q).accepted = q.accepted ++ l.filterMap Event.entry? := List.filterMap_append

@[simp] theorem reinjected_note (l : List Event) (q : Queue) :
    (note l q).reinjected = q.reinjected ++ l.filterMap Event.verdict? := List.filterMap_append

/-- A body that notes what it does to an entry, and gives it back. -/
theorem Body.of_note {f : ℤ × Bool × Bool × List Entry} (l : ℕ → Entry → List Event)
    (hbody : ∀ i e q, q.frame = f → body i e q = note (l i e) q)
    (hentry : ∀ i e, (l i e).filterMap Event.entry? = [])
    (hverdict : ∀ i e, (l i e).filterMap Event.verdict? = [(e, verdict)]) :
    Body f verdict body where
  frame i e q h := by
    have haccepted : (note (l i e) q).accepted = q.accepted := by
      rw [accepted_note, hentry, List.append_nil]
    rw [hbody i e q h, ← h, Queue.frame, haccepted]
    rfl
  qList i e q h := by rw [hbody i e q h]; rfl
  len i e q h := by rw [hbody i e q h]; rfl
  reinjected i e q h := by rw [hbody i e q h, reinjected_note, hverdict]

theorem note_note (l l' : List Event) (q : Queue) : note l' (note l q) = note (l ++ l') q := by
  simp [note]

theorem body_send (f : ℤ × Bool × Bool × List Entry) :
    Body f .accept fun _ e q => nfReinject e .accept (note [.rerouted e] q) :=
  .of_note (fun _ e => [.rerouted e, .reinjected e .accept]) (fun _ _ _ _ => note_note _ _ _)
    (fun _ _ => rfl)
    fun _ _ => rfl

theorem body_unreachable (f : ℤ × Bool × Bool × List Entry) :
    Body f .drop fun _ e q => nfReinject e .drop (note [.unreachable e] q) :=
  .of_note (fun _ e => [.unreachable e, .reinjected e .drop]) (fun _ _ _ _ => note_note _ _ _)
    (fun _ _ => rfl)
    fun _ _ => rfl

theorem body_drop (f : ℤ × Bool × Bool × List Entry) : Body f .drop fun _ e q =>
    nfReinject e .drop q :=
  .of_note (fun _ e => [.reinjected e .drop]) (fun _ _ _ _ => rfl) (fun _ _ => rfl) fun _ _ => rfl

/-- While the queue is being flushed or terminated, every packet is refused and freed. -/
theorem ipqEnqueue_busy (e : Entry) (h : q.flushing = true ∨ q.terminate = true) :
    ipqEnqueue true e q = (-eBusy, note [.freed e] q) := by
  have hbusy : (q.flushing || q.terminate) = true := by rwa [Bool.or_eq_true]
  unfold ipqEnqueue
  rw [hbusy]
  by_cases hfull : q.len ≥ q.maxlen <;> simp [hfull]

theorem receiveAll_busy (l : List Entry) (h : q.flushing = true ∨ q.terminate = true) :
    receiveAll l q = note (l.map .freed) q := by
  induction l generalizing q with
  | nil => simp [receiveAll, note]
  | cons e l ih =>
    have hfirst : (netfilterReceive e q).2 = note [.freed e] q :=
      congrArg Prod.snd (ipqEnqueue_busy e h)
    have hrest := ih (q := note [.freed e] q) h
    unfold receiveAll at hrest ⊢
    rw [List.foldl_cons, hfirst, hrest, note_note]
    rfl

/-- What arrives during a flush does not come on the list. -/
theorem body_flush (arriving : ℕ → List Entry) {f : ℤ × Bool × Bool × List Entry}
    (hf : f.2.1 = true) :
    Body f .drop fun i e q => receiveAll (arriving i) (nfReinject e .drop q) := by
  refine .of_note (fun i e => [.reinjected e .drop] ++ (arriving i).map .freed) (fun i e q hq => ?_)
    (fun i e => ?_) fun i e => ?_
  · have hflushing : (nfReinject e .drop q).flushing = true :=
      (congrArg (fun f => f.2.1) hq).trans hf
    rw [receiveAll_busy (arriving i) (.inl hflushing), nfReinject, note_note]
  · rw [List.filterMap_append, List.filterMap_map]
    exact List.filterMap_eq_nil_iff.2 fun _ _ => rfl
  · have hnone : ((arriving i).map Event.freed).filterMap Event.verdict? = [] := by
      rw [List.filterMap_map]
      exact List.filterMap_eq_nil_iff.2 fun _ _ => rfl
    rw [List.filterMap_append, hnone]
    rfl

/-! ## The functions -/

/-- The packet has been queued behind the routing decision, and goes to `ip`. -/
def destined (ip : U32) (e : Entry) : Bool := decide (e.hook = .postRouting ∧ e.daddr = ip)

theorem isMatch_ipCmp (ip : U32) : isMatch (some ipCmp) ip = destined ip := by
  funext e
  show ipCmp e ip = decide (e.hook = .postRouting ∧ e.daddr = ip)
  rw [Bool.eq_iff_iff, ipCmp]
  by_cases hhook : e.hook = .postRouting <;> simp [hhook]

theorem ipqSendIp_givesBack (ip : U32) (q : Queue) :
    ∃ t, ipqSendIp ip q = some t ∧ GivesBack .accept (destined ip) q t := by
  rw [← isMatch_ipCmp]
  exact drain_givesBack _ _ (body_send _) (Nat.lt_succ_self _)

theorem ipqDropIp_givesBack (ip : U32) (q : Queue) :
    ∃ t, ipqDropIp ip q = some t ∧ GivesBack .drop (destined ip) q t := by
  rw [← isMatch_ipCmp]
  exact drain_givesBack _ _ (body_unreachable _) (Nat.lt_succ_self _)

theorem ipqDevDrop_givesBack (ifindex : U32) (q : Queue) :
    ∃ t, ipqDevDrop ifindex q = some t ∧ GivesBack .drop (fun e => devCmp e ifindex) q t :=
  drain_givesBack _ _ (body_drop _) (Nat.lt_succ_self _)

theorem ipqFlush_givesBack (arriving : ℕ → List Entry) (hq : q.flushing = false) :
    ∃ t, ipqFlush arriving q = some t ∧ GivesBack .drop (fun _ => true) q t := by
  let busy : Queue := { q with flushing := true }
  have hbusy : busy.frame.2.1 = true := rfl
  obtain ⟨t, ht, h⟩ :=
    drain_givesBack none 0 (body_flush arriving hbusy) (Nat.lt_succ_self busy.qList.length)
  refine ⟨{ t with flushing := false }, ?_, h.reinjected, h.qList, h.len, ?_⟩
  · rw [ipqFlush, ht]
    rfl
  · have hframe := h.frame
    simp only [Queue.frame, Prod.mk.injEq] at hframe ⊢
    exact ⟨hframe.1, hq.symm, hframe.2.2⟩

/-! ## Conservation -/

structure Conserved (q : Queue) : Prop where
  len : q.len = q.qList.length
  le_maxlen : q.len ≤ q.maxlen
  /-- what has been taken is on the list, or has been given back once -/
  once : q.accepted.Perm (q.qList ++ q.reinjected.map Prod.fst)

theorem GivesBack.conserved {m : Entry → Bool} (h : GivesBack verdict m q t) (hq : Conserved q) :
    Conserved t := by
  have hsplit := List.length_eq_length_filter_add (l := q.qList) m
  have hframe := h.frame
  simp only [Queue.frame, Prod.mk.injEq] at hframe
  obtain ⟨hmaxlen, -, -, haccepted⟩ := hframe
  have hlen := h.len
  rw [hq.len] at hlen
  have hcount : t.qList.length = (q.qList.filter fun e => !m e).length :=
    congrArg List.length h.qList
  refine ⟨?_, ?_, ?_⟩
  · omega
  · have hle := hq.le_maxlen
    rw [hq.len] at hle
    omega
  · have hfst : ((q.qList.filter m).map fun e => (e, verdict)).map Prod.fst = q.qList.filter m := by
      rw [List.map_map]
      exact List.map_id _
    rw [haccepted, h.reinjected, h.qList, List.map_append, hfst]
    have hparts := (List.filter_append_perm m q.qList).symm.append_right (q.reinjected.map Prod.fst)
    refine hq.once.trans (hparts.trans ?_)
    have hcomm : (q.qList.filter m ++
        ((q.qList.filter fun e => !m e) ++ q.reinjected.map Prod.fst)).Perm
        (((q.qList.filter fun e => !m e) ++ q.reinjected.map Prod.fst) ++ q.qList.filter m) :=
          List.perm_append_comm
    simpa only [List.append_assoc] using hcomm

/-- A packet is taken when there is room and nobody flushes or terminates the
queue, and goes to the end of the list. -/
theorem ipqEnqueue_cases (isQ : Bool) (e : Entry) (q : Queue) :
    ipqEnqueue isQ e q = (0, q) ∨ ipqEnqueue isQ e q = (-eBusy, note [.freed e] q) ∨
    q.len < q.maxlen ∧ q.flushing = false ∧ q.terminate = false ∧ ipqEnqueue isQ e q =
      (q.len + 1, note [.accepted e] { q with qList := q.qList ++ [e], len := q.len + 1 }) := by
  unfold ipqEnqueue
  cases isQ with
  | false => exact .inl rfl
  | true =>
    by_cases hfull : q.len ≥ q.maxlen
    · exact .inr (.inl (by simp [hfull]))
    · by_cases hbusy : (q.flushing || q.terminate) = true
      · exact .inr (.inl (by simp [hfull, hbusy]))
      · have hfree := hbusy
        rw [Bool.not_eq_true, Bool.or_eq_false_iff] at hfree
        exact .inr (.inr ⟨not_le.1 hfull, hfree.1, hfree.2, by simp [hfull, hbusy]⟩)

theorem Conserved.note {l : List Event} (hq : Conserved q) (hentry : l.filterMap Event.entry? = [])
    (hverdict : l.filterMap Event.verdict? = []) : Conserved (note l q) := by
  refine ⟨hq.len, hq.le_maxlen, ?_⟩
  rw [accepted_note, reinjected_note, hentry, hverdict, List.append_nil, List.append_nil]
  exact hq.once

theorem Conserved.enqueue (hq : Conserved q) (isQ : Bool)
    (e : Entry) : Conserved (ipqEnqueue isQ e q).2 := by
  rcases ipqEnqueue_cases isQ e q with h | h | ⟨hroom, -, -, h⟩
  · rw [h]
    exact hq
  · rw [h]
    exact hq.note rfl rfl
  · rw [h]
    refine ⟨?_, hroom, ?_⟩
    · show q.len + 1 = ((q.qList ++ [e]).length : ℤ)
      rw [List.length_append, hq.len]
      rfl
    · rw [accepted_note, reinjected_note]
      show (q.accepted ++ [e]).Perm ((q.qList ++ [e]) ++ (q.reinjected ++ []).map Prod.fst)
      have hswap : (q.qList ++ (q.reinjected.map Prod.fst ++ [e])).Perm
          (q.qList ++ ([e] ++ q.reinjected.map Prod.fst)) := List.perm_append_comm.append_left _
      rw [List.append_nil, List.append_assoc]
      refine (hq.once.append_right [e]).trans ?_
      rw [List.append_assoc]
      exact hswap

/-! ## Runs -/

theorem ipqEnqueue_flushing (isQ : Bool) (e : Entry)
    (q : Queue) : (ipqEnqueue isQ e q).2.flushing = q.flushing := by
  rcases ipqEnqueue_cases isQ e q with h | h | ⟨-, -, -, h⟩ <;> rw [h] <;> rfl

theorem GivesBack.flushing {m : Entry → Bool} (h : GivesBack verdict m q t) :
    t.flushing = q.flushing :=
  congrArg (fun f => f.2.1) h.frame

/-- Between the calls nobody flushes the queue; each call comes to its end, and keeps the count. -/
theorem exists_step (a : Action) (q : Queue) (hq : Conserved q ∧ q.flushing = false) :
    ∃ t, step a q = some t ∧ Conserved t ∧ t.flushing = false := by
  obtain ⟨hconserved, hidle⟩ := hq
  cases a with
  | enqueue isQ e => exact ⟨_, rfl, hconserved.enqueue isQ e,
    (ipqEnqueue_flushing isQ e q).trans hidle⟩
  | sendIp ip =>
    obtain ⟨t, ht, h⟩ := ipqSendIp_givesBack ip q
    exact ⟨t, ht, h.conserved hconserved, h.flushing.trans hidle⟩
  | dropIp ip =>
    obtain ⟨t, ht, h⟩ := ipqDropIp_givesBack ip q
    exact ⟨t, ht, h.conserved hconserved, h.flushing.trans hidle⟩
  | devDrop ifindex =>
    obtain ⟨t, ht, h⟩ := ipqDevDrop_givesBack ifindex q
    exact ⟨t, ht, h.conserved hconserved, h.flushing.trans hidle⟩
  | flush arriving =>
    obtain ⟨t, ht, h⟩ := ipqFlush_givesBack arriving hidle
    exact ⟨t, ht, h.conserved hconserved, h.flushing.trans hidle⟩
  | destroy arriving =>
    have hterminate : Conserved { q with terminate := true } :=
      ⟨hconserved.len, hconserved.le_maxlen, hconserved.once⟩
    obtain ⟨t, ht, h⟩ := ipqFlush_givesBack (q := { q with terminate := true }) arriving hidle
    exact ⟨t, ht, h.conserved hterminate, h.flushing.trans hidle⟩

/-- The loops come to their ends, with the right entries given back in the right way; while
the queue is flushed nothing is taken. -/
structure Answers (q : Queue) : Prop where
  send : ∀ ip, ∃ t, ipqSendIp ip q = some t ∧ GivesBack .accept (destined ip) q t
  drop : ∀ ip, ∃ t, ipqDropIp ip q = some t ∧ GivesBack .drop (destined ip) q t
  flush : ∀ arriving, ∃ t, ipqFlush arriving q = some t ∧ GivesBack .drop (fun _ => true) q t

/-- The packet is not taken. -/
def Refused (e : Entry) (q : Queue) : Prop :=
  (netfilterReceive e q).1 = -eBusy ∧ (netfilterReceive e q).2.accepted = q.accepted ∧
    (netfilterReceive e q).2.qList = q.qList

theorem refused_of_busy (e : Entry) (h : q.flushing = true ∨ q.terminate = true) : Refused e q := by
  unfold Refused netfilterReceive
  rw [ipqEnqueue_busy e h]
  exact ⟨rfl, (accepted_note _ _).trans (List.append_nil _), rfl⟩

/-- In every sequence of calls the packets are conserved. -/
theorem packets_conserved (actions : List Action) :
    (∃ q, exec step actions {} = some q) ∧
    Along step (fun q => Conserved q ∧ Answers q) actions {} ∧
      ∀ q : Queue, q.flushing = true ∨ q.terminate = true → ∀ e, Refused e q := by
  have hstart : Conserved {} ∧ ({} : Queue).flushing = false := ⟨⟨rfl, by decide, .nil⟩, rfl⟩
  have hall : AllSteps step (fun _ _ => True) actions {} :=
    allSteps_of_forall (fun _ _ => trivial) _ _
  have hinv : Along step (fun q => Conserved q ∧ q.flushing = false) actions {} :=
    along_of_step (fun a q t hq _ ht => by
      obtain ⟨u, hu, hinv⟩ := exists_step a q hq
      exact Option.some.inj (hu.symm.trans ht) ▸ hinv) hstart hall
  refine ⟨exists_exec (fun a q hq _ => exists_step a q hq) hstart hall, ?_,
    fun q h e => refused_of_busy e h⟩
  apply hinv.mono
  intro q hq
  exact ⟨hq.1, fun ip => ipqSendIp_givesBack ip q, fun ip => ipqDropIp_givesBack ip q,
    fun arriving => ipqFlush_givesBack arriving hq.2⟩

/-- Two packets for one destination, of which one is still to be routed. -/
def twoPackets : List Action :=
  [.enqueue true ⟨1, .postRouting, none, some 2, 7⟩, .enqueue true ⟨2, .forward, some 2, none, 7⟩,
    .enqueue true ⟨3, .postRouting, none, some 2, 9⟩]

example : (exec step (twoPackets ++ [.sendIp 7]) {}).map
      (fun q => (q.qList.map Entry.ptr, q.log.drop 3)) =
    some ([2, 3], [.rerouted ⟨1, .postRouting, none, some 2, 7⟩,
      .reinjected ⟨1, .postRouting, none, some 2, 7⟩ .accept]) := by decide +kernel

/-! ## The queue of the router -/

/-- What the rest of the model keeps of an entry. -/
def Entry.forget (e : Entry) : QueueEntry where
  postRouting := decide (e.hook = .postRouting)
  daddr := e.daddr

/-- What the rest of the model keeps of the queue. -/
def Queue.forget (q : Queue) : PacketQueue where
  list := q.qList.map Entry.forget
  len := q.len
  maxlen := q.maxlen
  flushing := q.flushing
  terminate := q.terminate
  reinjected := q.reinjected.map fun r => (r.1.forget, r.2)

theorem forget_note {l : List Event} (hl : l.filterMap Event.verdict? = []) (q : Queue) :
    (note l q).forget = q.forget := by
  rw [Queue.forget, reinjected_note, hl, List.append_nil]
  rfl

theorem forget_note_of_verdict {l : List Event} {e : Entry}
    (hl : l.filterMap Event.verdict? = [(e, verdict)]) (q : Queue) :
    (note l q).forget = { q.forget with reinjected := q.forget.reinjected ++
    [(e.forget, verdict)] } := by
  rw [Queue.forget, reinjected_note, hl, List.map_append]
  rfl

theorem forget_enqueue (e : Entry) (q : Queue) :
    (netfilterReceive e q).2.forget = q.forget.enqueue e.forget := by
  unfold netfilterReceive ipqEnqueue PacketQueue.enqueue
  rw [Bool.not_true, if_neg Bool.false_ne_true]
  by_cases hfull : q.len ≥ q.maxlen
  · have hfull' : q.forget.len ≥ q.forget.maxlen := hfull
    rw [if_pos hfull, if_pos hfull']
    exact forget_note rfl q
  · have hfull' : ¬ q.forget.len ≥ q.forget.maxlen := hfull
    rw [if_neg hfull, if_neg hfull']
    by_cases hbusy : (q.flushing || q.terminate) = true
    · have hbusy' : (q.forget.flushing || q.forget.terminate) = true := hbusy
      rw [if_pos hbusy, if_pos hbusy']
      exact forget_note rfl q
    · have hbusy' : ¬ (q.forget.flushing || q.forget.terminate) = true := hbusy
      rw [if_neg hbusy, if_neg hbusy', forget_note rfl]
      show Queue.forget _ =
        { q.forget with list := q.qList.map Entry.forget ++ [e.forget], len := q.len + 1 }
      rw [Queue.forget, List.map_append]
      rfl

theorem forget_dequeue {m : QueueEntry → Bool}
    (hm : isMatch cmp data = m ∘ Entry.forget) (q : Queue) :
    q.forget.dequeue m = (ipqDequeue cmp data q).map fun r => (r.1.forget, r.2.forget) := by
  unfold PacketQueue.dequeue ipqDequeue
  show ((q.qList.map Entry.forget).find? m).map _ = _
  rw [List.find?_map, hm, Option.map_map, Option.map_map]
  refine Option.map_congr fun e _ => ?_
  simp [Queue.forget, Queue.reinjected, List.eraseP_map]

theorem forget_drain {m : QueueEntry → Bool} {fuel : ℕ}
    (h : drain cmp data body (fuel + 1) q = some t) (hfuel : q.qList.length ≤ fuel)
    (hm : isMatch cmp data = m ∘ Entry.forget) (hqList : ∀ i e q, (body i e q).qList = q.qList)
    (hbody : ∀ i e q, (body i e q).forget =
      { q.forget with reinjected := q.forget.reinjected ++ [(e.forget, verdict)] }) :
    t.forget = q.forget.drain m verdict fuel := by
  induction fuel generalizing q with
  | zero =>
    have hnil : q.qList = [] := List.length_eq_zero_iff.1 (Nat.le_zero.1 hfuel)
    have hnone : ipqDequeue cmp data q = none := by rw [ipqDequeue, hnil]; rfl
    rw [drain, hnone] at h
    cases h
    rfl
  | succ fuel ih =>
    rw [PacketQueue.drain, forget_dequeue hm]
    rw [drain] at h
    rcases ipqDequeue_cases cmp data q with ⟨hnone, -⟩ | ⟨e, l₁, l₂, hl, -, -, hsome⟩
    · rw [hnone] at h ⊢
      cases h
      rfl
    · rw [hsome] at h ⊢
      have hlength := congrArg List.length hl
      simp only [List.length_append, List.length_cons] at hlength
      rw [ih h (by rw [hqList]; simp only [List.length_append]; omega), hbody]
      rfl

theorem isMatch_ipCmp_forget (ip : U32) :
    isMatch (some ipCmp) ip = PacketQueue.ipCmp ip ∘ Entry.forget := by
  rw [isMatch_ipCmp]
  funext e
  show decide (_ ∧ _) = (decide _ && e.daddr == ip)
  rw [Bool.decide_and]
  rfl

/-- `ipq_send_ip` does to the queue of the router what it does to this one. -/
theorem forget_sendIp {ip : U32} (h : ipqSendIp ip q = some t) : t.forget = q.forget.sendIp ip := by
  have hlength : q.forget.list.length = q.qList.length := List.length_map _
  rw [PacketQueue.sendIp, hlength]
  refine forget_drain h le_rfl (isMatch_ipCmp_forget ip) (fun _ _ _ => rfl) fun i e q => ?_
  rw [nfReinject, note_note]
  exact forget_note_of_verdict rfl q

theorem forget_dropIp {ip : U32} (h : ipqDropIp ip q = some t) : t.forget = q.forget.dropIp ip := by
  have hlength : q.forget.list.length = q.qList.length := List.length_map _
  rw [PacketQueue.dropIp, hlength]
  refine forget_drain h le_rfl (isMatch_ipCmp_forget ip) (fun _ _ _ => rfl) fun i e q => ?_
  rw [nfReinject, note_note]
  exact forget_note_of_verdict rfl q

end MobileCloudCaching.Aodv.Ipq

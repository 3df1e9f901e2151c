import MobileCloudCaching.Caching.Forwarding
import MobileCloudCaching.Caching.Rounds

/-!
# When an exchange starts

Requests are counted in two places: those in transit by `recv_frreq_ori`, and the node's own ones by
`process_flrep`.  The events here are the single counted requests, with everything else the daemon
does in between, and the log keeps which of them started an exchange: broadcast an `EXCHANGE_REQ`
and set a timer for the choice of the agent.
-/

namespace MobileCloudCaching.Caching

open Octets Transition FirstMatch

variable (p : Params)

def ReqList.key (c : ReqList) : U32 × U32 := (c.fileId, c.fragId)

/-- The message that asks the neighbours for their scores. -/
def exchReqFor (dstIp : U32) (k : U32 × U32) : Datagram :=
  ⟨broadcastIp, 1, exchReqOctets p p.myIp dstIp k.1 k.2⟩

/-- The timers for the choice of the agent. -/
def agentTimers (dstIp : U32) (k : U32 × U32) (d : Daemon) : ℕ := d.timerQueue.countP fun t =>
  decide (t.type = .addCacheSend ∧ t.dstIp = dstIp ∧ t.fileId = k.1 ∧ t.fragId = k.2)

/-- Between the two states an exchange has been started: its message has been sent, and its timer is
in the queue. -/
def Started (dstIp : U32) (k : U32 × U32) (d e : Daemon) : Prop :=
  exchReqFor p dstIp k ∈ e.sent.drop d.sent.length ∧
    agentTimers dstIp k d < agentTimers dstIp k e

instance (dstIp : U32) (k : U32 × U32) (d e : Daemon) : Decidable (Started p dstIp k d e) :=
  inferInstanceAs (Decidable (_ ∧ _))

/-- What happens to the counters: `recv_frreq_ori` and `recv_frreq_fwd` handle a task, the loop of
`process_flrep` issues a request, or the daemon does something else, which leaves the list of
counted requests, and becomes `e` otherwise. -/
inductive CountEvent
  | ori (mem : Mem) (clk : Clock) (t : Task)
  | issue (mem : Mem) (clk : Clock) (i : ℕ) (fileId dstIp fragId : U32)
  | fwd (t : Task)
  | other (e : Daemon)

/-- The fragment that a task with a fragment request is about. -/
def frreqKey (t : Task) : Option (U32 × U32) :=
  (FragReq.load p.order t.data).map fun m =>
    ((convertFrreqToHost p.order m).fileId, (convertFrreqToHost p.order m).fragId)

namespace CountEvent

/-- The fragment for which the event counts a request. -/
def counts : CountEvent → Option (U32 × U32)
  | .ori _ _ t => if t.dstIp = p.myIp then none else frreqKey p t
  | .issue _ _ _ fileId _ fragId => some (fileId, fragId)
  | _ => none

/-- The fragment of a `FRAG_REQ_FWD` in transit. -/
def resets : CountEvent → Option (U32 × U32)
  | .fwd t => if t.dstIp = p.myIp then none else frreqKey p t
  | _ => none

/-- The address that a counted request is sent to. -/
def dstIp : CountEvent → U32
  | .ori _ _ t => t.dstIp
  | .issue _ _ _ _ dstIp _ => dstIp
  | _ => 0

def run : CountEvent → Daemon → Option Daemon
  | .ori mem clk t, d => recvFrreqOri p mem clk t d
  | .issue mem clk i fileId dstIp fragId, d => requestFrags p mem clk fileId [(dstIp, fragId)] i d
  | .fwd t, d => recvFrreqFwd p t d
  | .other e, d => some { e with crlist := d.crlist }

/-- The task of a handler holds a whole fragment request. -/
def Whole : CountEvent → Prop
  | .ori _ _ t | .fwd t => (FragReq.load p.order t.data).isSome = true
  | _ => True

/-- There is memory for a new counter. -/
def counterMem : CountEvent → Bool
  | .ori mem _ _ => mem.ok .creq 0
  | .issue mem _ i _ _ _ => mem.ok .creq i
  | _ => true

/-- There is memory for the message and for the timer of an exchange. -/
def exchangeMem : CountEvent → Bool
  | .ori mem _ _ => mem.ok .message 1 && mem.ok .task 0
  | .issue mem _ i _ _ _ => mem.ok .message (2 * i + 1) && mem.ok .task i
  | _ => true

end CountEvent

/-- An entry of the log: a counted request, with whether it started an exchange, or a reset. -/
inductive Mark
  | counted (k : U32 × U32) (started : Bool)
  | reset (k : U32 × U32)

/-- The counted requests for a fragment since the last reset; the newest entry comes first. -/
def since (k : U32 × U32) : List Mark → ℕ
  | [] => 0
  | .counted k' started :: l =>
    if k' = k then if started then 0 else since k l + 1 else since k l
  | .reset k' :: l => if k' = k then 0 else since k l

/-- A counted request started an exchange exactly if it was the `n`-th since the last reset. -/
def Exact (n : ℤ) : List Mark → Prop
  | [] => True
  | .counted k started :: l => (started = true ↔ (since k l + 1 : ℤ) = n) ∧ Exact n l
  | .reset _ :: l => Exact n l

/-- The daemon with the log. -/
structure Counted where
  daemon : Daemon
  log : List Mark := []

def marks (ev : CountEvent) (d e : Daemon) : List Mark :=
  match ev.counts p, ev.resets p with
  | some k, _ => [.counted k (decide (Started p ev.dstIp k d e))]
  | none, some k => [.reset k]
  | none, none => []

def countStep (ev : CountEvent) (s : Counted) : Option Counted :=
  (ev.run p s.daemon).map fun e => { daemon := e, log := marks p ev s.daemon e ++ s.log }

/-- A step that does as it should: a request is whole, `THRESHOLD` is 2 or more when one is counted,
and the counter, or the exchange that is due, gets its memory. -/
structure CountServed (ev : CountEvent) (s : Counted) : Prop where
  whole : ev.Whole p
  threshold : ∀ k ∈ ev.counts p, 2 ≤ p.threshold.toInt
  counterMem : ∀ k ∈ ev.counts p, counter s.daemon.crlist k = none → ev.counterMem = true
  exchangeMem : ∀ k ∈ ev.counts p, atThreshold p (counter s.daemon.crlist k) = true →
    ev.exchangeMem = true

/-- One entry for each fragment. -/
def DistinctCounters (s : Counted) : Prop := (s.daemon.crlist.map ReqList.key).Nodup

/-- The event leaves the counters of the fragments that it is not about. -/
def LeavesOthers (ev : CountEvent) (s : Counted) : Prop :=
  ∀ t, countStep p ev s = some t → ∀ k, ev.counts p ≠ some k → ev.resets p ≠ some k →
    counter t.daemon.crlist k = counter s.daemon.crlist k

variable {p}

/-! ## Counting -/

theorem agentTimers_insertTimer (ok : Bool) (clk : Clock) (dstIp fileId fragId : U32) (d : Daemon) :
    agentTimers dstIp (fileId, fragId)
      (insertTimer ok clk .addCacheSend waitExchRepTime dstIp fileId fragId d) =
    agentTimers dstIp (fileId, fragId) d + if ok then 1 else 0 := by
  cases ok with
  | false => rfl
  | true =>
    unfold agentTimers insertTimer
    rw [if_pos rfl, queueTimer, (insertByTime_perm _ _).countP_eq]
    exact List.countP_cons_of_pos (by simp [createTask])

/-- A fragment request is no message of an exchange. -/
theorem frreqOctets_ne (type : Byte) (htype : type ≠ exchangeReqMessage)
    (srcIp dstIp fileId fragId srcIp' dstIp' fileId' fragId' : U32) :
    frreqOctets p type srcIp dstIp fileId fragId ≠
      exchReqOctets p srcIp' dstIp' fileId' fragId' := fun heq =>
  htype (Option.some.inj (congrArg List.head? heq))

theorem key_setCount (fileId fragId : U32) (f : U32 → U32) (d : Daemon) :
    (setCount fileId fragId f d).crlist.map ReqList.key = d.crlist.map ReqList.key :=
  map_modifyFirst fun _ => rfl

theorem counter_eq_none_iff {l : List ReqList} {k : U32 × U32} :
    counter l k = none ↔ k ∉ l.map ReqList.key := by
  simp [counter, findCreq, ReqList.isFor, ReqList.key, Prod.ext_iff]

/-- What a counted request does: it bumps the counter of its fragment, starts an exchange exactly if
that was at the threshold and there is memory, and adds an entry only for a fragment that has
none. -/
structure CountsRequest (p : Params) (dstIp : U32) (k : U32 × U32) (ok : Bool) (d e : Daemon) :
    Prop where
  bumps : ∀ k', counter e.crlist k' =
    if k' = k then bump p (counter d.crlist k') else counter d.crlist k'
  started : Started p dstIp k d e ↔ atThreshold p (counter d.crlist k) = true ∧ ok = true
  keys : e.crlist.map ReqList.key = if k ∈ d.crlist.map ReqList.key then d.crlist.map ReqList.key
    else k :: d.crlist.map ReqList.key

/-- Nothing but fragment requests is sent. -/
structure Forwarded (p : Params) (d e : Daemon) : Prop where
  crlist : e.crlist = d.crlist
  timerQueue : e.timerQueue = d.timerQueue
  sent : ∃ l, e.sent = d.sent ++ l ∧ ∀ dstIp k, exchReqFor p dstIp k ∉ l

theorem Forwarded.refl (d : Daemon) : Forwarded p d d :=
  ⟨rfl, rfl, [], (List.append_nil _).symm, fun _ _ => List.not_mem_nil⟩

/-- A fragment request that is sent, or not for want of memory. -/
theorem Forwarded.frreq {ok : Bool} {dstIp : U32} {ttl type : Byte}
    (htype : type ≠ exchangeReqMessage) (srcIp' dstIp' fileId fragId : U32) (d : Daemon) :
    Forwarded p d (if ok then
      sendMessage dstIp ttl (frreqOctets p type srcIp' dstIp' fileId fragId) d else d) := by
  cases ok with
  | false => exact .refl d
  | true =>
    rw [if_pos rfl, sendMessage]
    split
    · exact .refl d
    · refine ⟨rfl, rfl, _, rfl, fun dstIp k hmem => ?_⟩
      have hdatagram := List.mem_singleton.1 hmem
      exact frreqOctets_ne type htype _ _ _ _ _ _ _ _ (congrArg Datagram.payload hdatagram).symm

theorem forwarded_genFrreq (ok : Bool) (srcIp dstIp fileId fragId : U32) (d : Daemon) :
    Forwarded p d (genFrreq p ok srcIp dstIp fileId fragId d) :=
  .frreq (by decide) srcIp dstIp fileId fragId d

theorem forwarded_genFrreqByTask (ok : Bool) (t : Task) (m : FragReq) (d : Daemon) :
    Forwarded p d (genFrreqByTask p ok t m d) :=
  .frreq (by decide) m.srcIp m.dstIp m.fileId m.fragId d

/-- What a counted request does at the threshold, behind the requests that are sent first. -/
def exchangeOf (p : Params) (mem : Mem) (clk : Clock) (i : ℕ) (dstIp fileId fragId : U32)
    (d : Daemon) : Daemon :=
  updateTimerQueue p clk
    (insertTimer (mem.ok .task i) clk .addCacheSend waitExchRepTime dstIp fileId fragId
      (genExchReq p (mem.ok .message (2 * i + 1)) p.myIp dstIp fileId fragId d))

theorem crlist_exchangeOf (mem : Mem) (clk : Clock) (i : ℕ) (dstIp fileId fragId : U32)
    (d : Daemon) : (exchangeOf p mem clk i dstIp fileId fragId d).crlist = d.crlist := by
  unfold exchangeOf updateTimerQueue insertTimer genExchReq
  cases mem.ok .task i <;> cases mem.ok .message (2 * i + 1) <;> dsimp only <;> split <;> rfl

/-- An exchange starts when its message and its timer get their memory. -/
theorem started_exchangeOf {mem : Mem} {clk : Clock} {i : ℕ} {dstIp fileId fragId : U32}
    {d c : Daemon} (htimers : c.timerQueue = d.timerQueue)
    (hsent : ∃ l, c.sent = d.sent ++ l ∧ ∀ dstIp k, exchReqFor p dstIp k ∉ l) :
    Started p dstIp (fileId, fragId) d (exchangeOf p mem clk i dstIp fileId fragId c) ↔
      (mem.ok .message (2 * i + 1) && mem.ok .task i) = true := by
  obtain ⟨l, hl, hnot⟩ := hsent
  have hqueue : ∀ e : Daemon, (updateTimerQueue p clk e).timerQueue = e.timerQueue := fun e => by
    obtain ⟨x, hx⟩ := updateTimerQueue_eq p clk e
    rw [hx]
  have hfirst : (genExchReq p (mem.ok .message (2 * i + 1)) p.myIp dstIp fileId fragId
      c).timerQueue = d.timerQueue := by
    rw [← htimers]
    cases mem.ok .message (2 * i + 1) <;> rfl
  have htimer : agentTimers dstIp (fileId, fragId)
      (exchangeOf p mem clk i dstIp fileId fragId c) =
      agentTimers dstIp (fileId, fragId) d + if mem.ok .task i then 1 else 0 := by
    rw [exchangeOf, agentTimers, hqueue]
    refine (agentTimers_insertTimer _ _ _ _ _ _).trans ?_
    rw [agentTimers, hfirst, agentTimers]
  have hdrop : (exchangeOf p mem clk i dstIp fileId fragId c).sent.drop d.sent.length =
      if mem.ok .message (2 * i + 1) then l ++ [exchReqFor p dstIp (fileId, fragId)] else l := by
    obtain ⟨q, hq⟩ := insertTimer_eq (mem.ok .task i) clk .addCacheSend waitExchRepTime dstIp fileId
      fragId (genExchReq p (mem.ok .message (2 * i + 1)) p.myIp dstIp fileId fragId c)
    obtain ⟨x, hx⟩ := updateTimerQueue_eq p clk (insertTimer (mem.ok .task i) clk .addCacheSend
      waitExchRepTime dstIp fileId fragId
      (genExchReq p (mem.ok .message (2 * i + 1)) p.myIp dstIp fileId fragId c))
    rw [exchangeOf, hx, hq]
    cases mem.ok .message (2 * i + 1) with
    | false => exact (congrArg (List.drop _) hl).trans List.drop_left
    | true =>
      refine (congrArg (List.drop _) (congrArg (· ++ [_]) hl)).trans ?_
      rw [List.append_assoc]
      exact List.drop_left
  rw [Started, htimer, hdrop, Bool.and_eq_true]
  refine and_congr ?_ ?_
  · cases mem.ok .message (2 * i + 1) with
    | false => exact iff_of_false (hnot dstIp _) Bool.false_ne_true
    | true => exact iff_of_true (List.mem_append_right _ (List.mem_singleton_self _)) rfl
  · cases mem.ok .task i <;> simp

theorem countFrreq_counts {mem : Mem} {clk : Clock} {i : ℕ} {dstIp fileId fragId : U32}
    {forward : Daemon → Daemon} (hforward : ∀ d, Forwarded p d (forward d)) {d₀ d e : Daemon}
    (hfirst : Forwarded p d₀ d)
    (h : countFrreq p mem clk i dstIp fileId fragId forward d = some e) :
    CountsRequest p dstIp (fileId, fragId) (mem.ok .message (2 * i + 1) && mem.ok .task i)
      d₀ e := by
  have hidle : ∀ c : Daemon, c.timerQueue = d.timerQueue →
      ¬Started p dstIp (fileId, fragId) d₀ c := fun c hc hst => by
    have hlt := hst.2
    rw [agentTimers, agentTimers, hc, hfirst.timerQueue] at hlt
    exact lt_irrefl _ hlt
  suffices hcounts : (∀ k', counter e.crlist k' =
      if k' = (fileId, fragId) then bump p (counter d.crlist k') else counter d.crlist k') ∧
      (Started p dstIp (fileId, fragId) d₀ e ↔
        atThreshold p (counter d.crlist (fileId, fragId)) = true ∧
        (mem.ok .message (2 * i + 1) && mem.ok .task i) = true) ∧
      e.crlist.map ReqList.key = if (fileId, fragId) ∈ d.crlist.map ReqList.key then
        d.crlist.map ReqList.key else (fileId, fragId) :: d.crlist.map ReqList.key by
    rw [hfirst.crlist] at hcounts
    exact ⟨hcounts.1, hcounts.2.1, hcounts.2.2⟩
  unfold countFrreq at h
  cases hfind : findCreq d.crlist fileId fragId with
  | none =>
    have hcount : counter d.crlist (fileId, fragId) = none := by rw [counter, hfind]; rfl
    rw [hfind] at h
    dsimp only at h
    split at h
    · obtain rfl := Option.some.inj h
      refine ⟨fun k => ?_, ?_, ?_⟩
      · rw [updateCount, counter_setCount, createCreq, counter_cons]
        by_cases hk : k = (fileId, fragId)
        · rw [if_pos hk, if_pos hk, hk, hcount, if_pos (by simp [ReqList.isFor])]
          rfl
        · rw [if_neg hk, if_neg hk, if_neg]
          exact fun hfor => hk (ReqList.isFor_iff.1 hfor).symm
      · rw [hcount]
        exact iff_of_false (hidle _ rfl) fun hat => Bool.false_ne_true hat.1
      · rw [if_neg (counter_eq_none_iff.1 hcount)]
        exact key_setCount _ _ _ _
    · cases h
  | some c =>
    have hcount : counter d.crlist (fileId, fragId) = some c.count := by
      rw [counter, hfind]; rfl
    have hmem : (fileId, fragId) ∈ d.crlist.map ReqList.key := by
      by_contra hnot
      rw [counter_eq_none_iff.2 hnot] at hcount
      cases hcount
    rw [hfind] at h
    dsimp only at h
    split at h
    · rename_i hreach
      obtain rfl : exchangeOf p mem clk i dstIp fileId fragId
        (forward (flushCount fileId fragId d)) = e := Option.some.inj h
      have hsends := hforward (flushCount fileId fragId d)
      have hcr := (crlist_exchangeOf (p := p) mem clk i dstIp fileId fragId
        (forward (flushCount fileId fragId d))).trans hsends.crlist
      refine ⟨fun k => ?_, ?_, ?_⟩
      · rw [hcr, flushCount, counter_setCount]
        by_cases hk : k = (fileId, fragId)
        · rw [if_pos hk, if_pos hk, hk, hcount]
          simp [bump, hreach]
        · rw [if_neg hk, if_neg hk]
      · have hat : atThreshold p (some c.count) = true := hreach
        obtain ⟨l₁, hl₁, hnot₁⟩ := hfirst.sent
        obtain ⟨l₂, hl₂, hnot₂⟩ := hsends.sent
        rw [hcount, and_iff_right hat]
        refine started_exchangeOf (hsends.timerQueue.trans hfirst.timerQueue) ⟨l₁ ++ l₂, ?_, ?_⟩
        · rw [hl₂, ← List.append_assoc, ← hl₁]
          rfl
        · exact fun dstIp k hmem => (List.mem_append.1 hmem).elim (hnot₁ dstIp k) (hnot₂ dstIp k)
      · rw [hcr, if_pos hmem]
        exact key_setCount _ _ _ _
    · rename_i hreach
      obtain rfl := Option.some.inj h
      refine ⟨fun k => ?_, ?_, ?_⟩
      · rw [updateCount, counter_setCount]
        by_cases hk : k = (fileId, fragId)
        · rw [if_pos hk, if_pos hk, hk, hcount]
          simp [bump, hreach]
        · rw [if_neg hk, if_neg hk]
      · rw [hcount]
        exact iff_of_false (hidle _ rfl) fun hat => hreach hat.1
      · rw [if_pos hmem]
        exact key_setCount _ _ _ _

/-! ## Events -/

/-- An event that counts a request. -/
theorem CountEvent.counts_spec (hon : p.cachingOn = true) {ev : CountEvent} {d e : Daemon}
    {k : U32 × U32} (hk : ev.counts p = some k) (h : ev.run p d = some e) :
    CountsRequest p ev.dstIp k ev.exchangeMem d e := by
  cases ev with
  | ori mem clk t =>
    obtain ⟨m, hm, he⟩ := Option.bind_eq_some_iff.1 h
    dsimp only [counts] at hk
    split at hk
    · cases hk
    · rename_i hdst
      rw [frreqKey, hm] at hk
      obtain rfl := Option.some.inj hk
      dsimp only at he
      rw [if_neg hdst, if_pos hon] at he
      exact countFrreq_counts (forwarded_genFrreqByTask _ _ _) (.refl d) he
  | issue mem clk i fileId dstIp fragId =>
    obtain rfl := Option.some.inj hk
    obtain ⟨c, hc, he⟩ := Option.bind_eq_some_iff.1 h
    obtain rfl := Option.some.inj he
    rw [if_pos hon] at hc
    exact countFrreq_counts .refl (forwarded_genFrreq _ _ _ _ _ d) hc
  | fwd t => cases hk
  | other e' => cases hk

/-- An event takes place when its request is whole and there is memory for a new counter. -/
theorem CountEvent.isSome_run_iff (hon : p.cachingOn = true) (ev : CountEvent) (d : Daemon) :
    (ev.run p d).isSome = true ↔ ev.Whole p ∧
      ∀ k ∈ ev.counts p, counter d.crlist k = none → ev.counterMem = true := by
  cases ev with
  | ori mem clk t =>
    simp only [run, recvFrreqOri, Whole, counts, frreqKey, counterMem]
    cases hload : FragReq.load p.order t.data with
    | none => simp
    | some m =>
      by_cases hdst : t.dstIp = p.myIp
      · simp [hdst]
      · simp only [Option.bind_eq_bind, Option.bind_some, hdst, if_false, hon, if_true,
          isSome_countFrreq_iff, Option.isSome_some, true_and, Option.map_some, Option.mem_some_iff,
          forall_eq']
  | issue mem clk i fileId dstIp fragId =>
    have hcr := (forwarded_genFrreq (p := p) (mem.ok .message (2 * i)) p.myIp dstIp fileId fragId
      d).crlist
    simp only [run, requestFrags, hon, if_true, Whole, counts, counterMem, true_and,
      Option.mem_some_iff, forall_eq', Option.isSome_bind]
    rw [← hcr]
    refine Iff.trans ?_ (isSome_countFrreq_iff :
      (countFrreq p mem clk i dstIp fileId fragId id _).isSome = true ↔ _)
    cases countFrreq p mem clk i dstIp fileId fragId id
      (genFrreq p (mem.ok .message (2 * i)) p.myIp dstIp fileId fragId d) <;> rfl
  | fwd t =>
    simp only [run, recvFrreqFwd, Whole, counts]
    cases hload : FragReq.load p.order t.data with
    | none => simp
    | some m => simp [apply_ite Option.isSome]
  | other e => simp [run, Whole, counts]

/-- An event that resets a counter. -/
theorem CountEvent.resets_spec {ev : CountEvent} {d e : Daemon} {k : U32 × U32}
    (hk : ev.resets p = some k) (h : ev.run p d = some e) :
    (∀ k', counter e.crlist k' =
      if k' = k then (counter d.crlist k').map fun _ => 0 else counter d.crlist k') ∧
    e.crlist.map ReqList.key = d.crlist.map ReqList.key := by
  cases ev with
  | fwd t =>
    obtain ⟨m, hm, he⟩ := Option.bind_eq_some_iff.1 h
    dsimp only [resets] at hk
    split at hk
    · cases hk
    · rename_i hdst
      rw [frreqKey, hm] at hk
      obtain rfl := Option.some.inj hk
      dsimp only at he
      rw [if_neg hdst] at he
      obtain rfl := Option.some.inj he
      exact ⟨counter_setCount _ _ _ d, key_setCount _ _ _ d⟩
  | ori mem clk t => cases hk
  | issue mem clk i fileId dstIp fragId => cases hk
  | other e' => cases hk

/-- The other events. -/
theorem CountEvent.other_spec {ev : CountEvent} {d e : Daemon} (hc : ev.counts p = none)
    (hr : ev.resets p = none) (h : ev.run p d = some e) : e.crlist = d.crlist := by
  cases ev with
  | ori mem clk t =>
    obtain ⟨m, hm, he⟩ := Option.bind_eq_some_iff.1 h
    dsimp only [counts] at hc
    dsimp only at he
    split at hc
    · rename_i hdst
      rw [if_pos hdst] at he
      obtain rfl := Option.some.inj he
      split <;> rfl
    · rw [frreqKey, hm] at hc
      cases hc
  | issue mem clk i fileId dstIp fragId => cases hc
  | fwd t =>
    obtain ⟨m, hm, he⟩ := Option.bind_eq_some_iff.1 h
    dsimp only [resets] at hr
    dsimp only at he
    split at hr
    · rename_i hdst
      rw [if_pos hdst] at he
      obtain rfl := Option.some.inj he
      rfl
    · rw [frreqKey, hm] at hr
      cases hr
  | other e' => exact (congrArg Daemon.crlist (Option.some.inj h)).symm

/-! ## Runs -/

theorem reachThreshold_iff (hT : 1 ≤ p.threshold.toInt) (c : U32) :
    reachThreshold p c = true ↔ p.threshold.toInt - 1 ≤ c.toNat := by
  have hmax := p.threshold.toInt_lt
  have hval : (((p.threshold - 1).toBitVec).toNat : ℤ) = p.threshold.toInt - 1 := by
    rw [Int32.toBitVec_sub, BitVec.toNat_sub]
    have htoInt := BitVec.toInt_eq_toNat_cond p.threshold.toBitVec
    change p.threshold.toInt = _ at htoInt
    have hone : (1 : Int32).toBitVec.toNat = 1 := rfl
    have hlt := p.threshold.toBitVec.isLt
    rw [hone]
    split at htoInt <;> omega
  rw [reachThreshold, Bool.not_eq_true', decide_eq_false_iff_not, BitVec.lt_def]
  omega

/-- The number that a counter stands for; a fragment that is not listed has had no request. -/
def countValue (c : Option U32) : ℕ := (c.map BitVec.toNat).getD 0

theorem le_countValue_of_atThreshold (hT : 1 ≤ p.threshold.toInt) {c : Option U32}
    (h : atThreshold p c = true) : p.threshold.toInt - 1 ≤ countValue c := by
  cases c with
  | none => cases h
  | some c => exact (reachThreshold_iff hT c).1 h

theorem countValue_lt_of_not_atThreshold (hT : 1 ≤ p.threshold.toInt) {c : Option U32}
    (h : ¬ atThreshold p c = true) : (countValue c : ℤ) < max (p.threshold.toInt - 1) 1 := by
  cases c with
  | none => exact lt_max_of_lt_right one_pos
  | some c => exact lt_max_of_lt_left (lt_of_not_ge ((reachThreshold_iff hT c).not.1 h))

theorem countValue_bump (hT : 1 ≤ p.threshold.toInt) (c : Option U32) :
    countValue (bump p c) = if atThreshold p c then 0 else countValue c + 1 := by
  cases c with
  | none => rfl
  | some c =>
    by_cases h : reachThreshold p c = true
    · simp [bump, atThreshold, countValue, h]
    · have hlt := (reachThreshold_iff hT c).not.1 h
      have hmax := p.threshold.toInt_lt
      simp [bump, atThreshold, countValue, h]
      omega

/-- A counter is the number of requests counted since the last reset, and with `THRESHOLD = 1`
no request has been counted. -/
structure CountInv (p : Params) (s : Counted) : Prop where
  agrees : ∀ k, countValue (counter s.daemon.crlist k) = since k s.log
  max : ∀ k, (since k s.log : ℤ) ≤ max (p.threshold.toInt - 1) 1
  one : p.threshold.toInt = 1 → ∀ k, counter s.daemon.crlist k = none

theorem since_counted (k k' : U32 × U32) (started : Bool) (l : List Mark) :
    since k' (.counted k started :: l) =
      if k' = k then if started then 0 else since k' l + 1 else since k' l := by
  simp only [since, eq_comm (a := k)]

theorem since_reset (k k' : U32 × U32) (l : List Mark) :
    since k' (.reset k :: l) = if k' = k then 0 else since k' l := by
  simp only [since, eq_comm (a := k)]

/-- A counted request is logged exactly when `THRESHOLD` is 2 or more and the exchange that is due
gets its memory. -/
theorem exact_counted_iff (hT : 1 ≤ p.threshold.toInt) {s : Counted} (hs : CountInv p s)
    (hlog : Exact p.threshold.toInt s.log) (k : U32 × U32) (ok : Bool) :
    Exact p.threshold.toInt
      (.counted k (atThreshold p (counter s.daemon.crlist k) && ok) :: s.log) ↔
      2 ≤ p.threshold.toInt ∧ (atThreshold p (counter s.daemon.crlist k) = true → ok = true) := by
  have hmax := hs.max k
  rw [← hs.agrees] at hmax
  change (_ ↔ _) ∧ Exact _ _ ↔ _
  rw [and_iff_left hlog, ← hs.agrees, Bool.and_eq_true]
  by_cases htwo : 2 ≤ p.threshold.toInt
  · rw [and_iff_right htwo]
    have hat : atThreshold p (counter s.daemon.crlist k) = true ↔
        (countValue (counter s.daemon.crlist k) + 1 : ℤ) = p.threshold.toInt := by
      refine ⟨fun hat => ?_, fun hn => ?_⟩
      · have := le_countValue_of_atThreshold hT hat
        omega
      · by_contra hat
        cases hc : counter s.daemon.crlist k with
        | none =>
          rw [hc] at hn
          change ((0 : ℕ) : ℤ) + 1 = _ at hn
          omega
        | some c =>
          rw [hc] at hat hn
          have := (reachThreshold_iff hT c).not.1 hat
          change (c.toNat : ℤ) + 1 = _ at hn
          omega
    rw [← hat]
    exact ⟨fun h hk => (h.2 hk).2, fun h => ⟨fun hk => hk.1, fun hk => ⟨hk, h hk⟩⟩⟩
  · -- with `THRESHOLD = 1` the fragment is not listed, and the request does not start an exchange
    refine iff_of_false (fun hiff => ?_) fun h => htwo h.1
    rw [hs.one (by omega) k] at hiff
    exact Bool.false_ne_true (hiff.2 (by change ((0 : ℕ) : ℤ) + 1 = _; omega)).1

theorem CountInv.counted (hT : 1 ≤ p.threshold.toInt) (htwo : 2 ≤ p.threshold.toInt) {s : Counted}
    (hs : CountInv p s) {dstIp : U32} {k : U32 × U32} {ok : Bool} {e : Daemon}
    (h : CountsRequest p dstIp k ok s.daemon e) :
    CountInv p ⟨e, .counted k (atThreshold p (counter s.daemon.crlist k)) :: s.log⟩ where
  agrees k' := by
    rw [h.bumps, since_counted]
    by_cases hk : k' = k
    · rw [if_pos hk, if_pos hk, hk, countValue_bump hT, hs.agrees]
    · rw [if_neg hk, if_neg hk, hs.agrees]
  max k' := by
    rw [since_counted]
    split
    · rename_i hk
      split
      · omega
      · rename_i hat
        have := countValue_lt_of_not_atThreshold hT hat
        rw [hs.agrees] at this
        rw [hk]
        omega
    · exact hs.max k'
  one hone := by omega

theorem CountInv.reset {s : Counted} (hs : CountInv p s) {k : U32 × U32} {e : Daemon}
    (hcount : ∀ k', counter e.crlist k' =
      if k' = k then (counter s.daemon.crlist k').map fun _ => 0
      else counter s.daemon.crlist k') :
    CountInv p ⟨e, .reset k :: s.log⟩ where
  agrees k' := by
    rw [hcount, since_reset]
    split
    · cases counter s.daemon.crlist k' <;> rfl
    · exact hs.agrees k'
  max k' := by
    rw [since_reset]
    split
    · exact le_max_of_le_right zero_le_one
    · exact hs.max k'
  one hone k' := by
    rw [hcount, hs.one hone k']
    split <;> rfl

/-- The mark of a counted request. -/
theorem marks_of_counts (hon : p.cachingOn = true) {ev : CountEvent} {d e : Daemon} {k : U32 × U32}
    (hk : ev.counts p = some k) (he : ev.run p d = some e) :
    marks p ev d e = [.counted k (atThreshold p (counter d.crlist k) && ev.exchangeMem)] := by
  have hstart : decide (Started p ev.dstIp k d e) =
      (atThreshold p (counter d.crlist k) && ev.exchangeMem) := by
    rw [Bool.eq_iff_iff, decide_eq_true_iff, Bool.and_eq_true]
    exact (CountEvent.counts_spec hon hk he).started
  rw [marks, hk]
  exact congrArg (fun started => [Mark.counted k started]) hstart

/-- The step lemma: an event leaves an exact log exact if it is served, and then the counters go
on to agree with the log. -/
theorem CountInv.step (hon : p.cachingOn = true) (hT : 1 ≤ p.threshold.toInt) {ev : CountEvent}
    {s t : Counted} (hs : CountInv p s) (hlog : Exact p.threshold.toInt s.log)
    (h : countStep p ev s = some t) :
    (Exact p.threshold.toInt t.log ↔ CountServed p ev s) ∧
      (Exact p.threshold.toInt t.log → CountInv p t) := by
  obtain ⟨e, he, rfl⟩ := Option.map_eq_some_iff.1 h
  obtain ⟨hwhole, hmem⟩ := (CountEvent.isSome_run_iff hon ev s.daemon).1
    (Option.isSome_of_eq_some he)
  cases hc : ev.counts p with
  | some k =>
    have hcount := CountEvent.counts_spec hon hc he
    have hexact := exact_counted_iff hT hs hlog k ev.exchangeMem
    rw [marks_of_counts hon hc he]
    refine ⟨hexact.trans ⟨fun hk => ⟨hwhole, ?_, hmem, ?_⟩, fun hserved => ?_⟩, fun hx => ?_⟩
    · exact fun _ _ => hk.1
    · rw [hc]
      rintro k' ⟨⟩
      exact hk.2
    · exact ⟨hserved.threshold k hc, hserved.exchangeMem k hc⟩
    · obtain ⟨htwo, hok⟩ := hexact.1 hx
      have hstart : (atThreshold p (counter s.daemon.crlist k) && ev.exchangeMem) =
          atThreshold p (counter s.daemon.crlist k) := by
        cases hat : atThreshold p (counter s.daemon.crlist k) with
        | false => rfl
        | true => exact hok hat
      rw [hstart]
      exact hs.counted hT htwo hcount
  | none =>
    have hserved : CountServed p ev s := by
      refine ⟨hwhole, ?_, hmem, ?_⟩ <;> rw [hc] <;> exact fun _ h => by cases h
    cases hr : ev.resets p with
    | some k =>
      have hmarks : marks p ev s.daemon e = [.reset k] := by rw [marks, hc, hr]
      rw [hmarks]
      exact ⟨iff_of_true hlog hserved, fun _ => hs.reset (CountEvent.resets_spec hr he).1⟩
    | none =>
      have hcr := CountEvent.other_spec hc hr he
      have hmarks : marks p ev s.daemon e = [] := by rw [marks, hc, hr]
      rw [hmarks]
      exact ⟨iff_of_true hlog hserved, fun _ => ⟨hcr ▸ hs.agrees, hs.max, hcr ▸ hs.one⟩⟩

/-- A log that is not exact does not become so. -/
theorem exact_of_step {ev : CountEvent} {s t : Counted} (h : countStep p ev s = some t) {n : ℤ}
    (ht : Exact n t.log) : Exact n s.log := by
  obtain ⟨e, -, rfl⟩ := Option.map_eq_some_iff.1 h
  unfold marks at ht
  split at ht
  · exact ht.2
  · exact ht
  · exact ht

theorem distinct_step (hon : p.cachingOn = true) {ev : CountEvent} {s t : Counted}
    (hs : DistinctCounters s) (h : countStep p ev s = some t) : DistinctCounters t := by
  obtain ⟨e, he, rfl⟩ := Option.map_eq_some_iff.1 h
  unfold DistinctCounters at hs ⊢
  dsimp only
  cases hc : ev.counts p with
  | some k =>
    rw [(CountEvent.counts_spec hon hc he).keys]
    split
    · exact hs
    · rename_i hnot
      exact List.nodup_cons.2 ⟨hnot, hs⟩
  | none =>
    cases hr : ev.resets p with
    | some k =>
      rw [(CountEvent.resets_spec hr he).2]
      exact hs
    | none =>
      rw [CountEvent.other_spec hc hr he]
      exact hs

theorem leavesOthers (hon : p.cachingOn = true) (ev : CountEvent) (s : Counted) :
    LeavesOthers p ev s := by
  intro t h k hkc hkr
  obtain ⟨e, he, rfl⟩ := Option.map_eq_some_iff.1 h
  dsimp only
  cases hc : ev.counts p with
  | some k' =>
    rw [(CountEvent.counts_spec hon hc he).bumps,
      if_neg fun hk => hkc (hc.trans (congrArg some hk.symm))]
  | none =>
    cases hr : ev.resets p with
    | some k' => rw [(CountEvent.resets_spec hr he).1,
      if_neg fun hk => hkr (hr.trans (congrArg some hk.symm))]
    | none => rw [CountEvent.other_spec hc hr he]

/-- From an empty list of counted requests, for any events in any order: the run comes to its end
with an exchange started exactly at every `THRESHOLD`-th request, if every step is one that does as
it should.  In every case a fragment has one entry at most, and events for one fragment leave the
counters of the others. -/
theorem exact_iff (hon : p.cachingOn = true) (hT : 1 ≤ p.threshold.toInt) (events : List CountEvent)
    {d : Daemon} (hd : d.crlist = []) :
    ((∃ u, exec (countStep p) events ⟨d, []⟩ = some u ∧ Exact p.threshold.toInt u.log) ↔
      AllSteps (countStep p) (CountServed p) events ⟨d, []⟩) ∧
    Along (countStep p) DistinctCounters events ⟨d, []⟩ ∧
    AllSteps (countStep p) (LeavesOthers p) events ⟨d, []⟩ := by
  have hnone : ∀ k, counter d.crlist k = none := fun k => by rw [hd]; rfl
  have hstart : CountInv p ⟨d, []⟩ := ⟨fun k => by rw [hnone]; rfl,
    fun k => le_max_of_le_right zero_le_one, fun _ => hnone⟩
  have hdistinct : DistinctCounters ⟨d, []⟩ := by
    unfold DistinctCounters
    rw [hd]
    exact List.nodup_nil
  have hall : AllSteps (countStep p) (LeavesOthers p) events ⟨d, []⟩ :=
    (allSteps_of_forall (fun ev s => leavesOthers hon ev s) events _)
  refine ⟨?_, ?_, hall⟩
  · refine exists_reached_iff_allSteps
      (I := fun s => Exact p.threshold.toInt s.log → CountInv p s) ?_ ?_ ?_ (fun _ => hstart)
      trivial
    · exact fun ev s t hs h hx =>
        ((hs (exact_of_step h hx)).step hon hT (exact_of_step h hx) h).2 hx
    · intro ev s t hs h
      constructor
      · exact fun hx => ⟨exact_of_step h hx,
          ((hs (exact_of_step h hx)).step hon hT (exact_of_step h hx) h).1.1 hx⟩
      · exact fun ⟨hlog, hserved⟩ => ((hs hlog).step hon hT hlog h).1.2 hserved
    · intro ev s hserved
      obtain ⟨e, he⟩ := Option.isSome_iff_exists.1
        ((CountEvent.isSome_run_iff hon ev s.daemon).2 ⟨hserved.whole, hserved.counterMem⟩)
      exact ⟨_, Option.map_eq_some_iff.2 ⟨e, he, rfl⟩⟩
  · exact along_of_step (fun ev s t hs _ h => distinct_step hon hs h) hdistinct hall

/-- A node with `THRESHOLD = 1` that counts its first request. -/
theorem exact_iff_eagerNode :
    ¬ ∃ u, exec (countStep eagerNode) [.ori .plenty ⟨0, 0⟩ passing.task] ⟨{}, []⟩ = some u ∧
      Exact 1 u.log := by
  intro h
  have hserved := ((exact_iff (p := eagerNode) (by decide) (by decide) _ rfl).1.1 h).1
  exact absurd (hserved.threshold (1, 1) rfl) (by decide)

/-- With `THRESHOLD = 1` the first request for a fragment starts no exchange. -/
theorem not_exact_eagerNode :
    ¬ ∀ (p : Params) (events : List CountEvent) (d : Daemon) (u : Counted), p.cachingOn = true →
      1 ≤ p.threshold.toInt → d.crlist = [] → exec (countStep p) events ⟨d, []⟩ = some u →
      Exact p.threshold.toInt u.log := by
  intro h
  have := h eagerNode [.ori .plenty ⟨0, 0⟩ passing.task] {} _ (by decide) (by decide) rfl rfl
  exact absurd (this.1.2 (by decide)) (by decide)

/-! ## The handlers as events -/

/-- The requests that `process_flrep` issues, in order. -/
def issues (mem : Mem) (clk : Clock) (fileId : U32) : List (U32 × U32) → ℕ → List CountEvent
  | [], _ => []
  | (dstIp, fragId) :: l, i =>
      .issue mem clk i fileId dstIp fragId :: issues mem clk fileId l (i + 1)

theorem exec_issues {mem : Mem} {clk : Clock} {fileId : U32} {l : List (U32 × U32)} {i : ℕ}
    {d e : Daemon} (h : requestFrags p mem clk fileId l i d = some e) (log : List Mark) :
    ∃ log', exec (countStep p) (issues mem clk fileId l i) ⟨d, log⟩ = some ⟨e, log'⟩ := by
  induction l generalizing i d log with
  | nil =>
    obtain rfl := Option.some.inj h
    exact ⟨log, rfl⟩
  | cons x l ih =>
    obtain ⟨c, hc, he⟩ := Option.bind_eq_some_iff.1 h
    have hone : (CountEvent.issue mem clk i fileId x.1 x.2).run p d = some c := by
      refine Option.bind_eq_some_iff.2 ⟨c, hc, rfl⟩
    obtain ⟨log', hlog⟩ := ih he (marks p (.issue mem clk i fileId x.1 x.2) d c ++ log)
    exact ⟨log', exec_cons_eq_some.2 ⟨_, Option.map_eq_some_iff.2 ⟨c, hone, rfl⟩, hlog⟩⟩

theorem exec_other {d e : Daemon} (h : e.crlist = d.crlist) (log : List Mark) :
    countStep p (.other e) ⟨d, log⟩ = some ⟨e, log⟩ :=
  Option.map_eq_some_iff.2 ⟨e, congrArg some (h ▸ rfl), rfl⟩

theorem crlist_recvFlreq {mem : Mem} {clk : Clock} {t : Task} {d e : Daemon}
    (h : recvFlreq p mem clk t d = some e) : e.crlist = d.crlist := by
  obtain ⟨m, -, rfl | ⟨m', -, -, -, rfl⟩⟩ := recvFlreq_cases p h
  · rfl
  · unfold acceptFlreq forwardFlreq localBroadcast genFlrep sendMessage insertFloodId
    dsimp only
    split_ifs <;> rfl

theorem crlist_recvFlrep {mem : Mem} {clk : Clock} {t : Task} {d e : Daemon}
    (h : recvFlrep p mem clk t d = some e) : e.crlist = d.crlist := by
  unfold recvFlrep at h
  split at h
  · rw [Option.some.inj h]
  · obtain ⟨m, -, hm⟩ := Option.bind_eq_some_iff.1 h
    have hs : (startTimer p mem clk m.fileId d).crlist = d.crlist := by
      unfold startTimer updateTimerQueue insertTimer
      cases mem.ok .task 0 <;> split
      all_goals first | rfl | (dsimp only; split <;> rfl)
    rcases createRinfo_cases p hm with ⟨-, rfl⟩ | ⟨-, rfl⟩
    · exact hs
    · exact hs

theorem crlist_retrieveFrag (ok : Bool) (fileId fragId : U32) (d : Daemon) :
    (retrieveFrag p ok fileId fragId d).2.crlist = d.crlist := by
  rcases retrieveFrag_cases p ok fileId fragId d with
    ⟨-, h⟩ | ⟨-, e, rfl, ⟨-, h⟩ | ⟨-, -, h⟩ | ⟨-, i, -, h⟩⟩
  · rw [h]
  · rw [h]
    cases ok <;> rfl
  · rw [h]
  · rw [h]
    cases ok <;> rfl

theorem crlist_selectAgent (mem : Mem) (t : Task) (d : Daemon) :
    (selectAgent p mem t d).crlist = d.crlist := by
  unfold selectAgent genAddCache sendMessage
  dsimp only
  split
  · split_ifs <;> rfl
  · exact crlist_retrieveFrag _ _ _ _

theorem crlist_cleanUp (mem : Mem) (clk : Clock) (d : Daemon) :
    (cleanUp p mem clk d).crlist = d.crlist := by
  unfold cleanUp flushFloodIdQueue updateTimerQueue insertTimer
  cases mem.ok .task 0 <;> dsimp only <;> split <;> rfl

/-- Every handler run is made of such events. -/
theorem events_of_handle {mem : Mem} {clk : Clock} {t : Task}
    {d e : Daemon} (h : handle p mem clk t d = some e) (log : List Mark) :
    ∃ events log', exec (countStep p) events ⟨d, log⟩ = some ⟨e, log'⟩ := by
  have hother : e.crlist = d.crlist →
      ∃ events log', exec (countStep p) events ⟨d, log⟩ = some ⟨e, log'⟩ := fun hcr =>
    ⟨[.other e], log, exec_cons_eq_some.2 ⟨_, exec_other hcr log, rfl⟩⟩
  have hrun : ∀ ev : CountEvent, ev.run p d = some e →
      ∃ events log', exec (countStep p) events ⟨d, log⟩ = some ⟨e, log'⟩ := fun ev hev =>
    ⟨[ev], _, exec_cons_eq_some.2 ⟨_, Option.map_eq_some_iff.2 ⟨e, hev, rfl⟩, rfl⟩⟩
  unfold handle at h
  cases htype : t.type with
  | fileReqProcess => rw [htype] at h; exact hother (crlist_recvFlreq h)
  | fileRepProcess => rw [htype] at h; exact hother (crlist_recvFlrep h)
  | fragReqUpdate => rw [htype] at h; exact hrun (.ori mem clk t) h
  | fragReqFlush => rw [htype] at h; exact hrun (.fwd t) h
  | exchSend =>
    rw [htype] at h
    obtain ⟨m, -, hm⟩ := Option.bind_eq_some_iff.1 h
    obtain rfl := Option.some.inj hm
    refine hother ?_
    unfold genExchRep sendMessage
    split_ifs <;> rfl
  | exchUpdate =>
    rw [htype] at h
    obtain ⟨m, -, hm⟩ := Option.bind_eq_some_iff.1 h
    obtain rfl := Option.some.inj hm
    refine hother ?_
    cases mem.ok .extable 0 <;> rfl
  | addCacheProcess =>
    rw [htype] at h
    obtain ⟨m, -, hm⟩ := Option.bind_eq_some_iff.1 h
    obtain rfl := Option.some.inj hm
    exact hother (crlist_retrieveFrag _ _ _ _)
  | addCacheSend =>
    rw [htype] at h
    obtain rfl := Option.some.inj h
    exact hother (crlist_selectAgent _ _ _)
  | cleanUp =>
    rw [htype] at h
    obtain rfl := Option.some.inj h
    exact hother (crlist_cleanUp _ _ _)
  | fragReqSend =>
    rw [htype] at h
    obtain ⟨⟨r, e'⟩, he, rfl⟩ := Option.map_eq_some_iff.1 h
    obtain ⟨-, ct, -, c, l, -, -, -, ⟨-, -, d₂, hd₂, rfl⟩ | ⟨-, -, rfl⟩⟩ := processFlrep_cases p he
    · obtain ⟨log', hlog⟩ := exec_issues hd₂ log
      refine ⟨.other { d with ctable := ct, rinfo := l, cEnergy := d.cEnergy + c.energy,
                              cSuccess := d.cSuccess + 1 } ::
        (issues mem clk t.fileId (c.dst.zip c.frag) 0 ++
          [.other { d₂ with rinfo := expireFile t.fileId d₂.rinfo }]), log', ?_⟩
      refine exec_cons_eq_some.2 ⟨_, exec_other (by rfl) log, ?_⟩
      rw [exec_append, hlog]
      exact exec_cons_eq_some.2 ⟨_, exec_other (by rfl) log', rfl⟩
    · exact hother rfl

end MobileCloudCaching.Caching

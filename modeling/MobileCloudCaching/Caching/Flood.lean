import MobileCloudCaching.Caching.Thread
import MobileCloudCaching.Caching.Codec

/-!
# Who sends file requests, and the list of flood ids

Only `recv_flreq` sends file requests and adds flood ids, and only `TASK_CLEAN_UP` takes flood ids
away. The list is searched up to the first expired entry; as the newest entries are in front and
live the longest, nothing that is still alive lies behind an expired one.
-/

namespace MobileCloudCaching.Caching

open Octets

/-! ## Tasks that have nothing to do with file requests -/

def Datagram.isFlreq (g : Datagram) : Bool := g.payload.head? == some fileReqMessage

/-- `e` has the flood ids and the queue of `d`; it has sent no new file request and has no new timer
for one. -/
structure NoFlood (d e : Daemon) : Prop where
  floodIdQueue : e.floodIdQueue = d.floodIdQueue
  taskQ : e.taskQ = d.taskQ
  timers : ∀ t ∈ e.timerQueue, t ∈ d.timerQueue ∨ t.type ≠ .fileReqProcess
  sent : ∃ new, e.sent = d.sent ++ new ∧ ∀ g ∈ new, Datagram.isFlreq g = false

namespace NoFlood

variable {d e f : Daemon}

theorem of_eq (hf : e.floodIdQueue = d.floodIdQueue) (hq : e.taskQ = d.taskQ)
    (ht : e.timerQueue = d.timerQueue) (hs : e.sent = d.sent) : NoFlood d e :=
  ⟨hf, hq, fun t h => Or.inl (ht ▸ h), [], by rw [hs, List.append_nil], by simp⟩

theorem refl (d : Daemon) : NoFlood d d := of_eq rfl rfl rfl rfl

theorem trans (h : NoFlood d e) (h' : NoFlood e f) : NoFlood d f := by
  obtain ⟨new, hnew, hno⟩ := h.sent
  obtain ⟨new', hnew', hno'⟩ := h'.sent
  refine ⟨h'.floodIdQueue.trans h.floodIdQueue, h'.taskQ.trans h.taskQ, fun t ht => ?_,
    new ++ new', by rw [hnew', hnew, List.append_assoc], fun g hg => ?_⟩
  · rcases h'.timers t ht with ht | ht
    · exact h.timers t ht
    · exact Or.inr ht
  · rcases List.mem_append.1 hg with hg | hg
    · exact hno g hg
    · exact hno' g hg

theorem ite (ok : Bool) (h : NoFlood d e) : NoFlood d (if ok then e else d) := by
  cases ok
  · exact refl d
  · exact h

theorem of_sent {g : Datagram} (hg : Datagram.isFlreq g = false) :
    NoFlood d { d with sent := d.sent ++ [g] } :=
  ⟨rfl, rfl, fun t h => Or.inl h, [g], rfl, by simpa using hg⟩

/-- A message of another type. -/
theorem sendMessage (dst : U32) (ttl : Byte) {type last : Byte} (htype : type ≠ fileReqMessage)
    (rest : List Byte) (d : Daemon) :
    NoFlood d (sendMessage dst ttl (header type last ++ rest) d) := by
  unfold Caching.sendMessage
  split
  · exact refl d
  · exact of_sent (beq_eq_false_iff_ne.2 fun h => htype (Option.some.inj h))

theorem localBroadcast (ttl : Byte) {type last : Byte} (htype : type ≠ fileReqMessage)
    (rest : List Byte) (d : Daemon) :
    NoFlood d (localBroadcast ttl (header type last ++ rest) d) := by
  unfold Caching.localBroadcast
  split
  · exact refl d
  · exact of_sent (beq_eq_false_iff_ne.2 fun h => htype (Option.some.inj h))

theorem insertTimer (ok : Bool) (clk : Clock) {type : TaskType} (htype : type ≠ .fileReqProcess)
    (delay : ℕ) (ip fileId fragId : U32) (d : Daemon) :
    NoFlood d (insertTimer ok clk type delay ip fileId fragId d) := by
  cases ok
  · exact refl d
  · refine ⟨rfl, rfl, fun t ht => ?_, [], (List.append_nil _).symm, by simp⟩
    rcases List.mem_cons.1 ((insertByTime_perm _ _).mem_iff.1 ht) with rfl | ht
    · exact Or.inr htype
    · exact Or.inl ht

theorem updateTimerQueue (p : Params) (clk : Clock) (d : Daemon) :
    NoFlood d (updateTimerQueue p clk d) := by
  obtain ⟨c, hc⟩ := updateTimerQueue_eq p clk d
  rw [hc]
  exact of_eq rfl rfl rfl rfl

variable (p : Params)

theorem retrieveFrag (ok : Bool) (fileId fragId : U32) (d : Daemon) :
    NoFlood d (retrieveFrag p ok fileId fragId d).2 := by
  rcases retrieveFrag_cases p ok fileId fragId d with
    ⟨-, hd⟩ | ⟨-, e, rfl, ⟨-, hd⟩ | ⟨-, -, hd⟩ | ⟨-, i, -, hd⟩⟩
  · rw [hd]
    exact of_eq rfl rfl rfl rfl
  · rw [hd]
    cases ok <;> exact of_eq rfl rfl rfl rfl
  · rw [hd]
    exact of_eq rfl rfl rfl rfl
  · rw [hd]
    cases ok <;> exact of_eq rfl rfl rfl rfl

theorem genExchReq (ok : Bool) (srcIp dstIp fileId fragId : U32) (d : Daemon) :
    NoFlood d (genExchReq p ok srcIp dstIp fileId fragId d) :=
  (localBroadcast 1 (show exchangeReqMessage ≠ _ by decide) _ d).ite ok

theorem genExchRep (ok : Bool) (srcIp dstIp neighIp fileId fragId score : U32) (d : Daemon) :
    NoFlood d (genExchRep p ok srcIp dstIp neighIp fileId fragId score d) :=
  (sendMessage _ _ (show exchangeRepMessage ≠ _ by decide) _ d).ite ok

theorem genAddCache (ok : Bool) (srcIp dstIp fileId fragId : U32) (d : Daemon) :
    NoFlood d (genAddCache p ok srcIp dstIp fileId fragId d) :=
  (sendMessage _ _ (show addCacheMessage ≠ _ by decide) _ d).ite ok

theorem genFrreq (ok : Bool) (srcIp dstIp fileId fragId : U32) (d : Daemon) :
    NoFlood d (genFrreq p ok srcIp dstIp fileId fragId d) :=
  (sendMessage _ _ (show fragReqOriMessage ≠ _ by decide) _ d).ite ok

theorem genFrreqByTask (ok : Bool) (t : Task) (base : FragReq) (d : Daemon) :
    NoFlood d (genFrreqByTask p ok t base d) :=
  (sendMessage _ _ (show fragReqFwdMessage ≠ _ by decide) _ d).ite ok

theorem countFrreq {mem : Mem} {clk : Clock} {i : ℕ} {dstIp fileId fragId : U32}
    {forward : Daemon → Daemon} (hforward : ∀ d, NoFlood d (forward d))
    (h : countFrreq p mem clk i dstIp fileId fragId forward d = some e) : NoFlood d e := by
  unfold Caching.countFrreq at h
  split at h
  · split at h
    · obtain rfl := Option.some.inj h
      exact of_eq rfl rfl rfl rfl
    · cases h
  · split at h
    · obtain rfl := Option.some.inj h
      have hcount : NoFlood d (flushCount fileId fragId d) := of_eq rfl rfl rfl rfl
      exact hcount.trans <| (hforward _).trans <| (genExchReq p _ _ _ _ _ _).trans <|
        (insertTimer _ _ (show TaskType.addCacheSend ≠ _ by decide) _ _ _ _ _).trans <|
        updateTimerQueue _ _ _
    · obtain rfl := Option.some.inj h
      exact of_eq rfl rfl rfl rfl

theorem requestFrags {mem : Mem} {clk : Clock} {fileId : U32} {l : List (U32 × U32)} {i : ℕ}
    (h : requestFrags p mem clk fileId l i d = some e) : NoFlood d e := by
  induction l generalizing i d with
  | nil =>
    obtain rfl := Option.some.inj h
    exact refl _
  | cons x l ih =>
    obtain ⟨dstIp, fragId⟩ := x
    obtain ⟨c, hc, he⟩ := Option.bind_eq_some_iff.1 h
    have hsent := genFrreq p (mem.ok .message (2 * i)) p.myIp dstIp fileId fragId d
    split at hc
    · exact hsent.trans ((countFrreq p refl hc).trans (ih he))
    · obtain rfl := Option.some.inj hc
      exact hsent.trans (ih he)

/-- No handler but `recv_flreq` and the clean-up has to do with file requests. -/
theorem handle {p : Params} {mem : Mem} {clk : Clock} {t : Task}
    (h : handle p mem clk t d = some e) (hreq : t.type ≠ .fileReqProcess)
    (hclean : t.type ≠ .cleanUp) : NoFlood d e := by
  unfold Caching.handle at h
  cases htype : t.type with
  | fileReqProcess => exact absurd htype hreq
  | fileRepProcess =>
    rw [htype] at h
    simp only [recvFlrep] at h
    split at h
    · obtain rfl := Option.some.inj h
      exact refl _
    · obtain ⟨m, -, hm⟩ := Option.bind_eq_some_iff.1 h
      have hstart : NoFlood d (startTimer p mem clk m.fileId d) := by
        unfold startTimer
        split
        · exact (insertTimer _ _ (show TaskType.fragReqSend ≠ _ by decide) _ _ _ _ _).trans
            (updateTimerQueue _ _ _)
        · exact refl _
      rcases createRinfo_cases p hm with ⟨-, rfl⟩ | ⟨-, rfl⟩
      · exact hstart
      · exact hstart.trans (of_eq rfl rfl rfl rfl)
  | fragReqUpdate =>
    rw [htype] at h
    obtain ⟨m, -, hm⟩ := Option.bind_eq_some_iff.1 h
    split at hm
    · obtain rfl := Option.some.inj hm
      split <;> exact of_eq rfl rfl rfl rfl
    · split at hm
      · exact countFrreq p (genFrreqByTask p _ _ _) hm
      · obtain rfl := Option.some.inj hm
        exact refl _
  | fragReqFlush =>
    rw [htype] at h
    obtain ⟨m, -, hm⟩ := Option.bind_eq_some_iff.1 h
    split at hm <;> obtain rfl := Option.some.inj hm <;> exact of_eq rfl rfl rfl rfl
  | exchSend =>
    rw [htype] at h
    obtain ⟨m, -, hm⟩ := Option.bind_eq_some_iff.1 h
    obtain rfl := Option.some.inj hm
    exact genExchRep p _ _ _ _ _ _ _ _
  | exchUpdate =>
    rw [htype] at h
    obtain ⟨m, -, hm⟩ := Option.bind_eq_some_iff.1 h
    obtain rfl := Option.some.inj hm
    cases mem.ok .extable 0 <;> exact of_eq rfl rfl rfl rfl
  | addCacheProcess =>
    rw [htype] at h
    obtain ⟨m, -, hm⟩ := Option.bind_eq_some_iff.1 h
    obtain rfl := Option.some.inj hm
    exact retrieveFrag p _ _ _ d
  | fragReqSend =>
    rw [htype] at h
    obtain ⟨⟨r, e'⟩, he, rfl⟩ := Option.map_eq_some_iff.1 h
    obtain ⟨-, ct, -, c, l, -, -, -, ⟨-, -, d₂, hd₂, rfl⟩ | ⟨-, -, rfl⟩⟩ := processFlrep_cases p he
    · have hmark : NoFlood d { d with
        ctable := ct, rinfo := l, cEnergy := d.cEnergy + c.energy, cSuccess := d.cSuccess + 1 } :=
        of_eq rfl rfl rfl rfl
      exact (hmark.trans (requestFrags p hd₂)).trans (of_eq rfl rfl rfl rfl)
    · exact of_eq rfl rfl rfl rfl
  | addCacheSend =>
    rw [htype] at h
    obtain rfl := Option.some.inj h
    have hmark : NoFlood d { d with extable := expireExtable t.fileId t.fragId d.extable } :=
      of_eq rfl rfl rfl rfl
    simp only [selectAgent]
    split
    · exact hmark.trans (genAddCache p _ _ _ _ _ _)
    · exact hmark.trans (retrieveFrag p _ _ _ _)
  | cleanUp => exact absurd htype hclean

theorem createCaches (calls : List CreateCall) (d : Daemon) : NoFlood d (createCaches calls d) := by
  induction calls generalizing d with
  | nil => exact refl d
  | cons c calls ih =>
    have hc : NoFlood d (createCache c.ok c.fileId c.fragId c.flag d) := by
      cases h : c.ok <;> exact of_eq rfl rfl rfl rfl
    exact hc.trans (ih _)

theorem initModule (p : Params) (mem : Mem) (clk : Clock) (names : List (U32 × U32)) :
    NoFlood {} (initModule p mem clk names) :=
  ((of_eq rfl rfl rfl rfl : NoFlood {} _).trans (createCaches _ _)).trans <|
    (insertTimer _ _ (show TaskType.cleanUp ≠ _ by decide) _ _ _ _ _).trans (updateTimerQueue _ _ _)

end NoFlood

/-! ## File requests -/

section

variable {p : Params} {mem : Mem} {clk : Clock} {d e : Daemon}

/-- What comes in makes tasks only of valid packets. -/
theorem packetIn_tasks (p : Params) (mem : Mem) (clk : Clock) (skb : SkBuff) (d : Daemon) :
    ∃ new f c, (packetIn p mem clk skb d).2 =
        { d with taskQ := d.taskQ ++ new, fOverhead := f, cOverhead := c } ∧
      ∀ t ∈ new, ∃ type, TaskType.ofMessage (skb.message 0) = some type ∧
        t = taskOfPacket p clk type skb ∧
        (validCachePacket p skb.numbytes (skb.message 0) skb.message d).value.1 = true := by
  obtain ⟨f, c, d', rfl, h | ⟨type, htype, hvalid, h⟩⟩ := packetInQueue_cases p mem clk skb d
  · refine ⟨[], f, c, ?_, by simp⟩
    rw [packetIn, h, List.append_nil]
  · rw [packetIn, h]
    dsimp only
    unfold insertTask
    split
    · exact ⟨[taskOfPacket p clk type skb], f, c, rfl, fun t ht =>
        ⟨type, htype, List.mem_singleton.1 ht, hvalid⟩⟩
    · exact ⟨[], f, c, by rw [List.append_nil], by simp⟩

theorem ofMessage_eq_fileReqProcess {b : Byte}
    (h : TaskType.ofMessage b = some .fileReqProcess) : b = fileReqMessage := by
  by_contra hne
  rw [TaskType.ofMessage, if_neg hne] at h
  split_ifs at h <;> cases h

/-- A valid file request has the size of one, and does not carry the node's own address. -/
theorem srcIp_ne_of_valid (hbig : p.order = .big) {skb : SkBuff}
    (htype : skb.message 0 = fileReqMessage)
    (h : (validCachePacket p skb.numbytes (skb.message 0) skb.message d).value.1 = true) :
    skb.numbytes = FileReq.size ∧ skb.field 4 ≠ p.myIp := by
  unfold validCachePacket at h
  rw [htype, if_pos rfl] at h
  split at h
  · rename_i hsize
    refine ⟨hsize, fun heq => ?_⟩
    have hword : (skb.field 4 != p.myIp) = true := by
      rw [hbig] at h
      exact h
    rw [heq] at hword
    simp at hword
  · cases h

/-- What `recv_flreq` sends for a request that it accepts: perhaps a reply, which gives the
distance, and the request itself, one step further. -/
theorem acceptFlreq_spec (hmem : mem.Succeeds) {t : Task} (httl : 1 < t.ttl) (m : FileReq)
    (d : Daemon) : ∃ reply : List Datagram, acceptFlreq p mem clk t m d =
      { d with
        floodIdQueue := ⟨m.srcIp, m.dstIp, m.seq, clk.now + fileRequestLifetime⟩ :: d.floodIdQueue
        sent := d.sent ++ (reply ++ [⟨broadcastIp, t.ttl - 1, t.data.take 4 ++ storeAll p.order
          [hton p.order m.srcIp, hton p.order m.dstIp, hton p.order m.fileId, hton p.order m.seq,
            hton p.order (m.metric + 1)]⟩]) } ∧
      ∀ g ∈ reply, ∃ frags,
        g.payload = flrepOctets p p.myIp m.srcIp m.fileId (m.metric + 1) frags := by
  have httl' : ¬ t.ttl - 1 < 1 := by
    have h1 := BitVec.lt_def.1 httl
    intro h0
    have h2 := BitVec.lt_def.1 h0
    rw [BitVec.toNat_sub] at h2
    have h3 := t.ttl.isLt
    simp at h1 h2
    omega
  unfold acceptFlreq forwardFlreq convertFlreqToNetwork convertFlreqToHost
  simp only [insertFloodId, hmem _ _, if_true, genFlrep, localBroadcast, if_neg httl']
  split
  · exact ⟨[], by simp, by simp⟩
  · rw [sendMessage, if_neg (by decide)]
    refine ⟨[⟨m.srcIp, BitVec.ofNat 8 netDiameter, flrepOctets p p.myIp m.srcIp m.fileId
      (m.metric + 1) (heldFrags p.kval.toInt m.fileId d.ctable 0)⟩], by simp, fun g hg => ?_⟩
    obtain rfl := List.mem_singleton.1 hg
    exact ⟨_, rfl⟩

/-- The clean-up takes away the flood ids that have expired. -/
theorem cleanUp_flood (p : Params) (mem : Mem) (clk : Clock) (d : Daemon) :
    (cleanUp p mem clk d).floodIdQueue =
        d.floodIdQueue.filter (fun e => !timeBefore e.lifetime clk.now) ∧
      (cleanUp p mem clk d).taskQ = d.taskQ ∧ (cleanUp p mem clk d).sent = d.sent ∧
      ∀ t ∈ (cleanUp p mem clk d).timerQueue, t ∈ d.timerQueue ∨ t.type ≠ .fileReqProcess := by
  obtain ⟨q, hq⟩ := insertTimer_eq (mem.ok .task 0) clk .cleanUp flushInterval p.myIp 0 0
    { d with floodIdQueue := d.floodIdQueue.filter fun e => !timeBefore e.lifetime clk.now }
  obtain ⟨c, hc⟩ := updateTimerQueue_eq p clk
    (insertTimer (mem.ok .task 0) clk .cleanUp flushInterval p.myIp 0 0
      { d with floodIdQueue := d.floodIdQueue.filter fun e => !timeBefore e.lifetime clk.now })
  have htimers := (NoFlood.insertTimer (mem.ok .task 0) clk (show TaskType.cleanUp ≠ _ by decide)
    flushInterval p.myIp 0 0
    { d with floodIdQueue := d.floodIdQueue.filter fun e => !timeBefore e.lifetime clk.now }).timers
  unfold cleanUp flushFloodIdQueue
  rw [hc]
  rw [hq] at htimers ⊢
  exact ⟨rfl, rfl, rfl, htimers⟩

/-- The due timers go to the end of the queue. -/
theorem timerQueueSignal_tasks (p : Params) (clk : Clock) (d : Daemon) :
    ∃ new q c, timerQueueSignal p clk d =
        { d with taskQ := d.taskQ ++ new, timerQueue := q, cacheTimer := c } ∧
      (∀ t ∈ new, t ∈ d.timerQueue) ∧ ∀ t ∈ q, t ∈ d.timerQueue := by
  obtain ⟨c, hc⟩ := updateTimerQueue_eq p clk { d with
    taskQ := d.taskQ ++ d.timerQueue.takeWhile fun t => timeBeforeEq t.time clk.now
    timerQueue := d.timerQueue.dropWhile fun t => timeBeforeEq t.time clk.now }
  exact ⟨_, _, c, hc, fun t ht => (List.takeWhile_sublist _).subset ht,
    fun t ht => (List.dropWhile_sublist _).subset ht⟩

end

/-! ## The list of flood ids -/

/-- The list as it stands at the time `now` of a node that was booted at `boot`: the entries in
front live at least as long as those behind. -/
structure FloodOrder (boot now : ℕ) (l : List FloodId) : Prop where
  sorted : l.Pairwise fun a b => b.lifetime ≤ a.lifetime
  low : ∀ e ∈ l, boot + fileRequestLifetime ≤ e.lifetime
  high : ∀ e ∈ l, e.lifetime ≤ now + fileRequestLifetime

namespace FloodOrder

variable {boot now : ℕ} {l : List FloodId}

theorem later (h : FloodOrder boot now l) {now' : ℕ} (hle : now ≤ now') :
    FloodOrder boot now' l :=
  ⟨h.sorted, h.low, fun e he => (h.high e he).trans (Nat.add_le_add_right hle _)⟩

theorem filter (h : FloodOrder boot now l) (f : FloodId → Bool) :
    FloodOrder boot now (l.filter f) :=
  ⟨h.sorted.filter _, fun e he => h.low e (List.mem_of_mem_filter he),
    fun e he => h.high e (List.mem_of_mem_filter he)⟩

theorem cons (h : FloodOrder boot now l) (hboot : boot ≤ now) {e : FloodId}
    (he : e.lifetime = now + fileRequestLifetime) : FloodOrder boot now (e :: l) := by
  refine ⟨List.pairwise_cons.2 ⟨fun a ha => (h.high a ha).trans he.ge, h.sorted⟩, ?_, ?_⟩
  · refine List.forall_mem_cons.2 ⟨?_, h.low⟩
    omega
  · exact List.forall_mem_cons.2 ⟨he.le, h.high⟩

/-- An entry has expired, in the 32-bit comparison, when its time is over. -/
theorem timeBefore_iff (h : FloodOrder boot now l) {clk : Clock} (hle : now ≤ clk.now)
    (hwindow : clk.now < boot + 2 ^ 31) {e : FloodId} (he : e ∈ l) :
    timeBefore e.lifetime clk.now = true ↔ e.lifetime < clk.now := by
  have hlow := h.low e he
  have hhigh := h.high e he
  have hlife : fileRequestLifetime = 5000 := rfl
  exact MobileCloudCaching.timeBefore_iff (by omega) (by omega)

/-- An entry that is alive is found, since nothing in front of it has expired. -/
theorem isSome_findFloodId (h : FloodOrder boot now l) {clk : Clock} (hle : now ≤ clk.now)
    (hwindow : clk.now < boot + 2 ^ 31) {e : FloodId} (he : e ∈ l) (hlive : clk.now ≤ e.lifetime) :
    (findFloodId clk e.srcIp e.id l).isSome = true := by
  induction l with
  | nil => cases he
  | cons a l ih =>
    have hafter := List.pairwise_cons.1 h.sorted
    have hlater : e.lifetime ≤ a.lifetime := by
      rcases List.mem_cons.1 he with rfl | he
      · exact le_rfl
      · exact hafter.1 e he
    have halive : ¬ timeBefore a.lifetime clk.now = true := by
      rw [h.timeBefore_iff hle hwindow List.mem_cons_self]
      omega
    rw [findFloodId, if_neg halive]
    split
    · rfl
    · rename_i hne
      rcases List.mem_cons.1 he with rfl | he
      · exact absurd ⟨rfl, rfl⟩ hne
      · exact ih ⟨hafter.2, fun x hx => h.low x (List.mem_cons_of_mem a hx),
          fun x hx => h.high x (List.mem_cons_of_mem a hx)⟩ he

end FloodOrder

end MobileCloudCaching.Caching

import MobileCloudCaching.Caching.Thread
import Mathlib.Tactic.Ring

/-!
# The kernel timer (`cTimer.c`)

The handlers treat the timers in one of two ways: they neither look at the timer queue nor at
`cache_timer`, or they put tasks into the queue and then call `update_timer_queue`.
-/

namespace MobileCloudCaching.Caching

open Octets Transition

/-! ## What the handlers do with the timers -/

/-- `d` with other timers. -/
def Daemon.timed (q : List Task) (c : Option ℕ) (d : Daemon) : Daemon :=
  { d with timerQueue := q, cacheTimer := c }

/-- What `update_timer_queue` writes to `cache_timer`. -/
def alarm (p : Params) (clk : Clock) (q : List Task) : Option ℕ :=
  q.head?.map fun t => (clk.jiffies + timerDelay p.hz t.time clk.now) % 2 ^ 32

/-- Code that neither looks at the timers nor changes them. -/
def Untimed (f : Daemon → Daemon) : Prop := ∀ q c d, f (d.timed q c) = (f d).timed q c

/-- Code that, from `d`, leaves the timers, or inserts tasks that are due within `delay`
milliseconds and then calls `update_timer_queue`. -/
inductive Schedules (p : Params) (clk : Clock) (delay : ℕ) (F : Daemon → Option Daemon)
    (d : Daemon) : Prop
  | fails (h : ∀ q c, F (d.timed q c) = none)
  | leaves (e : Daemon) (h : ∀ q c, F (d.timed q c) = some (e.timed q c))
  | arms (e : Daemon) (new : List Task) (hnew : ∀ t ∈ new, clk.now ≤ t.time ∧
      t.time ≤ clk.now + delay)
      (h : ∀ q c, F (d.timed q c) = some (e.timed (new.foldl (fun q t => insertByTime t q) q)
        (alarm p clk (new.foldl (fun q t => insertByTime t q) q))))

section Rules

variable {p : Params} {clk : Clock} {delay : ℕ} {F G : Daemon → Option Daemon} {d : Daemon}

@[simp] theorem timed_timed (q q' : List Task) (c c' : Option ℕ) (d : Daemon) :
    (d.timed q' c').timed q c = d.timed q c := rfl

theorem updateTimerQueue_timed (q : List Task) (c : Option ℕ) (d : Daemon) :
    updateTimerQueue p clk (d.timed q c) = d.timed q (alarm p clk q) := by
  cases q <;> rfl

theorem timerQueueSignal_timed (d : Daemon) : timerQueueSignal p clk d =
    Daemon.timed (d.timerQueue.dropWhile fun t => timeBeforeEq t.time clk.now)
      (alarm p clk (d.timerQueue.dropWhile fun t => timeBeforeEq t.time clk.now))
      { d with taskQ := d.taskQ ++ d.timerQueue.takeWhile fun t => timeBeforeEq t.time clk.now } :=
  updateTimerQueue_timed (d.timerQueue.dropWhile fun t => timeBeforeEq t.time clk.now) d.cacheTimer
    { d with taskQ := d.taskQ ++ d.timerQueue.takeWhile fun t => timeBeforeEq t.time clk.now }

theorem insertTimer_timed (p : Params) (delay : ℕ) (ok : Bool) (type : TaskType)
    (ip fileId fragId : U32) (d : Daemon) :
    ∃ new : List Task, (∀ t ∈ new, clk.now ≤ t.time ∧ t.time ≤ clk.now + delay) ∧ ∀ q c,
      updateTimerQueue p clk (insertTimer ok clk type delay ip fileId fragId (d.timed q c)) =
        d.timed (new.foldl (fun q t => insertByTime t q) q)
          (alarm p clk (new.foldl (fun q t => insertByTime t q) q)) := by
  cases ok with
  | false => exact ⟨[], by simp, fun q c => updateTimerQueue_timed q c d⟩
  | true =>
    let t : Task := { createTask type clk with
      srcIp := ip, dstIp := ip, fileId := fileId, fragId := fragId, time := clk.now + delay }
    exact ⟨[t], by simp [t], fun q c => updateTimerQueue_timed (insertByTime t q) c d⟩

theorem updateTimerQueue_insertTimer (ok : Bool) (type : TaskType)
    (ip fileId fragId : U32) (d : Daemon) :
    Schedules p clk delay (fun d =>
      some (updateTimerQueue p clk (insertTimer ok clk type delay ip fileId fragId d)))
      d := by
  obtain ⟨new, hnew, h⟩ := insertTimer_timed p delay ok type ip fileId fragId d
  exact .arms d new hnew fun q c => congrArg some (h q c)

namespace Schedules

theorem congr (hG : Schedules p clk delay G d) (h : ∀ q c, F (d.timed q c) = G (d.timed q c)) :
    Schedules p clk delay F d := by
  cases hG with
  | fails hG => exact .fails fun q c => (h q c).trans (hG q c)
  | leaves e hG => exact .leaves e fun q c => (h q c).trans (hG q c)
  | arms e new hnew hG => exact .arms e new hnew fun q c => (h q c).trans (hG q c)

theorem of_untimed {f : Daemon → Daemon}
    (hf : Untimed f) : Schedules p clk delay (fun d => some (f d)) d :=
  .leaves (f d) fun q c => congrArg some (hf q c d)

theorem bind (hF : Schedules p clk delay F d) (hG : ∀ e, Schedules p clk delay G e) :
    Schedules p clk delay (fun d => (F d).bind G) d := by
  cases hF with
  | fails hF => exact .fails fun q c => (congrArg (·.bind G) (hF q c)).trans rfl
  | leaves e hF =>
    cases hG e with
    | fails hG => exact .fails fun q c => (congrArg (·.bind G) (hF q c)).trans (hG _ _)
    | leaves e' hG => exact .leaves e' fun q c => (congrArg (·.bind G) (hF q c)).trans (hG _ _)
    | arms e' new hnew hG =>
        exact .arms e' new hnew fun q c => (congrArg (·.bind G) (hF q c)).trans (hG _ _)
  | arms e new hnew hF =>
    cases hG e with
    | fails hG => exact .fails fun q c => (congrArg (·.bind G) (hF q c)).trans (hG _ _)
    | leaves e' hG =>
        exact .arms e' new hnew fun q c => (congrArg (·.bind G) (hF q c)).trans (hG _ _)
    | arms e' new' hnew' hG =>
      refine .arms e' (new ++ new') (List.forall_mem_append.2 ⟨hnew, hnew'⟩) fun q c => ?_
      rw [List.foldl_append]
      exact (congrArg (·.bind G) (hF q c)).trans (hG _ _)

theorem andThen {f : Daemon → Daemon} (hf : Untimed f) (hG : ∀ e, Schedules p clk delay G e) :
    Schedules p clk delay (fun d => G (f d)) d :=
  (of_untimed hf).bind hG

theorem ite (b : Prop) [Decidable b] (hF : Schedules p clk delay F d)
    (hG : Schedules p clk delay G d) :
    Schedules p clk delay (fun d => if b then F d else G d) d := by
  by_cases hb : b
  · exact hF.congr fun _ _ => if_pos hb
  · exact hG.congr fun _ _ => if_neg hb

/-- Code that fails when something cannot be read. -/
theorem option {β : Type} (o : Option β) {H : β → Daemon → Option Daemon}
    (h : ∀ m, Schedules p clk delay (H m) d) :
    Schedules p clk delay (fun d => o.bind fun m => H m d) d := by
  cases o with
  | none => exact .fails fun _ _ => rfl
  | some m => exact (h m).congr fun _ _ => rfl

end Schedules

end Rules

namespace Untimed

variable {p : Params}

theorem id : Untimed id := fun _ _ _ => rfl

theorem comp {f g : Daemon → Daemon} (hg : Untimed g) (hf : Untimed f) : Untimed fun d => g (f d) :=
  fun q c d => (congrArg g (hf q c d)).trans (hg q c (f d))

theorem ite {f g : Daemon → Daemon} (b : Prop) [Decidable b] (hf : Untimed f) (hg : Untimed g) :
    Untimed fun d => if b then f d else g d := fun q c d => by
  by_cases hb : b
  · simp only [if_pos hb]
    exact hf q c d
  · simp only [if_neg hb]
    exact hg q c d

theorem localBroadcast (ttl : Byte) (payload : List Byte) : Untimed (localBroadcast ttl payload) :=
  ite _ id fun _ _ _ => rfl

theorem sendMessage (dst : U32) (ttl : Byte) (payload : List Byte) :
    Untimed (sendMessage dst ttl payload) :=
  ite _ id fun _ _ _ => rfl

theorem genExchReq (ok : Bool) (srcIp dstIp fileId fragId : U32) :
    Untimed (genExchReq p ok srcIp dstIp fileId fragId) := ite _ (localBroadcast _ _) id

theorem genExchRep (ok : Bool) (srcIp dstIp neighIp fileId fragId score : U32) :
    Untimed (genExchRep p ok srcIp dstIp neighIp fileId fragId score) :=
      ite _ (sendMessage _ _ _) id

theorem genAddCache (ok : Bool) (srcIp dstIp fileId fragId : U32) :
    Untimed (genAddCache p ok srcIp dstIp fileId fragId) := ite _ (sendMessage _ _ _) id

theorem genFrreq (ok : Bool) (srcIp dstIp fileId fragId : U32) :
    Untimed (genFrreq p ok srcIp dstIp fileId fragId) := ite _ (sendMessage _ _ _) id

theorem genFrreqByTask (ok : Bool) (t : Task)
    (base : FragReq) : Untimed (genFrreqByTask p ok t base) :=
  ite _ (sendMessage _ _ _) id

theorem genFlrep (ok : Bool) (srcIp dstIp fileId dist : U32) :
    Untimed (genFlrep p ok srcIp dstIp fileId dist) :=
  fun q c d => by
  have hsend := (ite _ (sendMessage dstIp (BitVec.ofNat 8 netDiameter)
    (flrepOctets p srcIp dstIp fileId dist (heldFrags p.kval.toInt fileId d.ctable 0)))
      id : Untimed fun d =>
      if ok then Caching.sendMessage dstIp _ _ d else d)
  exact ite ((heldFrags p.kval.toInt fileId d.ctable 0).length = 0) id hsend q c d

theorem createCache (ok : Bool) (fileId fragId flag : U32) :
    Untimed (createCache ok fileId fragId flag) :=
  ite _ (fun _ _ _ => rfl) id

theorem insertFloodId (ok : Bool) (srcIp dstIp fileId : U32) (lt : ℕ) :
    Untimed (insertFloodId ok srcIp dstIp fileId lt) := ite _ (fun _ _ _ => rfl) id

theorem createExtable (ok : Bool) (m : ExchRep) : Untimed (createExtable ok m) :=
  ite _ (fun _ _ _ => rfl) id

theorem updateRef (fileId fragId : U32) : Untimed (updateRef fileId fragId) := fun _ _ _ => rfl

theorem flushCount (fileId fragId : U32) : Untimed (flushCount fileId fragId) := fun _ _ _ => rfl

theorem updateCount (fileId fragId : U32) : Untimed (updateCount fileId fragId) := fun _ _ _ => rfl

theorem createCreq (fileId fragId : U32) : Untimed (createCreq fileId fragId) := fun _ _ _ => rfl

theorem forwardFlreq (t : Task) (m : FileReq) : Untimed (forwardFlreq p t m) := localBroadcast _ _

theorem acceptFlreq (mem : Mem) (clk : Clock) (t : Task)
    (m : FileReq) : Untimed (acceptFlreq p mem clk t m) :=
  (forwardFlreq _ _).comp ((genFlrep _ _ _ _ _).comp (insertFloodId _ _ _ _ _))

theorem retrieveFrag (ok : Bool) (fileId fragId : U32) : Untimed fun d =>
    (retrieveFrag p ok fileId fragId d).2 :=
  fun q c d => by
  have hcreate := createCache ok fileId fragId 0
  show (Caching.retrieveFrag p ok fileId fragId (d.timed q c)).2 =
    (Caching.retrieveFrag p ok fileId fragId d).2.timed q c
  unfold Caching.retrieveFrag
  by_cases hk : ((heldFrags p.kval.toInt fileId d.ctable 0).length : ℤ) ≥ p.kval.toInt - 1
  · rw [if_pos (by exact hk), if_pos hk]
  · rw [if_neg (by exact hk), if_neg hk]
    dsimp only
    by_cases hb : d.ctLen ≥ p.bufSize.toInt
    · rw [if_pos (by exact hb), if_pos hb]
      rw [show victim (d.timed q c).ctable = victim d.ctable from rfl]
      cases victim d.ctable with
      | none => rfl
      | some i => exact hcreate q c (removeCache i { d with cPrefetch := d.cPrefetch + 1 })
    · rw [if_neg (by exact hb), if_neg hb]
      exact hcreate q c { d with cPrefetch := d.cPrefetch + 1 }

theorem selectAgent (mem : Mem) (t : Task) : Untimed (selectAgent p mem t) := fun q c d => by
  have hexpire : Untimed fun d => { d with extable := expireExtable t.fileId t.fragId d.extable } :=
    fun _ _ _ => rfl
  exact ite (agent p t.fileId t.fragId d ≠ p.myIp)
    ((genAddCache _ (agent p t.fileId t.fragId d) _ _ _).comp hexpire)
      ((retrieveFrag _ _ _).comp hexpire) q c d

theorem validCachePacket (numbytes : ℤ) (type : Byte) (data : ℕ → Byte) (q : List Task)
    (c : Option ℕ) (d : Daemon) :
    (validCachePacket p numbytes type data (d.timed q c)).value =
      ((validCachePacket p numbytes type data d).value.1,
        (validCachePacket p numbytes type data d).value.2.timed q c) := by
  have hsize : ∀ (size : ℕ) {add : ℤ → Daemon → Daemon}, (∀ n, Untimed (add n)) →
      validSize numbytes size add (d.timed q c) =
        ((validSize numbytes size add d).1, (validSize numbytes size add d).2.timed q c) :=
          fun size _ hadd => by
    unfold validSize
    split
    · exact congrArg (Prod.mk true) (hadd numbytes q c d)
    · rfl
  have hf : ∀ n, Untimed (addFOverhead n) := fun _ _ _ _ => rfl
  have hc : ∀ n, Untimed (addCOverhead n) := fun _ _ _ _ => rfl
  unfold Caching.validCachePacket
  split_ifs
  · rfl
  · rfl
  · exact hsize _ hf
  · exact hsize _ hf
  · exact hsize _ hf
  · exact hsize _ hc
  · exact hsize _ hc
  · exact hsize _ hc
  · rfl

theorem insertTask (mem : Mem) (clk : Clock) (type : TaskType) (skb : SkBuff) :
    Untimed (insertTask p mem clk type skb) := ite _ (fun _ _ _ => rfl) id

theorem packetIn (mem : Mem) (clk : Clock) (skb : SkBuff) : Untimed fun d =>
    (packetIn p mem clk skb d).2 :=
  fun q c d => by
  show (Caching.packetIn p mem clk skb (d.timed q c)).2 =
    (Caching.packetIn p mem clk skb d).2.timed q c
  unfold Caching.packetIn packetInQueue
  rw [validCachePacket]
  cases (Caching.validCachePacket p skb.numbytes (skb.message 0) skb.message d).value with
  | mk valid e =>
    cases valid with
    | false => rfl
    | true =>
      cases TaskType.ofMessage (skb.message 0) with
      | none => rfl
      | some type => exact insertTask mem clk type skb q c e

end Untimed

section Handlers

variable {p : Params} {clk : Clock} {d : Daemon}

/-- The time within which the tasks are due that a handler inserts. -/
def TaskType.delay : TaskType → ℕ
  | .fileRepProcess => waitFileRepTime
  | .fragReqUpdate | .fragReqSend => waitExchRepTime
  | .cleanUp => flushInterval
  | _ => 0

/-- The choice that `process_flrep` makes. -/
def chosen (p : Params) (t : Task) (d : Daemon) : Option (Bool × Choice × List FileRepInfo) :=
  let buf := heldFrags p.kval.toInt t.fileId d.ctable 0
  let need := p.kval.toInt - buf.length
  let dst := List.replicate need.toNat 0
  chooseFrags p.kval.toInt t.fileId (d.rinfo.length + 1)
    { buf := buf, need := need, energy := 0, dst := dst, frag := dst } d.rinfo

/-- What `process_flrep` does once it has chosen. -/
def afterChoice (p : Params) (mem : Mem) (clk : Clock) (t : Task) (buf : List U32)
    (r : Bool × Choice × List FileRepInfo) (d : Daemon) : Option Daemon :=
  let d := { refLocal p t.fileId buf d with rinfo := r.2.2 }
  if r.1 then
    (requestFrags p mem clk t.fileId (r.2.1.dst.zip r.2.1.frag) 0
      { d with cEnergy := d.cEnergy + r.2.1.energy, cSuccess := d.cSuccess + 1 }).map fun e =>
        { e with rinfo := expireFile t.fileId e.rinfo }
  else some d

theorem processFlrep_eq (mem : Mem) (t : Task) (d : Daemon) :
    (processFlrep p mem clk t d).map Prod.snd = (chosen p t d).bind fun r =>
      afterChoice p mem clk t (heldFrags p.kval.toInt t.fileId d.ctable 0) r d := by
  rw [processFlrep, chosen]
  simp only [Option.bind_eq_bind, Option.map_bind]
  congr 1
  funext ⟨enough, c, l⟩
  cases enough with
  | false => rfl
  | true =>
    rw [afterChoice, if_pos rfl, Function.comp_apply, if_pos rfl, Option.map_bind]
    exact Option.map_eq_bind.symm

namespace Schedules

theorem createRinfo (mem : Mem) (t : Task) (m : FileRep) {delay : ℕ} :
    Schedules p clk delay (createRinfo p mem t m) d := by
  by_cases hok : mem.ok .rinfo 0 = true
  · by_cases hin : (fillRinfo p.order mem.map m (fragsOfTask p.order t)).trace.all
        (Access.inside t.data.length) = true
    · refine .leaves
        { d with rinfo := (fillRinfo p.order mem.map m (fragsOfTask p.order t)).value :: d.rinfo }
        fun q c => ?_
      rw [Caching.createRinfo, if_pos hok]
      exact if_pos hin
    · refine .fails fun q c => ?_
      rw [Caching.createRinfo, if_pos hok]
      exact if_neg hin
  · exact .leaves d fun q c => if_neg hok

theorem startTimer (mem : Mem) (fileId : U32) :
    Schedules p clk waitFileRepTime (fun d => some (startTimer p mem clk fileId d)) d := by
  cases hf : findRinfo d.rinfo fileId with
  | none =>
    have hnone : ∀ q c, findRinfo (d.timed q c).rinfo fileId = none := fun _ _ => hf
    refine (updateTimerQueue_insertTimer (mem.ok .task 0) .fragReqSend p.myIp fileId 0 d).congr
      fun q c => ?_
    simp only [Caching.startTimer, hnone]
  | some r =>
    have hsome : ∀ q c, findRinfo (d.timed q c).rinfo fileId = some r := fun _ _ => hf
    refine .leaves d fun q c => ?_
    simp only [Caching.startTimer, hsome]

theorem countFrreq (mem : Mem) (i : ℕ) (dstIp fileId fragId : U32) {forward : Daemon → Daemon}
    (hforward : Untimed forward) :
    Schedules p clk waitExchRepTime (countFrreq p mem clk i dstIp fileId fragId forward) d := by
  cases hf : findCreq d.crlist fileId fragId with
  | none =>
    have hnone : ∀ q c, findCreq (d.timed q c).crlist fileId fragId = none := fun _ _ => hf
    by_cases hok : mem.ok .creq i = true
    · refine (of_untimed ((Untimed.updateCount fileId fragId).comp
        (.createCreq fileId fragId))).congr fun q c => ?_
      simp only [Caching.countFrreq, hnone, if_pos hok]
    · refine .fails fun q c => ?_
      simp only [Caching.countFrreq, hnone, if_neg hok]
  | some r =>
    have hsome : ∀ q c, findCreq (d.timed q c).crlist fileId fragId = some r := fun _ _ => hf
    by_cases hreach : reachThreshold p r.count = true
    · have hsend :=
        (Untimed.genExchReq (p := p) (mem.ok .message (2 * i + 1)) p.myIp dstIp fileId fragId).comp
        (hforward.comp (.flushCount fileId fragId))
      refine (andThen hsend fun e => updateTimerQueue_insertTimer (mem.ok .task i) .addCacheSend
        dstIp fileId fragId
        e).congr fun q c => ?_
      simp only [Caching.countFrreq, hsome, if_pos hreach]
    · refine (of_untimed (Untimed.updateCount fileId fragId)).congr fun q c => ?_
      simp only [Caching.countFrreq, hsome, if_neg hreach]

theorem requestFrags (mem : Mem) (fileId : U32) (l : List (U32 × U32)) (i : ℕ) :
    Schedules p clk waitExchRepTime (requestFrags p mem clk fileId l i) d := by
  induction l generalizing i d with
  | nil => exact of_untimed .id
  | cons x l ih =>
    obtain ⟨dstIp, fragId⟩ := x
    have hcount : ∀ e, Schedules p clk waitExchRepTime (fun d =>
        if p.cachingOn then Caching.countFrreq p mem clk i dstIp fileId fragId id d
            else some d) e := fun e => by
      by_cases hon : p.cachingOn = true
      · exact (countFrreq mem i dstIp fileId fragId .id).congr fun q c => if_pos hon
      · exact (of_untimed .id).congr fun q c => if_neg hon
    have hsend : Untimed (genFrreq p (mem.ok .message (2 * i)) p.myIp dstIp fileId fragId) :=
      .genFrreq _ _ _ _ _
    have hrest := andThen (d := d) hsend fun e => (hcount e).bind fun e => ih (i + 1)
    exact hrest

theorem afterChoice (mem : Mem) (t : Task) (buf : List U32) (r : Bool × Choice × List FileRepInfo) :
    Schedules p clk waitExchRepTime (afterChoice p mem clk t buf r) d := by
  have href : Untimed (refLocal p t.fileId buf) := .ite _ (fun _ _ _ => rfl) .id
  have hrinfo : Untimed fun d : Daemon => { d with rinfo := r.2.2 } := fun _ _ _ => rfl
  obtain ⟨enough, c, l⟩ := r
  cases enough with
  | false => exact of_untimed (hrinfo.comp href)
  | true =>
    have hcount : Untimed fun d : Daemon => { d with
      cEnergy := d.cEnergy + c.energy, cSuccess := d.cSuccess + 1 } := fun _ _ _ => rfl
    have hexpire : Untimed fun e : Daemon => { e with rinfo := expireFile t.fileId e.rinfo } :=
      fun _ _ _ => rfl
    have hrequest : ∀ e, Schedules p clk waitExchRepTime
      (Caching.requestFrags p mem clk t.fileId (c.dst.zip c.frag) 0) e :=
        fun e => requestFrags mem _ _ _
    have hall := andThen (d := d) (hcount.comp (hrinfo.comp href)) fun e =>
      (hrequest e).bind fun e => of_untimed (d := e) hexpire
    exact hall.congr fun _ _ => Option.map_eq_bind

theorem processFlrep (mem : Mem) (t : Task) :
    Schedules p clk waitExchRepTime (fun d => (processFlrep p mem clk t d).map Prod.snd) d := by
  cases hch : chosen p t d with
  | none =>
    refine .fails fun q c => ?_
    rw [processFlrep_eq, show chosen p t (d.timed q c) = none from hch, Option.bind_none]
  | some r =>
    refine (afterChoice mem t (heldFrags p.kval.toInt t.fileId d.ctable 0) r).congr fun q c => ?_
    rw [processFlrep_eq, show chosen p t (d.timed q c) = some r from hch, Option.bind_some]
    rfl

theorem recvFlreq (mem : Mem) (t : Task)
    {delay : ℕ} : Schedules p clk delay (recvFlreq p mem clk t) d := by
  refine option _ fun m => ?_
  let m' := convertFlreqToHost p.order m
  have haccept : Untimed (acceptFlreq p mem clk t m') := .acceptFlreq mem clk t m'
  refine ite _ (of_untimed .id) ?_
  exact (ite ((findFloodId clk m'.srcIp m'.seq d.floodIdQueue).isSome = true) (of_untimed .id)
    (of_untimed haccept)).congr fun _ _ => rfl

theorem recvFlrep (mem : Mem) (t : Task) :
    Schedules p clk waitFileRepTime (recvFlrep p mem clk t) d :=
  ite _ (of_untimed .id) (option _ fun m => (startTimer mem m.fileId).bind fun _ =>
    createRinfo mem t m)

theorem recvFrreqOri (mem : Mem)
    (t : Task) : Schedules p clk waitExchRepTime (recvFrreqOri p mem clk t) d := by
  refine option _ fun m => ?_
  let m' := convertFrreqToHost p.order m
  refine ite (t.dstIp = p.myIp) (of_untimed (.ite _ (.updateRef m'.fileId m'.fragId) .id))
    (ite _ ?_ (of_untimed .id))
  exact countFrreq mem 0 t.dstIp m'.fileId m'.fragId (.genFrreqByTask _ t m')

theorem recvFrreqFwd (t : Task) {delay : ℕ} : Schedules p clk delay (recvFrreqFwd p t) d := by
  refine option _ fun m => ?_
  let m' := convertFrreqToHost p.order m
  exact ite _ (of_untimed (.updateRef m'.fileId m'.fragId))
    (of_untimed (.flushCount m'.fileId m'.fragId))

theorem recvExreq (mem : Mem) (t : Task)
    {delay : ℕ} : Schedules p clk delay (recvExreq p mem t) d := by
  refine option _ fun m => ?_
  let m' := convertExreqToHost p.order m
  have hsend : Untimed (genExchRep p (mem.ok .message 0) p.myIp m'.dstIp m'.srcIp
    m'.fileId m'.fragId
    (getScore p m'.fileId m'.fragId d)) := .genExchRep _ _ _ _ _ _ _
  exact (of_untimed hsend).congr fun _ _ => rfl

theorem recvExrep (mem : Mem) (t : Task)
    {delay : ℕ} : Schedules p clk delay (recvExrep p mem t) d :=
  option _ fun m => of_untimed (.createExtable _ (convertExrepToHost p.order m))

theorem recvAddcache (mem : Mem) (t : Task)
    {delay : ℕ} : Schedules p clk delay (recvAddcache p mem t) d :=
  option _ fun _ => of_untimed (.retrieveFrag _ _ _)

theorem cleanUp (mem : Mem) :
    Schedules p clk flushInterval (fun d => some (cleanUp p mem clk d)) d := by
  have hfilter : Untimed fun d : Daemon => { d with
    floodIdQueue := d.floodIdQueue.filter fun e => !timeBefore e.lifetime clk.now } :=
      fun _ _ _ => rfl
  have hflush : Untimed fun d => flushExtable (flushRinfo d) := fun _ _ _ => rfl
  exact (andThen hfilter fun e => updateTimerQueue_insertTimer (mem.ok .task 0) .cleanUp p.myIp 0 0
      e).bind fun e =>
    of_untimed hflush

theorem handle (mem : Mem) (t : Task) : Schedules p clk t.type.delay (handle p mem clk t) d := by
  unfold Caching.handle
  cases t.type with
  | fileReqProcess => exact recvFlreq mem t
  | fileRepProcess => exact recvFlrep mem t
  | fragReqUpdate => exact recvFrreqOri mem t
  | fragReqFlush => exact recvFrreqFwd t
  | exchSend => exact recvExreq mem t
  | exchUpdate => exact recvExrep mem t
  | addCacheProcess => exact recvAddcache mem t
  | fragReqSend => exact processFlrep mem t
  | addCacheSend => exact of_untimed (.selectAgent mem t)
  | cleanUp => exact cleanUp mem

end Schedules

end Handlers

/-! ## Delays -/

/-- `jiffies` at the reading `clk`, plus the time that remained until `due` in
jiffies, rounded up; 1 if `due` had passed. -/
def expiry (hz : ℕ) (clk : Clock) (due : ℕ) : ℕ :=
  (clk.jiffies + if due < clk.now then 1 else ((due - clk.now) * hz + 999) / 1000) % 2 ^ 32

section Delays

variable {hz : ℕ} {clk : Clock} {due : ℕ}

/-- A number of milliseconds below a second, as `tvtojiffies` rounds it. -/
theorem jiffies_of_ms {k : ℕ} (hk : hz * k = 1000000)
    (r : ℕ) : (r * 1000 + (k - 1)) / k = (r * hz + 999) / 1000 := by
  have hpos : 0 < k := Nat.pos_of_ne_zero fun h => by simp [h] at hk
  have hhz : 0 < hz := Nat.pos_of_ne_zero fun h => by simp [h] at hk
  have hlow : r * 1000 ≤ (r * 1000 + (k - 1)) / k * k := by
    have hdiv := Nat.div_add_mod (r * 1000 + (k - 1)) k
    have hmod := Nat.mod_lt (r * 1000 + (k - 1)) hpos
    rw [Nat.mul_comm] at hdiv
    omega
  have hhigh : (r * 1000 + (k - 1)) / k * k < r * 1000 + k := by
    have hdiv := Nat.div_mul_le_self (r * 1000 + (k - 1)) k
    omega
  generalize (r * 1000 + (k - 1)) / k = n at hlow hhigh ⊢
  have hlow' : r * hz * 1000 ≤ n * 1000000 := by
    calc r * hz * 1000 = r * 1000 * hz := by rw [Nat.mul_right_comm]
      _ ≤ n * k * hz := Nat.mul_le_mul_right _ hlow
      _ = n * 1000000 := by rw [Nat.mul_assoc, Nat.mul_comm k, hk]
  have hhigh' : n * 1000000 < r * hz * 1000 + 1000000 := by
    calc n * 1000000 = n * k * hz := by rw [Nat.mul_assoc, Nat.mul_comm k, hk]
      _ < (r * 1000 + k) * hz := Nat.mul_lt_mul_of_pos_right hhigh hhz
      _ = r * hz * 1000 + 1000000 := by rw [Nat.add_mul, Nat.mul_right_comm, Nat.mul_comm k, hk]
  omega

theorem tvtojiffies_eq (hhz : hz ∣ 1000000) {n : ℕ} (hn : n ≤ 10000) :
    tvtojiffies hz (n / 1000 % 2 ^ 32) (n % 1000 * 1000) = (n * hz + 999) / 1000 := by
  obtain ⟨k, hk⟩ := hhz
  have hpos : 0 < hz := Nat.pos_of_ne_zero fun h => by simp [h] at hk
  have hle : hz ≤ 1000000 := Nat.le_of_dvd (by decide) ⟨k, hk⟩
  have hsec : n / 1000 % 2 ^ 32 = n / 1000 := Nat.mod_eq_of_lt (by omega)
  have hk' : 1000000 / hz = k := by rw [hk, Nat.mul_div_cancel_left _ hpos]
  have hmax : 10 ≤ (2 ^ 32 - 1) / hz := (Nat.le_div_iff_mul_le hpos).2 (by omega)
  have hsum : hz * (n / 1000) + (n % 1000 * hz + 999) / 1000 = (n * hz + 999) / 1000 := by
    have hn := Nat.div_add_mod n 1000
    calc hz * (n / 1000) + (n % 1000 * hz + 999) / 1000
        = (n % 1000 * hz + 999 + 1000 * (hz * (n / 1000))) / 1000 := by
          rw [Nat.add_mul_div_left _ _ (by decide), Nat.add_comm]
      _ = ((1000 * (n / 1000) + n % 1000) * hz + 999) / 1000 := by
          congr 1
          ring
      _ = (n * hz + 999) / 1000 := by rw [hn]
  have hbound : n * hz ≤ 10000 * 1000000 := Nat.mul_le_mul hn hle
  rw [tvtojiffies, hsec, if_neg (by omega), hk', jiffies_of_ms hk.symm, hsum]
  exact Nat.mod_eq_of_lt (by omega)

/-- The delay that `update_timer_queue` computes is the one wanted. -/
theorem timerDelay_eq (hhz : hz ∣ 1000000) (hlow : clk.now < due + 2 ^ 31)
    (hhigh : due ≤ clk.now + 10000) :
    timerDelay hz due clk.now = if due < clk.now then 1
    else ((due - clk.now) * hz + 999) / 1000 := by
  by_cases hdue : due < clk.now
  · obtain ⟨k, hk⟩ := hhz
    have hpos : 0 < hz := Nat.pos_of_ne_zero fun h => by simp [h] at hk
    have hkpos : 0 < k := Nat.pos_of_ne_zero fun h => by simp [h] at hk
    have hk' : 1000000 / hz = k := by rw [hk, Nat.mul_div_cancel_left _ hpos]
    have hone : 1 + (k - 1) = k := by omega
    rw [timerDelay, if_pos ((timeBefore_iff (by omega) hlow).2 hdue), if_pos hdue, tvtojiffies,
      if_neg (Nat.not_lt_zero _), hk', hone, Nat.div_self hkpos]
    rfl
  · have hnot : ¬timeBefore due clk.now = true :=
      fun h => hdue ((timeBefore_iff (by omega) hlow).1 h)
    have hnum : (due + 2 ^ 64 - clk.now) % 2 ^ 64 = due - clk.now := by omega
    rw [timerDelay, if_neg hnot, if_neg hdue]
    simp only [hnum]
    exact tvtojiffies_eq hhz (by omega)

end Delays

/-! ## Runs -/

/-- The daemon with the last reading of the clock. -/
structure Watched where
  daemon : Daemon
  clk : Clock
  /-- ghost: the reading of the last `update_timer_queue` -/
  updated : Clock

def Event.clock : Event → Clock
  | .packet _ clk _ | .timer clk | .thread _ clk => clk

/-- The event calls `update_timer_queue`, which overwrites an expiry that is no 32-bit number. -/
def updates (p : Params) (i : Event) (d : Daemon) : Bool :=
  (step p i { d with cacheTimer := some (2 ^ 32) }).bind Daemon.cacheTimer != some (2 ^ 32)

def watch (p : Params) (i : Event) (s : Watched) : Option Watched :=
  (step p i s.daemon).map fun d =>
    { daemon := d, clk := i.clock, updated := if updates p i s.daemon then i.clock else s.updated }

/-- The state that `init_module` leaves. -/
def watched (p : Params) (mem : Mem) (clk : Clock) (names : List (U32 × U32)) : Watched :=
  { daemon := initModule p mem clk names, clk := clk, updated := clk }

/-- The clock does not go back, and the due times are less than 2^31 milliseconds from it. -/
def Near (i : Event) (s : Watched) : Prop :=
  s.clk.now ≤ i.clock.now ∧ s.clk.jiffies ≤ i.clock.jiffies ∧
  ∀ t ∈ s.daemon.timerQueue, t.time < i.clock.now + 2 ^ 31 ∧ i.clock.now < t.time + 2 ^ 31

instance (i : Event) (s : Watched) : Decidable (Near i s) := inferInstanceAs (Decidable (_ ∧ _))

/-- The time within which the tasks are due that the handler of the event inserts, if it
inserts any. -/
def Event.delay (d : Daemon) : Event → ℕ
  | .thread _ _ => ((d.taskQ.head?.map Task.type).map TaskType.delay).getD 0
  | _ => 0

/-- The clock does not go back, and the due times are less than 2^31 milliseconds before it and
before those that the event may insert. -/
def Apart (i : Event) (s : Watched) : Prop := s.clk.now ≤ i.clock.now ∧
  ∀ t ∈ s.daemon.timerQueue, i.clock.now + i.delay s.daemon < t.time + 2 ^ 31

instance (i : Event) (s : Watched) : Decidable (Apart i s) := inferInstanceAs (Decidable (_ ∧ _))

/-- While tasks are waiting, `cache_timer` is pending for the earliest one. -/
def Covered (p : Params) (s : Watched) : Prop := s.daemon.timerQueue ≠ [] →
  ∃ t ∈ s.daemon.timerQueue, (∀ u ∈ s.daemon.timerQueue, t.time ≤ u.time) ∧
    s.daemon.cacheTimer = some (expiry p.hz s.updated t.time)

instance (p : Params) (s : Watched) : Decidable (Covered p s) := inferInstanceAs (Decidable (_ → _))

/-- The queue is in order, no task on it is far ahead, and
`cache_timer` stands for the first one. -/
structure Armed (p : Params) (s : Watched) : Prop where
  sorted : s.daemon.timerQueue.Pairwise fun t u => t.time ≤ u.time
  ahead : ∀ t ∈ s.daemon.timerQueue, t.time ≤ s.clk.now + 10000
  armed : s.daemon.cacheTimer = s.daemon.timerQueue.head?.map fun t => expiry p.hz s.updated t.time

section Runs

variable {p : Params} {s t : Watched} {i : Event} {clk : Clock} {q : List Task}

theorem Armed.covered (h : Armed p s) : Covered p s := fun hne => by
  obtain ⟨t, l, hl⟩ := List.exists_cons_of_ne_nil hne
  have hsorted := h.sorted
  rw [hl, List.pairwise_cons] at hsorted
  refine ⟨t, by rw [hl]; exact List.mem_cons_self, fun u hu => ?_, by rw [h.armed, hl]; rfl⟩
  rw [hl] at hu
  rcases List.mem_cons.1 hu with rfl | hu
  · exact Nat.le_refl _
  · exact hsorted.1 u hu

theorem sorted_insertByTime {x : Task} (hq : q.Pairwise fun t u => t.time ≤ u.time)
    (hx : ∀ t ∈ q, t.time < x.time + 2 ^ 31 ∧ x.time < t.time + 2 ^ 31) :
    (insertByTime x q).Pairwise fun t u => t.time ≤ u.time := by
  induction q with
  | nil => exact List.pairwise_singleton _ _
  | cons t l ih =>
    obtain ⟨ht, hl⟩ := List.forall_mem_cons.1 hx
    obtain ⟨hfirst, hrest⟩ := List.pairwise_cons.1 hq
    have hafter : timeAfter x.time t.time = true ↔ t.time < x.time := timeBefore_iff ht.1 ht.2
    rw [insertByTime]
    by_cases h : timeAfter x.time t.time = true
    · rw [if_pos h]
      refine List.pairwise_cons.2 ⟨fun u hu => ?_, ih hrest hl⟩
      rcases List.mem_cons.1 ((insertByTime_perm x l).subset hu) with rfl | hu
      · exact Nat.le_of_lt (hafter.1 h)
      · exact hfirst u hu
    · rw [if_neg h]
      have hle : x.time ≤ t.time := Nat.le_of_not_lt fun hlt => h (hafter.2 hlt)
      refine List.pairwise_cons.2 ⟨fun u hu => ?_, hq⟩
      rcases List.mem_cons.1 hu with rfl | hu
      · exact hle
      · exact Nat.le_trans hle (hfirst u hu)

/-- Insertions keep the queue in order, when all due times are near each other. -/
theorem sorted_insertAll {now delay : ℕ} (hdelay : delay ≤ 10000) {new : List Task}
    (hnew : ∀ t ∈ new, now ≤ t.time ∧ t.time ≤ now + delay)
    (hq : q.Pairwise fun t u => t.time ≤ u.time)
    (hnear : ∀ t ∈ q, now + delay < t.time + 2 ^ 31 ∧ t.time ≤ now + 10000) :
    (new.foldl (fun q t => insertByTime t q) q).Pairwise (fun t u => t.time ≤ u.time) ∧
      ∀ t ∈ new.foldl (fun q t => insertByTime t q) q, now + delay < t.time + 2 ^ 31 ∧
      t.time ≤ now + 10000 := by
  induction new generalizing q with
  | nil => exact ⟨hq, hnear⟩
  | cons x new ih =>
    obtain ⟨hx, hnew⟩ := List.forall_mem_cons.1 hnew
    refine ih hnew (sorted_insertByTime hq fun t ht => ?_) fun t ht => ?_
    · obtain ⟨hlow, hhigh⟩ := hnear t ht
      exact ⟨by omega, by omega⟩
    · rcases List.mem_cons.1 ((insertByTime_perm x q).subset ht) with rfl | ht
      · exact ⟨by omega, by omega⟩
      · exact hnear t ht

theorem alarm_eq (hhz : p.hz ∣ 1000000)
    (hq : ∀ t ∈ q, clk.now < t.time + 2 ^ 31 ∧ t.time ≤ clk.now + 10000) :
    alarm p clk q = q.head?.map fun t => expiry p.hz clk t.time := by
  cases q with
  | nil => rw [alarm, List.head?_nil, Option.map_none, Option.map_none]
  | cons t l =>
    obtain ⟨hlow, hhigh⟩ := hq t List.mem_cons_self
    rw [alarm, List.head?_cons, Option.map_some, Option.map_some, expiry,
      timerDelay_eq hhz hlow hhigh]

theorem alarm_ne (p : Params) (clk : Clock) (q : List Task) : alarm p clk q ≠ some (2 ^ 32) := by
  cases q with
  | nil => exact fun h => by cases h
  | cons t l => exact fun h => absurd (Option.some.inj h) (Nat.ne_of_lt (Nat.mod_lt _ (by decide)))

theorem TaskType.delay_le (type : TaskType) : type.delay ≤ 10000 := by cases type <;> decide

theorem Event.delay_le (i : Event) (d : Daemon) : i.delay d ≤ 10000 := by
  cases i with
  | thread mem clk =>
    rw [Event.delay]
    cases d.taskQ with
    | nil => exact Nat.zero_le _
    | cons t l => exact t.type.delay_le
  | packet | timer => exact Nat.zero_le _

/-- One event, apart from the timer's. -/
theorem schedules_step {d : Daemon} (hi : ∀ clk, i ≠ .timer clk) :
    Schedules p i.clock (i.delay d) (step p i) d := by
  cases i with
  | packet mem clk skb => exact .of_untimed (.packetIn mem clk skb)
  | timer clk => exact absurd rfl (hi clk)
  | thread mem clk =>
    cases hq : d.taskQ with
    | nil =>
      refine .leaves d fun q c => ?_
      have hnil : (d.timed q c).taskQ = [] := hq
      rw [step, runTask, getTask, hnil]
    | cons t l =>
      have hpop : Untimed fun d => { d with taskQ := l } := fun _ _ _ => rfl
      have hdelay : (Event.thread mem clk).delay d = t.type.delay := by rw [Event.delay, hq]; rfl
      rw [hdelay]
      refine (Schedules.andThen hpop fun e => .handle mem t).congr fun q c => ?_
      have hcons : (d.timed q c).taskQ = t :: l := hq
      rw [step, runTask, getTask, hcons]
      rfl

/-- Each event that is possible leaves `cache_timer` standing for the first task. -/
theorem Armed.step (hhz : p.hz ∣ 1000000) (h : Armed p s) (hi : Apart i s)
    (ht : watch p i s = some t) : Armed p t := by
  obtain ⟨d, hd, rfl⟩ := Option.map_eq_some_iff.1 ht
  have hnear : ∀ t ∈ s.daemon.timerQueue, i.clock.now + i.delay s.daemon < t.time + 2 ^ 31 ∧
      t.time ≤ i.clock.now + 10000 := fun t ht =>
    ⟨hi.2 t ht, Nat.le_trans (h.ahead t ht) (Nat.add_le_add_right hi.1 _)⟩
  by_cases htimer : ∃ clk, i = .timer clk
  · obtain ⟨clk, rfl⟩ := htimer
    rw [step, timerQueueSignal_timed] at hd
    obtain rfl := Option.some.inj hd
    have hsub := List.dropWhile_sublist (l := s.daemon.timerQueue) fun t =>
      timeBeforeEq t.time clk.now
    have hupdates : updates p (.timer clk) s.daemon = true := by
      rw [updates, step, timerQueueSignal_timed]
      exact bne_iff_ne.2 (alarm_ne _ _ _)
    rw [hupdates]
    exact ⟨h.sorted.sublist hsub, fun t ht => (hnear t (hsub.subset ht)).2, alarm_eq hhz fun t ht =>
      hnear t (hsub.subset ht)⟩
  · have hsched := schedules_step (p := p) (d := s.daemon) fun clk he => htimer ⟨clk, he⟩
    cases hsched with
    | fails h' => exact absurd (hd.symm.trans
      (h' s.daemon.timerQueue s.daemon.cacheTimer)) (Option.some_ne_none _)
    | leaves e h' =>
      obtain rfl := Option.some.inj (hd.symm.trans (h' s.daemon.timerQueue s.daemon.cacheTimer))
      have hkeeps : updates p i s.daemon = false := by
        rw [updates, show ({ s.daemon with cacheTimer := some (2 ^ 32) } : Daemon) =
          s.daemon.timed s.daemon.timerQueue (some (2 ^ 32)) from rfl, h']
        rfl
      rw [hkeeps]
      exact ⟨h.sorted, fun t ht => (hnear t ht).2, h.armed⟩
    | arms e new hnew h' =>
      obtain rfl := Option.some.inj (hd.symm.trans (h' s.daemon.timerQueue s.daemon.cacheTimer))
      obtain ⟨hsorted, hall⟩ := sorted_insertAll (i.delay_le s.daemon) hnew h.sorted hnear
      have hupdates : updates p i s.daemon = true := by
        rw [updates, show ({ s.daemon with cacheTimer := some (2 ^ 32) } : Daemon) =
          s.daemon.timed s.daemon.timerQueue (some (2 ^ 32)) from rfl, h']
        exact bne_iff_ne.2 (alarm_ne _ _ _)
      rw [hupdates]
      exact ⟨hsorted, fun t ht => (hall t ht).2,
        alarm_eq hhz fun t ht => ⟨by have := (hall t ht).1; omega, (hall t ht).2⟩⟩

theorem createCaches_untimed (calls : List CreateCall) : Untimed (createCaches calls) := by
  induction calls with
  | nil => exact .id
  | cons c calls ih => exact ih.comp (.createCache c.ok c.fileId c.fragId c.flag)

theorem armed_watched (hhz : p.hz ∣ 1000000) (mem : Mem) (clk : Clock) (names : List (U32 × U32)) :
    Armed p (watched p mem clk names) := by
  obtain ⟨new, hnew, h⟩ := insertTimer_timed p flushInterval (mem.ok .task 0) .cleanUp p.myIp 0 0
    (initCacheTable mem names {})
  have hinit : (initCacheTable mem names {}).timed [] none = initCacheTable mem names {} :=
    (createCaches_untimed _ [] none _).symm
  have hmodule : initModule p mem clk names = _ := (hinit ▸ h [] none :)
  obtain ⟨hsorted, hall⟩ :=
    sorted_insertAll (show flushInterval ≤ 10000 by decide) hnew .nil (List.forall_mem_nil _)
  rw [watched, hmodule]
  exact ⟨hsorted, fun t ht => (hall t ht).2,
    alarm_eq hhz fun t ht => ⟨by have := (hall t ht).1; omega, (hall t ht).2⟩⟩

/-- In every run of a daemon whose clock does not go back and whose due times are near each other
and the clock, `cache_timer` is pending for the earliest task. -/
theorem timer_covers (hhz : p.hz ∣ 1000000) {mem : Mem} {clk : Clock} {names : List (U32 × U32)}
    {events : List Event} (h : AllSteps (watch p) Apart events (watched p mem clk names)) :
    Along (watch p) (Covered p) events (watched p mem clk names) :=
  (along_of_step (fun _ _ _ h hi ht => Armed.step hhz h hi ht)
    (armed_watched hhz mem clk names) h).mono
    fun _ h => h.covered

/-- A reply for a file, of which the node is not waiting for any. -/
def lateReply : SkBuff :=
  .udp .big 0xC0A80014 0xC0A8000A 10 cachePort
    (flrepOctets { testNode with myIp := 0xC0A80014 } 0xC0A80014
    0xC0A8000A 1 1 [2, 1])

def flushRun : List Event :=
  [.packet .plenty ⟨1, 0⟩ lateReply, .thread .plenty ⟨2, 0⟩, .timer ⟨3000, 300⟩,
    .thread .plenty ⟨3005, 300⟩]

theorem timer_covers_flushRun :
    Along (watch testNode) (Covered testNode) flushRun (watched testNode .plenty ⟨0, 0⟩ []) :=
  timer_covers (by decide) (by decide +kernel)

/-- The clean-up is overdue by almost 2^31 milliseconds when the reply is handled. -/
def overdueRun : List Event :=
  [.packet .plenty ⟨1, 0⟩ lateReply, .thread .plenty ⟨2 ^ 31 + 2999, 214748664⟩]

/-- The new task takes the place in front of the one that is overdue. -/
theorem not_timer_covers_overdueRun :
    ¬ ∀ (p : Params) (mem : Mem) (clk : Clock) (names : List (U32 × U32))
    (events : List Event), p.hz ∣ 1000000 → mem.Succeeds → (∀ i ∈ events, i.Succeeds) →
      AllSteps (watch p) Near events (watched p mem clk names) →
        Along (watch p) (Covered p) events (watched p mem clk names) := by
  intro h
  have hrun : ((exec (watch testNode) overdueRun (watched testNode .plenty ⟨0, 0⟩ [])).any
      fun s => decide (¬Covered testNode s)) = true := by decide +kernel
  obtain ⟨s, he, hs⟩ := (Option.any_eq_true _ _).1 hrun
  have hsucceeds : ∀ i ∈ overdueRun, i.Succeeds := by
    simp [overdueRun, Event.Succeeds, Mem.plenty_succeeds]
  have hcovered := h testNode .plenty ⟨0, 0⟩ [] overdueRun (by decide) Mem.plenty_succeeds hsucceeds
    (by decide +kernel)
  exact of_decide_eq_true hs (Along.reached (by rw [List.append_nil]; exact hcovered) he)

end Runs

end MobileCloudCaching.Caching

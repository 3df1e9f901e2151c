import MobileCloudCaching.Caching.Retrieval
import MobileCloudCaching.Caching.Thread

/-!
# The timer of a retrieval

Between the first reply for a file and `process_flrep` there is one task that will run
it.  The list of replies, the timer queue and the task queue keep to this in every run
on a big-endian host, except that a reply with ten fragments can mark itself as
expired, through the map that it overflows.
-/

namespace MobileCloudCaching.Caching

open Octets Transition

/-- The task will run `process_flrep` for the file. -/
def Task.retrieves (fileId : U32) (t : Task) : Bool := t.type == .fragReqSend && t.fileId == fileId

/-- The number of tasks, on the timer queue or the task queue, that will run `process_flrep` for the
file. -/
def pending (fileId : U32) (d : Daemon) : ℕ :=
  d.timerQueue.countP (Task.retrieves fileId) + d.taskQ.countP (Task.retrieves fileId)

/-- For each file there is one pending task while there is an
unexpired reply, and none otherwise. -/
def OneTimer (d : Daemon) : Prop :=
  ∀ fileId, pending fileId d = if (findRinfo d.rinfo fileId).isSome then 1 else 0

theorem isSome_findRinfo (l : List FileRepInfo) (fileId : U32) :
    (findRinfo l fileId).isSome = l.any (FileRepInfo.live fileId) := by
  rw [Bool.eq_iff_iff, findRinfo, List.find?_isSome, List.any_eq_true]

/-! ## Steps that have nothing to do with replies -/

/-- `e` has the replies and the pending retrievals of `d`. -/
structure Quiet (d e : Daemon) : Prop where
  rinfo : e.rinfo = d.rinfo
  pending : ∀ fileId, pending fileId e = pending fileId d

namespace Quiet

variable {d e f : Daemon}

theorem of_eq (hr : e.rinfo = d.rinfo) (ht : e.timerQueue = d.timerQueue) (hq : e.taskQ = d.taskQ) :
    Quiet d e := ⟨hr, fun fileId => by rw [Caching.pending, Caching.pending, ht, hq]⟩

theorem trans (h : Quiet d e) (h' : Quiet e f) : Quiet d f :=
  ⟨h'.rinfo.trans h.rinfo, fun fileId => (h'.pending fileId).trans (h.pending fileId)⟩

theorem one_timer (h : Quiet d e) : OneTimer e ↔ OneTimer d := by
  unfold OneTimer
  simp only [h.rinfo, h.pending]

end Quiet

theorem countP_retrieves_of_moreTimers {type : TaskType} (htype : type ≠ .fragReqSend)
    {l q : List Task} (h : MoreTimers type l q) (fileId : U32) :
    q.countP (Task.retrieves fileId) = l.countP (Task.retrieves fileId) := by
  obtain ⟨new, hp, ht⟩ := h
  have hnew : new.countP (Task.retrieves fileId) = 0 := by
    rw [List.countP_eq_zero]
    intro t hmem
    simp [Task.retrieves, ht t hmem, htype]
  rw [hp.countP_eq, List.countP_append, hnew, Nat.zero_add]

theorem SameTables.quiet {type : TaskType} (htype : type ≠ .fragReqSend) {d e : Daemon}
    (h : SameTables type d e) : Quiet d e := by
  refine ⟨h.rinfo, fun fileId => ?_⟩
  rw [pending, pending, h.taskQ, countP_retrieves_of_moreTimers htype h.timers]

theorem quiet_createCache (ok : Bool) (fileId fragId flag : U32) (d : Daemon) :
    Quiet d (createCache ok fileId fragId flag d) := by
  cases ok <;> exact Quiet.of_eq rfl rfl rfl

theorem quiet_retrieveFrag (p : Params) (ok : Bool) (fileId fragId : U32) (d : Daemon) :
    Quiet d (retrieveFrag p ok fileId fragId d).2 := by
  rcases retrieveFrag_cases p ok fileId fragId d with
    ⟨-, hd⟩ | ⟨-, e, rfl, ⟨-, hd⟩ | ⟨-, -, hd⟩ | ⟨-, i, -, hd⟩⟩
  · rw [hd]
    exact Quiet.of_eq rfl rfl rfl
  · rw [hd]
    cases ok <;> exact Quiet.of_eq rfl rfl rfl
  · rw [hd]
    exact Quiet.of_eq rfl rfl rfl
  · rw [hd]
    cases ok <;> exact Quiet.of_eq rfl rfl rfl

theorem quiet_acceptFlreq (p : Params) (mem : Mem) (clk : Clock) (t : Task) (m : FileReq)
    (d : Daemon) : Quiet d (acceptFlreq p mem clk t m d) := by
  refine Quiet.trans ?_ (((SameTables.genFlrep p .cleanUp _ _ _ _ _ _).trans
    (SameTables.localBroadcast .cleanUp _ _ _)).quiet (by decide))
  cases mem.ok .floodId 0 <;> exact Quiet.of_eq rfl rfl rfl

/-- The handlers of tasks other than file replies and retrievals leave replies and timers alone. -/
theorem quiet_handle {p : Params} {mem : Mem} {clk : Clock} {t : Task} {d e : Daemon}
    (h : handle p mem clk t d = some e) (hrep : t.type ≠ .fileRepProcess)
    (hsend : t.type ≠ .fragReqSend) (hclean : t.type ≠ .cleanUp) : Quiet d e := by
  unfold handle at h
  cases htype : t.type with
  | fileReqProcess =>
    rw [htype] at h
    obtain ⟨m, -, rfl | ⟨m', -, -, -, rfl⟩⟩ := recvFlreq_cases p h
    · exact Quiet.of_eq rfl rfl rfl
    · exact quiet_acceptFlreq p mem clk t m' d
  | fileRepProcess => exact absurd htype hrep
  | fragReqUpdate =>
    rw [htype] at h
    rcases recvFrreqOri_cases p h with ⟨fileId, fragId, rfl⟩ | hs
    · exact Quiet.of_eq rfl rfl rfl
    · exact hs.quiet (by decide)
  | fragReqFlush =>
    rw [htype] at h
    rcases recvFrreqFwd_cases p h with ⟨fileId, fragId, rfl⟩ | hs
    · exact Quiet.of_eq rfl rfl rfl
    · exact hs.quiet (by decide)
  | exchSend =>
    rw [htype] at h
    obtain ⟨m, -, hm⟩ := Option.bind_eq_some_iff.1 h
    obtain rfl := Option.some.inj hm
    exact (SameTables.genExchRep p .cleanUp _ _ _ _ _ _ _ _).quiet (by decide)
  | exchUpdate =>
    rw [htype] at h
    obtain ⟨m, -, hm⟩ := Option.bind_eq_some_iff.1 h
    obtain rfl := Option.some.inj hm
    cases mem.ok .extable 0 <;> exact Quiet.of_eq rfl rfl rfl
  | addCacheProcess =>
    rw [htype] at h
    obtain ⟨m, -, hm⟩ := Option.bind_eq_some_iff.1 h
    obtain rfl := Option.some.inj hm
    exact quiet_retrieveFrag p _ _ _ d
  | fragReqSend => exact absurd htype hsend
  | addCacheSend =>
    rw [htype] at h
    obtain rfl := Option.some.inj h
    obtain ⟨e, rfl, hcase⟩ := selectAgent_cases p mem t d
    have hmark : Quiet d { d with extable := expireExtable t.fileId t.fragId d.extable } :=
      Quiet.of_eq rfl rfl rfl
    rcases hcase with ⟨-, hs⟩ | ⟨-, he⟩
    · exact hmark.trans ((hs .cleanUp).quiet (by decide))
    · rw [he]
      exact hmark.trans (quiet_retrieveFrag p _ _ _ _)
  | cleanUp => exact absurd htype hclean

theorem quiet_packetIn (p : Params) (mem : Mem) (clk : Clock) (skb : SkBuff) (d : Daemon) :
    Quiet d (packetIn p mem clk skb d).2 := by
  obtain ⟨f, c, d', rfl, h | ⟨type, htype, -, h⟩⟩ := packetInQueue_cases p mem clk skb d
  · rw [packetIn, h]
    exact Quiet.of_eq rfl rfl rfl
  · rw [packetIn, h]
    dsimp only
    unfold insertTask
    split
    · refine ⟨rfl, fun fileId => ?_⟩
      have hne := (ofMessage_eq_some htype).1
      simp [pending, queueTask, taskOfPacket, createTask, Task.retrieves, hne]
    · exact Quiet.of_eq rfl rfl rfl

theorem quiet_timerQueueSignal (p : Params) (clk : Clock) (d : Daemon) :
    Quiet d (timerQueueSignal p clk d) := by
  refine Quiet.trans ?_ ((SameTables.updateTimerQueue .cleanUp p clk _).quiet (by decide))
  refine ⟨rfl, fun fileId => ?_⟩
  have hsplit := congrArg (List.countP (Task.retrieves fileId))
    (List.takeWhile_append_dropWhile (p := fun t : Task => timeBeforeEq t.time clk.now)
      (l := d.timerQueue))
  rw [List.countP_append] at hsplit
  simp only [pending, List.countP_append]
  omega

/-! ## Marking replies -/

theorem live_eq_of_ne {fileId fileId' : U32} (hne : fileId' ≠ fileId) {r : FileRepInfo}
    (hr : r.live fileId = true) : r.live fileId' = false := by
  simp only [FileRepInfo.live, Bool.and_eq_true, beq_iff_eq] at hr
  simp only [FileRepInfo.live, hr.2, Bool.and_eq_false_iff, beq_eq_false_iff_ne]
  exact Or.inr hne.symm

/-- Searching the replies for a file touches no other file, and ends without a
live reply when it does not find enough. -/
theorem chooseFrags_live {kval : ℤ} {fileId : U32} {fuel : ℕ} {c c' : Choice}
    {l l' : List FileRepInfo} {enough : Bool}
    (h : chooseFrags kval fileId fuel c l = some (enough, c', l')) :
    (∀ fileId' ≠ fileId, (findRinfo l' fileId').isSome = (findRinfo l fileId').isSome) ∧
    (enough = false → ∀ r ∈ l', r.live fileId = false) := by
  induction fuel generalizing c l with
  | zero => cases h
  | succ fuel ih =>
    unfold chooseFrags at h
    split at h
    · split at h
      · rename_i hnear
        obtain ⟨rfl, rfl, rfl⟩ : false = enough ∧ c = c' ∧ l = l' := by simpa using h
        exact ⟨fun _ _ => rfl, fun _ => nearest_eq_none.1 hnear⟩
      · rename_i i hnear
        obtain ⟨r, hi, hr, -⟩ := nearest_eq_some hnear
        obtain ⟨r', hi', h⟩ := Option.bind_eq_some_iff.1 h
        obtain ⟨c₁, -, h⟩ := Option.bind_eq_some_iff.1 h
        obtain ⟨hother, hdone⟩ := ih h
        refine ⟨fun fileId' hne => (hother fileId' hne).trans ?_, hdone⟩
        obtain ⟨l₁, l₂, rfl, hmod⟩ := exists_of_getElem? hi
        have hr' := live_eq_of_ne hne hr
        have hexp := live_expire fileId' r
        rw [hmod, isSome_findRinfo, isSome_findRinfo]
        simp [hr', hexp]
    · obtain ⟨rfl, rfl, rfl⟩ : true = enough ∧ c = c' ∧ l = l' := by simpa using h
      exact ⟨fun _ _ => rfl, fun h => by cases h⟩

theorem live_expireFile (fileId : U32) (l : List FileRepInfo) :
    ∀ r ∈ expireFile fileId l, r.live fileId = false := by
  intro r hr
  obtain ⟨r₀, -, rfl⟩ := List.mem_map.1 hr
  split
  · exact live_expire fileId r₀
  · rename_i h
    exact Bool.not_eq_true _ ▸ h

theorem isSome_findRinfo_expireFile {fileId fileId' : U32} (hne : fileId' ≠ fileId)
    (l : List FileRepInfo) :
    (findRinfo (expireFile fileId l) fileId').isSome = (findRinfo l fileId').isSome := by
  have hlive : ∀ r : FileRepInfo,
      (if r.live fileId then r.expire else r).live fileId' = r.live fileId' := by
    intro r
    split
    · rename_i hr
      rw [live_expire, live_eq_of_ne hne hr]
    · rfl
  rw [isSome_findRinfo, isSome_findRinfo, expireFile, List.any_map]
  exact congrArg l.any (funext hlive)

/-! ## The step lemma -/

theorem oneTimer_processFlrep {p : Params} {mem : Mem} {clk : Clock} {t : Task} {d e : Daemon}
    {q : List Task} {r : ℤ} (h : OneTimer d) (hq : d.taskQ = t :: q) (htype : t.type = .fragReqSend)
    (hs : processFlrep p mem clk t { d with taskQ := q } = some (r, e)) : OneTimer e := by
  have hret : ∀ fileId, t.retrieves fileId = (t.fileId == fileId) := fun fileId => by
    simp [Task.retrieves, htype]
  have hpop : ∀ fileId, pending fileId { d with taskQ := q } +
      (if t.fileId = fileId then 1 else 0) = pending fileId d := by
    intro fileId
    simp only [pending, hq, List.countP_cons, hret, beq_iff_eq]
    omega
  -- only the marks of the file itself change, and all of its replies are marked
  have key : (∀ fileId, pending fileId e = pending fileId { d with taskQ := q }) ∧
      (∀ fileId ≠ t.fileId,
        (findRinfo e.rinfo fileId).isSome = (findRinfo d.rinfo fileId).isSome) ∧
      (findRinfo e.rinfo t.fileId).isSome = false := by
    have hnone : ∀ l : List FileRepInfo, (∀ r ∈ l, r.live t.fileId = false) →
        (findRinfo l t.fileId).isSome = false := fun l hl => by
      rw [isSome_findRinfo, List.any_eq_false]
      exact fun r hr => by simp [hl r hr]
    obtain ⟨buf, ct, enough, c, l, -, -, hch, ⟨-, -, d₂, hd₂, rfl⟩ | ⟨rfl, -, rfl⟩⟩ :=
      processFlrep_cases p hs
    · obtain ⟨hother, -⟩ := chooseFrags_live hch
      have hsame := SameTables.requestFrags p hd₂
      refine ⟨(hsame.quiet (by decide)).pending, fun fileId hne => ?_,
        hnone _ (live_expireFile _ _)⟩
      rw [isSome_findRinfo_expireFile hne, hsame.rinfo]
      exact hother fileId hne
    · obtain ⟨hother, hdone⟩ := chooseFrags_live hch
      exact ⟨fun _ => rfl, hother, hnone _ (hdone rfl)⟩
  obtain ⟨hpend, hother, hfile⟩ := key
  intro fileId
  have hd := h fileId
  have hp := hpop fileId
  rw [hpend]
  by_cases hf : fileId = t.fileId
  · subst hf
    rw [hfile]
    rw [if_pos rfl] at hp
    split at hd <;> simp <;> omega
  · rw [hother fileId hf, ← hd, ← hp, if_neg (fun e => hf e.symm), Nat.add_zero]

/-- On a big-endian host, the entry that a file reply makes is for the file of the reply, and is
live unless it has ten fragments and the tenth is number 1. -/
theorem live_fillRinfo (map : Vector U32 8) (m : FileRep) (frags : ℕ → U32) (fileId : U32) :
    (fillRinfo .big map m frags).value.live fileId = true ↔
      m.fileId = fileId ∧ ¬ (9 < m.fragCount.toNat ∧ frags 9 = 1) := by
  have hcount : ((m.fragCount.setWidth 32).toInt).toNat = m.fragCount.toNat := by
    have := m.fragCount.isLt
    rw [BitVec.toInt_eq_toNat_of_lt]
    · simp; omega
    · simp; omega
  have hfile := fileId_copyFrags .big frags m.fragCount.toNat 0
    ⟨m.fileId, m.srcIp, m.dist, map, m.fragCount.setWidth 32, 0⟩
  have hexp := expired_copyFrags .big frags m.fragCount.toNat 0
    ⟨m.fileId, m.srcIp, m.dist, map, m.fragCount.setWidth 32, 0⟩
  simp only [fillRinfo, hton_big, hcount, FileRepInfo.live, Bool.and_eq_true,
    bne_iff_ne, beq_iff_eq]
  rw [hfile, hexp, and_comm]
  refine and_congr_right fun _ => ?_
  simp only [hton_big, Nat.zero_le, Nat.zero_add, true_and]
  split
  · rename_i h
    simp [h]
  · rename_i h
    simp [h]

/-- What is needed of a step: a file reply for this node with ten fragments, the tenth of them
number 1, is handled only while there is an unexpired reply for its file. -/
def KeepsTimer (p : Params) : Event → Daemon → Prop
  | .thread _ _, d =>
    ∀ t q m, d.taskQ = t :: q → t.type = .fileRepProcess → t.dstIp = p.myIp →
      FileRep.load p.order t.data = some m → 9 < m.fragCount.toNat →
      fragsOfTask p.order t 9 = 1 → (findRinfo d.rinfo m.fileId).isSome = true
  | _, _ => True

theorem pending_startTimer {p : Params} {mem : Mem} (hmem : mem.Succeeds) (clk : Clock)
    (fileId f : U32) (d : Daemon) :
    pending f (startTimer p mem clk fileId d) =
      pending f d + if (findRinfo d.rinfo fileId).isSome = false ∧ fileId = f then 1 else 0 := by
  unfold startTimer
  split
  · rename_i hnone
    rw [((SameTables.updateTimerQueue .cleanUp p clk _).quiet (by decide)).pending,
      insertTimer, hmem]
    have hperm := (insertByTime_perm { createTask .fragReqSend clk with
      srcIp := p.myIp, dstIp := p.myIp, fileId := fileId, fragId := 0,
      time := clk.now + waitFileRepTime } d.timerQueue).countP_eq (Task.retrieves f)
    simp only [pending, if_true, queueTimer, hnone, Option.isSome_none, true_and]
    rw [hperm, List.countP_cons]
    simp only [Task.retrieves, createTask, beq_self_eq_true, Bool.true_and, beq_iff_eq]
    omega
  · rename_i hsome
    simp [hsome]

/-- A reply for this node keeps the timers right unless it marks itself
as expired while it is the only one. -/
theorem oneTimer_createRinfo {p : Params} (hbig : p.order = .big) {mem : Mem} (hmem : mem.Succeeds)
    {clk : Clock} {t : Task} {m : FileRep} {d e : Daemon} (h : OneTimer d)
    (hs : createRinfo p mem t m (startTimer p mem clk m.fileId d) = some e) :
    OneTimer e ↔ (9 < m.fragCount.toNat → fragsOfTask p.order t 9 = 1 →
      (findRinfo d.rinfo m.fileId).isSome = true) := by
  obtain ⟨hfalse, -⟩ | ⟨-, he⟩ := createRinfo_cases p hs
  · rw [hmem] at hfalse
    cases hfalse
  have hpend : ∀ f, pending f e =
      pending f d + if (findRinfo d.rinfo m.fileId).isSome = false ∧
      m.fileId = f then 1 else 0 := by
    intro f
    rw [he]
    exact pending_startTimer hmem clk m.fileId f d
  have hfind : ∀ f, (findRinfo e.rinfo f).isSome = true ↔
      (m.fileId = f ∧ ¬ (9 < m.fragCount.toNat ∧ fragsOfTask p.order t 9 = 1)) ∨
        (findRinfo d.rinfo f).isSome = true := by
    intro f
    rw [he, isSome_findRinfo, isSome_findRinfo, List.any_cons, Bool.or_eq_true,
      (SameTables.startTimer p mem clk m.fileId d).rinfo, hbig, live_fillRinfo]
  unfold OneTimer
  simp only [hpend, hfind, h _]
  constructor
  · intro hall hcount htenth
    have hone := hall m.fileId
    cases hany : (findRinfo d.rinfo m.fileId).isSome
    · simp [hany, hcount, htenth] at hone
    · rfl
  · intro hcond f
    by_cases hf : m.fileId = f
    · subst hf
      cases hany : (findRinfo d.rinfo m.fileId).isSome
      · have hgood : ¬ (9 < m.fragCount.toNat ∧ fragsOfTask p.order t 9 = 1) := by
          rintro ⟨h9, hone⟩
          rw [hcond h9 hone] at hany
          cases hany
        rw [if_neg (by decide), if_pos ⟨rfl, rfl⟩, if_pos (Or.inl ⟨rfl, hgood⟩)]
      · simp
    · simp [hf]

theorem oneTimer_cleanUp {p : Params} {mem : Mem} {clk : Clock} {d : Daemon} (h : OneTimer d) :
    OneTimer (cleanUp p mem clk d) := by
  have hquiet : Quiet d (flushFloodIdQueue p mem clk d) := by
    refine Quiet.trans (Quiet.of_eq ?_ ?_ ?_ : Quiet d { d with
      floodIdQueue := d.floodIdQueue.filter fun e => !timeBefore e.lifetime clk.now })
      (SameTables.quiet (show TaskType.cleanUp ≠ _ by decide) ?_)
    · rfl
    · rfl
    · rfl
    · exact (SameTables.insertTimer _ _ _ _ _ _ _ _).trans (SameTables.updateTimerQueue _ _ _ _)
  have hlive : ∀ fileId (r : FileRepInfo),
      (r.expired != 1 && r.live fileId) = r.live fileId := fun fileId r => by
    simp [FileRepInfo.live]
  intro fileId
  have hfind : (findRinfo (cleanUp p mem clk d).rinfo fileId).isSome =
      (findRinfo d.rinfo fileId).isSome := by
    rw [isSome_findRinfo, isSome_findRinfo, ← hquiet.rinfo]
    exact (List.any_filter ..).trans (congrArg _ (funext (hlive fileId)))
  rw [hfind, ← h fileId]
  exact hquiet.pending fileId

theorem keepsTimer_of_ne {p : Params} {mem : Mem} {clk : Clock} {d : Daemon} {t : Task}
    {q : List Task} (hq : d.taskQ = t :: q) (hne : t.type ≠ .fileRepProcess) :
    KeepsTimer p (.thread mem clk) d := by
  intro t' q' m hq' htype
  obtain ⟨rfl, rfl⟩ := List.cons.inj (hq.symm.trans hq')
  exact absurd htype hne

/-- Each step keeps one timer for each awaited file exactly under its condition. -/
theorem oneTimer_step {p : Params} (hbig : p.order = .big) {ev : Event} (hev : ev.Succeeds)
    {d e : Daemon} (h : OneTimer d) (hs : step p ev d = some e) :
    OneTimer e ↔ KeepsTimer p ev d := by
  cases ev with
  | packet mem clk skb =>
    obtain rfl := Option.some.inj hs
    exact iff_of_true ((quiet_packetIn p mem clk skb d).one_timer.2 h) trivial
  | timer clk =>
    obtain rfl := Option.some.inj hs
    exact iff_of_true ((quiet_timerQueueSignal p clk d).one_timer.2 h) trivial
  | thread mem clk =>
    cases hq : d.taskQ with
    | nil =>
      simp only [step, runTask, getTask, hq, Option.some.injEq] at hs
      subst hs
      exact iff_of_true h (by simp [KeepsTimer, hq])
    | cons t q =>
      simp only [step, runTask, getTask, hq] at hs
      by_cases hsend : t.type = .fragReqSend
      · refine iff_of_true ?_ (keepsTimer_of_ne hq (by rw [hsend]; decide))
        simp only [handle, hsend] at hs
        obtain ⟨⟨r, e'⟩, he, rfl⟩ := Option.map_eq_some_iff.1 hs
        exact oneTimer_processFlrep h hq hsend he
      · have hpop : OneTimer { d with taskQ := q } := by
          intro fileId
          rw [← h fileId]
          simp [pending, hq, Task.retrieves, hsend]
        by_cases hrep : t.type = .fileRepProcess
        · simp only [handle, hrep, recvFlrep] at hs
          split at hs
          · rename_i hdst
            obtain rfl := Option.some.inj hs
            refine iff_of_true hpop fun t' q' m' hq' _ hme => ?_
            obtain ⟨rfl, rfl⟩ := List.cons.inj (hq.symm.trans hq')
            exact absurd hme hdst
          · rename_i hdst
            obtain ⟨m, hm, hs⟩ := Option.bind_eq_some_iff.1 hs
            rw [oneTimer_createRinfo hbig hev hpop hs]
            constructor
            · intro hc t' q' m' hq' _ _ hm'
              obtain ⟨rfl, rfl⟩ := List.cons.inj (hq.symm.trans hq')
              obtain rfl := Option.some.inj (hm.symm.trans hm')
              exact hc
            · exact fun hc => hc t q m hq hrep (not_not.1 hdst) hm
        · refine iff_of_true ?_ (keepsTimer_of_ne hq hrep)
          by_cases hclean : t.type = .cleanUp
          · simp only [handle, hclean] at hs
            obtain rfl := Option.some.inj hs
            exact oneTimer_cleanUp hpop
          · exact (quiet_handle hs hrep hsend hclean).one_timer.2 hpop

theorem quiet_createCaches (calls : List CreateCall) (d : Daemon) :
    Quiet d (createCaches calls d) := by
  induction calls generalizing d with
  | nil => exact Quiet.of_eq rfl rfl rfl
  | cons c calls ih =>
    exact (quiet_createCache c.ok c.fileId c.fragId c.flag d).trans (ih _)

/-- Nothing is awaited when the module has been loaded. -/
theorem oneTimer_initModule (p : Params) (mem : Mem) (clk : Clock) (names : List (U32 × U32)) :
    OneTimer (initModule p mem clk names) := by
  have htable : Quiet {} (initCacheTable mem names {}) := quiet_createCaches _ _
  have htimer : SameTables .cleanUp (initCacheTable mem names {}) (initModule p mem clk names) :=
    (SameTables.insertTimer _ _ _ _ _ _ _ _).trans (SameTables.updateTimerQueue _ _ _ _)
  exact (htable.trans (htimer.quiet (by decide))).one_timer.2 fun _ => rfl

/-! ## Runs -/

/-- A run of a big-endian daemon with enough memory keeps one timer for each awaited file, and no
other, exactly if each of its steps meets the condition. -/
theorem oneTimer_iff {p : Params} (hbig : p.order = .big) {mem : Mem} {clk : Clock}
    {names : List (U32 × U32)} {evs : List Event} (hev : ∀ ev ∈ evs, ev.Succeeds) {e : Daemon}
    (he : exec (step p) evs (initModule p mem clk names) = some e) :
    Along (step p) OneTimer evs (initModule p mem clk names) ↔
      AllSteps (step p) (KeepsTimer p) evs (initModule p mem clk names) :=
  along_iff_allSteps (fun ev hmem _ _ hd hs => oneTimer_step hbig (hev ev hmem) hd hs)
    (oneTimer_initModule p mem clk names) he

/-- A node with `KVAL = 10` answers for file 1, whose fragments it lists from 10 down to 1. -/
def tenFragReply : SkBuff :=
  .udp .big 0xC0A80014 0xC0A8000A 10 cachePort
    (flrepOctets { testNode with myIp := 0xC0A80014, kval := 10 } 0xC0A80014 0xC0A8000A 1 1
      [10, 9, 8, 7, 6, 5, 4, 3, 2, 1])

def tenFragRun : List Event :=
  [.packet .plenty ⟨0, 0⟩ tenFragReply, .thread .plenty ⟨0, 0⟩]

theorem exec_tenFragRun : ∃ e, exec (step testNode) tenFragRun
    (initModule testNode .plenty ⟨0, 0⟩ []) =
    some e ∧ pending 1 e = 1 ∧ (findRinfo e.rinfo 1).isSome = false := by
  have hrun : (exec (step testNode) tenFragRun (initModule testNode .plenty ⟨0, 0⟩ [])).map
      (fun e => (pending 1 e, (findRinfo e.rinfo 1).isSome)) = some (1, false) := by decide +kernel
  obtain ⟨e, he, hval⟩ := Option.map_eq_some_iff.1 hrun
  exact ⟨e, he, congrArg Prod.fst hval, congrArg Prod.snd hval⟩

theorem succeeds_tenFragRun : ∀ ev ∈ tenFragRun, ev.Succeeds := by
  intro ev hev
  rcases List.mem_cons.1 hev with rfl | hev
  · exact Mem.plenty_succeeds
  · rw [List.mem_singleton.1 hev]
    exact Mem.plenty_succeeds

/-- The run in which the reply marks itself does not meet the condition. -/
theorem oneTimer_iff_tenFragRun : ¬ AllSteps (step testNode) (KeepsTimer testNode) tenFragRun
    (initModule testNode .plenty ⟨0, 0⟩ []) := by
  obtain ⟨e, he, hpend, hfind⟩ := exec_tenFragRun
  rw [← oneTimer_iff rfl succeeds_tenFragRun he]
  intro h
  have hone := Along.reached (show Along _ _ (tenFragRun ++ []) _ from h) he 1
  rw [hpend, hfind] at hone
  exact absurd hone (by decide)

/-- Its timer is pending although no reply is. -/
theorem not_oneTimer_run :
    ¬ ∀ (p : Params) (mem : Mem) (clk : Clock) (names : List (U32 × U32)) (evs : List Event)
      (e : Daemon), p.order = .big → (∀ ev ∈ evs, ev.Succeeds) →
      exec (step p) evs (initModule p mem clk names) = some e → OneTimer e := by
  intro h
  obtain ⟨e, he, hpend, hfind⟩ := exec_tenFragRun
  have hone := h testNode .plenty ⟨0, 0⟩ [] tenFragRun e rfl succeeds_tenFragRun he 1
  rw [hpend, hfind] at hone
  exact absurd hone (by decide)

end MobileCloudCaching.Caching

import MobileCloudCaching.Caching.Duplicates
import Mathlib.Data.List.Forall2

/-!
# Exchange rounds

An exchange reply does not say which request it answers.  A run of the daemon is taken here together
with that knowledge: every reply that the thread handles is labelled with the number of the request,
among those broadcast for its fragment, and the labels are kept next to the entries of the exchange
table.  A score is compared in its own round if the label is the number of the newest request.
-/

namespace MobileCloudCaching.Caching

open Octets Transition

variable (p : Params)

/-- The fragment that a datagram asks scores for. -/
def exchReqKey (g : Datagram) : Option (U32 × U32) :=
  if g.payload.head? = some exchangeReqMessage then
    (ExchReq.load p.order g.payload).map fun m =>
      ((convertExreqToHost p.order m).fileId, (convertExreqToHost p.order m).fragId)
  else none

/-- The number of exchange requests sent so far for a fragment. -/
def round (d : Daemon) (k : U32 × U32) : ℕ := d.sent.countP fun g => exchReqKey p g == some k

/-- The fragment of an exchange reply. -/
def exchRepKey (t : Task) : Option (U32 × U32) :=
  (ExchRep.load p.order t.data).map fun m =>
    ((convertExrepToHost p.order m).fileId, (convertExrepToHost p.order m).fragId)

/-- The daemon, and for each entry of its exchange table the number of the request that it
answers. -/
structure Rounds where
  daemon : Daemon
  answers : List ℕ

/-- A handler run; when it handles an exchange reply, `answered` is the number
of the request that the reply answers. -/
structure RoundRun where
  run : Run
  answered : ℕ

/-- A reply answers a request that has been broadcast. -/
def Answers (r : RoundRun) (d : Daemon) : Prop :=
  r.run.task.type = .exchUpdate → ∀ k, exchRepKey p r.run.task = some k →
    1 ≤ r.answered ∧ r.answered ≤ round p d k

instance (r : RoundRun) (d : Daemon) : Decidable (Answers p r d) :=
  -- not the instance for all fragments, which would try them one by one
  haveI : Decidable (∀ k ∈ exchRepKey p r.run.task, 1 ≤ r.answered ∧ r.answered ≤ round p d k) :=
    Option.decidableForallMem _
  inferInstanceAs (Decidable (r.run.task.type = .exchUpdate → _))

/-- The labels after a handler run: a new entry gets the label of the reply, and the entries that
the clean-up removes take theirs with them. -/
def answersAfter (r : RoundRun) (s : Rounds) : List ℕ :=
  match r.run.task.type with
  | .exchUpdate => if r.run.mem.ok .extable 0 then r.answered :: s.answers else s.answers
  | .cleanUp =>
    ((s.daemon.extable.zip s.answers).filter fun x => x.1.expired != 1).map Prod.snd
  | _ => s.answers

def roundStep (r : RoundRun) (s : Rounds) : Option Rounds :=
  if Answers p r s.daemon then
    (runStep p r.run s.daemon).map fun d => { daemon := d, answers := answersAfter r s }
  else none

/-- The score of an entry would be compared in its own round only. -/
def OwnRound (d : Daemon) (e : ExchTable) (n : ℕ) : Prop :=
  ∀ k : U32 × U32, e.live k.1 k.2 = true → n = round p d k

/-- Whichever fragment `select_agent` is run for, the scores that it compares answer the newest
request for it. -/
def Isolated (s : Rounds) : Prop := List.Forall₂ (OwnRound p s.daemon) s.daemon.extable s.answers

/-- The scores that a run of `select_agent` compares answer the newest request for the fragment, so
that the agent is the one that these answers alone determine. -/
def SelectsInRound (r : RoundRun) (s : Rounds) : Prop :=
  r.run.task.type = .addCacheSend →
    let k := (r.run.task.fileId, r.run.task.fragId)
    (∀ x ∈ s.daemon.extable.zip s.answers, x.1.live k.1 k.2 = true → x.2 = round p s.daemon k) ∧
    agent p k.1 k.2 s.daemon =
      (bestAgent k.1 k.2
        (((s.daemon.extable.zip s.answers).filter fun x => x.2 == round p s.daemon k).map Prod.fst)
        (getScore p k.1 k.2 s.daemon, p.myIp)).2

/-- The handler run broadcasts an exchange request for the fragment. -/
def Broadcasts (r : Run) (d : Daemon) (k : U32 × U32) : Prop :=
  ∃ e, runStep p r d = some e ∧ round p e k ≠ round p d k

/-- A reply is entered while the request that it answers is the newest one for its fragment, and
a new request is broadcast only when no reply for the fragment waits in the table. -/
def InRound (r : RoundRun) (s : Rounds) : Prop :=
  (r.run.task.type = .exchUpdate → r.run.mem.ok .extable 0 = true →
    ∀ k, exchRepKey p r.run.task = some k → r.answered = round p s.daemon k) ∧
  ∀ k, Broadcasts p r.run s.daemon k → ∀ e ∈ s.daemon.extable, e.live k.1 k.2 = false

variable {p}

/-! ## Comparing -/

/-- Entries that are not compared do not matter. -/
theorem bestAgent_filter {α : Type*} {fileId fragId : U32} (keep : ExchTable × α → Bool)
    {l : List (ExchTable × α)} (h : ∀ x ∈ l, x.1.live fileId fragId = true → keep x = true)
    (best : U32 × U32) :
    bestAgent fileId fragId ((l.filter keep).map Prod.fst) best =
      bestAgent fileId fragId (l.map Prod.fst) best := by
  induction l generalizing best with
  | nil => rfl
  | cons x l ih =>
    obtain ⟨hx, hl⟩ := List.forall_mem_cons.1 h
    by_cases hk : keep x = true
    · rw [List.filter_cons_of_pos hk, List.map_cons, List.map_cons, bestAgent, bestAgent]
      split
      · exact ih hl _
      · exact ih hl _
    · have hlive : ¬ (x.1.live fileId fragId = true ∧ x.1.score > best.1) := fun hc => hk (hx hc.1)
      rw [List.filter_cons_of_neg hk, List.map_cons, bestAgent, if_neg hlive]
      exact ih hl _

theorem Isolated.selectsInRound {s : Rounds} (h : Isolated p s) (r : RoundRun) :
    SelectsInRound p r s := by
  intro _ k
  have hcompared : ∀ x ∈ s.daemon.extable.zip s.answers,
      x.1.live k.1 k.2 = true → x.2 = round p s.daemon k :=
    fun x hx => (List.forall₂_iff_zip.1 h).2 hx k
  refine ⟨hcompared, ?_⟩
  rw [bestAgent_filter _ fun x hx hlive => beq_iff_eq.2 (hcompared x hx hlive),
    List.map_fst_zip h.length_eq.le]
  rfl

theorem Isolated.start : Isolated p ⟨{}, []⟩ := List.Forall₂.nil

/-! ## Steps -/

theorem extable_recvFlrep {mem : Mem} {clk : Clock} {t : Task} {d e : Daemon}
    (h : recvFlrep p mem clk t d = some e) : e.extable = d.extable := by
  unfold recvFlrep at h
  split at h
  · rw [Option.some.inj h]
  · obtain ⟨m, -, hm⟩ := Option.bind_eq_some_iff.1 h
    have hs := (SameTables.startTimer p mem clk m.fileId d).extable
    rcases createRinfo_cases p hm with ⟨-, rfl⟩ | ⟨-, rfl⟩
    · exact hs
    · exact hs

/-- Only three tasks change the exchange table. -/
theorem extable_handle {mem : Mem} {clk : Clock} {t : Task} {d e : Daemon}
    (h : handle p mem clk t d = some e) (hrep : t.type ≠ .exchUpdate)
    (hsend : t.type ≠ .addCacheSend) (hclean : t.type ≠ .cleanUp) : e.extable = d.extable := by
  unfold handle at h
  cases htype : t.type with
  | fileReqProcess =>
    rw [htype] at h
    obtain ⟨m, -, rfl | ⟨m', -, -, -, rfl⟩⟩ := recvFlreq_cases p h
    · rfl
    · refine (SameTables.localBroadcast .cleanUp _ _ _).extable.trans
        ((SameTables.genFlrep p .cleanUp _ _ _ _ _ _).extable.trans ?_)
      cases mem.ok .floodId 0 <;> rfl
  | fileRepProcess =>
    rw [htype] at h
    exact extable_recvFlrep h
  | fragReqUpdate =>
    rw [htype] at h
    rcases recvFrreqOri_cases p h with ⟨fileId, fragId, rfl⟩ | hs
    · rfl
    · exact hs.extable
  | fragReqFlush =>
    rw [htype] at h
    rcases recvFrreqFwd_cases p h with ⟨fileId, fragId, rfl⟩ | hs
    · rfl
    · exact hs.extable
  | exchSend =>
    rw [htype] at h
    obtain ⟨m, -, hm⟩ := Option.bind_eq_some_iff.1 h
    obtain rfl := Option.some.inj hm
    exact (SameTables.genExchRep p .cleanUp _ _ _ _ _ _ _ _).extable
  | addCacheProcess =>
    rw [htype] at h
    obtain ⟨m, -, hm⟩ := Option.bind_eq_some_iff.1 h
    obtain rfl := Option.some.inj hm
    exact (retrieveFrag_frame p _ _ _ _).1
  | fragReqSend =>
    rw [htype] at h
    obtain ⟨⟨r, e'⟩, he, rfl⟩ := Option.map_eq_some_iff.1 h
    obtain ⟨-, ct, -, c, l, -, -, -, ⟨-, -, d₂, hd₂, rfl⟩ | ⟨-, -, rfl⟩⟩ := processFlrep_cases p he
    · exact (SameTables.requestFrags p hd₂).extable
    · rfl
  | exchUpdate => exact absurd htype hrep
  | addCacheSend => exact absurd htype hsend
  | cleanUp => exact absurd htype hclean

theorem ExchTable.live_iff {fileId fragId : U32} {e : ExchTable} :
    e.live fileId fragId = true ↔ e.expired ≠ 1 ∧ (e.fileId, e.fragId) = (fileId, fragId) := by
  simp [ExchTable.live, and_assoc]

theorem live_expireExtable {fileId fragId : U32} {e : ExchTable} {k : U32 × U32}
    (h : (if e.live fileId fragId then { e with expired := 1 } else e : ExchTable).live
      k.1 k.2 = true) :
    e.live k.1 k.2 = true := by
  split at h
  · exact absurd rfl (ExchTable.live_iff.1 h).1
  · exact h

/-- A message of another kind leaves the number of requests. -/
theorem round_append (d : Daemon) {g : Datagram} (h : g.payload.head? ≠ some exchangeReqMessage)
    (k : U32 × U32) : round p { d with sent := d.sent ++ [g] } k = round p d k := by
  have hkey : exchReqKey p g = none := if_neg h
  simp [round, List.countP_append, hkey]

/-- `select_agent` sends no exchange request. -/
theorem round_selectAgent (mem : Mem) (t : Task) (d : Daemon) (k : U32 × U32) :
    round p (selectAgent p mem t d) k = round p d k := by
  unfold selectAgent
  dsimp only
  split
  · unfold genAddCache sendMessage
    split
    · split
      · rfl
      · refine round_append { d with extable := _ } ?_ k
        simp [addCacheOctets, AddCache.store, header, addCacheMessage, exchangeReqMessage]
    · rfl
  · unfold round
    rw [(retrieveFrag_frame p _ _ _ _).2]

theorem broadcasts_iff {r : Run} {d e : Daemon} (h : runStep p r d = some e) (k : U32 × U32) :
    Broadcasts p r d k ↔ round p e k ≠ round p d k := by
  refine ⟨?_, fun hne => ⟨e, h, hne⟩⟩
  rintro ⟨e', he', hne⟩
  obtain rfl : e = e' := Option.some.inj (h.symm.trans he')
  exact hne

/-- As long as the entries keep their labels, they stay in their rounds exactly if no request is
broadcast for a fragment that an entry waits for. -/
theorem isolated_of_same {s : Rounds} {r : Run} {d : Daemon} (hs : Isolated p s)
    (h : runStep p r s.daemon = some d) (hext : d.extable = s.daemon.extable) :
    Isolated p ⟨d, s.answers⟩ ↔
      ∀ k, Broadcasts p r s.daemon k → ∀ e ∈ s.daemon.extable, e.live k.1 k.2 = false := by
  unfold Isolated at hs ⊢
  dsimp only
  rw [hext, List.forall₂_iff_zip, and_iff_right hs.length_eq]
  have hold : ∀ {e n}, (e, n) ∈ s.daemon.extable.zip s.answers → OwnRound p s.daemon e n :=
    (List.forall₂_iff_zip.1 hs).2
  constructor
  · intro hnew k hk e he
    obtain ⟨n, hn⟩ : ∃ n, (e, n) ∈ s.daemon.extable.zip s.answers := by
      rw [← List.map_fst_zip hs.length_eq.le] at he
      obtain ⟨⟨e', n⟩, hmem, rfl⟩ := List.mem_map.1 he
      exact ⟨n, hmem⟩
    by_contra hlive
    rw [Bool.not_eq_false] at hlive
    exact (broadcasts_iff h k).1 hk ((hnew hn k hlive).symm.trans (hold hn k hlive))
  · intro hfree e n hmem k hlive
    by_contra hne
    refine absurd hlive (Bool.eq_false_iff.1 (hfree k ((broadcasts_iff h k).2 fun heq => hne ?_) e
      (List.of_mem_zip hmem).1))
    rw [heq]
    exact hold hmem k hlive

/-- As long as no request is sent, the entries are in their rounds as before. -/
theorem ownRound_congr {d e : Daemon} (h : ∀ k, round p e k = round p d k) :
    OwnRound p e = OwnRound p d := by
  funext x n
  simp only [OwnRound, h]

/-- A reply enters its round. -/
theorem isolated_recvExrep {r : RoundRun} {s : Rounds} {d : Daemon} (hs : Isolated p s)
    (hrep : r.run.task.type = .exchUpdate) (h : runStep p r.run s.daemon = some d) :
    (∀ k, round p d k = round p s.daemon k) ∧
      (Isolated p ⟨d, answersAfter r s⟩ ↔ (r.run.mem.ok .extable 0 = true →
        ∀ k, exchRepKey p r.run.task = some k → r.answered = round p s.daemon k)) := by
  unfold runStep handle at h
  rw [hrep] at h
  obtain ⟨m, hm, he⟩ := Option.bind_eq_some_iff.1 h
  obtain rfl := Option.some.inj he
  have hkey : exchRepKey p r.run.task = some ((convertExrepToHost p.order m).fileId,
      (convertExrepToHost p.order m).fragId) := by
    rw [exchRepKey, hm]
    rfl
  have hround : ∀ k, round p (createExtable (r.run.mem.ok .extable 0)
      (convertExrepToHost p.order m) s.daemon) k = round p s.daemon k := by
    intro k
    cases r.run.mem.ok .extable 0 <;> rfl
  refine ⟨hround, ?_⟩
  unfold Isolated
  dsimp only
  rw [ownRound_congr hround, answersAfter, hrep]
  dsimp only
  cases hok : r.run.mem.ok .extable 0 with
  | false => exact iff_of_true hs fun hc => absurd hc Bool.false_ne_true
  | true =>
    refine List.forall₂_cons.trans ((and_iff_left hs).trans ?_)
    simp only [OwnRound, ExchTable.live_iff, hkey, Option.some.injEq, true_implies, and_imp,
      Prod.mk.eta]
    exact ⟨fun hn k hk => hn k (by decide) hk, fun hn k _ hk => hn k hk⟩

/-- Marking entries takes them out of the comparison. -/
theorem isolated_selectAgent {s : Rounds} (hs : Isolated p s) (mem : Mem) (t : Task) :
    Isolated p ⟨selectAgent p mem t s.daemon, s.answers⟩ := by
  have hext : (selectAgent p mem t s.daemon).extable =
      expireExtable t.fileId t.fragId s.daemon.extable := by
    obtain ⟨e, rfl, ⟨-, hsame⟩ | ⟨-, he⟩⟩ := selectAgent_cases p mem t s.daemon
    · exact (hsame .cleanUp).extable
    · rw [he, (retrieveFrag_frame p _ _ _ _).1]
  unfold Isolated
  dsimp only
  rw [ownRound_congr (round_selectAgent mem t s.daemon), hext, expireExtable,
    List.forall₂_map_left_iff]
  exact List.Forall₂.imp (fun e n hen k hlive => hen k (live_expireExtable hlive)) hs

/-- Two lists that are related entry by entry still are when entries of the first
one are removed with their partners. -/
theorem forall₂_filter_zip {α β : Type*} {R : α → β → Prop} (keep : α → Bool) {l : List α}
    {l' : List β} (h : List.Forall₂ R l l') :
    List.Forall₂ R (l.filter keep) (((l.zip l').filter fun x => keep x.1).map Prod.snd) := by
  induction h with
  | nil => exact .nil
  | @cons a b l l' hab _ ih =>
    by_cases hk : keep a = true
    · rw [List.zip_cons_cons, List.filter_cons_of_pos hk, List.filter_cons_of_pos (by exact hk)]
      exact .cons hab ih
    · rw [List.zip_cons_cons, List.filter_cons_of_neg hk, List.filter_cons_of_neg (by exact hk)]
      exact ih

theorem cleanUp_frame (mem : Mem) (clk : Clock) (d : Daemon) :
    (cleanUp p mem clk d).extable = d.extable.filter (fun e => e.expired != 1) ∧
      (cleanUp p mem clk d).sent = d.sent := by
  unfold cleanUp flushFloodIdQueue
  obtain ⟨q, hq⟩ := insertTimer_eq (mem.ok .task 0) clk .cleanUp flushInterval p.myIp 0 0
    { d with floodIdQueue := d.floodIdQueue.filter fun e => !timeBefore e.lifetime clk.now }
  rw [hq]
  obtain ⟨c, hc⟩ := updateTimerQueue_eq p clk
    { d with
      floodIdQueue := d.floodIdQueue.filter fun e => !timeBefore e.lifetime clk.now
      timerQueue := q }
  rw [hc]
  exact ⟨rfl, rfl⟩

theorem round_cleanUp (mem : Mem) (clk : Clock) (d : Daemon) (k : U32 × U32) :
    round p (cleanUp p mem clk d) k = round p d k := by
  unfold round
  rw [(cleanUp_frame mem clk d).2]

/-- Removing marked entries with their labels leaves the others as they are. -/
theorem isolated_cleanUp {s : Rounds} (hs : Isolated p s) (mem : Mem) (clk : Clock) :
    Isolated p ⟨cleanUp p mem clk s.daemon,
      ((s.daemon.extable.zip s.answers).filter fun x => x.1.expired != 1).map Prod.snd⟩ := by
  unfold Isolated
  dsimp only
  rw [ownRound_congr (round_cleanUp mem clk s.daemon), (cleanUp_frame mem clk s.daemon).1]
  exact forall₂_filter_zip (fun e => e.expired != 1) hs

/-- The step lemma: a handler run leaves the rounds isolated exactly under its condition. -/
theorem isolated_roundStep {r : RoundRun} {s t : Rounds} (hs : Isolated p s)
    (h : roundStep p r s = some t) : Isolated p t ↔ InRound p r s := by
  unfold roundStep at h
  split at h
  · obtain ⟨d, hd, rfl⟩ := Option.map_eq_some_iff.1 h
    have hquiet : (∀ k, round p d k = round p s.daemon k) →
        ∀ k, Broadcasts p r.run s.daemon k → ∀ e ∈ s.daemon.extable, e.live k.1 k.2 = false :=
      fun hround k hk => absurd (hround k) ((broadcasts_iff hd k).1 hk)
    by_cases hrep : r.run.task.type = .exchUpdate
    · obtain ⟨hround, hiff⟩ := isolated_recvExrep hs hrep hd
      exact hiff.trans ((and_iff_left (hquiet hround)).trans (imp_iff_right hrep)).symm
    have hin : InRound p r s ↔
        ∀ k, Broadcasts p r.run s.daemon k → ∀ e ∈ s.daemon.extable, e.live k.1 k.2 = false :=
      and_iff_right fun hc => absurd hc hrep
    by_cases hsend : r.run.task.type = .addCacheSend
    · have hrun := hd
      unfold runStep handle at hrun
      rw [hsend] at hrun
      obtain rfl := Option.some.inj hrun
      rw [answersAfter, hsend]
      exact iff_of_true (isolated_selectAgent hs _ _) (hin.2 (hquiet (round_selectAgent _ _ _)))
    by_cases hclean : r.run.task.type = .cleanUp
    · have hrun := hd
      unfold runStep handle at hrun
      rw [hclean] at hrun
      obtain rfl := Option.some.inj hrun
      rw [answersAfter, hclean]
      exact iff_of_true (isolated_cleanUp hs _ _) (hin.2 (hquiet (round_cleanUp _ _ _)))
    · have hans : answersAfter r s = s.answers := by
        unfold answersAfter
        split
        · contradiction
        · contradiction
        · rfl
      rw [hin, hans]
      exact isolated_of_same hs hd (extable_handle hd hrep hsend hclean)
  · cases h

/-- For any tasks in any order, with any replies: the entries stay in their rounds
throughout exactly if every reply is entered while its request is the newest one, and no
request is broadcast while replies for its fragment wait.  In such a run `select_agent`
compares the scores of the newest round only. -/
theorem isolated_iff (p : Params) {runs : List RoundRun} {s u : Rounds} (hs : Isolated p s)
    (he : exec (roundStep p) runs s = some u) :
    (Along (roundStep p) (Isolated p) runs s ↔ AllSteps (roundStep p) (InRound p) runs s) ∧
    (AllSteps (roundStep p) (InRound p) runs s →
      AllSteps (roundStep p) (SelectsInRound p) runs s) := by
  have hiff : Along (roundStep p) (Isolated p) runs s ↔ AllSteps (roundStep p) (InRound p) runs s :=
    along_iff_allSteps (fun _ _ _ _ hd h => isolated_roundStep hd h) hs he
  exact ⟨hiff, fun h => (hiff.2 h).allSteps fun r _ ht => ht.selectsInRound r⟩

/-! ## A late reply -/

/-- With `THRESHOLD = 1` every request in transit but the first starts a round. -/
def eagerNode : Params := { testNode with threshold := 1 }

/-- A request in transit for fragment (1, 1). -/
def passing : Run where
  mem := .plenty
  clk := ⟨0, 0⟩
  task := { createTask .fragReqUpdate ⟨0, 0⟩ with
    dstIp := 2, ttl := 5, data := frreqOctets eagerNode fragReqOriMessage 3 2 1 1 }

/-- A reply of node 7, with score 3. -/
def replying : Run where
  mem := .plenty
  clk := ⟨0, 0⟩
  task := { createTask .exchUpdate ⟨0, 0⟩ with data := exchRepOctets eagerNode 7 2 1 1 3 }

/-- The agent for fragment (1, 1) is chosen. -/
def selecting : Run where
  mem := .plenty
  clk := ⟨0, 0⟩
  task := { createTask .addCacheSend ⟨0, 0⟩ with dstIp := 2, fileId := 1, fragId := 1 }

/-- A first round, the reply to it after its end, and a second round. -/
def lateRun : List RoundRun :=
  [⟨passing, 0⟩, ⟨passing, 0⟩, ⟨selecting, 0⟩, ⟨replying, 1⟩, ⟨passing, 0⟩]

theorem exec_lateRun : ∃ t, exec (roundStep eagerNode) lateRun ⟨{}, []⟩ = some t ∧
    t.answers = [1] ∧ round eagerNode t.daemon (1, 1) = 2 ∧
    t.daemon.extable = [{ fileId := 1, fragId := 1, dstIp := 2, neighIp := 7, score := 3,
                          expired := 0 }] := by
  have hrun : (exec (roundStep eagerNode) lateRun ⟨{}, []⟩).any (fun t => decide (t.answers = [1] ∧
      round eagerNode t.daemon (1, 1) = 2 ∧
      t.daemon.extable = [{ fileId := 1, fragId := 1, dstIp := 2, neighIp := 7, score := 3,
                            expired := 0 }])) = true := by decide +kernel
  obtain ⟨t, ht, hq⟩ := (Option.any_eq_true _ _).1 hrun
  exact ⟨t, ht, of_decide_eq_true hq⟩

/-- The late reply takes the entries out of their rounds. -/
theorem isolated_iff_lateRun :
    ¬ AllSteps (roundStep eagerNode) (InRound eagerNode) lateRun ⟨{}, []⟩ := by
  obtain ⟨t, ht, hans, hround, hext⟩ := exec_lateRun
  rw [← (isolated_iff eagerNode Isolated.start ht).1]
  intro h
  have hlate : Isolated eagerNode t := Along.reached (by rwa [List.append_nil]) ht
  unfold Isolated at hlate
  rw [hext, hans] at hlate
  obtain ⟨hown, -⟩ := List.forall₂_cons.1 hlate
  exact absurd ((hown (1, 1) (by decide)).trans hround) (by decide)

/-- A reply to the first round is compared in the second one. -/
theorem not_isolated_lateRun :
    ¬ ∀ (p : Params) (runs : List RoundRun) (u : Rounds),
      exec (roundStep p) runs ⟨{}, []⟩ = some u →
      AllSteps (roundStep p) (SelectsInRound p) runs ⟨{}, []⟩ := by
  intro h
  obtain ⟨t, ht, hans, hround, hext⟩ := exec_lateRun
  obtain ⟨v, hv⟩ : ∃ v, exec (roundStep eagerNode) (lateRun ++ [⟨selecting, 0⟩]) ⟨{}, []⟩ =
      some v := by
    rw [exec_append, ht]
    exact ⟨_, rfl⟩
  obtain ⟨-, hsel, -⟩ := (allSteps_append ht).1 (h eagerNode _ _ hv)
  have hnew := (hsel rfl).1
  rw [hext, hans] at hnew
  have hone : 1 = round eagerNode t.daemon (1, 1) := hnew _ (List.mem_singleton_self _) (by decide)
  omega

end MobileCloudCaching.Caching

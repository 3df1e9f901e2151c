import MobileCloudCaching.Caching.Codec
import MobileCloudCaching.Caching.Flood
import MobileCloudCaching.Caching.Retrieval

/-!
# Where fragments come from

A reply lists fragments that its sender has in its cache.  The requests for them, the exchanges that
these start, and the prefetches that an exchange ends in all speak of a fragment and of the node
that has replied: this node has had the fragment.  Nobody vouches for it but the node itself, and no
message is looked at by any other node, so the property is one of the whole network.
-/

namespace MobileCloudCaching.Caching

open Octets Transition

/-! ## What is vouched for -/

section Vouched

variable (V : U32 → U32 → U32 → Prop)

/-- The type of the task that a message becomes. -/
def Message.taskType : Message → TaskType
  | .flreq _ _ _ => .fileReqProcess
  | .flrep _ _ _ _ _ => .fileRepProcess
  | .frreqOri _ _ _ _ => .fragReqUpdate
  | .frreqFwd _ _ _ _ => .fragReqFlush
  | .exreq _ _ _ _ => .exchSend
  | .exrep _ _ _ _ _ => .exchUpdate
  | .addcache _ _ _ _ => .addCacheProcess

/-- The message, on its way to `dst`, speaks of fragments that the node it names has had;
`V ip fileId fragId` says so for the node with the address `ip`. -/
def Message.Vouched (dst : U32) : Message → Prop
  | .flreq _ _ _ => True
  | .flrep srcIp _ fileId _ frags => frags.length ≤ 8 ∧ ∀ x ∈ frags, V srcIp fileId x
  | .frreqOri _ dstIp fileId fragId | .frreqFwd _ dstIp fileId fragId =>
    dst = dstIp ∧ V dstIp fileId fragId
  | .exreq _ dstIp fileId fragId | .exrep _ dstIp fileId fragId _
  | .addcache _ dstIp fileId fragId => V dstIp fileId fragId

/-- A file request, or one of the other messages. -/
def Datagram.Vouched (g : Datagram) : Prop :=
  g.payload[0]? = some fileReqMessage ∨
    ∃ q msg, g.payload = Message.octets q msg ∧ msg.Vouched V g.dst

def Task.Vouched (t : Task) : Prop :=
  match t.type with
  | .fragReqSend | .cleanUp => True
  | .fileReqProcess => t.data[0]? = some fileReqMessage
  | .addCacheSend => V t.dstIp t.fileId t.fragId
  | type => ∃ q msg, t.data = Message.octets q msg ∧ msg.taskType = type ∧ msg.Vouched V t.dstIp

def FileRepInfo.Vouched (r : FileRepInfo) : Prop :=
  r.fragCount.toNat ≤ 8 ∧ ∀ x ∈ r.frags, V r.dstIp r.fileId x

end Vouched

section Mono

variable {V W : U32 → U32 → U32 → Prop} (h : ∀ ip fileId fragId, V ip fileId fragId →
  W ip fileId fragId)

include h

theorem Message.Vouched.mono {dst : U32} {msg : Message} (hm : msg.Vouched V dst) :
    msg.Vouched W dst := by
  cases msg with
  | flreq srcIp fileId seq => trivial
  | flrep srcIp dstIp fileId dist frags => exact ⟨hm.1, fun x hx => h _ _ _ (hm.2 x hx)⟩
  | frreqOri srcIp dstIp fileId fragId => exact ⟨hm.1, h _ _ _ hm.2⟩
  | frreqFwd srcIp dstIp fileId fragId => exact ⟨hm.1, h _ _ _ hm.2⟩
  | exreq srcIp dstIp fileId fragId => exact h _ _ _ hm
  | exrep srcIp dstIp fileId fragId score => exact h _ _ _ hm
  | addcache srcIp dstIp fileId fragId => exact h _ _ _ hm

theorem Datagram.Vouched.mono {g : Datagram} (hg : g.Vouched V) : g.Vouched W :=
  hg.imp_right fun ⟨q, msg, hp, hm⟩ => ⟨q, msg, hp, hm.mono h⟩

theorem Task.Vouched.mono {t : Task} (ht : t.Vouched V) : t.Vouched W := by
  unfold Task.Vouched at ht ⊢
  cases htype : t.type <;> rw [htype] at ht <;>
    first
    | exact ht
    | exact h _ _ _ ht
    | exact ht.imp fun q ⟨msg, hp, hmsg, hm⟩ => ⟨msg, hp, hmsg, hm.mono h⟩

theorem FileRepInfo.Vouched.mono {r : FileRepInfo} (hr : r.Vouched V) : r.Vouched W :=
  ⟨hr.1, fun x hx => h _ _ _ (hr.2 x hx)⟩

end Mono

/-! ## What a handler adds -/

/-- The daemon gets from `d` to `e` with nothing that is not vouched for. -/
structure Grows (V : U32 → U32 → U32 → Prop) (d e : Daemon) : Prop where
  sent : ∃ new, e.sent = d.sent ++ new ∧ ∀ g ∈ new, g.Vouched V
  timers : ∀ t ∈ e.timerQueue, t ∈ d.timerQueue ∨ t.Vouched V
  tasks : e.taskQ = d.taskQ
  rinfo : (∀ r ∈ d.rinfo, r.Vouched V) → ∀ r ∈ e.rinfo, r.Vouched V
  ctable : ∀ k ∈ e.ctable.map CacheTable.key,
    k ∈ d.ctable.map CacheTable.key ∨ ∃ ip, V ip k.1 k.2

namespace Grows

variable {V : U32 → U32 → U32 → Prop} {p : Params} {d e f : Daemon} {mem : Mem} {clk : Clock}

theorem nothing_sent (hs : e.sent = d.sent) :
    ∃ new, e.sent = d.sent ++ new ∧ ∀ g ∈ new, g.Vouched V :=
  ⟨[], by rw [hs, List.append_nil], fun _ h => absurd h List.not_mem_nil⟩

theorem of_eq (hs : e.sent = d.sent) (ht : e.timerQueue = d.timerQueue) (hq : e.taskQ = d.taskQ)
    (hr : e.rinfo = d.rinfo) (hc : e.ctable.map CacheTable.key = d.ctable.map CacheTable.key) :
    Grows V d e where
  sent := nothing_sent hs
  timers _ h := Or.inl (ht ▸ h)
  tasks := hq
  rinfo h := hr ▸ h
  ctable _ h := Or.inl (hc ▸ h)

theorem refl (d : Daemon) : Grows V d d := of_eq rfl rfl rfl rfl rfl

theorem trans (h : Grows V d e) (h' : Grows V e f) : Grows V d f where
  sent := by
    obtain ⟨l, hl, hg⟩ := h.sent
    obtain ⟨l', hl', hg'⟩ := h'.sent
    refine ⟨l ++ l', by rw [hl', hl, List.append_assoc], fun g hmem => ?_⟩
    exact (List.mem_append.1 hmem).elim (hg g) (hg' g)
  timers t ht := (h'.timers t ht).elim (h.timers t) Or.inr
  tasks := h'.tasks.trans h.tasks
  rinfo hr := h'.rinfo (h.rinfo hr)
  ctable k hk := (h'.ctable k hk).elim (h.ctable k) Or.inr

theorem ite (ok : Bool) (h : Grows V d e) : Grows V d (if ok then e else d) := by
  cases ok
  · exact refl d
  · exact h

theorem of_sent {g : Datagram} (hg : g.Vouched V) : Grows V d { d with sent := d.sent ++ [g] } where
  sent := ⟨[g], rfl, fun _ h => List.mem_singleton.1 h ▸ hg⟩
  timers _ := Or.inl
  tasks := rfl
  rinfo h := h
  ctable _ := Or.inl

theorem sendMessage {dst : U32} {payload : List Byte} (ttl : Byte)
    (hg : ∀ ttl, Datagram.Vouched V { dst := dst, ttl := ttl, payload := payload }) (d : Daemon) :
    Grows V d (sendMessage dst ttl payload d) := by
  unfold Caching.sendMessage
  split
  · exact refl d
  · exact of_sent (hg ttl)

theorem localBroadcast {payload : List Byte} (ttl : Byte)
    (hg : ∀ ttl, Datagram.Vouched V { dst := broadcastIp, ttl := ttl, payload := payload })
    (d : Daemon) : Grows V d (localBroadcast ttl payload d) := by
  unfold Caching.localBroadcast
  split
  · exact refl d
  · exact of_sent (hg ttl)

theorem insertTimer (ok : Bool) {type : TaskType} {delay : ℕ} {ip fileId fragId : U32}
    (h : Task.Vouched V { createTask type clk with
      srcIp := ip, dstIp := ip, fileId := fileId, fragId := fragId, time := clk.now + delay })
    (d : Daemon) : Grows V d (insertTimer ok clk type delay ip fileId fragId d) := by
  cases ok
  · exact refl d
  · refine ⟨nothing_sent rfl, fun t ht => ?_, rfl, fun h => h, fun _ => Or.inl⟩
    rcases List.mem_cons.1 ((insertByTime_perm _ _).subset ht) with rfl | ht
    · exact Or.inr h
    · exact Or.inl ht

theorem updateTimerQueue (p : Params) (clk : Clock) (d : Daemon) :
    Grows V d (updateTimerQueue p clk d) := by
  obtain ⟨c, hc⟩ := updateTimerQueue_eq p clk d
  rw [hc]
  exact of_eq rfl rfl rfl rfl rfl

theorem genExchReq (p : Params) (ok : Bool) {srcIp dstIp fileId fragId : U32}
    (h : V dstIp fileId fragId) (d : Daemon) :
    Grows V d (genExchReq p ok srcIp dstIp fileId fragId d) :=
  (localBroadcast _ (fun _ => Or.inr ⟨p, .exreq srcIp dstIp fileId fragId, rfl, h⟩) _).ite ok

theorem genExchRep (p : Params) (ok : Bool) {srcIp dstIp neighIp fileId fragId score : U32}
    (h : V dstIp fileId fragId) (d : Daemon) :
    Grows V d (genExchRep p ok srcIp dstIp neighIp fileId fragId score d) :=
  (sendMessage _ (fun _ => Or.inr ⟨p, .exrep srcIp dstIp fileId fragId score, rfl, h⟩) _).ite
    ok

theorem genAddCache (p : Params) (ok : Bool) {srcIp dstIp fileId fragId : U32}
    (h : V dstIp fileId fragId) (d : Daemon) :
    Grows V d (genAddCache p ok srcIp dstIp fileId fragId d) :=
  (sendMessage _ (fun _ => Or.inr ⟨p, .addcache srcIp dstIp fileId fragId, rfl, h⟩) _).ite ok

theorem genFrreq (p : Params) (ok : Bool) {srcIp dstIp fileId fragId : U32}
    (h : V dstIp fileId fragId) (d : Daemon) :
    Grows V d (genFrreq p ok srcIp dstIp fileId fragId d) :=
  (sendMessage _ (fun _ => Or.inr ⟨p, .frreqOri srcIp dstIp fileId fragId, rfl, rfl, h⟩) _).ite
    ok

theorem genFrreqByTask (hbig : p.order = .big) (ok : Bool) (t : Task) {base : FragReq}
    (h : V base.dstIp base.fileId base.fragId) (d : Daemon) :
    Grows V d (genFrreqByTask p ok t base d) := by
  refine (sendMessage _ (fun _ => Or.inr
    ⟨p, .frreqFwd base.srcIp base.dstIp base.fileId base.fragId, rfl, ?_, h⟩) _).ite ok
  rw [hbig, hton_big]

/-- A reply lists what the node has. -/
theorem genFlrep (hk : p.kval.toInt ≤ 8) (ok : Bool)
    {dstIp fileId dist : U32}
    (hheld : ∀ k ∈ d.ctable.map CacheTable.key, V p.myIp k.1 k.2) :
    Grows V d (genFlrep p ok p.myIp dstIp fileId dist d) := by
  unfold Caching.genFlrep
  dsimp only
  split
  · exact refl d
  · refine (sendMessage _ (fun _ => Or.inr ⟨p, .flrep p.myIp dstIp fileId dist
      (heldFrags p.kval.toInt fileId d.ctable 0), rfl, ?_, fun x hx => ?_⟩) _).ite ok
    · rw [length_heldFrags]
      omega
    · rw [heldFrags_eq_take] at hx
      exact hheld (fileId, x) (mem_fragsOf_iff.1 (List.mem_of_mem_take hx))

theorem createCache {ip fileId fragId : U32} (h : V ip fileId fragId) (ok : Bool) (flag : U32)
    (d : Daemon) : Grows V d (createCache ok fileId fragId flag d) := by
  refine ite ok ⟨nothing_sent rfl, fun _ => Or.inl, rfl, fun h => h, fun k hk => ?_⟩
  rcases List.mem_cons.1 hk with rfl | hk
  · exact Or.inr ⟨ip, h⟩
  · exact Or.inl hk

theorem removeCache (i : ℕ) (d : Daemon) : Grows V d (removeCache i d) where
  sent := nothing_sent rfl
  timers _ := Or.inl
  tasks := rfl
  rinfo h := h
  ctable _ hk := Or.inl (((List.eraseIdx_sublist _ i).map CacheTable.key).subset hk)

theorem retrieveFrag {ip fileId fragId : U32} (h : V ip fileId fragId) (ok : Bool) (d : Daemon) :
    Grows V d (retrieveFrag p ok fileId fragId d).2 := by
  have hcount : Grows V d { d with cPrefetch := d.cPrefetch + 1 } := of_eq rfl rfl rfl rfl rfl
  rcases retrieveFrag_cases p ok fileId fragId d with
    ⟨-, hr⟩ | ⟨-, e, rfl, ⟨-, hr⟩ | ⟨-, -, hr⟩ | ⟨-, i, -, hr⟩⟩
  · rw [hr]
    exact refl d
  · rw [hr]
    exact hcount.trans (createCache h ok 0 _)
  · rw [hr]
    exact hcount
  · rw [hr]
    exact (hcount.trans (removeCache i _)).trans (createCache h ok 0 _)

theorem setCount (fileId fragId : U32) (f : U32 → U32) (d : Daemon) :
    Grows V d (setCount fileId fragId f d) := of_eq rfl rfl rfl rfl rfl

theorem countFrreq {i : ℕ} {dstIp fileId fragId : U32}
    {forward : Daemon → Daemon} (hV : V dstIp fileId fragId) (hforward : ∀ d, Grows V d (forward d))
    (h : countFrreq p mem clk i dstIp fileId fragId forward d = some e) : Grows V d e := by
  unfold Caching.countFrreq at h
  split at h
  · split at h
    · obtain rfl := Option.some.inj h
      have hcreate : Grows V d (createCreq fileId fragId d) := of_eq rfl rfl rfl rfl rfl
      exact hcreate.trans (setCount _ _ _ _)
    · cases h
  · split at h
    · obtain rfl := Option.some.inj h
      exact (setCount fileId fragId (fun _ => 0) d).trans <| (hforward _).trans <|
        (genExchReq p _ hV _).trans <| (insertTimer _ (by exact hV) _).trans <|
          updateTimerQueue _ _ _
    · obtain rfl := Option.some.inj h
      exact setCount _ _ _ _

theorem requestFrags {fileId : U32} {l : List (U32 × U32)} {i : ℕ}
    (hV : ∀ x ∈ l, V x.1 fileId x.2)
    (h : requestFrags p mem clk fileId l i d = some e) : Grows V d e := by
  induction l generalizing i d with
  | nil =>
    obtain rfl := Option.some.inj h
    exact refl d
  | cons x l ih =>
    obtain ⟨c, hc, he⟩ := Option.bind_eq_some_iff.1 h
    obtain ⟨hx, hl⟩ := List.forall_mem_cons.1 hV
    have hsent : Grows V d (Caching.genFrreq p (mem.ok .message (2 * i)) p.myIp x.1 fileId x.2 d) :=
      genFrreq p _ hx d
    split at hc
    · exact hsent.trans ((countFrreq hx refl hc).trans (ih hl he))
    · obtain rfl := Option.some.inj hc
      exact hsent.trans (ih hl he)

end Grows

/-! ## File replies -/

section Replies

variable {V : U32 → U32 → U32 → Prop} {p q : Params} {d e : Daemon} {t : Task}

/-- The entry for a reply lists what the reply does. -/
theorem vouched_fillRinfo (hbig : p.order = .big) {srcIp dstIp fileId dist : U32}
    {frags : List U32} (ht : t.data = flrepOctets q srcIp dstIp fileId dist frags)
    (hlen : frags.length ≤ 8) (hV : ∀ x ∈ frags, V srcIp fileId x) {m : FileRep}
    (hm : FileRep.load p.order t.data = some m) (map : Vector U32 8) :
    (fillRinfo p.order map m (fragsOfTask p.order t)).value.Vouched V := by
  rw [load_flrep ht, hbig] at hm
  obtain rfl := Option.some.inj hm
  have hcount := toNat_fragCount hlen
  have hrounds : ((BitVec.ofNat 8 frags.length).setWidth 32 : U32).toInt.toNat = frags.length := by
    rw [BitVec.toInt_eq_toNat_of_lt (by omega), hcount, Int.toNat_natCast]
  rw [hbig]
  simp only [fillRinfo, hton_big, hrounds]
  generalize hr : (⟨fileId, srcIp, dist, map, (BitVec.ofNat 8 frags.length).setWidth 32, 0⟩ :
    FileRepInfo) = r
  have hfrags : (copyFrags .big (fragsOfTask .big t) frags.length 0 r).value.fragCount =
      r.fragCount := fragCount_copyFrags _ _ (by omega) r
  have hfile : (copyFrags .big (fragsOfTask .big t) frags.length 0 r).value.fileId = r.fileId :=
    fileId_copyFrags _ _ _ _ r
  have hdst := (dist_copyFrags .big (fragsOfTask .big t) frags.length 0 r).2
  have hnum : r.fragCount.toNat = frags.length := by rw [← hr, hcount]
  refine ⟨by rw [hfrags, hnum]; exact hlen, fun x hx => ?_⟩
  rw [FileRepInfo.frags, hfrags, hnum] at hx
  obtain ⟨j, hj, rfl⟩ := List.mem_take_iff_getElem.1 hx
  have hj' : j < frags.length ∧ j < 8 := by simpa using hj
  rw [hfile, hdst, Vector.getElem_toList, map_copyFrags .big _ (by omega) r hj'.2,
    if_pos (by omega), fragsOfTask_flrep ht hj'.1, hton_big, hton_big, ← hr]
  exact hV _ (List.getElem_mem _)

/-- What has been written to the arrays of `process_flrep` is vouched for. -/
def Chosen (V : U32 → U32 → U32 → Prop) (fileId : U32) (c : Choice) : Prop :=
  c.frag.length = c.dst.length ∧ ∀ i : ℕ, c.need ≤ i → ∀ a ∈ c.dst[i]?, ∀ x ∈ c.frag[i]?,
    V a fileId x

variable {fileId : U32} {c c' : Choice} {l l' : List FileRepInfo}

theorem Chosen.add (h : Chosen V fileId c) {dist dstIp x : U32} (hV : V dstIp fileId x)
    (hc : c.add dist dstIp x = some c') : Chosen V fileId c' := by
  unfold Choice.add at hc
  split at hc
  · obtain rfl := Option.some.inj hc
    rename_i hneed
    refine ⟨by simpa using h.1, fun i hi a ha y hy => ?_⟩
    by_cases hlast : (c.need - 1).toNat = i
    · have hlt : i < c.dst.length := by omega
      simp only [hlast, List.getElem?_set_self hlt, List.getElem?_set_self (h.1 ▸ hlt),
        Option.mem_def, Option.some.injEq] at ha hy
      rw [← ha, ← hy]
      exact hV
    · simp only [List.getElem?_set_ne hlast] at ha hy
      exact h.2 i (by dsimp only at hi; omega) a ha y hy
  · cases hc

theorem Chosen.fillMap {kval : ℤ} {r : FileRepInfo} (hr : r.Vouched V) (hfile : r.fileId = fileId)
    {n i : ℕ} (hi : i + n ≤ r.fragCount.toNat) (h : Chosen V fileId c)
    (hc : (fillMap kval r n i c).value = some c') : Chosen V fileId c' := by
  induction n generalizing i c with
  | zero =>
    obtain rfl : c = c' := Option.some.inj hc
    exact h
  | succ n ih =>
    have h8 := hr.1
    have hlt : i < 8 := by omega
    have hread : r.loadMap i = some r.map[i] := by rw [FileRepInfo.loadMap, dif_pos hlt]
    have hx : V r.dstIp fileId r.map[i] := by
      refine hfile ▸ hr.2 _ (List.mem_take_iff_getElem.2 ⟨i, ?_, Vector.getElem_toList _⟩)
      rw [Vector.length_toList]
      omega
    rw [Caching.fillMap] at hc
    split at hc
    · simp only [Traced.value_bind, Traced.value_access, hread] at hc
      by_cases hmem : r.map[i] ∈ c.buf
      · simp only [hmem, if_true] at hc
        exact ih (by omega) h hc
      · simp only [hmem, if_false] at hc
        cases hadd : c.add r.dist r.dstIp r.map[i] with
        | none =>
          simp only [hadd] at hc
          cases hc
        | some c₁ =>
          simp only [hadd] at hc
          exact ih (by omega) (h.add hx hadd) hc
    · obtain rfl : c = c' := Option.some.inj hc
      exact h

/-- All that `process_flrep` requests is vouched for. -/
theorem Chosen.chooseFrags {kval : ℤ} {fuel : ℕ} {enough : Bool}
    (hl : ∀ r ∈ l, r.Vouched V) (h : Chosen V fileId c)
    (hc : chooseFrags kval fileId fuel c l = some (enough, c', l')) :
    (∀ r ∈ l', r.Vouched V) ∧
      (enough = true → ∀ x ∈ c'.dst.zip c'.frag, V x.1 fileId x.2) := by
  induction fuel generalizing c l with
  | zero => cases hc
  | succ fuel ih =>
    rw [Caching.chooseFrags] at hc
    split at hc
    · split at hc
      · obtain ⟨rfl, -, rfl⟩ : false = enough ∧ c = c' ∧ l = l' := by simpa using hc
        exact ⟨hl, fun hf => Bool.noConfusion hf⟩
      · rename_i i hi
        obtain ⟨r, hr, hc⟩ := Option.bind_eq_some_iff.1 hc
        obtain ⟨c₁, hc₁, hc⟩ := Option.bind_eq_some_iff.1 hc
        obtain ⟨r', hr', hlive, -⟩ := nearest_eq_some hi
        obtain rfl : r = r' := Option.some.inj (hr.symm.trans hr')
        have hmem : r ∈ l := List.mem_of_getElem? hr
        have hfile : r.fileId = fileId := by
          simp only [FileRepInfo.live, Bool.and_eq_true, beq_iff_eq] at hlive
          exact hlive.2
        refine ih (fun x hx => ?_) (Chosen.fillMap (hl r hmem) hfile (by omega) h hc₁) hc
        obtain ⟨j, hj⟩ := List.mem_iff_getElem?.1 hx
        rw [List.getElem?_modify] at hj
        obtain ⟨y, hy, rfl⟩ := Option.map_eq_some_iff.1 hj
        split
        · exact hl y (List.mem_of_getElem? hy)
        · exact hl y (List.mem_of_getElem? hy)
    · obtain ⟨rfl, rfl, rfl⟩ : true = enough ∧ c = c' ∧ l = l' := by simpa using hc
      refine ⟨hl, fun _ x hx => ?_⟩
      obtain ⟨i, hi, rfl⟩ := List.getElem_of_mem hx
      rw [List.getElem_zip]
      exact h.2 i (by omega) _ (List.getElem?_eq_getElem _) _ (List.getElem?_eq_getElem _)

end Replies

/-! ## Handlers -/

namespace Grows

variable {V : U32 → U32 → U32 → Prop} {p q : Params} {d e : Daemon} {t : Task} {mem : Mem}
  {clk : Clock}

theorem recvFlreq (hk : p.kval.toInt ≤ 8)
    (hheld : ∀ k ∈ d.ctable.map CacheTable.key, V p.myIp k.1 k.2)
    (ht : t.data[0]? = some fileReqMessage) (h : recvFlreq p mem clk t d = some e) :
    Grows V d e := by
  obtain ⟨m, -, rfl | ⟨m', -, -, -, rfl⟩⟩ := recvFlreq_cases p h
  · exact refl _
  · have hflood : Grows V d (insertFloodId (mem.ok .floodId 0) m'.srcIp m'.dstIp m'.seq
        (clk.now + fileRequestLifetime) d) := ite _ (of_eq rfl rfl rfl rfl rfl)
    have hctable : (insertFloodId (mem.ok .floodId 0) m'.srcIp m'.dstIp m'.seq
        (clk.now + fileRequestLifetime) d).ctable = d.ctable := by
      unfold insertFloodId
      split <;> rfl
    refine (hflood.trans (genFlrep hk (mem.ok .message 0) (by rw [hctable]; exact hheld))).trans
      (localBroadcast _ (fun _ => Or.inl ?_) _)
    obtain ⟨hlt, h0⟩ := List.getElem?_eq_some_iff.1 ht
    rw [List.getElem?_append_left (by rw [List.length_take]; omega), List.getElem?_take_of_lt
      (by decide), ht]

theorem recvFlrep (hbig : p.order = .big) {srcIp dstIp fileId dist : U32} {frags : List U32}
    (hdata : t.data = flrepOctets q srcIp dstIp fileId dist frags) (hlen : frags.length ≤ 8)
    (hV : ∀ x ∈ frags, V srcIp fileId x) (h : recvFlrep p mem clk t d = some e) : Grows V d e := by
  unfold Caching.recvFlrep at h
  split at h
  · obtain rfl := Option.some.inj h
    exact refl _
  · obtain ⟨m, hm, h⟩ := Option.bind_eq_some_iff.1 h
    have hstart : Grows V d (startTimer p mem clk m.fileId d) := by
      unfold startTimer
      split
      · exact (insertTimer _ (by exact trivial) _).trans (updateTimerQueue _ _ _)
      · exact refl _
    have hvalue := vouched_fillRinfo hbig hdata hlen hV hm mem.map
    rcases createRinfo_cases p h with ⟨-, rfl⟩ | ⟨-, rfl⟩
    · exact hstart
    · exact hstart.trans ⟨nothing_sent rfl, fun _ => Or.inl, rfl,
        fun hr => List.forall_mem_cons.2 ⟨hvalue, hr⟩, fun _ => Or.inl⟩

theorem updateRef (fileId fragId : U32) (d : Daemon) : Grows V d (updateRef fileId fragId d) :=
  of_eq rfl rfl rfl rfl (map_key_updateRefs _ _ _)

theorem recvFrreqOri (hbig : p.order = .big) {srcIp dstIp fileId fragId : U32}
    (hdata : t.data = frreqOctets q fragReqOriMessage srcIp dstIp fileId fragId)
    (hdst : t.dstIp = dstIp) (hV : V dstIp fileId fragId)
    (h : recvFrreqOri p mem clk t d = some e) : Grows V d e := by
  obtain ⟨m, hm, h⟩ := Option.bind_eq_some_iff.1 h
  rw [hdata, frreqOctets, load_store_frreq] at hm
  obtain rfl := Option.some.inj hm
  simp only [seen_hton, hbig, hton_big, convertFrreqToHost] at h
  split at h
  · obtain rfl := Option.some.inj h
    exact ite _ (updateRef _ _ _)
  · split at h
    · exact countFrreq (hdst ▸ hV) (genFrreqByTask hbig _ _ hV) h
    · obtain rfl := Option.some.inj h
      exact refl _

theorem recvFrreqFwd (h : recvFrreqFwd p t d = some e) : Grows V d e := by
  obtain ⟨m, -, h⟩ := Option.bind_eq_some_iff.1 h
  split at h
  · obtain rfl := Option.some.inj h
    exact updateRef _ _ _
  · obtain rfl := Option.some.inj h
    exact setCount _ _ _ _

theorem recvExreq (hbig : p.order = .big) {srcIp dstIp fileId fragId : U32}
    (hdata : t.data = exchReqOctets q srcIp dstIp fileId fragId) (hV : V dstIp fileId fragId)
    (h : recvExreq p mem t d = some e) : Grows V d e := by
  obtain ⟨m, hm, h⟩ := Option.bind_eq_some_iff.1 h
  rw [hdata, exchReqOctets, load_store_exreq] at hm
  obtain rfl := Option.some.inj hm
  obtain rfl := Option.some.inj h
  refine genExchRep p _ ?_ d
  simpa only [seen_hton, hbig, hton_big, convertExreqToHost] using hV

theorem recvAddcache (hbig : p.order = .big) {srcIp dstIp fileId fragId : U32}
    (hdata : t.data = addCacheOctets q srcIp dstIp fileId fragId) (hV : V dstIp fileId fragId)
    (h : recvAddcache p mem t d = some e) : Grows V d e := by
  obtain ⟨m, hm, h⟩ := Option.bind_eq_some_iff.1 h
  rw [hdata, addCacheOctets, load_store_addcache] at hm
  obtain rfl := Option.some.inj hm
  obtain rfl := Option.some.inj h
  simp only [seen_hton, hbig, hton_big, convertAddcacheToHost]
  exact retrieveFrag hV _ d

theorem processFlrep (hrinfo : ∀ r ∈ d.rinfo, r.Vouched V) {r : ℤ}
    (h : processFlrep p mem clk t d = some (r, e)) : Grows V d e := by
  obtain ⟨buf, ct, enough, c, l, -, hkey, hc, h⟩ := processFlrep_cases p h
  have hstart : Chosen V t.fileId
      { buf := buf, need := p.kval.toInt - buf.length, energy := 0,
        dst := List.replicate (p.kval.toInt - buf.length).toNat 0,
        frag := List.replicate (p.kval.toInt - buf.length).toNat 0 } := by
    refine ⟨by simp, fun i hi a ha => ?_⟩
    obtain ⟨hlt, -⟩ := List.getElem?_eq_some_iff.1 ha
    rw [List.length_replicate] at hlt
    dsimp only at hi
    omega
  obtain ⟨hl, hchosen⟩ := Chosen.chooseFrags hrinfo hstart hc
  have hmark : ∀ energy success, Grows V d
      { d with ctable := ct, rinfo := l, cEnergy := energy, cSuccess := success } :=
    fun energy success => ⟨nothing_sent rfl, fun _ => Or.inl, rfl, fun _ => hl,
      fun k hk => Or.inl (hkey ▸ hk)⟩
  rcases h with ⟨rfl, -, d₂, hd₂, rfl⟩ | ⟨-, -, rfl⟩
  · refine ((hmark _ _).trans (requestFrags (hchosen rfl) hd₂)).trans
      ⟨nothing_sent rfl, fun _ => Or.inl, rfl, fun hr x hx => ?_, fun _ => Or.inl⟩
    obtain ⟨y, hy, rfl⟩ := List.mem_map.1 hx
    split
    · exact hr y hy
    · exact hr y hy
  · exact hmark _ _

theorem selectAgent (p : Params) (mem : Mem) (hV : V t.dstIp t.fileId t.fragId) (d : Daemon) :
    Grows V d (selectAgent p mem t d) := by
  have hmark : Grows V d { d with extable := expireExtable t.fileId t.fragId d.extable } :=
    of_eq rfl rfl rfl rfl rfl
  unfold Caching.selectAgent
  dsimp only
  split
  · exact hmark.trans (genAddCache p _ hV _)
  · exact hmark.trans (retrieveFrag hV _ _)

theorem cleanUp (p : Params) (mem : Mem) (clk : Clock) (d : Daemon) :
    Grows V d (cleanUp p mem clk d) := by
  have hflood : Grows V d (flushFloodIdQueue p mem clk d) :=
    (of_eq rfl rfl rfl rfl rfl : Grows V d { d with
      floodIdQueue := d.floodIdQueue.filter fun e => !timeBefore e.lifetime clk.now }).trans
      ((insertTimer _ (by exact trivial) _).trans (updateTimerQueue _ _ _))
  exact hflood.trans ⟨nothing_sent rfl, fun _ => Or.inl, rfl,
    fun hr r hr' => hr r (List.mem_filter.1 hr').1, fun _ => Or.inl⟩

/-- Nothing that is not vouched for is made by a handler, when its task, the replies that it finds
and what the node itself has are. -/
theorem handle (hbig : p.order = .big) (hk : p.kval.toInt ≤ 8)
    (hheld : ∀ k ∈ d.ctable.map CacheTable.key, V p.myIp k.1 k.2)
    (hrinfo : ∀ r ∈ d.rinfo, r.Vouched V) (ht : t.Vouched V)
    (h : handle p mem clk t d = some e) : Grows V d e := by
  unfold Caching.handle at h
  rw [Task.Vouched] at ht
  cases htype : t.type with
  | fileReqProcess =>
    rw [htype] at h ht
    exact recvFlreq hk hheld ht h
  | fileRepProcess =>
    rw [htype] at h ht
    obtain ⟨q, msg, hdata, hmsg, hV⟩ := ht
    cases msg with
    | flrep srcIp dstIp fileId dist frags => exact recvFlrep hbig hdata hV.1 hV.2 h
    | _ => cases hmsg
  | fragReqUpdate =>
    rw [htype] at h ht
    obtain ⟨q, msg, hdata, hmsg, hV⟩ := ht
    cases msg with
    | frreqOri srcIp dstIp fileId fragId => exact recvFrreqOri hbig hdata hV.1 hV.2 h
    | _ => cases hmsg
  | fragReqFlush =>
    rw [htype] at h
    exact recvFrreqFwd h
  | exchSend =>
    rw [htype] at h ht
    obtain ⟨q, msg, hdata, hmsg, hV⟩ := ht
    cases msg with
    | exreq srcIp dstIp fileId fragId => exact recvExreq hbig hdata hV h
    | _ => cases hmsg
  | exchUpdate =>
    rw [htype] at h
    obtain ⟨m, -, h⟩ := Option.bind_eq_some_iff.1 h
    obtain rfl := Option.some.inj h
    exact ite _ (of_eq rfl rfl rfl rfl rfl)
  | addCacheProcess =>
    rw [htype] at h ht
    obtain ⟨q, msg, hdata, hmsg, hV⟩ := ht
    cases msg with
    | addcache srcIp dstIp fileId fragId => exact recvAddcache hbig hdata hV h
    | _ => cases hmsg
  | fragReqSend =>
    rw [htype] at h
    obtain ⟨⟨r, e'⟩, he, rfl⟩ := Option.map_eq_some_iff.1 h
    exact processFlrep hrinfo he
  | addCacheSend =>
    rw [htype] at h ht
    obtain rfl := Option.some.inj h
    exact selectAgent p mem ht d
  | cleanUp =>
    rw [htype] at h
    obtain rfl := Option.some.inj h
    exact cleanUp p mem clk d

end Grows

/-! ## The network -/

/-- The daemons, and the datagrams in the air.  A datagram stays there, so that it can arrive late,
several times or never, where it is sent to or at a node on the way. -/
structure Cloud (ι : Type*) where
  daemon : ι → Daemon
  air : List Datagram

namespace Cloud

variable {ι : Type*}

inductive Action (ι : Type*)
  /-- simpleFS on `u` asks for a file -/
  | request (u : ι) (fileId seq : U32) (ttl : Byte)
  /-- the `k`-th datagram in the air comes to `v`, as the packet `skb` -/
  | deliver (k : ℕ) (v : ι) (mem : Mem) (clk : Clock) (skb : SkBuff)
  | timer (v : ι) (clk : Clock)
  | thread (v : ι) (mem : Mem) (clk : Clock)

variable (node : ι → Params)

def step [DecidableEq ι] : Action ι → Cloud ι → Option (Cloud ι)
  | .request u fileId seq ttl, s =>
    some { s with air := s.air ++ [{
      dst := broadcastIp, ttl := ttl
      payload := flreqOctets (node u).order (node u).myIp fileId seq }] }
  | .deliver k v mem clk skb, s =>
    (s.air[k]?).bind fun g =>
      if skb.payload = g.payload ∧ skb.daddr (node v).order = g.dst ∧ skb.ttl ≤ g.ttl then
        some { s with
          daemon := Function.update s.daemon v (packetIn (node v) mem clk skb (s.daemon v)).2 }
      else none
  | .timer v clk, s =>
    some { s with
      daemon := Function.update s.daemon v (timerQueueSignal (node v) clk (s.daemon v)) }
  | .thread v mem clk, s =>
    (runTask (node v) mem clk (s.daemon v)).map fun d =>
      { daemon := Function.update s.daemon v d
        air := s.air ++ d.sent.drop (s.daemon v).sent.length }

/-- All modules have just been loaded, with the fragments `names` in their directories. -/
def init (mem : ι → Mem) (clk : ι → Clock) (names : ι → List (U32 × U32)) : Cloud ι where
  daemon v := initModule (node v) (mem v) (clk v) (names v)
  air := []

/-- In one of these states a node with the address `ip` has the fragment. -/
def HadBy (node : ι → Params) (A : Cloud ι → Prop) (ip fileId fragId : U32) : Prop :=
  ∃ s, A s ∧ ∃ w, (node w).myIp = ip ∧ (fileId, fragId) ∈ (s.daemon w).ctable.map CacheTable.key

/-- Messages, tasks and replies are vouched for. -/
structure Sound (V : U32 → U32 → U32 → Prop) (s : Cloud ι) : Prop where
  air : ∀ g ∈ s.air, g.Vouched V
  tasks : ∀ v, ∀ t ∈ (s.daemon v).taskQ, t.Vouched V
  timers : ∀ v, ∀ t ∈ (s.daemon v).timerQueue, t.Vouched V
  rinfo : ∀ v, ∀ r ∈ (s.daemon v).rinfo, r.Vouched V

variable {node} {V W : U32 → U32 → U32 → Prop} {s t : Cloud ι} {a : Action ι}

theorem Sound.mono (h : ∀ ip fileId fragId, V ip fileId fragId → W ip fileId fragId)
    (hs : s.Sound V) : s.Sound W where
  air g hg := (hs.air g hg).mono h
  tasks v t ht := (hs.tasks v t ht).mono h
  timers v t ht := (hs.timers v t ht).mono h
  rinfo v r hr := (hs.rinfo v r hr).mono h

/-- A packet that carries a datagram of the network makes a task that is vouched for. -/
theorem vouched_taskOfPacket {p : Params} {clk : Clock} {skb : SkBuff} {g : Datagram}
    {type : TaskType} (hg : g.Vouched V) (hpayload : skb.payload = g.payload)
    (hdst : skb.daddr p.order = g.dst) (htype : TaskType.ofMessage (skb.message 0) = some type) :
    (taskOfPacket p clk type skb).Vouched V := by
  have hhead : ∀ {b} type', g.payload[0]? = some b → TaskType.ofMessage b = some type' →
      type = type' := by
    intro b type' hb htype'
    rw [← hpayload] at hb
    obtain ⟨hlt, -⟩ := List.getElem?_eq_some_iff.1 hb
    rw [SkBuff.length_payload] at hlt
    rw [SkBuff.getElem?_payload (by omega)] at hb
    rw [Option.some.inj hb, htype'] at htype
    exact (Option.some.inj htype).symm
  rcases hg with hreq | ⟨q, msg, hoctets, hV⟩
  · obtain rfl := hhead .fileReqProcess hreq rfl
    show skb.payload[0]? = some fileReqMessage
    rw [hpayload, hreq]
  · rw [← hdst] at hV
    have hdata := hpayload.trans hoctets
    cases msg with
    | flreq srcIp fileId seq =>
      obtain rfl := hhead .fileReqProcess (by rw [hoctets]; rfl) rfl
      show skb.payload[0]? = some fileReqMessage
      rw [hdata]
      rfl
    | flrep srcIp dstIp fileId dist frags =>
      obtain rfl := hhead .fileRepProcess (by rw [hoctets]; rfl) rfl
      exact ⟨q, _, hdata, rfl, hV⟩
    | frreqOri srcIp dstIp fileId fragId =>
      obtain rfl := hhead .fragReqUpdate (by rw [hoctets]; rfl) rfl
      exact ⟨q, _, hdata, rfl, hV⟩
    | frreqFwd srcIp dstIp fileId fragId =>
      obtain rfl := hhead .fragReqFlush (by rw [hoctets]; rfl) rfl
      exact ⟨q, _, hdata, rfl, hV⟩
    | exreq srcIp dstIp fileId fragId =>
      obtain rfl := hhead .exchSend (by rw [hoctets]; rfl) rfl
      exact ⟨q, _, hdata, rfl, hV⟩
    | exrep srcIp dstIp fileId fragId score =>
      obtain rfl := hhead .exchUpdate (by rw [hoctets]; rfl) rfl
      exact ⟨q, _, hdata, rfl, hV⟩
    | addcache srcIp dstIp fileId fragId =>
      obtain rfl := hhead .addCacheProcess (by rw [hoctets]; rfl) rfl
      exact ⟨q, _, hdata, rfl, hV⟩

/-- The tables that `create_cache` builds. -/
theorem createCaches_eq (calls : List CreateCall) (d : Daemon) :
    ∃ ct n, createCaches calls d = { d with ctable := ct, ctLen := n } ∧
      ∀ k ∈ ct.map CacheTable.key, k ∈ d.ctable.map CacheTable.key ∨
        ∃ c ∈ calls, k = (c.fileId, c.fragId) := by
  induction calls generalizing d with
  | nil => exact ⟨_, _, rfl, fun k => Or.inl⟩
  | cons c calls ih =>
    obtain ⟨ct, n, heq, hkeys⟩ := ih (createCache c.ok c.fileId c.fragId c.flag d)
    have hlater : ∀ k, (∃ c ∈ calls, k = (c.fileId, c.fragId)) →
        ∃ c' ∈ c :: calls, k = (c'.fileId, c'.fragId) :=
      fun k ⟨c', hc', hk⟩ => ⟨c', List.mem_cons_of_mem _ hc', hk⟩
    rw [createCaches, List.foldl_cons]
    refine ⟨ct, n, heq.trans ?_, fun k hk => (hkeys k hk).elim (fun hk => ?_) fun hk =>
      Or.inr (hlater k hk)⟩
    · cases c.ok <;> rfl
    · cases hok : c.ok with
      | false =>
        rw [hok] at hk
        exact Or.inl hk
      | true =>
        rw [hok] at hk
        rcases List.mem_cons.1 hk with rfl | hk
        · exact Or.inr ⟨c, List.mem_cons_self, rfl⟩
        · exact Or.inl hk

theorem sound_init (mem : ι → Mem) (clk : ι → Clock) (names : ι → List (U32 × U32)) :
    Sound V (init node mem clk names) ∧ ∀ w, ∀ k ∈
      ((init node mem clk names).daemon w).ctable.map CacheTable.key, k ∈ names w := by
  have hnode : ∀ v, ∃ d : Daemon, Grows V d ((init node mem clk names).daemon v) ∧ d.taskQ = [] ∧
      d.timerQueue = [] ∧ d.rinfo = [] ∧
      ((init node mem clk names).daemon v).ctable = d.ctable ∧
      ∀ k ∈ d.ctable.map CacheTable.key, k ∈ names v := by
    intro v
    obtain ⟨ct, n, heq, hkeys⟩ := createCaches_eq
      ((names v).mapIdx fun i n => ⟨(mem v).ok .cache i, n.1, n.2, 1⟩) {}
    have htable : initCacheTable (mem v) (names v) {} = { ctable := ct, ctLen := n } := heq
    have hdaemon : (init node mem clk names).daemon v = updateTimerQueue (node v) (clk v)
        (insertTimer ((mem v).ok .task 0) (clk v) .cleanUp flushInterval (node v).myIp 0 0
          { ctable := ct, ctLen := n }) := by
      rw [← htable]
      rfl
    refine ⟨{ ctable := ct, ctLen := n }, ?_, rfl, rfl, rfl, ?_, fun k hk => ?_⟩
    · rw [hdaemon]
      exact (Grows.insertTimer _ (by exact trivial) _).trans (Grows.updateTimerQueue _ _ _)
    · rw [hdaemon]
      exact (SameTables.updateTimerQueue .cleanUp _ _ _).ctable.trans
        (SameTables.insertTimer _ _ _ _ _ _ _ _).ctable
    · rcases hkeys k hk with hk | ⟨c, hc, rfl⟩
      · exact absurd hk List.not_mem_nil
      · obtain ⟨i, hi, rfl⟩ := List.mem_mapIdx.1 hc
        exact List.getElem_mem hi
  refine ⟨⟨fun g hg => absurd hg List.not_mem_nil, fun v => ?_, fun v => ?_, fun v => ?_⟩,
    fun v => ?_⟩ <;> obtain ⟨d, hgrows, htasks, htimers, hrinfo, hctable, hkeys⟩ := hnode v
  · rw [hgrows.tasks, htasks]
    exact fun t ht => absurd ht List.not_mem_nil
  · exact fun t ht => (hgrows.timers t ht).resolve_left (htimers ▸ List.not_mem_nil)
  · exact hgrows.rinfo (by rw [hrinfo]; exact fun r hr => absurd hr List.not_mem_nil)
  · rw [hctable]
    exact hkeys

variable [DecidableEq ι]

/-- A node takes a step that makes nothing that is not vouched for. -/
theorem Sound.update {v : ι} {d : Daemon} {air : List Datagram} (hs : s.Sound V)
    (hair : ∀ g ∈ air, g.Vouched V) (htasks : ∀ t ∈ d.taskQ, t.Vouched V)
    (htimers : ∀ t ∈ d.timerQueue, t.Vouched V) (hrinfo : ∀ r ∈ d.rinfo, r.Vouched V) :
    Sound V { daemon := Function.update s.daemon v d, air := air } where
  air := hair
  tasks w := by
    by_cases hw : w = v
    · subst hw
      simpa using htasks
    · simpa [hw] using hs.tasks w
  timers w := by
    by_cases hw : w = v
    · subst hw
      simpa using htimers
    · simpa [hw] using hs.timers w
  rinfo w := by
    by_cases hw : w = v
    · subst hw
      simpa using hrinfo
    · simpa [hw] using hs.rinfo w

/-- What has been held is vouched for; then so is all that a step makes. -/
theorem Sound.step (hbig : ∀ v, (node v).order = .big) (hk : ∀ v, (node v).kval.toInt ≤ 8)
    (hheld : ∀ w, ∀ k ∈ (s.daemon w).ctable.map CacheTable.key, V (node w).myIp k.1 k.2)
    (hs : s.Sound V) (h : Cloud.step node a s = some t) :
    t.Sound V ∧ ∀ w, ∀ k ∈ (t.daemon w).ctable.map CacheTable.key,
      k ∈ (s.daemon w).ctable.map CacheTable.key ∨ ∃ ip, V ip k.1 k.2 := by
  have hkept : ∀ {v : ι} {d : Daemon}, (∀ k ∈ d.ctable.map CacheTable.key,
      k ∈ (s.daemon v).ctable.map CacheTable.key ∨ ∃ ip, V ip k.1 k.2) →
      ∀ w, ∀ k ∈ (Function.update s.daemon v d w).ctable.map CacheTable.key,
        k ∈ (s.daemon w).ctable.map CacheTable.key ∨ ∃ ip, V ip k.1 k.2 := by
    intro v d hd w
    by_cases hw : w = v
    · subst hw
      simpa only [Function.update_self] using hd
    · simpa only [Function.update_of_ne hw] using fun k => Or.inl
  cases a with
  | request u fileId seq ttl =>
    obtain rfl := Option.some.inj h
    refine ⟨⟨fun g hg => ?_, hs.tasks, hs.timers, hs.rinfo⟩, fun w k => Or.inl⟩
    rcases List.mem_append.1 hg with hg | hg
    · exact hs.air g hg
    · rw [List.mem_singleton.1 hg]
      exact Or.inl rfl
  | deliver k v mem clk skb =>
    obtain ⟨g, hg, h⟩ := Option.bind_eq_some_iff.1 h
    obtain ⟨⟨hpayload, hdst, -⟩, h⟩ := Option.ite_none_right_eq_some.1 h
    obtain rfl := Option.some.inj h
    obtain ⟨new, f, c, hd, hnew⟩ := packetIn_tasks (node v) mem clk skb (s.daemon v)
    rw [hd]
    refine ⟨hs.update hs.air (fun t ht => ?_) (hs.timers v) (hs.rinfo v), hkept fun k => Or.inl⟩
    rcases List.mem_append.1 ht with ht | ht
    · exact hs.tasks v t ht
    · obtain ⟨type, htype, rfl, -⟩ := hnew t ht
      exact vouched_taskOfPacket (hs.air g (List.mem_of_getElem? hg)) hpayload hdst htype
  | timer v clk =>
    obtain rfl := Option.some.inj h
    obtain ⟨c, hc⟩ := updateTimerQueue_eq (node v) clk { s.daemon v with
      taskQ := (s.daemon v).taskQ ++ (s.daemon v).timerQueue.takeWhile fun t =>
        timeBeforeEq t.time clk.now
      timerQueue := (s.daemon v).timerQueue.dropWhile fun t => timeBeforeEq t.time clk.now }
    rw [timerQueueSignal, hc]
    refine ⟨hs.update hs.air (fun t ht => ?_)
      (fun t ht => hs.timers v t ((List.dropWhile_sublist _).subset ht)) (hs.rinfo v),
      hkept fun k => Or.inl⟩
    rcases List.mem_append.1 ht with ht | ht
    · exact hs.tasks v t ht
    · exact hs.timers v t ((List.takeWhile_sublist _).subset ht)
  | thread v mem clk =>
    obtain ⟨d, hd, rfl⟩ := Option.map_eq_some_iff.1 h
    have hgrows : ∃ q, (∀ t ∈ q, t ∈ (s.daemon v).taskQ) ∧
        Grows V { s.daemon v with taskQ := q } d := by
      rw [runTask, getTask] at hd
      cases hq : (s.daemon v).taskQ with
      | nil =>
        rw [hq] at hd
        obtain rfl := Option.some.inj hd
        exact ⟨(s.daemon v).taskQ, fun _ h => hq ▸ h, .refl _⟩
      | cons τ q =>
        rw [hq] at hd
        have hτ := hs.tasks v τ (hq ▸ List.mem_cons_self)
        exact ⟨q, fun t ht => List.mem_cons_of_mem _ ht,
          Grows.handle (hbig v) (hk v) (hheld v) (hs.rinfo v) hτ hd⟩
    obtain ⟨q, hq, hgrows⟩ := hgrows
    obtain ⟨new, hnew, hsent⟩ := hgrows.sent
    refine ⟨hs.update (fun g hg => ?_) (fun t ht => ?_) (fun t ht => ?_)
      (hgrows.rinfo (hs.rinfo v)), hkept hgrows.ctable⟩
    · rw [hnew, List.drop_left] at hg
      exact (List.mem_append.1 hg).elim (hs.air g) (hsent g)
    · rw [hgrows.tasks] at ht
      exact hs.tasks v t (hq t ht)
    · exact (hgrows.timers t ht).elim (hs.timers v t) id

/-- Fragments do not come from anywhere else: every reply, every request for a fragment, every
exchange and every prefetch speaks of a fragment that the node it names has had by then, and all
that any node has was in the directory of some node at the start. -/
theorem fragments_vouched (hbig : ∀ v, (node v).order = .big) (hk : ∀ v, (node v).kval.toInt ≤ 8)
    {mem : ι → Mem} {clk : ι → Clock} {names : ι → List (U32 × U32)} {actions : List (Action ι)}
    (h : exec (step node) actions (init node mem clk names) = some t) :
    t.Sound (HadBy node (Passed (step node) actions (init node mem clk names))) ∧
    ∀ v, ∀ k ∈ (t.daemon v).ctable.map CacheTable.key, ∃ w, k ∈ names w := by
  constructor
  · refine exec_of_step_passed (P := fun A s => s.Sound (HadBy node A)) (fun A B s hAB hs => ?_)
      (fun A a s t hA hs hstep => ?_) (sound_init mem clk names).1 h
    · exact hs.mono fun ip fileId fragId ⟨u, hu, hw⟩ => ⟨u, hAB u hu, hw⟩
    · exact (hs.step hbig hk (fun w k hkey => ⟨s, hA, w, rfl, hkey⟩) hstep).1
  · have hall : t.Sound (fun _ fileId fragId => ∃ w, (fileId, fragId) ∈ names w) ∧
        ∀ v, ∀ k ∈ (t.daemon v).ctable.map CacheTable.key, ∃ w, k ∈ names w := by
      refine exec_of_step (P := fun s : Cloud ι =>
        s.Sound (fun _ fileId fragId => ∃ w, (fileId, fragId) ∈ names w) ∧
        ∀ v, ∀ k ∈ (s.daemon v).ctable.map CacheTable.key, ∃ w, k ∈ names w)
        (fun a s u hs hstep => ?_) ⟨(sound_init mem clk names).1,
          fun v k hkey => ⟨v, (sound_init (V := fun _ _ _ => True) mem clk names).2 v k hkey⟩⟩ h
      obtain ⟨hsound, hgrown⟩ := hs.1.step hbig hk hs.2 hstep
      refine ⟨hsound, fun v k hkey => ?_⟩
      rcases hgrown v k hkey with hkey | ⟨-, hw⟩
      · exact hs.2 v k hkey
      · exact hw
    exact hall.2

/-! ## A request that is intercepted -/

/-- 192.168.0.1 and so on, which start an exchange with the second request that they see. -/
def hosts (v : ℕ) : Params :=
  { testNode with myIp := 0xC0A80001 + BitVec.ofNat 32 v, kval := 2, threshold := 1 }

/-- The `k`-th datagram, which carries `msg`, comes to `v`, whose thread takes it. -/
def arrives (k v : ℕ) (now : ℕ) (dst : U32) (ttl : Byte) (msg : Message) :
    List (Action ℕ) :=
  [.deliver k v .plenty ⟨now, 0⟩ (.udp .big 0 dst ttl cachePort (msg.octets testNode)),
    .thread v .plenty ⟨now, 0⟩]

/-- The first host asks for file 1, and the second one has both fragments.  The third one sees the
request for one of them twice, exchanges scores with the first host and prefetches it. -/
def interceptedRun : List (Action ℕ) :=
  let ip := fun v : ℕ => (hosts v).myIp
  [.request 0 1 7 10] ++ arrives 0 1 10 broadcastIp 9 (.flreq (ip 0) 1 7) ++
    arrives 1 0 20 (ip 0) 9 (.flrep (ip 1) (ip 0) 1 1 [2, 1]) ++
    [.timer 0 ⟨12000, 0⟩, .thread 0 .plenty ⟨12000, 0⟩, .thread 0 .plenty ⟨12000, 0⟩] ++
    arrives 3 2 12010 (ip 1) 9 (.frreqOri (ip 0) (ip 1) 1 1) ++
    arrives 3 2 12011 (ip 1) 9 (.frreqOri (ip 0) (ip 1) 1 1) ++
    arrives 6 0 12012 broadcastIp 1 (.exreq (ip 2) (ip 1) 1 1) ++
    arrives 7 2 12013 (ip 2) 9 (.exrep (ip 0) (ip 1) 1 1 4) ++
    [.timer 2 ⟨14500, 0⟩, .thread 2 .plenty ⟨14500, 0⟩, .thread 2 .plenty ⟨14500, 0⟩]

def hostsInit : Cloud ℕ :=
  init hosts (fun _ => .plenty) (fun _ => ⟨0, 0⟩) fun v =>
    if v = 1 then [(1, 1), (1, 2)] else []

theorem fragments_vouched_interceptedRun :
    ∃ t, exec (step hosts) interceptedRun hostsInit = some t ∧
      (1, 1) ∈ (t.daemon 2).ctable.map CacheTable.key ∧
      t.Sound (HadBy hosts (Passed (step hosts) interceptedRun hostsInit)) ∧
      ∀ v, ∀ k ∈ (t.daemon v).ctable.map CacheTable.key,
        ∃ w : ℕ, k ∈ if w = 1 then [(1, 1), (1, 2)] else [] := by
  have hrun : (exec (step hosts) interceptedRun hostsInit).any
      (fun s => decide ((1, 1) ∈ (s.daemon 2).ctable.map CacheTable.key)) = true := by
    decide +kernel
  obtain ⟨t, ht, hcached⟩ := (Option.any_eq_true _ _).1 hrun
  have hk : ∀ v, (hosts v).kval.toInt ≤ 8 := fun _ => show (2 : Int32).toInt ≤ 8 by decide
  exact ⟨t, ht, of_decide_eq_true hcached, fragments_vouched (fun _ => rfl) hk ht⟩

end Cloud

end MobileCloudCaching.Caching

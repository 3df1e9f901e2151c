import MobileCloudCaching.Caching.CacheTable
import MobileCloudCaching.Caching.Queue

/-!
# The cache exchange (`cExchange.c`)

A node that has seen enough requests for a fragment asks its neighbours for scores and, after
`WAIT_EXCH_REP_TIME`, lets the best of them (or itself) prefetch the fragment.
-/

namespace MobileCloudCaching.Caching

open Octets

variable (p : Params)

/-! ## Messages -/

def convertExreqToHost (o : ByteOrder) (m : ExchReq) : ExchReq where
  srcIp := hton o m.srcIp
  dstIp := hton o m.dstIp
  fileId := hton o m.fileId
  fragId := hton o m.fragId

def convertExrepToHost (o : ByteOrder) (m : ExchRep) : ExchRep where
  fileId := hton o m.fileId
  fragId := hton o m.fragId
  srcIp := hton o m.srcIp
  dstIp := hton o m.dstIp
  score := hton o m.score

def convertAddcacheToHost (o : ByteOrder) (m : AddCache) : AddCache where
  fileId := hton o m.fileId
  fragId := hton o m.fragId
  srcIp := hton o m.srcIp
  dstIp := hton o m.dstIp

/-- The octets of an exchange request, as `gen_exchReq` fills them in. -/
def exchReqOctets (srcIp dstIp fileId fragId : U32) : List Byte :=
  ExchReq.store p.order { srcIp := hton p.order srcIp, dstIp := hton p.order dstIp,
                          fileId := hton p.order fileId, fragId := hton p.order fragId }

def genExchReq (ok : Bool) (srcIp dstIp fileId fragId : U32) (d : Daemon) : Daemon :=
  if ok then localBroadcast 1 (exchReqOctets p srcIp dstIp fileId fragId) d else d

def exchRepOctets (srcIp dstIp fileId fragId score : U32) : List Byte :=
  ExchRep.store p.order { fileId := hton p.order fileId, fragId := hton p.order fragId,
                          srcIp := hton p.order srcIp, dstIp := hton p.order dstIp,
                          score := hton p.order score }

def genExchRep (ok : Bool) (srcIp dstIp neighIp fileId fragId score : U32) (d : Daemon) : Daemon :=
  if ok then
    sendMessage neighIp (BitVec.ofNat 8 netDiameter)
      (exchRepOctets p srcIp dstIp fileId fragId score) d
  else d

def addCacheOctets (srcIp dstIp fileId fragId : U32) : List Byte :=
  AddCache.store p.order { fileId := hton p.order fileId, fragId := hton p.order fragId,
                           srcIp := hton p.order srcIp, dstIp := hton p.order dstIp }

/-- `gen_addCache` sends to the address that it also stores as the source. -/
def genAddCache (ok : Bool) (srcIp dstIp fileId fragId : U32) (d : Daemon) : Daemon :=
  if ok then
    sendMessage srcIp (BitVec.ofNat 8 netDiameter) (addCacheOctets p srcIp dstIp fileId fragId) d
  else d

theorem SameTables.genExchReq (type : TaskType) (ok : Bool) (srcIp dstIp fileId fragId : U32)
    (d : Daemon) : SameTables type d (genExchReq p ok srcIp dstIp fileId fragId d) :=
  (SameTables.localBroadcast _ _ _ _).ite ok

theorem SameTables.genExchRep (type : TaskType) (ok : Bool)
    (srcIp dstIp neighIp fileId fragId score : U32) (d : Daemon) :
    SameTables type d (genExchRep p ok srcIp dstIp neighIp fileId fragId score d) :=
  (SameTables.sendMessage _ _ _ _ _).ite ok

theorem SameTables.genAddCache (type : TaskType) (ok : Bool) (srcIp dstIp fileId fragId : U32)
    (d : Daemon) : SameTables type d (genAddCache p ok srcIp dstIp fileId fragId d) :=
  (SameTables.sendMessage _ _ _ _ _).ite ok

/-! ## Scores and prefetching -/

def getScore (fileId fragId : U32) (d : Daemon) : U32 :=
  if (findCacheByFr d.ctable fileId fragId).isSome then 0
  else if (fileCount d.ctable fileId : ℤ) ≥ p.kval.toInt - 1 then 0
  else BitVec.ofInt 32 (p.bufSize.toInt - d.ctLen + 1)

/-- The two scans of `retrieve_frag` for the entry to replace: the first one that is not a service
center, then any later prefetched one with fewer references.  `best` is the position and the
reference count of the entry found so far. -/
def victimFrom : List CacheTable → ℕ → Option (ℕ × U32) → Option ℕ
  | [], _, best => best.map Prod.fst
  | c :: t, i, none =>
    if c.isServiceCenter = 1 then victimFrom t (i + 1) none
    else victimFrom t (i + 1) (some (i, c.refs))
  | c :: t, i, some (j, minRef) =>
    if c.refs < minRef ∧ c.isServiceCenter = 0 then victimFrom t (i + 1) (some (i, c.refs))
    else victimFrom t (i + 1) (some (j, minRef))

def victim (t : List CacheTable) : Option ℕ := victimFrom t 0 none

/-- `retrieve_frag`; `ok` is the outcome of the allocation in `create_cache`. -/
def retrieveFrag (ok : Bool) (fileId fragId : U32) (d : Daemon) : ℤ × Daemon :=
  if ((heldFrags p.kval.toInt fileId d.ctable 0).length : ℤ) ≥ p.kval.toInt - 1 then (1, d)
  else
    let d := { d with cPrefetch := d.cPrefetch + 1 }
    if d.ctLen ≥ p.bufSize.toInt then
      match victim d.ctable with
      | none => (1, d)
      | some i => (0, createCache ok fileId fragId 0 (removeCache i d))
    else (0, createCache ok fileId fragId 0 d)

/-- The scan for a victim yields the one found before or a later entry that is not a service
center. -/
theorem victimFrom_eq_some {t : List CacheTable} {i k : ℕ} {best : Option (ℕ × U32)}
    (h : victimFrom t i best = some k) :
    (∃ m, best = some (k, m)) ∨ ∃ n c, t[n]? = some c ∧ k = i + n ∧ c.isServiceCenter ≠ 1 := by
  induction t generalizing i best with
  | nil =>
    obtain ⟨⟨j, m⟩, hb, rfl⟩ := Option.map_eq_some_iff.1 h
    exact Or.inl ⟨m, hb⟩
  | cons c t ih =>
    have later : ∀ {b : Option (ℕ × U32)}, victimFrom t (i + 1) b = some k →
        (b = best ∨ (∃ m, b = some (i, m)) ∧ c.isServiceCenter ≠ 1) →
        (∃ m, best = some (k, m)) ∨
          ∃ n c', (c :: t)[n]? = some c' ∧ k = i + n ∧ c'.isServiceCenter ≠ 1 := by
      intro b hk hb
      rcases ih hk with ⟨m, rfl⟩ | ⟨n, c', hn, rfl, hc'⟩
      · rcases hb with rfl | ⟨⟨m', hm'⟩, hc⟩
        · exact Or.inl ⟨m, rfl⟩
        · obtain ⟨rfl, -⟩ := Prod.mk.inj (Option.some.inj hm')
          exact Or.inr ⟨0, c, rfl, rfl, hc⟩
      · exact Or.inr ⟨n + 1, c', hn, by omega, hc'⟩
    rcases best with - | ⟨j, minRef⟩
    · rw [victimFrom] at h
      split at h
      · exact later h (Or.inl rfl)
      · exact later h (Or.inr ⟨⟨_, rfl⟩, by assumption⟩)
    · rw [victimFrom] at h
      split at h
      · rename_i hc
        exact later h (Or.inr ⟨⟨_, rfl⟩, by rw [hc.2]; decide⟩)
      · exact later h (Or.inl rfl)

/-- A victim is an entry that is not a service center. -/
theorem exists_of_victim_eq_some {t : List CacheTable} {i : ℕ} (h : victim t = some i) :
    ∃ c, t[i]? = some c ∧ c.isServiceCenter ≠ 1 := by
  rcases victimFrom_eq_some h with ⟨m, hm⟩ | ⟨n, c, hn, rfl, hc⟩
  · exact absurd hm (by simp)
  · exact ⟨c, by rw [Nat.zero_add]; exact hn, hc⟩

theorem victimFrom_some_ne_none (t : List CacheTable) (i j : ℕ) (minRef : U32) :
    victimFrom t i (some (j, minRef)) ≠ none := by
  induction t generalizing i j minRef with
  | nil => simp [victimFrom]
  | cons c t ih =>
    rw [victimFrom]
    split
    · exact ih _ _ _
    · exact ih _ _ _

theorem victimFrom_none_eq_none_iff {t : List CacheTable} {i : ℕ} :
    victimFrom t i none = none ↔ ∀ c ∈ t, c.isServiceCenter = 1 := by
  induction t generalizing i with
  | nil => simp [victimFrom]
  | cons c t ih =>
    rw [victimFrom, List.forall_mem_cons]
    split
    · rename_i hc
      rw [ih, and_iff_right hc]
    · rename_i hc
      exact iff_of_false (victimFrom_some_ne_none _ _ _ _) fun h => hc h.1

/-- There is no victim in a table of service centers only. -/
theorem victim_eq_none_iff {t : List CacheTable} : victim t = none ↔
    ∀ c ∈ t, c.isServiceCenter = 1 :=
  victimFrom_none_eq_none_iff

/-- The cases of `retrieve_frag`: the file has its `KVAL - 1` fragments; or there is room; or
there is none, and either nothing to replace or a victim. -/
theorem retrieveFrag_cases (ok : Bool) (fileId fragId : U32) (d : Daemon) :
    (p.kval.toInt - 1 ≤ fileCount d.ctable fileId ∧ (retrieveFrag p ok fileId fragId d).2 = d) ∨
    ((fileCount d.ctable fileId : ℤ) < p.kval.toInt - 1 ∧
      ∃ e : Daemon, e = { d with cPrefetch := d.cPrefetch + 1 } ∧
        ((d.ctLen < p.bufSize.toInt ∧
            (retrieveFrag p ok fileId fragId d).2 = createCache ok fileId fragId 0 e) ∨
          (p.bufSize.toInt ≤ d.ctLen ∧ victim d.ctable = none ∧
            (retrieveFrag p ok fileId fragId d).2 = e) ∨
          (p.bufSize.toInt ≤ d.ctLen ∧ ∃ i, victim d.ctable = some i ∧
            (retrieveFrag p ok fileId fragId d).2 =
              createCache ok fileId fragId 0 (removeCache i e)))) := by
  by_cases hk : (fileCount d.ctable fileId : ℤ) ≥ p.kval.toInt - 1
  · exact Or.inl ⟨hk, by rw [retrieveFrag, if_pos ((length_heldFrags_ge_iff _ _ _).2 hk)]⟩
  · refine Or.inr ⟨by omega, _, rfl, ?_⟩
    rw [retrieveFrag, if_neg (mt (length_heldFrags_ge_iff _ _ _).1 hk)]
    by_cases hb : d.ctLen ≥ p.bufSize.toInt
    · rw [if_pos hb]
      cases hv : victim d.ctable with
      | none => exact Or.inr (Or.inl ⟨hb, rfl, rfl⟩)
      | some i => exact Or.inr (Or.inr ⟨hb, i, rfl, rfl⟩)
    · rw [if_neg hb]
      exact Or.inl ⟨by omega, rfl⟩

/-- Prefetching touches neither the exchange table nor the socket. -/
theorem retrieveFrag_frame (ok : Bool) (fileId fragId : U32) (d : Daemon) :
    (retrieveFrag p ok fileId fragId d).2.extable = d.extable ∧
      (retrieveFrag p ok fileId fragId d).2.sent = d.sent := by
  have hcreate : ∀ e : Daemon, (createCache ok fileId fragId 0 e).extable = e.extable ∧
      (createCache ok fileId fragId 0 e).sent = e.sent := by
    intro e
    cases ok <;> exact ⟨rfl, rfl⟩
  rcases retrieveFrag_cases p ok fileId fragId d with
    ⟨-, h⟩ | ⟨-, e, rfl, ⟨-, h⟩ | ⟨-, -, h⟩ | ⟨-, i, -, h⟩⟩
  · rw [h]
    exact ⟨rfl, rfl⟩
  · rw [h]
    exact hcreate _
  · rw [h]
    exact ⟨rfl, rfl⟩
  · rw [h]
    exact hcreate _

/-! ## The exchange table -/

/-- The test of `find_extable`. -/
def ExchTable.live (fileId fragId : U32) (e : ExchTable) : Bool :=
  e.expired != 1 && e.fileId == fileId && e.fragId == fragId

/-- The neighbour with the highest score above `max`, and that score, as the loop of `select_agent`
finds them. -/
def bestAgent (fileId fragId : U32) : List ExchTable → U32 × U32 → U32 × U32
  | [], best => best
  | e :: l, (max, dst) =>
    if e.live fileId fragId ∧ e.score > max then bestAgent fileId fragId l (e.score, e.neighIp)
    else bestAgent fileId fragId l (max, dst)

/-- The marks that the same loop leaves. -/
def expireExtable (fileId fragId : U32) (l : List ExchTable) : List ExchTable :=
  l.map fun e => if e.live fileId fragId then { e with expired := 1 } else e

def flushExtable (d : Daemon) : Daemon :=
  { d with extable := d.extable.filter fun e => e.expired != 1 }

/-- `create_extable`, on the message that `recv_exrep` has converted. -/
def createExtable (ok : Bool) (m : ExchRep) (d : Daemon) : Daemon :=
  if ok then
    { d with extable := { fileId := m.fileId, fragId := m.fragId, dstIp := m.dstIp,
                          neighIp := m.srcIp, score := m.score, expired := 0 } :: d.extable }
  else d

/-! ## Handlers -/

def recvExreq (mem : Mem) (t : Task) (d : Daemon) : Option Daemon := do
  let m := convertExreqToHost p.order (← ExchReq.load p.order t.data)
  let score := getScore p m.fileId m.fragId d
  return genExchRep p (mem.ok .message 0) p.myIp m.dstIp m.srcIp m.fileId m.fragId score d

def recvExrep (mem : Mem) (t : Task) (d : Daemon) : Option Daemon := do
  let m := convertExrepToHost p.order (← ExchRep.load p.order t.data)
  return createExtable (mem.ok .extable 0) m d

def recvAddcache (mem : Mem) (t : Task) (d : Daemon) : Option Daemon := do
  let m := convertAddcacheToHost p.order (← AddCache.load p.order t.data)
  return (retrieveFrag p (mem.ok .cache 0) m.fileId m.fragId d).2

/-- The agent that `select_agent` settles on. -/
def agent (fileId fragId : U32) (d : Daemon) : U32 :=
  (bestAgent fileId fragId d.extable (getScore p fileId fragId d, p.myIp)).2

def selectAgent (mem : Mem) (t : Task) (d : Daemon) : Daemon :=
  let dst := agent p t.fileId t.fragId d
  let d := { d with extable := expireExtable t.fileId t.fragId d.extable }
  if dst ≠ p.myIp then genAddCache p (mem.ok .message 0) dst t.dstIp t.fileId t.fragId d
  else (retrieveFrag p (mem.ok .cache 0) t.fileId t.fragId d).2

/-- `select_agent` expires the replies, and either tells another node or prefetches itself. -/
theorem selectAgent_cases (mem : Mem) (t : Task) (d : Daemon) :
    ∃ e : Daemon, e = { d with extable := expireExtable t.fileId t.fragId d.extable } ∧
      ((agent p t.fileId t.fragId d ≠ p.myIp ∧ ∀ type, SameTables type e (selectAgent p mem t d)) ∨
        (agent p t.fileId t.fragId d = p.myIp ∧
          selectAgent p mem t d = (retrieveFrag p (mem.ok .cache 0) t.fileId t.fragId e).2)) := by
  refine ⟨_, rfl, ?_⟩
  by_cases h : agent p t.fileId t.fragId d = p.myIp
  · exact Or.inr ⟨h, if_neg (not_not.2 h)⟩
  · refine Or.inl ⟨h, fun type => ?_⟩
    simp only [selectAgent, if_pos h]
    exact SameTables.genAddCache p type _ _ _ _ _ _

end MobileCloudCaching.Caching

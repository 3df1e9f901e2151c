import MobileCloudCaching.Caching.Bounds

/-!
# Messages between hosts of different byte orders

Every message is filled in by one function and taken apart by another, on two hosts whose byte
orders may differ.  Numbers are carried in network order.  Addresses are in network order already,
so that the conversion that most messages apply to them is one too many.
-/

namespace MobileCloudCaching.Caching

open Octets

/-! ## Words and addresses -/

/-- A word that reads the same in both byte orders. -/
def Palindromic (x : U32) : Prop := swap x = x

instance (x : U32) : Decidable (Palindromic x) := by unfold Palindromic; infer_instance

/-- The value `x` of a host of order `s` and the value `y` of a host of order `r` are the same
address: they have the same octets in memory. -/
def SameIp (s : ByteOrder) (x : U32) (r : ByteOrder) (y : U32) : Prop := store s x = store r y

theorem sameIp_iff {s r : ByteOrder} {x y : U32} : SameIp s x r y ↔ hton s x = hton r y := by
  constructor
  · intro h
    obtain ⟨h3, h2, h1, h0, -⟩ : octet (hton s x) 3 = octet (hton r y) 3 ∧
        octet (hton s x) 2 = octet (hton r y) 2 ∧ octet (hton s x) 1 = octet (hton r y) 1 ∧
        octet (hton s x) 0 = octet (hton r y) 0 ∧ True := by
      simpa [SameIp, store] using h
    rw [← be32_octet (hton s x), h3, h2, h1, h0, be32_octet]
  · intro h
    rw [SameIp, store, store, h]

theorem hton_eq_self_iff {o : ByteOrder} {x : U32} : hton o x = x ↔ o = .big ∨ Palindromic x := by
  cases o <;> simp [hton, Palindromic]

/-- A value is one address on two hosts exactly if they have one byte order, or it is a
palindrome. -/
theorem sameIp_self_iff {s r : ByteOrder} {x : U32} : SameIp s x r x ↔ s = r ∨ Palindromic x := by
  rw [sameIp_iff]
  cases s <;> cases r <;> simp [hton, Palindromic, eq_comm]

theorem palindromic_hton {o : ByteOrder} {x : U32} : Palindromic (hton o x) ↔ Palindromic x := by
  cases o
  · rfl
  · simp [hton, Palindromic, eq_comm]

/-! ## What arrives -/

section Arrival

variable (s r : ByteOrder)

/-- The word that a host of order `r` reads where one of order `s` has stored `x`. -/
def seen (x : U32) : U32 := hton r (hton s x)

@[simp] theorem seen_hton (x : U32) : seen s r (hton s x) = hton r x := by
  rw [seen, hton_hton]

theorem load_fields {pre : List Byte} (hpre : pre.length = 4) {xs : List U32} {i j : ℕ}
    (hi : i < xs.length) (hj : j = 4 + 4 * i) :
    Octets.load r (pre ++ storeAll s xs) j = some (seen s r xs[i]) := by
  have h := load_storeAll s r pre xs hi
  rwa [hpre, ← hj] at h

theorem load_message {type last : Byte} {xs : List U32} {i j : ℕ} (hi : i < xs.length)
    (hj : j = 4 + 4 * i) :
    Octets.load r (header type last ++ storeAll s xs) j = some (seen s r xs[i]) :=
  load_fields s r rfl hi hj

/-- A file request behind any four octets. -/
theorem load_flreq {pre : List Byte} (hpre : pre.length = 4) (m : FileReq) :
    FileReq.load r (pre ++ storeAll s [m.srcIp, m.dstIp, m.fileId, m.seq, m.metric]) =
      some ⟨seen s r m.srcIp, seen s r m.dstIp, seen s r m.fileId, seen s r m.seq,
        seen s r m.metric⟩ := by
  unfold FileReq.load
  rw [load_fields s r hpre (i := 0) (by simp) rfl, load_fields s r hpre (i := 1) (by simp) rfl,
    load_fields s r hpre (i := 2) (by simp) rfl, load_fields s r hpre (i := 3) (by simp) rfl,
    load_fields s r hpre (i := 4) (by simp) rfl]
  rfl

theorem load_store_flreq (m : FileReq) :
    FileReq.load r (FileReq.store s m) = some ⟨seen s r m.srcIp, seen s r m.dstIp,
    seen s r m.fileId,
      seen s r m.seq, seen s r m.metric⟩ := load_flreq s r rfl m

theorem load_store_flrep (m : FileRep) (frags : List U32) :
    FileRep.load r (FileRep.store s m frags) = some ⟨m.fragCount, seen s r m.srcIp,
    seen s r m.dstIp,
      seen s r m.fileId, seen s r m.dist⟩ := by
  unfold FileRep.load FileRep.store
  rw [load_message s r (i := 0) (by simp) rfl, load_message s r (i := 1) (by simp) rfl,
    load_message s r (i := 2) (by simp) rfl, load_message s r (i := 3) (by simp) rfl]
  rfl

theorem load_store_frreq (type : Byte) (m : FragReq) :
    FragReq.load r (FragReq.store s type m) = some ⟨seen s r m.srcIp, seen s r m.dstIp,
      seen s r m.fileId, seen s r m.fragId⟩ := by
  unfold FragReq.load FragReq.store
  rw [load_message s r (i := 0) (by simp) rfl, load_message s r (i := 1) (by simp) rfl,
    load_message s r (i := 2) (by simp) rfl, load_message s r (i := 3) (by simp) rfl]
  rfl

theorem load_store_exreq (m : ExchReq) :
    ExchReq.load r (ExchReq.store s m) = some ⟨seen s r m.srcIp, seen s r m.dstIp,
      seen s r m.fileId, seen s r m.fragId⟩ := by
  unfold ExchReq.load ExchReq.store
  rw [load_message s r (i := 0) (by simp) rfl, load_message s r (i := 1) (by simp) rfl,
    load_message s r (i := 2) (by simp) rfl, load_message s r (i := 3) (by simp) rfl]
  rfl

theorem load_store_exrep (m : ExchRep) :
    ExchRep.load r (ExchRep.store s m) = some ⟨seen s r m.fileId, seen s r m.fragId,
      seen s r m.srcIp, seen s r m.dstIp, seen s r m.score⟩ := by
  unfold ExchRep.load ExchRep.store
  rw [load_message s r (i := 0) (by simp) rfl, load_message s r (i := 1) (by simp) rfl,
    load_message s r (i := 2) (by simp) rfl, load_message s r (i := 3) (by simp) rfl,
    load_message s r (i := 4) (by simp) rfl]
  rfl

theorem load_store_addcache (m : AddCache) :
    AddCache.load r (AddCache.store s m) = some ⟨seen s r m.fileId, seen s r m.fragId,
      seen s r m.srcIp, seen s r m.dstIp⟩ := by
  unfold AddCache.load AddCache.store
  rw [load_message s r (i := 0) (by simp) rfl, load_message s r (i := 1) (by simp) rfl,
    load_message s r (i := 2) (by simp) rfl, load_message s r (i := 3) (by simp) rfl]
  rfl

end Arrival

/-- The loop of `create_rinfo` fills in the map, from index `i` on. -/
theorem map_copyFrags (o : ByteOrder) (frags : ℕ → U32) {n i : ℕ} (hi : i + n ≤ 8) (e : FileRepInfo)
    {j : ℕ} (hj : j < 8) :
    (copyFrags o frags n i e).value.map[j] =
      if i ≤ j ∧ j < i + n then hton o (frags j) else e.map[j] := by
  induction n generalizing i e with
  | zero => rw [if_neg (by omega)]; rfl
  | succ n ih =>
    refine (ih (by omega) (e.storeMap i (hton o (frags i)))).trans ?_
    have hmap : (e.storeMap i (hton o (frags i))).map = e.map.set i (hton o (frags i)) := by
      rw [FileRepInfo.storeMap, dif_pos (by omega)]
    simp only [hmap, Vector.getElem_set]
    by_cases hij : i = j
    · subst hij
      rw [if_neg (by omega), if_pos rfl, if_pos (by omega)]
    · rw [if_neg hij]
      exact if_congr (by omega) rfl rfl

theorem dist_copyFrags (o : ByteOrder) (frags : ℕ → U32) (n i : ℕ) (e : FileRepInfo) :
    (copyFrags o frags n i e).value.dist = e.dist ∧
      (copyFrags o frags n i e).value.dstIp = e.dstIp := by
  induction n generalizing i e with
  | zero => exact ⟨rfl, rfl⟩
  | succ n ih =>
    refine (ih (i + 1) (e.storeMap i (hton o (frags i)))).imp (·.trans ?_) (·.trans ?_) <;>
    · unfold FileRepInfo.storeMap
      split_ifs <;> rfl

/-! ## The messages -/

/-- A message, with the values that its sender fills in.  `frreqFwd` is the one of
`gen_frreq_by_task`. -/
inductive Message
  | flreq (srcIp fileId seq : U32)
  | flrep (srcIp dstIp fileId dist : U32) (frags : List U32)
  | frreqOri (srcIp dstIp fileId fragId : U32)
  | frreqFwd (srcIp dstIp fileId fragId : U32)
  | exreq (srcIp dstIp fileId fragId : U32)
  | exrep (srcIp dstIp fileId fragId score : U32)
  | addcache (srcIp dstIp fileId fragId : U32)

namespace Message

/-- What fits into the map of the receiver. -/
def Fits : Message → Prop
  | flrep _ _ _ _ frags => frags.length ≤ 8
  | _ => True

/-- The octets that leave the node `p`. -/
def octets (p : Params) : Message → List Byte
  | flreq srcIp fileId seq => flreqOctets p.order srcIp fileId seq
  | flrep srcIp dstIp fileId dist frags => flrepOctets p srcIp dstIp fileId dist frags
  | frreqOri srcIp dstIp fileId fragId => frreqOctets p fragReqOriMessage srcIp dstIp fileId fragId
  | frreqFwd srcIp dstIp fileId fragId => frreqOctets p fragReqFwdMessage srcIp dstIp fileId fragId
  | exreq srcIp dstIp fileId fragId => exchReqOctets p srcIp dstIp fileId fragId
  | exrep srcIp dstIp fileId fragId score => exchRepOctets p srcIp dstIp fileId fragId score
  | addcache srcIp dstIp fileId fragId => addCacheOctets p srcIp dstIp fileId fragId

/-- What the handler on the node `pr` works with, in the task `t` with the octets of the message, is
what the sender `ps` has filled in. -/
def Agrees (ps pr : Params) (t : Task) : Message → Prop
  | flreq srcIp fileId seq => ∃ m, FileReq.load pr.order t.data = some m ∧
      let m := convertFlreqToHost pr.order m
      SameIp ps.order srcIp pr.order m.srcIp ∧ m.fileId = fileId ∧ m.seq = seq ∧ m.metric = 0
  | flrep srcIp _ fileId dist frags => ∃ m, FileRep.load pr.order t.data = some m ∧
      -- what `find_rinfo` and the timer get, and the new entry
      m.fileId = fileId ∧ ∀ mem d, mem.Succeeds → ∃ e,
        createRinfo pr mem t m d = some { d with rinfo := e :: d.rinfo } ∧
        e.fileId = fileId ∧ SameIp ps.order srcIp pr.order e.dstIp ∧ e.dist = dist ∧
        e.fragCount.toNat = frags.length ∧ ∀ i (h : i < frags.length), e.map[i]? = some frags[i]
  | frreqOri srcIp dstIp fileId fragId => ∃ m, FragReq.load pr.order t.data = some m ∧
      let m := convertFrreqToHost pr.order m
      SameIp ps.order srcIp pr.order m.srcIp ∧ m.fileId = fileId ∧ m.fragId = fragId ∧
        -- where `gen_frreq_by_task` sends the request on to
        SameIp ps.order dstIp pr.order (hton pr.order m.dstIp)
  | frreqFwd srcIp _ fileId fragId => ∃ m, FragReq.load pr.order t.data = some m ∧
      let m := convertFrreqToHost pr.order m
      SameIp ps.order srcIp pr.order m.srcIp ∧ m.fileId = fileId ∧ m.fragId = fragId
  | exreq srcIp dstIp fileId fragId => ∃ m, ExchReq.load pr.order t.data = some m ∧
      let m := convertExreqToHost pr.order m
      SameIp ps.order srcIp pr.order m.srcIp ∧ SameIp ps.order dstIp pr.order m.dstIp ∧
        m.fileId = fileId ∧ m.fragId = fragId
  | exrep srcIp dstIp fileId fragId score => ∃ m, ExchRep.load pr.order t.data = some m ∧
      let m := convertExrepToHost pr.order m
      SameIp ps.order srcIp pr.order m.srcIp ∧ SameIp ps.order dstIp pr.order m.dstIp ∧
        m.fileId = fileId ∧ m.fragId = fragId ∧ m.score = score
  | addcache _ dstIp fileId fragId => ∃ m, AddCache.load pr.order t.data = some m ∧
      let m := convertAddcacheToHost pr.order m
      SameIp ps.order dstIp pr.order m.dstIp ∧ m.fileId = fileId ∧ m.fragId = fragId

/-- When a message gets across from a host of order `s` to one of order `r`. -/
def Portable (s r : ByteOrder) : Message → Prop
  | flreq srcIp _ _ => r = .big ∨ Palindromic srcIp
  | flrep srcIp _ fileId _ frags => (s = r ∨ Palindromic srcIp) ∧
      (r = .big ∨ Palindromic fileId ∧ frags = [])
  | frreqOri srcIp dstIp _ _ => (s = r ∨ Palindromic srcIp) ∧ (s = .big ∨ Palindromic dstIp)
  | frreqFwd srcIp _ _ _ => s = r ∨ Palindromic srcIp
  | exreq srcIp dstIp _ _ | exrep srcIp dstIp _ _ _ =>
      (s = r ∨ Palindromic srcIp) ∧ (s = r ∨ Palindromic dstIp)
  | addcache _ dstIp _ _ => s = r ∨ Palindromic dstIp

end Message

section Handlers

variable {ps pr : Params} {t : Task} {mem : Mem} {clk : Clock} {d : Daemon}

namespace Message

/-- The handler of a reply that arrives whole looks for the fragments of the file that the sender
has meant, and sets the timer for it. -/
theorem Agrees.recvFlrep_eq {srcIp dstIp fileId dist : U32} {frags : List U32}
    (h : (flrep srcIp dstIp fileId dist frags).Agrees ps pr t) (hdst : t.dstIp = pr.myIp)
    (hmem : mem.Succeeds) : ∃ e : FileRepInfo,
      recvFlrep pr mem clk t d = some { startTimer pr mem clk fileId d with
        rinfo := e :: (startTimer pr mem clk fileId d).rinfo } ∧
      e.fileId = fileId ∧ SameIp ps.order srcIp pr.order e.dstIp := by
  obtain ⟨m, hload, rfl, hentry⟩ := h
  obtain ⟨e, he, hfile, hip, -⟩ := hentry mem (startTimer pr mem clk m.fileId d) hmem
  refine ⟨e, ?_, hfile, hip⟩
  rw [recvFlrep, if_neg (not_not.2 hdst), hload]
  exact he

/-- A request that arrives whole is sent on to the node for which the sender has meant it. -/
theorem Agrees.sent_genFrreqByTask {srcIp dstIp fileId fragId : U32} {ok : Bool}
    (h : (frreqOri srcIp dstIp fileId fragId).Agrees ps pr t) :
    ∃ m, FragReq.load pr.order t.data = some m ∧
      ∀ g ∈ (genFrreqByTask pr ok t (convertFrreqToHost pr.order m) d).sent, g ∈ d.sent ∨
        SameIp ps.order dstIp pr.order g.dst ∧ g.payload = (frreqFwd
          (convertFrreqToHost pr.order m).srcIp (convertFrreqToHost pr.order m).dstIp
          fileId fragId).octets pr := by
  obtain ⟨m, hload, -, hfile, hfrag, hip⟩ := h
  refine ⟨m, hload, fun g hg => ?_⟩
  rw [genFrreqByTask] at hg
  split at hg
  · rw [sendMessage] at hg
    split at hg
    · exact .inl hg
    · refine (List.mem_append.1 hg).imp_right fun hnew => ?_
      obtain rfl := List.mem_singleton.1 hnew
      rw [← hfile, ← hfrag]
      exact ⟨hip, rfl⟩
  · exact .inl hg

end Message

end Handlers

/-! ## Message by message -/

section Messages

variable {ps pr : Params} {t : Task}

theorem agrees_flreq_iff {srcIp fileId seq : U32}
    (ht : t.data = (Message.flreq srcIp fileId seq).octets ps) :
    (Message.flreq srcIp fileId seq).Agrees ps pr t ↔
      (Message.flreq srcIp fileId seq).Portable ps.order pr.order := by
  have hload := load_store_flreq ps.order pr.order ⟨srcIp, broadcastIp, hton ps.order fileId,
    hton ps.order seq, hton ps.order 0⟩
  simp only [Message.Agrees, Message.Portable, ht, Message.octets, flreqOctets, hload,
    Option.some.injEq, exists_eq_left', convertFlreqToHost, seen_hton, hton_hton,
    and_self, and_true]
  rw [sameIp_iff, seen, hton_hton, eq_comm, hton_eq_self_iff, palindromic_hton]

/-- The fragment ids of a reply, as the host of order `r` reads them. -/
theorem fragsOfTask_flrep {srcIp dstIp fileId dist : U32} {frags : List U32}
    (ht : t.data = flrepOctets ps srcIp dstIp fileId dist frags) {r : ByteOrder} {i : ℕ}
    (hi : i < frags.length) : fragsOfTask r t i = hton r frags[i] := by
  have hlt : i + 4 < ([hton ps.order srcIp, hton ps.order dstIp, hton ps.order fileId,
      hton ps.order dist] ++ frags.map (hton ps.order)).length := by
    simpa using hi
  have hload := load_fields ps.order r (length_header fileRepMessage (BitVec.ofNat 8 frags.length))
    hlt (show FileRep.size + 4 * i = 4 + 4 * (i + 4) by simp only [FileRep.size]; omega)
  rw [fragsOfTask, ht, flrepOctets, FileRep.store, hload]
  simp

theorem load_flrep {srcIp dstIp fileId dist : U32} {frags : List U32}
    (ht : t.data = flrepOctets ps srcIp dstIp fileId dist frags) (r : ByteOrder) :
    FileRep.load r t.data = some ⟨BitVec.ofNat 8 frags.length, hton r srcIp, hton r dstIp,
      hton r fileId, hton r dist⟩ := by
  rw [ht, flrepOctets, load_store_flrep]
  simp only [seen_hton]

theorem length_flrepOctets (srcIp dstIp fileId dist : U32) (frags : List U32) :
    (flrepOctets ps srcIp dstIp fileId dist frags).length = FileRep.size + 4 * frags.length := by
  simp [flrepOctets, FileRep.store, FileRep.size]
  omega

/-- The count octet of a reply with at most eight fragments, as a word. -/
theorem toNat_fragCount {n : ℕ}
    (hn : n ≤ 8) : ((BitVec.ofNat 8 n).setWidth 32 : U32).toNat = n := by
  simp
  omega

/-- On a host that converts the count rightly, `create_rinfo` takes over a reply of at most eight
fragments as it was sent. -/
theorem createRinfo_flrep {srcIp dstIp fileId dist : U32} {frags : List U32}
    (ht : t.data = flrepOctets ps srcIp dstIp fileId dist frags) (hfits : frags.length ≤ 8)
    (hcount : pr.order = .big ∨ frags = []) {mem : Mem} (hmem : mem.Succeeds) (d : Daemon)
    {m : FileRep} (hm : m.fragCount = BitVec.ofNat 8 frags.length) :
    ∃ e, createRinfo pr mem t m d = some { d with rinfo := e :: d.rinfo } ∧
      e.fileId = hton pr.order m.fileId ∧ e.dstIp = hton pr.order m.srcIp ∧
      e.dist = hton pr.order m.dist ∧ e.fragCount.toNat = frags.length ∧
      ∀ i (h : i < frags.length), e.map[i]? = some frags[i] := by
  have hset := toNat_fragCount hfits
  have hconv : hton pr.order (m.fragCount.setWidth 32) = m.fragCount.setWidth 32 := by
    rcases hcount with h | rfl
    · rw [h, hton_big]
    · rw [hm]
      cases pr.order <;> decide
  have hrounds : rounds pr.order m.fragCount = frags.length := by
    rw [rounds, hconv, hm, BitVec.toInt_eq_toNat_of_lt (by rw [hset]; omega), hset,
      Int.toNat_natCast]
  have hfill : fillRinfo pr.order mem.map m (fragsOfTask pr.order t) =
      copyFrags pr.order (fragsOfTask pr.order t) frags.length 0
        { fileId := hton pr.order m.fileId, dstIp := hton pr.order m.srcIp,
          dist := hton pr.order m.dist, map := mem.map,
          fragCount := hton pr.order (m.fragCount.setWidth 32), expired := 0 } := by
    rw [← hrounds]
    rfl
  have hinside : (fillRinfo pr.order mem.map m (fragsOfTask pr.order t)).trace.all
      (Access.inside t.data.length) = true := by
    refine List.all_eq_true.2 fun a ha => ?_
    obtain ⟨j, hj, rfl | rfl⟩ := mem_trace_fillRinfo.1 ha
    · simp only [Access.inside, ht, length_flrepOctets, decide_eq_true_eq]
      omega
    · simp only [Access.inside, decide_eq_true_eq]
      omega
  refine ⟨(fillRinfo pr.order mem.map m (fragsOfTask pr.order t)).value, ?_, ?_, ?_, ?_, ?_,
    fun i hi => ?_⟩
  · rw [createRinfo, if_pos (hmem _ _)]
    exact if_pos hinside
  · rw [hfill, fileId_copyFrags]
  · rw [hfill, (dist_copyFrags _ _ _ _ _).2]
  · rw [hfill, (dist_copyFrags _ _ _ _ _).1]
  · rw [hfill, fragCount_copyFrags _ _ (by omega), hconv, hm, hset]
  · have hi8 : i < 8 := by omega
    rw [hfill, Vector.getElem?_eq_getElem hi8, map_copyFrags _ _ (by omega) _ hi8,
      if_pos (by omega), fragsOfTask_flrep ht hi, hton_hton]

theorem agrees_flrep_iff {srcIp dstIp fileId dist : U32} {frags : List U32}
    (ht : t.data = (Message.flrep srcIp dstIp fileId dist frags).octets ps)
    (hfits : frags.length ≤ 8) :
    (Message.flrep srcIp dstIp fileId dist frags).Agrees ps pr t ↔
      (Message.flrep srcIp dstIp fileId dist frags).Portable ps.order pr.order := by
  have hload := load_flrep ht pr.order
  constructor
  · rintro ⟨m, hm, hfile, hentry⟩
    obtain rfl := Option.some.inj (hload.symm.trans hm)
    have hfile : hton pr.order fileId = fileId := hfile
    obtain ⟨e, he, -, hip, -⟩ := hentry .plenty {} Mem.plenty_succeeds
    -- a count that is not zero sends a little-endian host out of the entry
    have hcount : pr.order = .big ∨ frags = [] := by
      by_contra hbad
      rw [not_or] at hbad
      have hlittle : pr.order = .little := by
        cases h : pr.order with
        | big => exact absurd h hbad.1
        | little => rfl
      have hpos : 0 < frags.length := List.length_pos_iff.2 hbad.2
      have hr := rounds_little (BitVec.ofNat 8 frags.length)
      have hn : (BitVec.ofNat 8 frags.length).toNat = frags.length := by
        simp
        omega
      rw [hn, if_pos (by omega)] at hr
      rw [createRinfo, if_pos (Mem.plenty_succeeds _ _)] at he
      dsimp only at he
      split at he
      · rename_i hall
        have hbad := List.all_eq_true.1 hall (.writeMap 12)
          (mem_trace_fillRinfo.2 ⟨12, by rw [hlittle, hr]; omega, Or.inr rfl⟩)
        exact absurd hbad (by simp [Access.inside])
      · cases he
    obtain ⟨e', he', -, hip', -⟩ := createRinfo_flrep ht hfits hcount Mem.plenty_succeeds
      ({} : Daemon) (m := ⟨BitVec.ofNat 8 frags.length, hton pr.order srcIp, hton pr.order dstIp,
        hton pr.order fileId, hton pr.order dist⟩) rfl
    obtain rfl : e' = e := by
      have := Option.some.inj (he'.symm.trans he)
      simpa using this
    rw [hip', hton_hton, sameIp_self_iff] at hip
    refine ⟨hip, ?_⟩
    rcases hton_eq_self_iff.1 hfile with hbig | hpal
    · exact Or.inl hbig
    · exact hcount.imp_right fun h => ⟨hpal, h⟩
  · rintro ⟨hip, hcount⟩
    refine ⟨_, hload, ?_, fun mem d hmem => ?_⟩
    · exact hton_eq_self_iff.2 (hcount.imp_right And.left)
    · obtain ⟨e, he, hfile, hdst, hdist, hlen, hmap⟩ := createRinfo_flrep ht hfits
        (hcount.imp_right And.right) hmem d (m := ⟨BitVec.ofNat 8 frags.length, hton pr.order srcIp,
          hton pr.order dstIp, hton pr.order fileId, hton pr.order dist⟩) rfl
      refine ⟨e, he, by simpa using hfile, ?_, by simpa using hdist, hlen, hmap⟩
      rw [hdst, hton_hton]
      exact sameIp_self_iff.2 hip

theorem agrees_frreqOri_iff {srcIp dstIp fileId fragId : U32}
    (ht : t.data = (Message.frreqOri srcIp dstIp fileId fragId).octets ps) :
    (Message.frreqOri srcIp dstIp fileId fragId).Agrees ps pr t ↔
      (Message.frreqOri srcIp dstIp fileId fragId).Portable ps.order pr.order := by
  have hload := load_store_frreq ps.order pr.order fragReqOriMessage ⟨hton ps.order srcIp,
    hton ps.order dstIp, hton ps.order fileId, hton ps.order fragId⟩
  simp only [Message.Agrees, Message.Portable, ht, Message.octets, frreqOctets, hload,
    Option.some.injEq, exists_eq_left', convertFrreqToHost, seen_hton, hton_hton, true_and,
    sameIp_self_iff]
  rw [sameIp_iff, hton_hton, hton_eq_self_iff]

theorem agrees_frreqFwd_iff {srcIp dstIp fileId fragId : U32}
    (ht : t.data = (Message.frreqFwd srcIp dstIp fileId fragId).octets ps) :
    (Message.frreqFwd srcIp dstIp fileId fragId).Agrees ps pr t ↔
      (Message.frreqFwd srcIp dstIp fileId fragId).Portable ps.order pr.order := by
  have hload := load_store_frreq ps.order pr.order fragReqFwdMessage ⟨hton ps.order srcIp,
    hton ps.order dstIp, hton ps.order fileId, hton ps.order fragId⟩
  simp only [Message.Agrees, Message.Portable, ht, Message.octets, frreqOctets, hload,
    Option.some.injEq, exists_eq_left', convertFrreqToHost, seen_hton, hton_hton,
    and_self, and_true,
    sameIp_self_iff]

theorem agrees_exreq_iff {srcIp dstIp fileId fragId : U32}
    (ht : t.data = (Message.exreq srcIp dstIp fileId fragId).octets ps) :
    (Message.exreq srcIp dstIp fileId fragId).Agrees ps pr t ↔
      (Message.exreq srcIp dstIp fileId fragId).Portable ps.order pr.order := by
  have hload := load_store_exreq ps.order pr.order ⟨hton ps.order srcIp,
    hton ps.order dstIp, hton ps.order fileId, hton ps.order fragId⟩
  simp only [Message.Agrees, Message.Portable, ht, Message.octets, exchReqOctets, hload,
    Option.some.injEq, exists_eq_left', convertExreqToHost, seen_hton, hton_hton,
    and_self, and_true,
    sameIp_self_iff]

theorem agrees_exrep_iff {srcIp dstIp fileId fragId score : U32}
    (ht : t.data = (Message.exrep srcIp dstIp fileId fragId score).octets ps) :
    (Message.exrep srcIp dstIp fileId fragId score).Agrees ps pr t ↔
      (Message.exrep srcIp dstIp fileId fragId score).Portable ps.order pr.order := by
  have hload := load_store_exrep ps.order pr.order ⟨hton ps.order fileId, hton ps.order fragId,
    hton ps.order srcIp, hton ps.order dstIp, hton ps.order score⟩
  simp only [Message.Agrees, Message.Portable, ht, Message.octets, exchRepOctets, hload,
    Option.some.injEq, exists_eq_left', convertExrepToHost, seen_hton, hton_hton,
    and_self, and_true,
    sameIp_self_iff]

theorem agrees_addcache_iff {srcIp dstIp fileId fragId : U32}
    (ht : t.data = (Message.addcache srcIp dstIp fileId fragId).octets ps) :
    (Message.addcache srcIp dstIp fileId fragId).Agrees ps pr t ↔
      (Message.addcache srcIp dstIp fileId fragId).Portable ps.order pr.order := by
  have hload := load_store_addcache ps.order pr.order ⟨hton ps.order fileId, hton ps.order fragId,
    hton ps.order srcIp, hton ps.order dstIp⟩
  simp only [Message.Agrees, Message.Portable, ht, Message.octets, addCacheOctets, hload,
    Option.some.injEq, exists_eq_left', convertAddcacheToHost, seen_hton, hton_hton, and_self,
    and_true, sameIp_self_iff]

end Messages

/-- What a handler works with is what the sender filled in exactly if the message is
portable between the two byte orders. -/
theorem agrees_iff_portable (ps pr : Params) (m : Message) (hfits : m.Fits) (t : Task)
    (ht : t.data = m.octets ps) : m.Agrees ps pr t ↔ m.Portable ps.order pr.order := by
  cases m with
  | flreq => exact agrees_flreq_iff ht
  | flrep => exact agrees_flrep_iff ht hfits
  | frreqOri => exact agrees_frreqOri_iff ht
  | frreqFwd => exact agrees_frreqFwd_iff ht
  | exreq => exact agrees_exreq_iff ht
  | exrep => exact agrees_exrep_iff ht
  | addcache => exact agrees_addcache_iff ht

/-- The node `testNode` as a little-endian host. -/
def littleNode : Params := { testNode with order := .little, myIp := 0x0A00A8C0 }

/-- The task of a message on its receiver. -/
def taskOf (ps : Params) (m : Message) : Task :=
  { createTask .fileReqProcess ⟨0, 0⟩ with data := m.octets ps }

theorem agrees_iff_portable_reply :
    (Message.flrep 0xC0A8000A 0xC0A80014 1 2 [3, 4]).Agrees testNode testNode
      (taskOf testNode (.flrep 0xC0A8000A 0xC0A80014 1 2 [3, 4])) :=
  (agrees_iff_portable testNode testNode (.flrep 0xC0A8000A 0xC0A80014 1 2 [3, 4])
    (show 2 ≤ 8 by decide) _ rfl).2 ⟨Or.inl rfl, Or.inl rfl⟩

/-- A little-endian daemon would answer a request of 192.168.0.10 to 10.0.168.192. -/
theorem not_agrees_request :
    ¬ ∀ (ps pr : Params) (m : Message) (t : Task), m.Fits → t.data = m.octets ps →
      m.Agrees ps pr t := by
  intro h
  have hagrees := (agrees_flreq_iff rfl).1
    (h littleNode littleNode (.flreq littleNode.myIp 1 1)
      (taskOf littleNode (.flreq littleNode.myIp 1 1)) trivial rfl)
  exact absurd hagrees (by unfold Message.Portable; decide)

end MobileCloudCaching.Caching

import MobileCloudCaching.Caching.Exchange
import MobileCloudCaching.Library.Doubly

/-!
# The exchange table in memory (`cExchange.c`)

The entries are cells of a doubly linked list that hangs on `extable`, the last one inserted first.
`select_agent` goes from one unexpired entry of a fragment to the next with `find_extable`, and
marks each as expired when it has looked at it.
-/

namespace MobileCloudCaching.Caching.InMemory

open Linked Doubly

abbrev ExchCell : Type := Cell ExchTable

/-- Where an entry has `prev` and `next`. -/
abbrev exchCell : Layout ExchCell ExchTable := Cell.layout ExchTable

structure Exchange where
  mem : Memory ExchCell := {}
  extable : Option ℕ := none
  deriving DecidableEq

/-! ## The code -/

def findExtable (head : Option ℕ) (fileId fragId : U32) (m : Memory ExchCell) :
    Option (Option ℕ) :=
  exchCell.skip (fun e => !e.live fileId fragId) head m

def insertExtable (newExtable : ℕ) (s : Exchange) : Option Exchange := do
  let (mem, extable) ← exchCell.push newExtable s.mem s.extable
  return { s with mem := mem, extable := extable }

/-- The entry that `create_extable` fills in. -/
def entryOf (m : ExchRep) : ExchTable where
  fileId := m.fileId
  fragId := m.fragId
  dstIp := m.dstIp
  neighIp := m.srcIp
  score := m.score
  expired := 0

/-- `create_extable`, for which `kmalloc` has found an address or none. -/
def createExtable (kmalloc : Option ℕ) (m : ExchRep) (s : Exchange) : Option Exchange :=
  match kmalloc with
  | none => some s
  | some a =>
    let entry : ExchCell := { val := entryOf m, prev := none, next := none }
    insertExtable a { s with mem := s.mem.alloc a entry }

/-- The loop of `select_agent`: the address chosen, and the memory with the marks. -/
def agentLoop (fileId fragId : U32) :
    ℕ → U32 → U32 → Option ℕ → Memory ExchCell → Option (U32 × Memory ExchCell)
  | _, _, dstIp, none, m => some (dstIp, m)
  | 0, _, _, some _, _ => none
  | fuel + 1, maxScore, dstIp, some tmpExtable, m => do
    let tmp ← m.get tmpExtable
    let best :=
      if tmp.val.score > maxScore then (tmp.val.score, tmp.val.neighIp) else (maxScore, dstIp)
    let m := m.set tmpExtable { tmp with val := { tmp.val with expired := 1 } }
    agentLoop fileId fragId fuel best.1 best.2 (← findExtable tmp.next fileId fragId m) m

/-- `select_agent`, of a daemon whose exchange table is in memory. -/
def selectAgent (p : Params) (mem : Mem) (t : Task) (s : Exchange) (d : Daemon) :
    Option (Exchange × Daemon) := do
  let maxScore := getScore p t.fileId t.fragId d
  let first ← findExtable s.extable t.fileId t.fragId s.mem
  let (dstIp, m) ← agentLoop t.fileId t.fragId s.mem.cells.length maxScore p.myIp first s.mem
  let s := { s with mem := m }
  if dstIp ≠ p.myIp then
    return (s, genAddCache p (mem.ok .message 0) dstIp t.dstIp t.fileId t.fragId d)
  else return (s, (Caching.retrieveFrag p (mem.ok .cache 0) t.fileId t.fragId d).2)

/-! ## The loop -/

variable {p : Params} {s : Exchange} {l l₁ l₂ : List (ℕ × ExchTable)} {fileId fragId : U32}
  {m : Memory ExchCell} {head : Option ℕ} {a : ℕ}

/-- What the loop leaves of an entry. -/
def expire (fileId fragId : U32) (e : ExchTable) : ExchTable :=
  if e.live fileId fragId then { e with expired := 1 } else e

/-- `create_extable` puts the new entry in front of the others. -/
theorem createExtable_holds (h : exchCell.Holds s.mem s.extable l) (ha : s.mem.get a = none)
    (m : ExchRep) : ∃ t, createExtable (some a) m s = some t ∧
      exchCell.Holds t.mem t.extable ((a, entryOf m) :: l) := by
  have hnew : (s.mem.alloc a { val := entryOf m, prev := none, next := none }).get a =
      some { val := entryOf m, prev := none, next := none } := Memory.get_alloc_self
  obtain ⟨w, hpush, hholds⟩ :=
    (h.alloc ha).push hnew (h.not_mem ha) (x := entryOf m) rfl rfl rfl
  refine ⟨{ s with mem := w, extable := some a }, ?_, hholds⟩
  unfold createExtable insertExtable
  dsimp only
  rw [hpush]
  rfl

theorem findExtable_suffix (h : exchCell.Holds m head (l₁ ++ l₂)) (fileId fragId : U32) :
    findExtable (firstOf l₂ none) fileId fragId m =
      some (firstOf (l₂.dropWhile fun c => !c.2.live fileId fragId) none) := by
  obtain ⟨hrun, hlen⟩ := h.suffix
  exact hrun.skip hlen _

/-- From any place in the list, the loop chooses and marks as the loop over the entries does. -/
theorem agentLoop_suffix (fileId fragId maxScore dstIp : U32) {fuel : ℕ}
    (h : exchCell.Holds m head (l₁ ++ l₂)) (hfuel : l₂.length ≤ fuel) :
    ∃ w, agentLoop fileId fragId fuel maxScore dstIp
        (firstOf (l₂.dropWhile fun c => !c.2.live fileId fragId) none) m =
          some ((bestAgent fileId fragId (l₂.map Prod.snd) (maxScore, dstIp)).2, w) ∧
      exchCell.Holds w head (l₁ ++ l₂.map fun c => (c.1, expire fileId fragId c.2)) := by
  induction l₂ generalizing l₁ m fuel maxScore dstIp with
  | nil => exact ⟨m, by cases fuel <;> rfl, h⟩
  | cons c l₂ ih =>
    obtain ⟨a, x⟩ := c
    have hstep : ∀ {m' : Memory ExchCell} {y : ExchTable} {max dst : U32} {fuel : ℕ},
        exchCell.Holds m' head (l₁ ++ (a, y) :: l₂) → l₂.length ≤ fuel →
        ∃ w, agentLoop fileId fragId fuel max dst
            (firstOf (l₂.dropWhile fun c => !c.2.live fileId fragId) none) m' =
              some ((bestAgent fileId fragId (l₂.map Prod.snd) (max, dst)).2, w) ∧
          exchCell.Holds w head (l₁ ++ (a, y) ::
          l₂.map fun c => (c.1, expire fileId fragId c.2)) := by
      intro m' y max dst fuel h' hfuel'
      have h'' : exchCell.Holds m' head ((l₁ ++ [(a, y)]) ++ l₂) := by simpa using h'
      obtain ⟨w, hw, hholds⟩ := ih max dst h'' hfuel'
      exact ⟨w, hw, by simpa using hholds⟩
    rw [List.map_cons, List.map_cons, bestAgent]
    by_cases hlive : x.live fileId fragId = true
    · obtain ⟨n, hget, rfl, hnext, -⟩ := Cell.uncons h.suffix.1
      rw [List.dropWhile_cons_of_neg (by simpa using hlive), firstOf_cons]
      cases fuel with
      | zero => exact absurd hfuel (Nat.not_succ_le_zero _)
      | succ fuel =>
        -- the entry is marked, and the search goes on from the next one
        have hmark : exchCell.Holds (m.set a { n with val := { n.val with expired := 1 } }) head
            (l₁ ++ (a, { n.val with expired := 1 }) :: l₂) := h.write hget rfl rfl rfl
        have hfind : findExtable n.next fileId fragId
            (m.set a { n with val := { n.val with expired := 1 } }) =
              some (firstOf (l₂.dropWhile fun c => !c.2.live fileId fragId) none) := by
          have hmark' : exchCell.Holds (m.set a { n with val := { n.val with expired := 1 } }) head
              ((l₁ ++ [(a, { n.val with expired := 1 })]) ++ l₂) := by simpa using hmark
          rw [← findExtable_suffix hmark' fileId fragId]
          exact congrArg (findExtable · fileId fragId _) hnext
        rw [agentLoop, hget]
        simp only [Option.bind_eq_bind, Option.bind_some, hfind]
        have hexpire : expire fileId fragId n.val = { n.val with expired := 1 } := if_pos hlive
        rw [hexpire]
        have hfuel := Nat.le_of_succ_le_succ hfuel
        by_cases hscore : n.val.score > maxScore
        · rw [if_pos hscore, if_pos ⟨hlive, hscore⟩]
          exact hstep hmark hfuel
        · rw [if_neg hscore, if_neg fun hboth => hscore hboth.2]
          exact hstep hmark hfuel
    · rw [List.dropWhile_cons_of_pos (by simpa using hlive), if_neg fun hboth => hlive hboth.1]
      simp only [expire, if_neg hlive]
      exact hstep h (Nat.le_of_succ_le hfuel)

/-! ## The choice -/

/-- `v`, with `l₁` before it and `l₂` behind, is the first of the entries with the highest score,
which is above `max`. -/
structure Best (fileId fragId max : U32) (l₁ : List ExchTable) (v : ExchTable)
    (l₂ : List ExchTable) : Prop where
  live : v.live fileId fragId = true
  above : max < v.score
  before : ∀ e ∈ l₁, e.live fileId fragId = true → e.score < v.score
  after : ∀ e ∈ l₂, e.live fileId fragId = true → e.score ≤ v.score

theorem bestAgent_spec (fileId fragId : U32) (l : List ExchTable) (max dst : U32) :
    (∀ e ∈ l, e.live fileId fragId = true → e.score ≤ max) ∧
      bestAgent fileId fragId l (max, dst) = (max, dst) ∨
    ∃ l₁ v l₂, l = l₁ ++ v :: l₂ ∧ Best fileId fragId max l₁ v l₂ ∧
      bestAgent fileId fragId l (max, dst) = (v.score, v.neighIp) := by
  induction l generalizing max dst with
  | nil => exact .inl ⟨by simp, rfl⟩
  | cons e l ih =>
    rw [bestAgent]
    by_cases htaken : e.live fileId fragId = true ∧ e.score > max
    · rw [if_pos htaken]
      obtain ⟨hlive, habove⟩ := htaken
      rcases ih e.score e.neighIp with ⟨hrest, hbest⟩ | ⟨l₁, v, l₂, rfl, hv, hbest⟩
      · exact .inr ⟨[], e, l, rfl, ⟨hlive, habove, by simp, hrest⟩, hbest⟩
      · have hbefore := List.forall_mem_cons.2 ⟨fun _ => hv.above, hv.before⟩
        exact .inr ⟨e :: l₁, v, l₂, rfl,
          ⟨hv.live, BitVec.lt_trans habove hv.above, hbefore, hv.after⟩, hbest⟩
    · rw [if_neg htaken]
      have he : e.live fileId fragId = true → e.score ≤ max := fun hlive =>
        BitVec.not_lt.1 fun habove => htaken ⟨hlive, habove⟩
      rcases ih max dst with ⟨hrest, hbest⟩ | ⟨l₁, v, l₂, rfl, hv, hbest⟩
      · exact .inl ⟨List.forall_mem_cons.2 ⟨he, hrest⟩, hbest⟩
      · have he' : e.live fileId fragId = true → e.score < v.score := fun hlive =>
          BitVec.lt_def.2
            (Nat.lt_of_le_of_lt (BitVec.le_def.1 (he hlive)) (BitVec.lt_def.1 hv.above))
        have hbefore := List.forall_mem_cons.2 ⟨he', hv.before⟩
        exact .inr ⟨e :: l₁, v, l₂, rfl, ⟨hv.live, hv.above, hbefore, hv.after⟩, hbest⟩

/-- The loop leaves no unexpired entry of the fragment. -/
theorem live_expire (fileId fragId : U32) (e : ExchTable) :
    (expire fileId fragId e).live fileId fragId = false := by
  by_cases hlive : e.live fileId fragId = true
  · rw [expire, if_pos hlive]
    rfl
  · rw [expire, if_neg hlive]
    exact Bool.eq_false_iff.2 hlive

/-- What `select_agent` does: it goes through all the entries, and sends one message or
prefetches. -/
theorem selectAgent_spec (h : exchCell.Holds s.mem s.extable l) (p : Params) (mem : Mem) (t : Task)
    (d : Daemon) : ∃ s' dst, dst = (bestAgent t.fileId t.fragId (l.map Prod.snd)
          (getScore p t.fileId t.fragId d, p.myIp)).2 ∧
      exchCell.Holds s'.mem s'.extable (l.map fun c => (c.1, expire t.fileId t.fragId c.2)) ∧
      selectAgent p mem t s d = some (s',
        if dst ≠ p.myIp then
          genAddCache p (mem.ok .message 0) dst t.dstIp t.fileId t.fragId d
        else (retrieveFrag p (mem.ok .cache 0) t.fileId t.fragId d).2) := by
  have hlist : exchCell.Holds s.mem s.extable ([] ++ l) := h
  obtain ⟨w, hloop, hholds⟩ := agentLoop_suffix t.fileId t.fragId
    (getScore p t.fileId t.fragId d) p.myIp hlist h.length_le
  have hfirst := findExtable_suffix hlist t.fileId t.fragId
  rw [← h.head_eq] at hfirst
  refine ⟨{ s with mem := w }, _, rfl, hholds, ?_⟩
  unfold selectAgent
  simp only [hfirst, hloop, Option.bind_eq_bind, Option.bind_some]
  split <;> rfl

/-! ## The table as a list -/

/-- Prefetching does not look at the exchange table. -/
theorem retrieveFrag_with_extable (p : Params) (ok : Bool) (fileId fragId : U32)
    (x : List ExchTable) (d : Daemon) :
    (retrieveFrag p ok fileId fragId { d with extable := x }).2 =
      { (retrieveFrag p ok fileId fragId d).2 with extable := x } := by
  unfold retrieveFrag createCache
  dsimp only
  split
  · rfl
  split
  · split
    · rfl
    · cases ok <;> rfl
  · cases ok <;> rfl

/-- `select_agent` does to the table in memory what it does to the list. -/
theorem selectAgent_follows (h : exchCell.Holds s.mem s.extable l) (p : Params) (mem : Mem)
    (t : Task) {d : Daemon} (hd : d.extable = l.map Prod.snd) :
    ∃ s' l' e, selectAgent p mem t s d = some (s', e) ∧ exchCell.Holds s'.mem s'.extable l' ∧
      Caching.selectAgent p mem t d = { e with extable := l'.map Prod.snd } := by
  obtain ⟨s', dst, rfl, hholds, hs⟩ := selectAgent_spec h p mem t d
  refine ⟨s', _, _, hs, hholds, ?_⟩
  have hexpire : expireExtable t.fileId t.fragId d.extable =
      (l.map fun c => (c.1, expire t.fileId t.fragId c.2)).map Prod.snd := by
    rw [hd, List.map_map]
    exact List.map_map
  unfold Caching.selectAgent agent
  dsimp only
  rw [hexpire, hd]
  split
  · unfold genAddCache sendMessage
    split <;> rfl
  · exact retrieveFrag_with_extable p _ _ _ _ d

/-! ## The round -/

/-- The address that a round may end with: this node if no unexpired entry of the fragment has a
score above its own, and else the neighbour of the last inserted one of those with the highest
score. -/
structure Chosen (p : Params) (fileId fragId : U32) (l : List ExchTable) (d : Daemon)
    (dst : U32) : Prop where
  own : (∀ e ∈ l, e.live fileId fragId = true → e.score ≤ getScore p fileId fragId d) →
    dst = p.myIp
  other : (∃ e ∈ l, e.live fileId fragId = true ∧ getScore p fileId fragId d < e.score) →
    ∃ l₁ v l₂, l = l₁ ++ v :: l₂ ∧
      Best fileId fragId (getScore p fileId fragId d) l₁ v l₂ ∧ dst = v.neighIp

theorem chosen_bestAgent (p : Params) (fileId fragId : U32) (l : List ExchTable) (d : Daemon) :
    Chosen p fileId fragId l d (bestAgent fileId fragId l (getScore p fileId fragId d,
    p.myIp)).2 := by
  rcases bestAgent_spec fileId fragId l (getScore p fileId fragId d) p.myIp with
    ⟨hnone, hbest⟩ | ⟨l₁, v, l₂, rfl, hv, hbest⟩
  · rw [hbest]
    refine ⟨fun _ => rfl, ?_⟩
    rintro ⟨e, he, hlive, habove⟩
    exact absurd (hnone e he hlive) (BitVec.not_le.2 habove)
  · rw [hbest]
    refine ⟨fun hnone => ?_, fun _ => ⟨l₁, v, l₂, rfl, hv, rfl⟩⟩
    exact absurd (hnone v (by simp) hv.live) (BitVec.not_le.2 hv.above)

/-- `select_agent` ends the round of its fragment: it tells the best neighbour, or prefetches itself
when it is the best, and marks the fragment's entries as expired. -/
theorem selectAgent_endsRound (h : exchCell.Holds s.mem s.extable l) (mem : Mem)
    (hmessage : mem.ok .message 0 = true) (hcache : mem.ok .cache 0 = true)
    (t : Task) (d : Daemon) :
    ∃ s' e l' dst, selectAgent p mem t s d = some (s', e) ∧
      Chosen p t.fileId t.fragId (l.map Prod.snd) d dst ∧
      (dst ≠ p.myIp → e = { d with
        sent := d.sent ++ [{ dst := dst, ttl := BitVec.ofNat 8 netDiameter,
                             payload := addCacheOctets p dst t.dstIp t.fileId t.fragId }] }) ∧
      (dst = p.myIp → e = (retrieveFrag p true t.fileId t.fragId d).2 ∧ e.sent = d.sent) ∧
      exchCell.Holds s'.mem s'.extable l' ∧
      (∀ c ∈ l', c.2.live t.fileId t.fragId = false) ∧
      l' = l.map fun c =>
        (c.1, if c.2.live t.fileId t.fragId then { c.2 with expired := 1 } else c.2) := by
  obtain ⟨s', dst, hdst, hholds, hs⟩ := selectAgent_spec h p mem t d
  rw [hmessage, hcache] at hs
  have hchosen := hdst ▸ chosen_bestAgent p t.fileId t.fragId (l.map Prod.snd) d
  refine ⟨s', _, _, dst, hs, hchosen, fun hne => ?_, fun heq => ?_, hholds, ?_, rfl⟩
  · rw [if_pos hne]
    rfl
  · rw [if_neg (not_not.2 heq)]
    exact ⟨rfl, (retrieveFrag_frame p _ _ _ d).2⟩
  · intro c hc
    obtain ⟨c, -, rfl⟩ := List.mem_map.1 hc
    exact live_expire _ _ _

/-- Three replies for a fragment, of which the last inserted has expired, and one for another. -/
def repliedTable : Exchange where
  mem := ⟨[(1, { val := ⟨1, 1, 0, 7, 90, 1⟩, prev := none, next := some 2 }),
    (2, { val := ⟨2, 1, 0, 6, 90, 0⟩, prev := some 1, next := some 3 }),
    (3, { val := ⟨1, 1, 0, 5, 40, 0⟩, prev := some 2, next := some 4 }),
    (4, { val := ⟨1, 1, 0, 3, 40, 0⟩, prev := some 3, next := none })]⟩
  extable := some 1

theorem holds_repliedTable : exchCell.Holds repliedTable.mem repliedTable.extable
    [(1, ⟨1, 1, 0, 7, 90, 1⟩), (2, ⟨2, 1, 0, 6, 90, 0⟩), (3, ⟨1, 1, 0, 5, 40, 0⟩),
      (4, ⟨1, 1, 0, 3, 40, 0⟩)] := by
  have h₁ : repliedTable.mem.get 1 = some ⟨⟨1, 1, 0, 7, 90, 1⟩, none, some 2⟩ := rfl
  have h₂ : repliedTable.mem.get 2 = some ⟨⟨2, 1, 0, 6, 90, 0⟩, some 1, some 3⟩ := rfl
  have h₃ : repliedTable.mem.get 3 = some ⟨⟨1, 1, 0, 5, 40, 0⟩, some 2, some 4⟩ := rfl
  have h₄ : repliedTable.mem.get 4 = some ⟨⟨1, 1, 0, 3, 40, 0⟩, some 3, none⟩ := rfl
  exact ⟨.cons' h₁ rfl rfl (.cons' h₂ rfl rfl (.cons' h₃ rfl rfl (.cons' h₄ rfl rfl (.nil _ _)))),
    by decide⟩

/-- The task of `ADDCACHE_SEND` for the fragment of the replies. -/
def repliedTask : Task := { createTask .addCacheSend ⟨0, 0⟩ with fileId := 1, fragId := 1 }

theorem selectAgent_endsRound_replied :
    ∃ s' e l' dst, selectAgent testNode .plenty repliedTask repliedTable {} = some (s', e) ∧
      Chosen testNode 1 1 [⟨1, 1, 0, 7, 90, 1⟩, ⟨2, 1, 0, 6, 90, 0⟩, ⟨1, 1, 0, 5, 40, 0⟩,
        ⟨1, 1, 0, 3, 40, 0⟩] {} dst ∧
      exchCell.Holds s'.mem s'.extable l' ∧ ∀ c ∈ l', c.2.live 1 1 = false := by
  obtain ⟨s', e, l', dst, hs, hchosen, -, -, hholds, hlive, -⟩ :=
    selectAgent_endsRound holds_repliedTable .plenty rfl rfl repliedTask {}
  exact ⟨s', e, l', dst, hs, hchosen, hholds, hlive⟩

example : (selectAgent testNode .plenty repliedTask repliedTable {}).map (fun r =>
      (r.2.sent.map Datagram.dst, Linked.toList Cell.val Cell.next r.1.mem 4 r.1.extable)) =
    some ([5], [(1, ⟨1, 1, 0, 7, 90, 1⟩), (2, ⟨2, 1, 0, 6, 90, 0⟩), (3, ⟨1, 1, 0, 5, 40, 1⟩),
      (4, ⟨1, 1, 0, 3, 40, 1⟩)]) := by
  decide +kernel

end MobileCloudCaching.Caching.InMemory

import MobileCloudCaching.Aodv.Unique
import MobileCloudCaching.Library.Linked

/-!
# The route table in memory (`aodv_route.c`)

The entries are cells of a doubly linked list in ascending order of addresses.  A call reads the
clock once for its comparisons, and once more for each entry that it marks.  The locks and the
kernel's own routes are left out; a loop that meets more cells than there are has no end.
-/

namespace MobileCloudCaching.Aodv

open Linked Transition

/-- An entry in memory. -/
structure RouteCell where
  entry : Route
  prev : Option ℕ
  next : Option ℕ
  deriving DecidableEq

namespace InMemory

structure RouteTable where
  mem : Memory RouteCell := {}
  /-- `aodv_route_table` -/
  table : Option ℕ := none
  /-- ghost: the messages of `flush_aodv_route_table` about a wrong `prev` -/
  errors : ℕ := 0
  deriving DecidableEq

/-- The entries from `aodv_route_table` on, with their addresses. -/
def RouteTable.entries (s : RouteTable) : List (ℕ × Route) :=
  toList RouteCell.entry RouteCell.next s.mem s.mem.cells.length s.table

/-- `if (p) p->next = next;` -/
def setNext (p next : Option ℕ) (m : Memory RouteCell) : Option (Memory RouteCell) :=
  if p = none then some m else m.modify p fun c => { c with next := next }

/-- `if (p) p->prev = prev;` -/
def setPrev (p prev : Option ℕ) (m : Memory RouteCell) : Option (Memory RouteCell) :=
  if p = none then some m else m.modify p fun c => { c with prev := prev }

def insertAodvRoute (newRoute : ℕ) (s : RouteTable) : Option RouteTable := do
  let new ← s.mem.get newRoute
  let (prevRoute, tmpRoute) ← walk RouteCell.entry RouteCell.next
    (fun r => decide (r.ip < new.entry.ip)) s.mem
    s.mem.cells.length none s.table
  -- if it goes in the first spot in the table
  let s ← if s.table ≠ none ∧ tmpRoute = s.table then do
      let mem ← s.mem.modify s.table fun c => { c with prev := some newRoute }
      let mem ← mem.modify (some newRoute) fun c => { c with next := s.table }
      return { s with mem := mem, table := some newRoute }
    else some s
  -- if the routing table is empty
  let s := if s.table = none then { s with table := some newRoute } else s
  if prevRoute = none then return s
  else
    let prev ← prevRoute.bind s.mem.get
    let mem ← setPrev prev.next (some newRoute) s.mem
    let mem ← mem.modify (some newRoute) fun c => { c with next := prev.next, prev := prevRoute }
    let mem ← mem.modify prevRoute fun c => { c with next := some newRoute }
    return { s with mem := mem }

/-- The entry that `create_aodv_route` fills in, which leaves the lifetime as the memory held it. -/
def newEntry (a : ℕ) (lifetime : ℕ) (ip : U32) : Route :=
  { newRoute a ip with lifetime := lifetime }

/-- `create_aodv_route`, for which `kmalloc` has found an address or none. -/
def createAodvRoute (kmalloc : Option ℕ) (lifetime : ℕ) (ip : U32)
    (s : RouteTable) : Option RouteTable :=
  match kmalloc with
  | none => some s
  | some a =>
    let s := { s with
      mem := s.mem.alloc a { entry := newEntry a lifetime ip, prev := none, next := none } }
    if ip = 0 then some s else insertAodvRoute a s

def removeAodvRoute (deadRoute : ℕ) (s : RouteTable) : Option RouteTable := do
  let dead ← s.mem.get deadRoute
  let table := if s.table = some deadRoute then dead.next else s.table
  let mem ← setNext dead.prev dead.next s.mem
  let mem ← setPrev dead.next dead.prev mem
  return { s with mem := mem.free deadRoute, table := table }

/-- The loop of `delete_aodv_route`. -/
def deleteFrom (targetIp : U32) : ℕ → Option ℕ → RouteTable → Option (Bool × RouteTable)
  | _, none, s => some (false, s)
  | 0, some _, _ => none
  | fuel + 1, some deadRoute, s => do
    let dead ← s.mem.get deadRoute
    if dead.entry.ip ≤ targetIp then
      if dead.entry.ip = targetIp then return (true, ← removeAodvRoute deadRoute s)
      else deleteFrom targetIp fuel dead.next s
    else return (false, s)

def deleteAodvRoute (targetIp : U32) (s : RouteTable) : Option (Bool × RouteTable) :=
  deleteFrom targetIp s.mem.cells.length s.table s

/-- The loop of `flush_aodv_route_table`; `reads` are the clock readings of
`expire_aodv_route`, by the address of the entry. -/
def flushFrom (currtime : Clock) (reads : ℕ → Clock) : ℕ → Option ℕ → Option ℕ → RouteTable →
    Option RouteTable
  | _, _, none, s => some s
  | 0, _, some _, _ => none
  | fuel + 1, prevRoute, some tmpRoute, s => do
    let tmp ← s.mem.get tmpRoute
    let s := if prevRoute = tmp.prev then s else { s with errors := s.errors + 1 }
    if timeBefore tmp.entry.lifetime currtime.now && !tmp.entry.selfRoute then
      if tmp.entry.routeValid then
        flushFrom currtime reads fuel (some tmpRoute) tmp.next
          { s with
            mem := s.mem.set tmpRoute { tmp with entry := tmp.entry.expire (reads tmpRoute) } }
      else flushFrom currtime reads fuel tmp.prev tmp.next (← removeAodvRoute tmpRoute s)
    else flushFrom currtime reads fuel (some tmpRoute) tmp.next s

def flushAodvRouteTable (currtime : Clock) (reads : ℕ → Clock)
    (s : RouteTable) : Option RouteTable :=
  flushFrom currtime reads s.mem.cells.length none s.table s

/-- The loop of `find_aodv_route`. -/
def findFrom (currTime : Clock) (reads : ℕ → Clock) (targetIp : U32) :
    ℕ → Option ℕ → Option ℕ → RouteTable → Option (Option ℕ × RouteTable)
  | _, none, possibleRoute, s => some (possibleRoute, s)
  | 0, some _, _, _ => none
  | fuel + 1, some tmpRoute, possibleRoute, s => do
    let tmp ← s.mem.get tmpRoute
    if tmp.entry.ip ≤ targetIp then
      let s := if tmp.entry.stale currTime then
          { s with
            mem := s.mem.set tmpRoute { tmp with entry := tmp.entry.expire (reads tmpRoute) } }
        else s
      findFrom currTime reads targetIp fuel tmp.next
        (if tmp.entry.compare targetIp then some tmpRoute else possibleRoute) s
    else return (possibleRoute, s)

def findAodvRoute (currTime : Clock) (reads : ℕ → Clock) (targetIp : U32) (s : RouteTable) :
    Option (Option ℕ × RouteTable) :=
  findFrom currTime reads targetIp s.mem.cells.length s.table none s

/-! ## What becomes of the entries -/

/-- An entry that `flush_aodv_route_table` removes. -/
def dead (currtime : Clock) (r : Route) : Bool :=
  timeBefore r.lifetime currtime.now && !r.selfRoute && !r.routeValid

/-- What a search or `flush_aodv_route_table` leaves of an entry
that it comes to and does not remove. -/
def marked (currTime : Clock) (reads : ℕ → Clock) (c : ℕ × Route) : ℕ × Route :=
  if c.2.stale currTime then (c.1, c.2.expire (reads c.1)) else c

/-! ## Changes of a list -/

/-- The entries of `l` follow each other from `p` to `q`, and each points back. -/
abbrev Run (m : Memory RouteCell) : Option ℕ → Option ℕ → List (ℕ × Route) → Option ℕ → Prop :=
  Seg RouteCell.entry RouteCell.next (fun b c => c.prev = b) m

section Run

variable {m : Memory RouteCell} {b p q : Option ℕ} {l : List (ℕ × Route)}

/-- The first entry, if there is one, is made to point back to `b'`. -/
theorem exists_setPrev (h : Run m b p l none) (hl : (l.map Prod.fst).Nodup) (b' : Option ℕ) :
    ∃ m', setPrev p b' m = some m' ∧ Run m' b' p l none ∧
    (∀ e ∉ l.map Prod.fst, m'.get e = m.get e) ∧ ∀ e, (m'.get e).isSome = (m.get e).isSome := by
  cases l with
  | nil =>
    obtain rfl := h.nil_inv
    exact ⟨m, if_pos rfl, .nil _ _, fun _ _ => rfl, fun _ => rfl⟩
  | cons c l =>
    obtain ⟨a, x⟩ := c
    have hp : p = some a := h.start
    obtain ⟨-, n, hget, rfl, -, -⟩ := h.cons_inv
    obtain ⟨ha, -⟩ := List.nodup_cons.1 hl
    subst hp
    refine ⟨_, (if_neg (Option.some_ne_none a)).trans (Memory.modify_some hget), ?_,
        fun e he => ?_, fun e =>
      Memory.isSome_get_set⟩
    · exact h.set_first b' ha hget rfl rfl rfl
    · exact Memory.get_set_ne fun hea => he (hea ▸ List.mem_cons_self)

/-- The last entry, if there is one, is made to lead to `q'`. -/
theorem exists_setNext (h : Run m none p l q) (hl : (l.map Prod.fst).Nodup) (q' : Option ℕ) :
    ∃ m', setNext (lastOf none l) q' m = some m' ∧ Run m' none (if l = [] then q' else p) l q' ∧
    (∀ e ∉ l.map Prod.fst, m'.get e = m.get e) ∧
        ∀ e, (m'.get e).isSome = (m.get e).isSome := by
  rcases List.eq_nil_or_concat' l with rfl | ⟨l₀, ⟨a, x⟩, rfl⟩
  · exact ⟨m, if_pos rfl, .nil _ _, fun _ _ => rfl, fun _ => rfl⟩
  · obtain ⟨n, hget, rfl, -, rfl⟩ := h.last_inv
    have hlast : lastOf none (l₀ ++ [(a, n.entry)]) = some a := lastOf_append _ _ _
    have ha : a ∉ l₀.map Prod.fst := by
      rw [List.map_append, List.nodup_append] at hl
      exact fun hin => hl.2.2 a hin a (by simp) rfl
    rw [hlast, setNext, if_neg (Option.some_ne_none a), if_neg (by simp)]
    refine ⟨_, Memory.modify_some hget, ?_, fun e he => ?_, fun e => Memory.isSome_get_set⟩
    · exact h.set_last (n := { n with next := q' }) ha rfl fun n' hn' b hb => by
        obtain rfl : n = n' := Option.some.inj (hget.symm.trans hn')
        exact hb
    · exact Memory.get_set_ne fun hea => he (by simp [hea])

end Run

/-- The cells of `l`, and no others, are in the table. -/
structure Holds (s : RouteTable) (l : List (ℕ × Route)) : Prop where
  run : Run s.mem none s.table l none
  nodup : (l.map Prod.fst).Nodup

namespace Holds

variable {s t : RouteTable} {l l₁ l₂ : List (ℕ × Route)} {a : ℕ} {n : RouteCell}

theorem entries (h : Holds s l) : s.entries = l := h.run.toList (h.run.length_le h.nodup)

/-- `insert_aodv_route` puts a new entry in front of the first one that is not below it. -/
theorem insertAodvRoute (h : Holds s l) (hget : s.mem.get a = some n) (ha : a ∉ l.map Prod.fst)
    (hprev : n.prev = none) (hnext : n.next = none) :
    ∃ mem p, InMemory.insertAodvRoute a s = some { s with mem := mem, table := p } ∧
      Holds { s with mem := mem, table := p }
        (l.takeWhile (fun c => decide (c.2.ip < n.entry.ip)) ++
        (a, n.entry) :: l.dropWhile fun c => decide (c.2.ip < n.entry.ip)) := by
  have hwalk := h.run.walk (fun r => decide (r.ip < n.entry.ip)) (h.run.length_le h.nodup) none
  have hl := l.takeWhile_append_dropWhile (p := fun c => decide (c.2.ip < n.entry.ip))
  generalize l.takeWhile (fun c => decide (c.2.ip < n.entry.ip)) = l₁,
    l.dropWhile (fun c => decide (c.2.ip < n.entry.ip)) = l₂ at hwalk hl ⊢
  subst hl
  rw [InMemory.insertAodvRoute, hget]
  simp only [Option.bind_eq_bind, Option.bind_some, hwalk]
  have hnodup : ((l₁ ++ (a, n.entry) :: l₂).map Prod.fst).Nodup := nodup_middle.2 ⟨ha, h.nodup⟩
  rcases List.eq_nil_or_concat' l₁ with rfl | ⟨l₀, ⟨c, y⟩, rfl⟩
  · have hstart : s.table = firstOf l₂ none := h.run.start
    cases l₂ with
    | nil =>
      have hnone : s.table = none := hstart
      simp only [hnone, lastOf_nil]
      exact ⟨s.mem, some a, rfl, .cons' hget rfl hprev (hnext ▸ .nil _ _), hnodup⟩
    | cons c l₂ =>
      obtain ⟨b, x⟩ := c
      obtain ⟨-, nb, hb, rfl, -, -⟩ := h.run.cons_inv
      obtain ⟨hbl, -⟩ := List.nodup_cons.1 h.nodup
      have hab : a ≠ b := fun he => ha (he ▸ List.mem_cons_self)
      have hget' : (s.mem.set b { nb with prev := some a }).get a = some n :=
        (Memory.get_set_ne hab).trans hget
      have hrest :=
        (h.run.set_first (n := { nb with prev := some a }) (some a) hbl hb rfl rfl
        rfl).set_of_not_mem (n := { n with next := some b }) ha
      have htable : s.table = some b := hstart
      simp only [htable, firstOf_cons, lastOf_nil, Memory.modify_some hb]
      refine ⟨(s.mem.set b { nb with prev := some a }).set a { n with next := some b },
        some a, ?_, ?_, hnodup⟩
      · simp [Memory.modify_some hget']
      exact .cons' (Memory.get_set_self hget') rfl hprev hrest
  · obtain ⟨q, h₁, h₂⟩ := h.run.split
    obtain ⟨nc, hc, rfl, -, rfl⟩ := h₁.last_inv
    have hstart : nc.next = firstOf l₂ none := h₂.start
    obtain ⟨hsome, hother⟩ := firstOf_ne (by simp) h.nodup
    rw [← h.run.start] at hsome hother
    have hlast : lastOf none (l₀ ++ [(c, nc.entry)]) = some c := lastOf_append _ _ _
    have hl := h.nodup
    rw [List.map_append, List.nodup_append] at hl
    rw [List.map_append, List.mem_append, not_or] at ha
    have hmem : c ∈ (l₀ ++ [(c, nc.entry)]).map Prod.fst := by simp
    have hc₂ : c ∉ l₂.map Prod.fst := fun hin => hl.2.2 c hmem c hin rfl
    have hca : c ≠ a := fun he => ha.1 (he ▸ hmem)
    have hc₀ : c ∉ l₀.map Prod.fst := by
      have hl₁ := hl.1
      rw [List.map_append, List.nodup_append] at hl₁
      exact fun hin => hl₁.2.2 c hin c (by simp) rfl
    rw [hlast] at h₂
    obtain ⟨m₁, hm₁, hrun₂, hframe, -⟩ := exists_setPrev h₂ hl.2.1 (some a)
    have hget₁ : m₁.get a = some n := (hframe a ha.2).trans hget
    have hc₁ : m₁.get c = some nc := (hframe c hc₂).trans hc
    have hc' : (m₁.set a { n with prev := some c, next := nc.next }).get c = some nc :=
      (Memory.get_set_ne hca).trans hc₁
    refine ⟨(m₁.set a { n with prev := some c, next := nc.next }).set c { nc with next := some a },
      s.table, ?_, ?_, hnodup⟩
    · have hfirst : ¬(s.table ≠ none ∧ firstOf l₂ none = s.table) := fun hand => hother hand.2.symm
      simp only [hlast, if_neg hfirst, if_neg hsome, Option.bind_some, hc,
        if_neg (Option.some_ne_none c), hm₁, Memory.modify_some hget₁, Memory.modify_some hc']
      rfl
    · have hrun₁ : Run m₁ none s.table (l₀ ++ [(c, nc.entry)]) nc.next := h₁.congr fun e he => by
        exact hframe e.1 fun hin => hl.2.2 e.1 (List.mem_map_of_mem he) e.1 hin rfl
      have hbefore :=
        (hrun₁.set_of_not_mem (n := { n with prev := some c, next := nc.next }) ha.1).set_last
        (n := { nc with next := some a }) hc₀ rfl fun n' hn' b hb => by
          obtain rfl : nc = n' := Option.some.inj (hc'.symm.trans hn')
          exact hb
      have hafter :=
        (hrun₂.set_of_not_mem (n := { n with prev := some c, next := nc.next }) ha.2).set_of_not_mem
        (n := { nc with next := some a }) hc₂
      refine hbefore.append
        (.cons' ((Memory.get_set_ne hca.symm).trans (Memory.get_set_self hget₁)) rfl ?_ hafter)
      exact hlast.symm

theorem get (h : Holds s (l₁ ++ (a, n.entry) :: l₂)) (hget : s.mem.get a = some n) :
    n.prev = lastOf none l₁ ∧ n.next = firstOf l₂ none ∧
      s.table = firstOf (l₁ ++ (a, n.entry) :: l₂) none ∧ a ∉ (l₁ ++ l₂).map Prod.fst := by
  obtain ⟨q, -, hcell⟩ := h.run.split
  obtain ⟨-, n', hget', -, hprev, h₂⟩ := hcell.cons_inv
  obtain rfl : n = n' := Option.some.inj (hget.symm.trans hget')
  exact ⟨hprev, h₂.start, h.run.start, (nodup_middle.1 h.nodup).1⟩

theorem removeAodvRoute (h : Holds s (l₁ ++ (a, n.entry) :: l₂)) (hget : s.mem.get a = some n) :
    ∃ mem p, InMemory.removeAodvRoute a s = some { s with mem := mem, table := p } ∧
      Holds { s with mem := mem, table := p } (l₁ ++ l₂) := by
  obtain ⟨hprev, hnext, htable, ha⟩ := h.get hget
  obtain ⟨q, h₁, hcell⟩ := h.run.split
  obtain ⟨-, n', hget', -, -, h₂⟩ := hcell.cons_inv
  obtain rfl : n = n' := Option.some.inj (hget.symm.trans hget')
  have hl := h.nodup
  rw [List.map_append, List.nodup_append, List.map_cons, List.nodup_cons] at hl
  have hdisj : ∀ e ∈ l₂, e.1 ∉ l₁.map Prod.fst := fun e he hin =>
    hl.2.2 e.1 hin e.1 (List.mem_cons_of_mem _ (List.mem_map_of_mem he)) rfl
  rw [List.map_append, List.mem_append, not_or] at ha
  obtain ⟨m₁, hm₁, hrun₁, hframe₁, -⟩ := exists_setNext h₁ hl.1 n.next
  have hrun₂ : Run m₁ (some a) n.next l₂ none := h₂.congr fun e he => hframe₁ e.1 (hdisj e he)
  obtain ⟨m₂, hm₂, hrun₂, hframe₂, -⟩ := exists_setPrev hrun₂ hl.2.1.2 n.prev
  refine ⟨m₂.free a, if l₁ = [] then n.next else s.table, ?_, ?_, ?_⟩
  · rw [InMemory.removeAodvRoute]
    simp only [Option.bind_eq_bind, hget, Option.bind_some, hprev] at hm₂ ⊢
    rw [hm₁, Option.bind_some, hm₂]
    have hfirst : s.table = some a ↔ l₁ = [] := by
      rw [htable]
      cases l₁ with
      | nil => simp
      | cons c l₁ => simpa using fun he : c.1 = a => ha.1 (by simp [he])
    simp [hfirst]
  · have hbefore := hrun₁.congr (w := m₂) fun e he => hframe₂ e.1 fun hin => by
      obtain ⟨e', he', hee⟩ := List.mem_map.1 hin
      exact hdisj e' he' (hee ▸ List.mem_map_of_mem he)
    rw [hprev] at hrun₂
    exact (hbefore.append hrun₂).free_of_not_mem
      (by rw [List.map_append, List.mem_append, not_or]; exact ha)
  · rw [List.map_append, List.nodup_append]
    exact ⟨hl.1, hl.2.1.2, fun x hx y hy => hl.2.2 x hx y (List.mem_cons_of_mem _ hy)⟩

/-- A write to the fields of an entry. -/
theorem setEntry (h : Holds s (l₁ ++ (a, n.entry) :: l₂))
    (hget : s.mem.get a = some n) (r : Route) :
    Holds { s with mem := s.mem.set a { n with entry := r } } (l₁ ++ (a, r) :: l₂) := by
  obtain ⟨hprev, -, -, ha⟩ := h.get hget
  rw [List.map_append, List.mem_append, not_or] at ha
  obtain ⟨q, h₁, hcell⟩ := h.run.split
  obtain rfl : q = some a := hcell.start
  have hrest :=
    hcell.set_first (n := { n with entry := r }) (lastOf none l₁) ha.2 hget rfl rfl hprev
  exact ⟨(h₁.set_of_not_mem ha.1).append hrest, by simpa using h.nodup⟩

/-- The loop of `flush_aodv_route_table` goes through the rest of the
table once, and every `prev` is right. -/
theorem flushFrom {currtime : Clock} {reads : ℕ → Clock} {fuel : ℕ} (h : Holds s (l₁ ++ l₂))
    (hfuel : l₂.length ≤ fuel) :
    ∃ mem p, InMemory.flushFrom currtime reads fuel (lastOf none l₁) (firstOf l₂ none) s =
        some { s with mem := mem, table := p } ∧
      Holds { s with mem := mem, table := p } (l₁ ++
      (l₂.filter fun c => !dead currtime c.2).map (marked currtime reads)) := by
  induction l₂ generalizing l₁ s fuel with
  | nil =>
    refine ⟨s.mem, s.table, ?_, h⟩
    cases fuel <;> rfl
  | cons c l₂ ih =>
    obtain ⟨a, x⟩ := c
    obtain ⟨q, -, hcell⟩ := h.run.split
    obtain ⟨-, n, hget, rfl, hprev, h₂⟩ := hcell.cons_inv
    have hnext : n.next = firstOf l₂ none := h₂.start
    cases fuel with
    | zero => exact absurd hfuel (Nat.not_succ_le_zero _)
    | succ fuel =>
      have hfuel := Nat.le_of_succ_le_succ hfuel
      have hgo : ∀ {s' : RouteTable} {r : Route}, Holds s' (l₁ ++ (a, r) :: l₂) →
          ∃ mem p, InMemory.flushFrom currtime reads fuel (some a) n.next s' =
              some { s' with mem := mem, table := p } ∧
            Holds { s' with mem := mem, table := p } (l₁ ++ (a, r) ::
            (l₂.filter fun c => !dead currtime c.2).map
              (marked currtime reads)) :=
        fun {s' r} h' => by
          have hl : Holds s' ((l₁ ++ [(a, r)]) ++ l₂) := by simpa using h'
          obtain ⟨mem, p, hrest, hkeep⟩ := ih hl hfuel
          rw [lastOf_append] at hrest
          rw [hnext]
          exact ⟨mem, p, hrest, by simpa using hkeep⟩
      rw [firstOf_cons, InMemory.flushFrom]
      simp only [Option.bind_eq_bind, hget, Option.bind_some, if_pos hprev.symm]
      by_cases hdue : (timeBefore n.entry.lifetime currtime.now && !n.entry.selfRoute) = true
      · rw [if_pos hdue]
        by_cases hvalid : n.entry.routeValid = true
        · have hlive : (!dead currtime n.entry) = true := by simp [dead, hvalid]
          have hstale : n.entry.stale currtime = true := by rw [Route.stale, hdue, hvalid]; rfl
          rw [if_pos hvalid, List.filter_cons_of_pos (by exact hlive), List.map_cons,
            marked, if_pos hstale]
          exact hgo (h.setEntry hget _)
        · have hdead : ¬(!dead currtime n.entry) = true := by simp [dead, hdue, hvalid]
          obtain ⟨mem, p, hrem, hl⟩ := h.removeAodvRoute hget
          obtain ⟨mem', p', hrest, hkeep⟩ := ih hl hfuel
          rw [if_neg hvalid, hrem, List.filter_cons_of_neg (by exact hdead),
            Option.bind_some, hprev, hnext]
          exact ⟨mem', p', hrest, hkeep⟩
      · have hlive : (!dead currtime n.entry) = true := by simp [dead, hdue]
        have hfresh : ¬n.entry.stale currtime = true := by simp [Route.stale, hdue]
        rw [if_neg hdue, List.filter_cons_of_pos (by exact hlive), List.map_cons,
          marked, if_neg hfresh]
        exact hgo h

theorem flushAodvRouteTable (h : Holds s l) (currtime : Clock) (reads : ℕ → Clock) :
    ∃ mem p, InMemory.flushAodvRouteTable currtime reads s =
    some { s with mem := mem, table := p } ∧
      Holds { s with mem := mem, table := p }
        ((l.filter fun c => !dead currtime c.2).map (marked currtime reads)) := by
  rw [InMemory.flushAodvRouteTable, h.run.start]
  exact Holds.flushFrom (show Holds s ([] ++ l) from h) (h.run.length_le h.nodup)

/-- The loop of `find_aodv_route` marks entries up to the target, and keeps the last one that
fits. -/
theorem findFrom {currTime : Clock} {reads : ℕ → Clock} {targetIp : U32} {fuel : ℕ}
    (possible : Option ℕ) (h : Holds s (l₁ ++ l₂)) (hfuel : l₂.length ≤ fuel) :
    ∃ mem, InMemory.findFrom currTime reads targetIp fuel (firstOf l₂ none) possible s =
        some (lastOf possible ((l₂.takeWhile fun c => decide (c.2.ip ≤ targetIp)).filter fun c =>
          c.2.compare targetIp), { s with mem := mem }) ∧
      Holds { s with mem := mem } (l₁ ++ ((l₂.takeWhile fun c => decide (c.2.ip ≤ targetIp)).map
        (marked currTime reads) ++ l₂.dropWhile fun c => decide (c.2.ip ≤ targetIp))) := by
  induction l₂ generalizing l₁ s fuel possible with
  | nil =>
    refine ⟨s.mem, ?_, h⟩
    cases fuel <;> rfl
  | cons c l₂ ih =>
    obtain ⟨a, x⟩ := c
    obtain ⟨q, -, hcell⟩ := h.run.split
    obtain ⟨-, n, hget, rfl, -, h₂⟩ := hcell.cons_inv
    have hnext : n.next = firstOf l₂ none := h₂.start
    cases fuel with
    | zero => exact absurd hfuel (Nat.not_succ_le_zero _)
    | succ fuel =>
      have hfuel := Nat.le_of_succ_le_succ hfuel
      rw [firstOf_cons, InMemory.findFrom]
      simp only [Option.bind_eq_bind, hget, Option.bind_some]
      by_cases hle : n.entry.ip ≤ targetIp
      · rw [if_pos hle, List.takeWhile_cons_of_pos (by simpa using hle),
          List.dropWhile_cons_of_pos (by simpa using hle)]
        -- the entry is marked or left
        obtain ⟨m₁, hm₁, hl⟩ : ∃ m₁, (if n.entry.stale currTime then
              { s with mem := s.mem.set a { n with entry := n.entry.expire (reads a) } } else s) =
                { s with mem := m₁ } ∧
            Holds { s with mem := m₁ } ((l₁ ++ [marked currTime reads (a, n.entry)]) ++ l₂) := by
          rw [List.append_assoc]
          by_cases hstale : n.entry.stale currTime = true
          · rw [if_pos hstale, marked, if_pos hstale]
            exact ⟨_, rfl, h.setEntry hget _⟩
          · rw [if_neg hstale, marked, if_neg hstale]
            exact ⟨_, rfl, h⟩
        obtain ⟨mem, hrest, hkeep⟩ :=
          ih (if n.entry.compare targetIp then some a else possible) hl hfuel
        rw [hm₁, hnext, hrest, List.filter_cons]
        refine ⟨mem, ?_, by simpa using hkeep⟩
        by_cases hfits : n.entry.compare targetIp = true
        · simp [hfits]
        · simp [hfits]
      · rw [if_neg hle, List.takeWhile_cons_of_neg (by simpa using hle),
          List.dropWhile_cons_of_neg (by simpa using hle)]
        exact ⟨s.mem, rfl, h⟩

theorem findAodvRoute (h : Holds s l) (currTime : Clock) (reads : ℕ → Clock) (targetIp : U32) :
    ∃ mem, InMemory.findAodvRoute currTime reads targetIp s =
        some (lastOf none ((l.takeWhile fun c => decide (c.2.ip ≤ targetIp)).filter fun c =>
          c.2.compare targetIp), { s with mem := mem }) ∧
      Holds { s with mem := mem } ((l.takeWhile fun c => decide (c.2.ip ≤ targetIp)).map
        (marked currTime reads) ++ l.dropWhile fun c => decide (c.2.ip ≤ targetIp)) := by
  obtain ⟨mem, hfind, ht⟩ :=
    Holds.findFrom none (show Holds s ([] ++ l) from h) (h.run.length_le h.nodup)
  rw [← h.run.start] at hfind
  exact ⟨mem, hfind, ht⟩

/-- In a table in order, the loop of `delete_aodv_route` comes to the first entry for its target. -/
theorem deleteFrom {targetIp : U32} {fuel : ℕ} (h : Holds s (l₁ ++ l₂)) (hfuel : l₂.length ≤ fuel)
    (hasc : l₂.Pairwise fun c c' => c.2.ip ≤ c'.2.ip) :
    ∃ mem p, InMemory.deleteFrom targetIp fuel (firstOf l₂ none) s =
        some (l₂.any fun c => c.2.ip == targetIp, { s with mem := mem, table := p }) ∧
      Holds { s with mem := mem, table := p } (l₁ ++ l₂.eraseP fun c => c.2.ip == targetIp) := by
  induction l₂ generalizing l₁ s fuel with
  | nil =>
    refine ⟨s.mem, s.table, ?_, h⟩
    cases fuel <;> rfl
  | cons c l₂ ih =>
    obtain ⟨a, x⟩ := c
    obtain ⟨q, -, hcell⟩ := h.run.split
    obtain ⟨-, n, hget, rfl, -, h₂⟩ := hcell.cons_inv
    obtain ⟨hfirst, hasc⟩ := List.pairwise_cons.1 hasc
    cases fuel with
    | zero => exact absurd hfuel (Nat.not_succ_le_zero _)
    | succ fuel =>
      rw [firstOf_cons, InMemory.deleteFrom]
      simp only [Option.bind_eq_bind, hget, Option.bind_some]
      by_cases hle : n.entry.ip ≤ targetIp
      · rw [if_pos hle]
        by_cases heq : n.entry.ip = targetIp
        · obtain ⟨mem, p, hrem, hl⟩ := h.removeAodvRoute hget
          rw [if_pos heq, hrem, List.eraseP_cons_of_pos (by simpa using heq)]
          refine ⟨mem, p, ?_, hl⟩
          simp [heq]
        · have hl : Holds s ((l₁ ++ [(a, n.entry)]) ++ l₂) := by simpa using h
          obtain ⟨mem, p, hrest, hkeep⟩ := ih hl (Nat.le_of_succ_le_succ hfuel) hasc
          rw [if_neg heq, h₂.start, hrest, List.eraseP_cons_of_neg (by simpa using heq)]
          exact ⟨mem, p, by simp [heq], by simpa using hkeep⟩
      · have hnone : ∀ c ∈ (a, n.entry) :: l₂, ¬(c.2.ip == targetIp) = true := by
          intro c hc heq
          rw [beq_iff_eq] at heq
          rcases List.mem_cons.1 hc with rfl | hc
          · exact hle (heq ▸ BitVec.le_refl _)
          · exact hle (heq ▸ hfirst c hc)
        rw [if_neg hle, List.eraseP_of_forall_not hnone, List.any_eq_false.2 hnone]
        exact ⟨s.mem, s.table, rfl, h⟩

theorem deleteAodvRoute (h : Holds s l) (hasc : l.Pairwise fun c c' => c.2.ip ≤ c'.2.ip)
    (targetIp : U32) :
    ∃ mem p, InMemory.deleteAodvRoute targetIp s =
        some (l.any fun c => c.2.ip == targetIp, { s with mem := mem, table := p }) ∧
      Holds { s with mem := mem, table := p } (l.eraseP fun c => c.2.ip == targetIp) := by
  rw [InMemory.deleteAodvRoute, h.run.start]
  exact Holds.deleteFrom (show Holds s ([] ++ l) from h) (h.run.length_le h.nodup) hasc

theorem createAodvRoute (h : Holds s l) (hfree : s.mem.get a = none) (lifetime : ℕ) (ip : U32) :
    ∃ mem p, InMemory.createAodvRoute (some a) lifetime ip s =
    some { s with mem := mem, table := p } ∧
      Holds { s with mem := mem, table := p } (if ip = 0 then l else
        l.takeWhile (fun c => decide (c.2.ip < ip)) ++ (a, newEntry a lifetime ip) ::
          l.dropWhile fun c => decide (c.2.ip < ip)) := by
  have ha : a ∉ l.map Prod.fst := fun hin => by
    obtain ⟨c, hc, rfl⟩ := List.mem_map.1 hin
    obtain ⟨n, hn, -⟩ := h.run.mem_get hc
    rw [hfree] at hn
    cases hn
  have hs : Holds { s with
      mem := s.mem.alloc a { entry := newEntry a lifetime ip, prev := none, next := none } } l :=
    ⟨h.run.alloc_of_not_mem ha, h.nodup⟩
  rw [InMemory.createAodvRoute]
  by_cases hip : ip = 0
  · simp only [if_pos hip]
    exact ⟨_, s.table, rfl, hs⟩
  · obtain ⟨mem, p, hins, ht⟩ := hs.insertAodvRoute Memory.get_alloc_self ha rfl rfl
    simp only [if_neg hip]
    exact ⟨mem, p, hins, ht⟩

end Holds

/-! ## Runs -/

/-- The list from `aodv_route_table` ends, in order of addresses,
and its neighbours point to each other. -/
structure WellFormed (s : RouteTable) : Prop where
  holds : Holds s s.entries
  ascending : s.entries.Pairwise fun c c' => c.2.ip ≤ c'.2.ip
  head : ∀ a ∈ s.table, (s.mem.get a).map RouteCell.prev = some none
  neighbours : ∀ l₁ c c' l₂, s.entries = l₁ ++ c :: c' :: l₂ →
    (s.mem.get c.1).map RouteCell.next = some (some c'.1) ∧
    (s.mem.get c'.1).map RouteCell.prev = some (some c.1)
  quiet : s.errors = 0

theorem Holds.wellFormed {s : RouteTable} {l : List (ℕ × Route)} (h : Holds s l)
    (hasc : l.Pairwise fun c c' => c.2.ip ≤ c'.2.ip) (hquiet : s.errors = 0) : WellFormed s where
  holds := h.entries.symm ▸ h
  ascending := h.entries.symm ▸ hasc
  head a ha := by
    cases l with
    | nil => rw [h.run.nil_inv] at ha; cases ha
    | cons c l =>
      obtain ⟨hp, n, hget, -, hprev, -⟩ := h.run.cons_inv
      obtain rfl : c.1 = a := Option.some.inj (hp.symm.trans ha)
      rw [hget, Option.map_some, hprev]
  neighbours l₁ c c' l₂ hl := by
    obtain rfl : l = _ := h.entries.symm.trans hl
    obtain ⟨q, -, hcell⟩ := h.run.split
    obtain ⟨-, n, hget, -, -, hrest⟩ := hcell.cons_inv
    obtain ⟨hnext, n', hget', -, hprev, -⟩ := hrest.cons_inv
    rw [hget, hget', Option.map_some, Option.map_some, hnext, hprev]
    exact ⟨rfl, rfl⟩
  quiet := hquiet

theorem wellFormed_start : WellFormed {} :=
  Holds.wellFormed (l := []) ⟨.nil _ _, List.nodup_nil⟩ .nil rfl

/-- A call, or a write of a caller to the fields of an entry. -/
inductive Action
  | create (kmalloc : Option ℕ) (lifetime : ℕ) (ip : U32)
  | remove (deadRoute : ℕ)
  | delete (targetIp : U32)
  | flush (currtime : Clock) (reads : ℕ → Clock)
  | find (currTime : Clock) (reads : ℕ → Clock) (targetIp : U32)
  | fill (route : ℕ) (entry : Route)

def step : Action → RouteTable → Option RouteTable
  | .create kmalloc lifetime ip, s => createAodvRoute kmalloc lifetime ip s
  | .remove deadRoute, s => removeAodvRoute deadRoute s
  | .delete targetIp, s => (deleteAodvRoute targetIp s).map Prod.snd
  | .flush currtime reads, s => flushAodvRouteTable currtime reads s
  | .find currTime reads targetIp, s => (findAodvRoute currTime reads targetIp s).map Prod.snd
  | .fill route entry, s =>
      (s.mem.modify (some route) fun c => { c with entry := entry }).map fun mem =>
      { s with mem := mem }

/-- `kmalloc` finds memory that is free, and the callers hold pointers to entries of the table;
the address of an entry is not written after `create_aodv_route`. -/
def Possible : Action → RouteTable → Prop
  | .create (some a) _ _, s => s.mem.get a = none
  | .remove deadRoute, s => ∃ c ∈ s.entries, c.1 = deadRoute
  | .fill route entry, s => ∃ c ∈ s.entries, c.1 = route ∧ entry.ip = c.2.ip
  | _, _ => True

instance : ∀ i s, Decidable (Possible i s)
  | .create (some a) _ _, s => inferInstanceAs (Decidable (s.mem.get a = none))
  | .create none _ _, _ => isTrue trivial
  | .remove deadRoute, s => inferInstanceAs (Decidable (∃ c ∈ s.entries, c.1 = deadRoute))
  | .delete _, _ => isTrue trivial
  | .flush _ _, _ => isTrue trivial
  | .find _ _ _, _ => isTrue trivial
  | .fill route entry, s =>
      inferInstanceAs (Decidable (∃ c ∈ s.entries, c.1 = route ∧ entry.ip = c.2.ip))

/-- `l'` is `l` with `c` at one place. -/
def Adds (c : ℕ × Route) (l l' : List (ℕ × Route)) : Prop :=
  ∃ l₁ l₂, l = l₁ ++ l₂ ∧ l' = l₁ ++ c :: l₂

/-- What is said of every step. -/
def Effect : Action → RouteTable → RouteTable → Prop
  | .create none _ _, s, t => t = s
  | .create (some a) lifetime ip, s, t =>
    if ip = 0 then t.entries = s.entries else Adds (a, newEntry a lifetime ip) s.entries t.entries
  | .remove deadRoute, s, t => ∃ r, Adds (deadRoute, r) t.entries s.entries
  | .delete targetIp, s, t =>
      deleteAodvRoute targetIp s = some (s.entries.any fun c => c.2.ip == targetIp, t) ∧
      if ∃ c ∈ s.entries, c.2.ip = targetIp then ∃ c, c.2.ip = targetIp ∧ Adds c t.entries s.entries
      else t.entries = s.entries
  | .flush currtime reads, s, t =>
    t.entries = (s.entries.filter fun c => !dead currtime c.2).map (marked currtime reads) ∧
      ∀ c ∈ s.entries, c.2.selfRoute = true → c ∈ t.entries
  | .find currTime reads targetIp, s, t => findAodvRoute currTime reads targetIp s =
      some (lastOf none ((s.entries.takeWhile fun c => decide (c.2.ip ≤ targetIp)).filter fun c =>
        c.2.compare targetIp), t) ∧
      t.entries = (s.entries.takeWhile fun c => decide (c.2.ip ≤ targetIp)).map
        (marked currTime reads) ++
        s.entries.dropWhile fun c => decide (c.2.ip ≤ targetIp)
  | .fill route entry, s, t =>
      ∃ l₁ r l₂, s.entries = l₁ ++ (route, r) :: l₂ ∧ t.entries = l₁ ++ (route, entry) :: l₂

section Steps

variable {s t : RouteTable} {l l₁ l₂ : List (ℕ × Route)} {i : Action}

theorem ascending_insert (hasc : l.Pairwise fun c c' => c.2.ip ≤ c'.2.ip) (c : ℕ × Route) :
    (l.takeWhile (fun x => decide (x.2.ip < c.2.ip)) ++ c ::
    l.dropWhile fun x => decide (x.2.ip < c.2.ip)).Pairwise
      fun c c' => c.2.ip ≤ c'.2.ip := by
  have hmap : (l.takeWhile (fun x => decide (x.2.ip < c.2.ip)) ++ c ::
      l.dropWhile fun x => decide (x.2.ip < c.2.ip)).map (fun x => x.2.ip) =
        (l.map fun x => x.2.ip).orderedInsert (· ≤ ·) c.2.ip := by
    rw [List.orderedInsert_eq_take_drop, List.takeWhile_map, List.dropWhile_map, List.map_append]
    simp only [BitVec.not_le, Function.comp_def, List.map_cons]
  rw [← List.pairwise_map (f := fun x : ℕ × Route => x.2.ip) (R := (· ≤ ·)), hmap]
  exact List.Pairwise.orderedInsert _ _ (List.pairwise_map.2 hasc)

theorem marked_ip (currTime : Clock) (reads : ℕ → Clock) (c : ℕ × Route) :
    (marked currTime reads c).2.ip = c.2.ip := by
  rw [marked]
  split <;> rfl

/-- An entry that a caller has a pointer to. -/
theorem WellFormed.split (h : WellFormed s) {c : ℕ × Route} (hc : c ∈ s.entries) :
    ∃ l₁ n l₂, s.mem.get c.1 = some n ∧ n.entry = c.2 ∧ s.entries = l₁ ++ (c.1, n.entry) :: l₂ ∧
      Holds s (l₁ ++ (c.1, n.entry) :: l₂) := by
  obtain ⟨n, hget, hn⟩ := h.holds.run.mem_get hc
  obtain ⟨l₁, l₂, hl⟩ := List.append_of_mem hc
  have hentries : s.entries = l₁ ++ (c.1, n.entry) :: l₂ := by rw [hl, hn]
  exact ⟨l₁, n, l₂, hget, hn, hentries, hentries ▸ h.holds⟩

/-- The first entry for the target goes. -/
theorem adds_eraseP {targetIp : U32} {c : ℕ × Route} (hc : c ∈ l) (hip : c.2.ip = targetIp) :
    ∃ c, c.2.ip = targetIp ∧ Adds c (l.eraseP fun c => c.2.ip == targetIp) l := by
  obtain ⟨c, l₁, l₂, -, heq, hl, herase⟩ :=
    List.exists_of_eraseP (p := fun c => c.2.ip == targetIp) hc (by simpa)
  exact ⟨c, by simpa using heq, l₁, l₂, herase, hl⟩

/-- Each call that is possible returns, keeps the table in order, and has its effect. -/
theorem WellFormed.step (h : WellFormed s) (hp : Possible i s) :
    ∃ t, InMemory.step i s = some t ∧ WellFormed t ∧ Effect i s t := by
  cases i with
  | create kmalloc lifetime ip =>
    cases kmalloc with
    | none => exact ⟨s, rfl, h, rfl⟩
    | some a =>
      obtain ⟨mem, p, ht, hl⟩ := h.holds.createAodvRoute hp lifetime ip
      refine ⟨_, ht, ?_⟩
      rw [Effect, hl.entries]
      by_cases hip : ip = 0
      · simp only [if_pos hip] at hl ⊢
        exact ⟨hl.wellFormed h.ascending h.quiet, trivial⟩
      · simp only [if_neg hip] at hl ⊢
        exact ⟨hl.wellFormed (ascending_insert h.ascending (a, newEntry a lifetime ip)) h.quiet,
          _, _, List.takeWhile_append_dropWhile.symm, rfl⟩
  | remove deadRoute =>
    obtain ⟨c, hc, rfl⟩ := hp
    obtain ⟨l₁, n, l₂, hget, -, hentries, hl⟩ := h.split hc
    obtain ⟨mem, p, ht, hrest⟩ := hl.removeAodvRoute hget
    refine ⟨_, ht, hrest.wellFormed ?_ h.quiet, n.entry, l₁, l₂, hrest.entries, hentries⟩
    have hasc := h.ascending
    rw [hentries] at hasc
    exact hasc.sublist ((List.sublist_cons_self _ _).append_left _)
  | delete targetIp =>
    obtain ⟨mem, p, ht, hl⟩ := h.holds.deleteAodvRoute h.ascending targetIp
    refine ⟨_, congrArg (Option.map Prod.snd) ht,
      hl.wellFormed (h.ascending.sublist List.eraseP_sublist) h.quiet,
      ht, ?_⟩
    rw [hl.entries]
    by_cases hany : ∃ c ∈ s.entries, c.2.ip = targetIp
    · obtain ⟨c, hc, hip⟩ := hany
      rw [if_pos ⟨c, hc, hip⟩]
      exact adds_eraseP hc hip
    · rw [if_neg hany, List.eraseP_of_forall_not fun c hc heq => hany ⟨c, hc, by simpa using heq⟩]
  | flush currtime reads =>
    obtain ⟨mem, p, ht, hl⟩ := h.holds.flushAodvRouteTable currtime reads
    refine ⟨_, ht, hl.wellFormed ?_ h.quiet, hl.entries, fun c hc hself => ?_⟩
    · rw [List.pairwise_map]
      simp only [marked_ip]
      exact h.ascending.sublist List.filter_sublist
    · have hlive : (!dead currtime c.2) = true := by simp [dead, hself]
      have hmarked : marked currtime reads c = c := if_neg (by simp [Route.stale, hself])
      rw [hl.entries]
      exact hmarked ▸ List.mem_map_of_mem (List.mem_filter.2 ⟨hc, hlive⟩)
  | find currTime reads targetIp =>
    obtain ⟨mem, ht, hl⟩ := h.holds.findAodvRoute currTime reads targetIp
    refine ⟨_, congrArg (Option.map Prod.snd) ht, hl.wellFormed ?_ h.quiet, ht, hl.entries⟩
    have hasc := h.ascending
    rw [← List.takeWhile_append_dropWhile (p := fun c : ℕ × Route => decide (c.2.ip ≤ targetIp))
      (l := s.entries), ← List.pairwise_map (f := fun x : ℕ × Route => x.2.ip) (R := (· ≤ ·)),
      List.map_append] at hasc
    rw [← List.pairwise_map (f := fun x : ℕ × Route => x.2.ip) (R := (· ≤ ·)),
      List.map_append, List.map_map]
    simpa only [Function.comp_def, marked_ip] using hasc
  | fill route entry =>
    obtain ⟨c, hc, rfl, hip⟩ := hp
    obtain ⟨l₁, n, l₂, hget, hn, hentries, hl⟩ := h.split hc
    have hrest := hl.setEntry hget entry
    refine ⟨_, congrArg (Option.map _) (Memory.modify_some hget), hrest.wellFormed ?_ h.quiet,
      l₁, n.entry, l₂, hentries, hrest.entries⟩
    have hasc := h.ascending
    rw [hentries] at hasc
    simpa only [List.pairwise_append, List.pairwise_cons, List.forall_mem_cons, hip, ← hn]
      using hasc

theorem WellFormed.keep (h : WellFormed s) (hp : Possible i s) (ht : InMemory.step i s = some t) :
    WellFormed t ∧ Effect i s t := by
  obtain ⟨t', ht', hkept⟩ := h.step hp
  rwa [Option.some.inj (ht.symm.trans ht')]

/-- In every run from the empty table each call returns and has its effect, and the
table is well formed in every state. -/
theorem table_kept {actions : List Action} (hp : AllSteps InMemory.step Possible actions {}) :
    (∃ t, exec InMemory.step actions {} = some t) ∧ Along InMemory.step WellFormed actions {} ∧
      AllSteps InMemory.step (fun i s => ∀ t ∈ InMemory.step i s, Effect i s t) actions {} := by
  have hkept : Along InMemory.step WellFormed actions {} :=
    along_of_step (fun _ _ _ h hi ht => (h.keep hi ht).1) wellFormed_start hp
  refine ⟨exists_exec (P := WellFormed) (fun i s h hi => ?_) wellFormed_start hp, hkept, ?_⟩
  · obtain ⟨t, ht, hwf, -⟩ := h.step hi
    exact ⟨t, ht, hwf⟩
  · exact ((hkept.allSteps fun _ _ h => h).and hp).mono fun i s h t ht => (h.1.keep h.2 ht).2

/-- Entries for three addresses, one of them twice; one is found too old and marked,
flushed later, and others are deleted. -/
def tableRun : List Action :=
  [.create (some 4) 0 5, .fill 4 { newEntry 4 10 5 with routeValid := true }, .create (some 2) 0 2,
    .create (some 3) 90 9, .create (some 6) 0 5, .create none 0 7, .create (some 8) 0 0,
    .find ⟨20, 0⟩ (fun _ => ⟨21, 0⟩) 7, .flush ⟨40, 0⟩ fun _ => ⟨41, 0⟩, .delete 9, .remove 4]

theorem table_kept_tableRun : (∃ t, exec InMemory.step tableRun {} = some t) ∧
    Along InMemory.step WellFormed tableRun {} ∧
      AllSteps InMemory.step (fun i s => ∀ t ∈ InMemory.step i s, Effect i s t) tableRun {} :=
  table_kept (by decide +kernel)

end Steps

/-! ## The table as a list -/

/-- The list holds the entries of the table in memory, each with its address. -/
structure Follows (m : RouteTable) (s : Router) : Prop where
  routes : s.routes = m.entries.map Prod.snd
  ptr : ∀ c ∈ m.entries, c.2.ptr = c.1

namespace Follows

variable {m m' : RouteTable} {s : Router} {a : ℕ} {ip : U32} {clk : Clock}

theorem create (h : Follows m s) (hm : WellFormed m) (hs : s.routeReaders = 0)
    (hfree : m.mem.get a = none) (hip : ip ≠ 0) (lifetime : ℕ)
    (hc : createAodvRoute (some a) lifetime ip m = some m') :
    ∃ t, Aodv.insertAodvRoute (newEntry a lifetime ip) s = some t ∧ Follows m' t := by
  obtain ⟨mem, p, ht, hl⟩ := hm.holds.createAodvRoute hfree lifetime ip
  obtain rfl := Option.some.inj (ht.symm.trans hc)
  rw [if_neg hip] at hl
  refine ⟨_, if_pos hs, ?_, fun c hc => ?_⟩
  · rw [hl.entries, placeRoute, h.routes, List.takeWhile_map, List.dropWhile_map, List.map_append]
    rfl
  · rw [hl.entries, List.mem_append, List.mem_cons] at hc
    rcases hc with hc | rfl | hc
    · exact h.ptr c ((List.takeWhile_sublist _).subset hc)
    · rfl
    · exact h.ptr c ((List.dropWhile_sublist _).subset hc)

theorem remove (h : Follows m s) (hm : WellFormed m) (hs : s.routeReaders = 0) {c : ℕ × Route}
    (hmem : c ∈ m.entries) (hc : removeAodvRoute c.1 m = some m') :
    ∃ t, Aodv.removeAodvRoute c.1 s = some t ∧ Follows m' t := by
  obtain ⟨l₁, n, l₂, hget, -, hentries, hl⟩ := hm.split hmem
  obtain ⟨mem, p, ht, hrest⟩ := hl.removeAodvRoute hget
  obtain rfl := Option.some.inj (ht.symm.trans hc)
  have hother : ∀ c' ∈ l₁ ++ l₂, (c'.2.ptr != c.1) = true := fun c' hc' => by
    have hold : c' ∈ m.entries := by
      rw [hentries]
      exact ((List.sublist_cons_self _ _).append_left _).subset hc'
    have hne : c'.1 ≠ c.1 := fun he => (nodup_middle.1 hl.nodup).1 (he ▸ List.mem_map_of_mem hc')
    rwa [h.ptr c' hold, bne_iff_ne]
  have hself : n.entry.ptr = c.1 := h.ptr (c.1, n.entry) (by rw [hentries]; simp)
  refine ⟨_, if_pos hs, ?_, fun c' hc' => ?_⟩
  · obtain ⟨hbefore, hafter⟩ := List.forall_mem_append.1 hother
    rw [hrest.entries, h.routes, hentries, List.map_append, List.map_cons, List.filter_append,
      List.filter_cons_of_neg
      (by simp [hself]), List.filter_eq_self.2, List.filter_eq_self.2, List.map_append]
    · simpa using fun r a hr => by simpa using hafter (a, r) hr
    · simpa using fun r a hr => by simpa using hbefore (a, r) hr
  · rw [hrest.entries] at hc'
    refine h.ptr c' ?_
    rw [hentries]
    exact ((List.sublist_cons_self _ _).append_left _).subset hc'

theorem routes_searched (s : Router) : (searched clk ip s).routes =
    (s.routes.takeWhile fun r => decide (r.ip ≤ ip)).map (Route.refresh clk) ++
      s.routes.dropWhile fun r => decide (r.ip ≤ ip) := by
  have hscan : ∀ (l : List Route) (possible : Option Route), (scanRoutes clk ip l possible).1 =
      (l.takeWhile fun r => decide (r.ip ≤ ip)).map (Route.refresh clk) ++ l.dropWhile fun r =>
        decide (r.ip ≤ ip) :=
    fun l => by
      induction l with
      | nil => exact fun _ => rfl
      | cons r l ih =>
        intro possible
        rw [scanRoutes]
        by_cases hle : r.ip ≤ ip
        · rw [if_pos hle, List.takeWhile_cons_of_pos (by simpa using hle),
            List.dropWhile_cons_of_pos (by simpa using hle)]
          exact congrArg _ (ih _)
        · rw [if_neg hle, List.takeWhile_cons_of_neg (by simpa using hle),
            List.dropWhile_cons_of_neg (by simpa using hle)]
          rfl
  exact hscan s.routes none

theorem snd_marked (c : ℕ × Route) : (marked clk (fun _ => clk) c).2 = c.2.refresh clk := by
  rw [marked, Route.refresh]
  split <;> rfl

theorem ptr_marked {c : ℕ × Route} (hc : c.2.ptr = c.1) : (marked clk (fun _ => clk) c).2.ptr =
    (marked clk (fun _ => clk) c).1 := by
  rw [marked]
  split <;> exact hc

/-- The search goes to the same entries, and finds the same one, when the clock stands still. -/
theorem find (h : Follows m s) (hm : WellFormed m) {found : Option ℕ}
    (hc : InMemory.findAodvRoute clk (fun _ => clk) ip m = some (found, m')) :
    Follows m' (searched clk ip s) ∧ (foundRoute clk ip s).map Route.ptr = found := by
  obtain ⟨mem, ht, hl⟩ := hm.holds.findAodvRoute clk (fun _ => clk) ip
  obtain ⟨rfl, rfl⟩ := Prod.mk.inj (Option.some.inj (ht.symm.trans hc))
  refine ⟨⟨?_, fun c hc => ?_⟩, ?_⟩
  · rw [hl.entries, routes_searched, h.routes, List.takeWhile_map, List.dropWhile_map,
      List.map_append, List.map_map, List.map_map]
    simp only [Function.comp_def, snd_marked]
  · rw [hl.entries, List.mem_append, List.mem_map] at hc
    rcases hc with ⟨c, hc, rfl⟩ | hc
    · exact ptr_marked (h.ptr c ((List.takeWhile_sublist _).subset hc))
    · exact h.ptr c ((List.dropWhile_sublist _).subset hc)
  · rw [foundRoute_entryFor, entryFor, h.routes, List.takeWhile_map, List.filter_map,
      List.getLast?_map, Option.map_map, Option.map_map, lastOf_none]
    refine Option.map_congr fun c hc => ?_
    have hmem := (List.takeWhile_sublist _).subset (List.mem_filter.1 (List.mem_of_getLast? hc)).1
    simpa using h.ptr c hmem

/-- The walk over a list of entries does to each what the walk in memory does. -/
theorem routes_flushRoutes (clk : Clock) {l₁ l₂ : List Route} (hroutes : s.routes = l₁ ++ l₂)
    (hptr : ((l₁ ++ l₂).map Route.ptr).Nodup) (hs : s.routeReaders = 0) :
    ∃ t, flushRoutes clk l₂ s = some t ∧ t.routes =
      l₁ ++ (l₂.filter fun r => !dead clk r).map (Route.refresh clk) := by
  induction l₂ generalizing l₁ s with
  | nil => exact ⟨s, rfl, by simpa using hroutes⟩
  | cons r l₂ ih =>
    have hother : ∀ x ∈ l₁ ++ l₂, x.ptr ≠ r.ptr := fun x hx he => by
      rw [(List.perm_middle.map Route.ptr).nodup_iff, List.map_cons, List.nodup_cons] at hptr
      exact hptr.1 (he ▸ List.mem_map_of_mem hx)
    obtain ⟨hbefore, hafter⟩ := List.forall_mem_append.1 hother
    -- the table once `r` has become `x`
    have hput : ∀ (x : Route) (s' : Router), x.ptr = r.ptr → s'.routeReaders = 0 →
        s'.routes = l₁ ++ x :: l₂ →
        ∃ t, flushRoutes clk l₂ s' = some t ∧ t.routes =
          l₁ ++ x :: (l₂.filter fun r => !dead clk r).map (Route.refresh clk) :=
            fun x s' hx hs' hl => by
      have hl : s'.routes = (l₁ ++ [x]) ++ l₂ := by simpa using hl
      obtain ⟨t, ht, hkeep⟩ := ih hl (by simpa [hx] using hptr) hs'
      exact ⟨t, ht, by simpa using hkeep⟩
    rw [flushRoutes, flushRoute]
    by_cases hdue : (timeBefore r.lifetime clk.now && !r.selfRoute) = true
    · rw [if_pos hdue]
      by_cases hvalid : r.routeValid = true
      · have hlive : (!dead clk r) = true := by simp [dead, hvalid]
        have hstale : r.stale clk = true := by rw [Route.stale, hdue, hvalid]; rfl
        rw [if_pos hvalid, List.filter_cons_of_pos (by exact hlive), List.map_cons,
          Route.refresh, if_pos hstale]
        refine hput _ _ rfl hs ?_
        rw [putRoute, hroutes, List.map_append, List.map_cons]
        have hsame : ∀ l : List Route, (∀ x ∈ l, x.ptr ≠ r.ptr) →
            l.map (fun x => if x.ptr = (r.expire clk).ptr then r.expire clk else x) = l :=
              fun l hl =>
          (List.map_congr_left (g := id) fun x hx => by exact if_neg (hl x hx)).trans
            (List.map_id l)
        rw [hsame l₁ hbefore, hsame l₂ hafter]
        exact congrArg (fun x => l₁ ++ x :: l₂) (if_pos rfl)
      · have hdead : ¬(!dead clk r) = true := by simp [dead, hdue, hvalid]
        have hrest : (l₁ ++ r :: l₂).filter (fun x => x.ptr != r.ptr) = l₁ ++ l₂ := by
          rw [List.filter_append, List.filter_cons_of_neg (by simp),
            List.filter_eq_self.2 (by simpa using hbefore),
            List.filter_eq_self.2 (by simpa using hafter)]
        rw [if_neg hvalid, List.filter_cons_of_neg (by exact hdead), Aodv.removeAodvRoute,
          if_pos (by exact hs)]
        refine ih ?_ ?_ hs
        · rw [deleteKernelRouteEntry, hroutes, hrest]
        · exact hptr.sublist (((List.sublist_cons_self _ _).append_left _).map _)
    · have hlive : (!dead clk r) = true := by simp [dead, hdue]
      have hfresh : ¬r.stale clk = true := by simp [Route.stale, hdue]
      rw [if_neg hdue, List.filter_cons_of_pos (by exact hlive), List.map_cons,
        Route.refresh, if_neg hfresh]
      exact hput r s rfl hs hroutes

theorem flush (h : Follows m s) (hm : WellFormed m) (hs : s.routeReaders = 0)
    (hc : InMemory.flushAodvRouteTable clk (fun _ => clk) m = some m') :
    ∃ t, Aodv.flushAodvRouteTable clk s = some t ∧ Follows m' t := by
  obtain ⟨mem, p, ht, hl⟩ := hm.holds.flushAodvRouteTable clk (fun _ => clk)
  obtain rfl := Option.some.inj (ht.symm.trans hc)
  have hptr : (s.routes.map Route.ptr).Nodup := by
    rw [h.routes, List.map_map, List.map_congr_left (g := Prod.fst) fun c hc => by exact h.ptr c hc]
    exact hm.holds.nodup
  obtain ⟨t, ht', hroutes⟩ :=
    routes_flushRoutes clk (show s.routes = [] ++ s.routes from rfl) hptr hs
  refine ⟨t, ht', ?_, fun c hc => ?_⟩
  · rw [hroutes, hl.entries, h.routes, List.filter_map, List.nil_append, List.map_map, List.map_map]
    simp only [Function.comp_def, snd_marked]
  · rw [hl.entries, List.mem_map] at hc
    obtain ⟨c, hc, rfl⟩ := hc
    exact ptr_marked (h.ptr c (List.mem_filter.1 hc).1)

end Follows

end InMemory

end MobileCloudCaching.Aodv

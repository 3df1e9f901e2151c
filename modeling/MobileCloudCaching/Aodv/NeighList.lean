import MobileCloudCaching.Aodv.Agenda
import MobileCloudCaching.Library.Singly

/-!
# The list of neighbours in memory (`aodv_neigh.c`, `hello.c`)

The neighbours are a singly linked list in ascending order of addresses.  `recv_hello` enters a
neighbour and writes to it through the pointer that it has found, and a time-out takes it out.  The
list that stands for it elsewhere is what is in memory, over whole runs of the module.
-/

namespace MobileCloudCaching.Aodv

open Linked Singly Transition

namespace NeighList

/-! ## The code -/

def findAodvNeigh (targetIp : U32) (s : Heap Neigh) : Option (Option ℕ) :=
  find (fun n => !decide (n.ip ≤ targetIp)) (fun n => n.ip == targetIp) s.mem s.mem.cells.length
    s.head

def validAodvNeigh (clk : Clock) (targetIp : U32) (s : Heap Neigh) : Option Bool :=
  (findAodvNeigh targetIp s).bind fun
    | some a => (s.mem.get a).map fun n => n.val.validLink && timeBefore clk.now n.val.lifetime
    | none => some false

/-- What `delete_aodv_neigh` does to the list. -/
def deleteAodvNeigh (ip : U32) (s : Heap Neigh) : Option (Heap Neigh) :=
  (walk Cell.val Cell.next (fun n => n.ip != ip) s.mem s.mem.cells.length none s.head).bind fun
    | (prev, some a) => remove prev a s
    | (_, none) => some s

/-- `tmp_neigh && (tmp_neigh->ip == ip)` -/
def isAt (ip : U32) (tmp : Option ℕ) (s : Heap Neigh) : Option Bool :=
  match tmp with
  | some a => (s.mem.get a).map fun n => n.val.ip == ip
  | none => some false

/-- `create_aodv_neigh`, for which `kmalloc` has found an address, with what is there, or none. -/
def createAodvNeigh (kmalloc : Option (ℕ × Neigh)) (ip : U32) (s : Heap Neigh) :
    Option (Option ℕ × Heap Neigh) := do
  let (prev, tmp) ←
    walk Cell.val Cell.next (fun n => decide (n.ip < ip)) s.mem s.mem.cells.length none s.head
  if ← isAt ip tmp s then return (none, s)
  else match kmalloc with
    | some (a, old) =>
      let s ← insert prev a { old with ip := ip, lifetime := 0, validLink := true } s
      return (some a, s)
    | none => return (none, s)

/-- A write to a neighbour. -/
def write (a : ℕ) (f : Neigh → Neigh) (s : Heap Neigh) : Option (Heap Neigh) :=
  (s.mem.modify (some a) fun n => { n with val := f n.val }).map fun m => { s with mem := m }

/-- What `recv_hello` does to the list. -/
def recvHello (kmalloc : Option (ℕ × Neigh)) (clk : Clock) (t : Task) (m : Rrep) (s : Heap Neigh) :
    Option (Heap Neigh) := do
  match ← findAodvNeigh m.dstIp s with
  | some a => write a (fun n => n.heard clk m) s
  | none =>
    match ← createAodvNeigh kmalloc m.dstIp s with
    | (some a, s) =>
      let s ← write a (fun n => { n with dev := t.dev }) s
      write a (fun n => n.heard clk m) s
    | (none, s) => return s

/-- What the handler of a task does to the list. -/
def handle (kmalloc : Option (ℕ × Neigh)) (clk : Clock) (t : Task) (s : Heap Neigh) :
    Option (Heap Neigh) :=
  match t.type with
  | .packet (.rrep m) => if m.srcIp = m.dstIp then recvHello kmalloc clk t m s else some s
  | .neighbor => deleteAodvNeigh t.srcIp s
  | _ => some s

/-! ## The list -/

/-- The list is in memory, in ascending order, and nothing else. -/
structure Keeps (s : Heap Neigh) (l : List Neigh) : Prop where
  holds : ∃ c, Holds s c ∧ c.map Prod.snd = l
  ascending : (l.map Neigh.ip).Pairwise (· < ·)

variable {s : Heap Neigh} {l l₁ l₂ : List Neigh} {n : Neigh} {r : Router} {clk : Clock} {ip : U32}

theorem keeps_empty : Keeps {} [] := ⟨⟨[], holds_empty, rfl⟩, .nil⟩

/-- What is found in memory is what is found in the list. -/
theorem Keeps.find (h : Keeps s r.neighs) (ip : U32) :
    (Aodv.findAodvNeigh ip r = none ∧ findAodvNeigh ip s = some none) ∨
    ∃ n a, Aodv.findAodvNeigh ip r = some n ∧ findAodvNeigh ip s = some (some a) ∧
      (s.mem.get a).map Cell.val = some n ∧
      ∃ c₁ c₂, Holds s (c₁ ++ (a, n) :: c₂) ∧
        r.neighs = c₁.map Prod.snd ++ n :: c₂.map Prod.snd := by
  obtain ⟨⟨c, hc, hlist⟩, -⟩ := h
  have hfind := hc.find (fun n => !decide (n.ip ≤ ip)) fun n => n.ip == ip
  have hsame : Aodv.findAodvNeigh ip r = ((c.takeWhile fun c => !!decide (c.2.ip ≤ ip)).find?
      fun c => c.2.ip == ip).map Prod.snd := by
    simp only [Aodv.findAodvNeigh, ← hlist, List.takeWhile_map, List.find?_map, Bool.not_not]
    rfl
  rw [findAodvNeigh, hfind, hsame]
  cases hr : (c.takeWhile fun c => !!decide (c.2.ip ≤ ip)).find? fun c => c.2.ip == ip with
  | none => exact .inl ⟨rfl, rfl⟩
  | some x =>
    have hx : x ∈ c := (List.takeWhile_sublist _).subset (List.mem_of_find?_eq_some hr)
    obtain ⟨c₁, c₂, rfl⟩ := List.append_of_mem hx
    refine .inr ⟨x.2, x.1, rfl, rfl, hc.get_val hx, c₁, c₂, hc, ?_⟩
    rw [← hlist, List.map_append, List.map_cons]

theorem Keeps.valid (h : Keeps s r.neighs) (clk : Clock) (ip : U32) :
    validAodvNeigh clk ip s = some (Aodv.validAodvNeigh clk ip r) := by
  rw [validAodvNeigh, Aodv.validAodvNeigh]
  rcases h.find ip with ⟨hn, hf⟩ | ⟨n, a, hn, hf, hget, -⟩
  · rw [hn, hf]
    rfl
  · obtain ⟨m, hm, rfl⟩ := Option.map_eq_some_iff.1 hget
    rw [hn, hf, Option.bind_some]
    simp only [hm, Option.map_some]

theorem Keeps.delete (h : Keeps s l) (ip : U32) :
    ∃ t, deleteAodvNeigh ip s = some t ∧ Keeps t (l.eraseP fun n => n.ip == ip) := by
  obtain ⟨⟨c, hc, rfl⟩, hasc⟩ := h
  have hwalk := hc.walk fun n => n.ip != ip
  have hbefore : ∀ x ∈ (c.takeWhile fun x => x.2.ip != ip).map Prod.snd, ¬(x.ip == ip) = true := by
    intro x hx
    obtain ⟨y, hy, rfl⟩ := List.mem_map.1 hx
    simpa using List.mem_takeWhile_imp hy
  rw [deleteAodvNeigh, hwalk, Option.bind_some]
  have hsplit : c = (c.takeWhile fun x => x.2.ip != ip) ++ c.dropWhile fun x => x.2.ip != ip :=
    List.takeWhile_append_dropWhile.symm
  cases hdrop : c.dropWhile fun x => x.2.ip != ip with
  | nil =>
    rw [hdrop, List.append_nil] at hsplit
    rw [← hsplit] at hbefore
    exact ⟨s, rfl, ⟨c, hc, (List.eraseP_of_forall_not hbefore).symm⟩,
      by rwa [List.eraseP_of_forall_not hbefore]⟩
  | cons x c₂ =>
    have hx : (x.2.ip == ip) = true := by
      have hnot := List.head?_dropWhile_not (fun x : ℕ × Neigh => x.2.ip != ip) c
      simpa [hdrop] using hnot
    rw [hdrop] at hsplit
    obtain ⟨t, ht, hholds⟩ := Holds.remove (hsplit ▸ hc)
    have herase : (c.map Prod.snd).eraseP (fun n => n.ip == ip) =
        ((c.takeWhile fun x => x.2.ip != ip) ++ c₂).map Prod.snd := by
      conv_lhs => rw [hsplit]
      rw [List.map_append, List.map_cons, List.eraseP_append_right _ hbefore,
        List.eraseP_cons_of_pos (by exact hx), List.map_append]
    refine ⟨t, ht, ⟨_, hholds, herase.symm⟩, hasc.sublist (List.eraseP_sublist.map _)⟩

/-- A write to the cell of a neighbour. -/
theorem exists_write {c₁ c₂ : List (ℕ × Neigh)} {a : ℕ} (h : Holds s (c₁ ++ (a, n) :: c₂))
    (f : Neigh → Neigh) : ∃ t, write a f s = some t ∧ Holds t (c₁ ++ (a, f n) :: c₂) := by
  obtain ⟨m, hm, hholds⟩ := h.write f
  exact ⟨_, by rw [write, hm, Option.map_some], hholds⟩

/-- Only the neighbour itself has its address. -/
theorem map_put (n' : Neigh) (h : ((l₁ ++ n :: l₂).map Neigh.ip).Pairwise (· < ·))
    (hip : n'.ip = n.ip) :
    (l₁ ++ n :: l₂).map (fun x => if x.ip = n'.ip then n' else x) = l₁ ++ n' :: l₂ := by
  rw [List.map_append, List.map_cons, List.pairwise_append, List.pairwise_cons] at h
  have hkeep : ∀ l : List Neigh, (∀ x ∈ l, x.ip ≠ n.ip) →
      l.map (fun x => if x.ip = n'.ip then n' else x) = l := fun l hl => by
    refine (List.map_congr_left fun x hx => ?_).trans l.map_id
    exact if_neg (hip ▸ hl x hx)
  rw [List.map_append, List.map_cons, if_pos hip.symm, hkeep l₁, hkeep l₂]
  · exact fun x hx he => absurd (h.2.1.1 x.ip (List.mem_map_of_mem hx)) (he ▸ BitVec.lt_irrefl _)
  · exact fun x hx he => absurd (h.2.2 x.ip (List.mem_map_of_mem hx) n.ip List.mem_cons_self)
      (he ▸ BitVec.lt_irrefl _)

/-- A new neighbour stands behind those with smaller addresses. -/
theorem ascending_create (h : (l.map Neigh.ip).Pairwise (· < ·)) (hip : n.ip = ip)
    (hnot : ((l.dropWhile fun x => decide (x.ip < ip)).head?.any fun x => x.ip == ip) = false) :
    ((l.takeWhile (fun x => decide (x.ip < ip)) ++
      n :: l.dropWhile fun x => decide (x.ip < ip)).map Neigh.ip).Pairwise (· < ·) := by
  have hbefore : ∀ x ∈ l.takeWhile (fun x => decide (x.ip < ip)), x.ip < ip := fun x hx => by
    simpa using List.mem_takeWhile_imp hx
  have hall := h
  rw [← List.takeWhile_append_dropWhile (p := fun x : Neigh => decide (x.ip < ip)) (l := l),
    List.map_append, List.pairwise_append] at hall
  have hafter : ∀ x ∈ l.dropWhile (fun x => decide (x.ip < ip)), ip < x.ip := by
    cases hdrop : l.dropWhile fun x => decide (x.ip < ip) with
    | nil => exact fun x hx => absurd hx List.not_mem_nil
    | cons y l₂ =>
      have hle := List.head?_dropWhile_not (fun x : Neigh => decide (x.ip < ip)) l
      have hy : ip < y.ip := by
        rw [hdrop] at hnot
        have hne : y.ip ≠ ip := by simpa using hnot
        have hge : ip ≤ y.ip := by simpa [hdrop] using hle
        exact BitVec.lt_of_le_ne hge hne.symm
      rw [hdrop, List.map_cons, List.pairwise_cons] at hall
      intro x hx
      rcases List.mem_cons.1 hx with rfl | hx
      · exact hy
      · exact BitVec.lt_trans hy (hall.2.1.1 x.ip (List.mem_map_of_mem hx))
  rw [List.map_append, List.map_cons, List.pairwise_append, List.pairwise_cons]
  refine ⟨hall.1, ⟨?_, hall.2.1⟩, ?_⟩
  · intro a ha
    obtain ⟨x, hx, rfl⟩ := List.mem_map.1 ha
    exact hip ▸ hafter x hx
  · intro a ha b hb
    rcases List.mem_cons.1 hb with rfl | hb
    · obtain ⟨x, hx, rfl⟩ := List.mem_map.1 ha
      exact hip ▸ hbefore x hx
    · exact hall.2.2 a ha b hb

/-- A neighbour is entered, or its address is there already or there is no memory. -/
theorem Keeps.create {kmalloc : Option (ℕ × Neigh)} (h : Keeps s r.neighs)
    (hk : ∀ k ∈ kmalloc, s.mem.get k.1 = none) (ip : U32) (dev : Option Dev) :
    (Aodv.createAodvNeigh kmalloc.isSome ip dev r = none ∧
      createAodvNeigh kmalloc ip s = some (none, s)) ∨
    ∃ n u a t c₁ c₂, ∃ old : Neigh, Aodv.createAodvNeigh kmalloc.isSome ip dev r = some (n, u) ∧
      createAodvNeigh kmalloc ip s = some (some a, t) ∧ n = { old with dev := dev } ∧
      Holds t (c₁ ++ (a, old) :: c₂) ∧ u.neighs = c₁.map Prod.snd ++ n :: c₂.map Prod.snd ∧
      (u.neighs.map Neigh.ip).Pairwise (· < ·) := by
  obtain ⟨⟨c, hc, hlist⟩, hasc⟩ := h
  have hwalk := hc.walk fun n => decide (n.ip < ip)
  have hthere : isAt ip (firstOf (c.dropWhile fun x => decide (x.2.ip < ip)) none) s =
      some ((r.neighs.dropWhile fun x => decide (x.ip < ip)).head?.any fun x => x.ip == ip) := by
    rw [← hlist, List.dropWhile_map]
    cases hdrop : c.dropWhile fun x => decide (x.2.ip < ip) with
    | nil =>
      rw [show c.dropWhile ((fun x : Neigh => decide (x.ip < ip)) ∘ Prod.snd) = [] from hdrop]
      rfl
    | cons x c₂ =>
      have hx : x ∈ c := (List.dropWhile_sublist _).subset (hdrop ▸ List.mem_cons_self)
      obtain ⟨n, hn, hval⟩ := Option.map_eq_some_iff.1 (hc.get_val hx)
      rw [show c.dropWhile ((fun x : Neigh => decide (x.ip < ip)) ∘ Prod.snd) = x :: c₂ from hdrop,
        firstOf_cons, isAt, hn]
      simp [hval]
  rw [createAodvNeigh, hwalk]
  simp only [Option.bind_eq_bind, Option.bind_some, hthere]
  cases hdup : (r.neighs.dropWhile fun x => decide (x.ip < ip)).head?.any fun x => x.ip == ip with
  | true => exact .inl ⟨by rw [Aodv.createAodvNeigh, hdup, if_pos rfl], rfl⟩
  | false =>
    rcases kmalloc with - | ⟨a, old⟩
    · refine .inl ⟨?_, rfl⟩
      rw [Aodv.createAodvNeigh, hdup]
      rfl
    · have hsplit : Holds s ((c.takeWhile fun x => decide (x.2.ip < ip)) ++
          c.dropWhile fun x => decide (x.2.ip < ip)) := by rwa [List.takeWhile_append_dropWhile]
      obtain ⟨t, ht, hholds⟩ := hsplit.insert (hk _ rfl) { old with ip := ip, lifetime := 0,
                                                                    validLink := true }
      have hnew : Aodv.createAodvNeigh true ip dev r = some
          ({ ip := ip, lifetime := 0, dev := dev, validLink := true }, { r with
            neighs := r.neighs.takeWhile (fun x => decide (x.ip < ip)) ++
              { ip := ip, lifetime := 0, dev := dev, validLink := true } ::
              r.neighs.dropWhile fun x => decide (x.ip < ip) }) := by
        rw [Aodv.createAodvNeigh, hdup, if_neg Bool.false_ne_true, if_pos rfl]
      refine .inr ⟨_, _, a, t, _, _, _, hnew, ?_, rfl, hholds, ?_, ?_⟩
      · rw [if_neg Bool.false_ne_true]
        exact congrArg (Option.bind · _) ht
      · rw [← hlist, List.takeWhile_map, List.dropWhile_map]
        rfl
      · exact ascending_create hasc rfl hdup

/-- A hello writes to the neighbour that has sent it. -/
theorem neighs_heard (mem : Mem) (clk : Clock) (m : Rrep) (hlist : r.neighs = l₁ ++ n :: l₂)
    (hasc : (r.neighs.map Neigh.ip).Pairwise (· < ·)) :
    (putNeigh (n.heard clk m) (restartTimer mem clk n.ip r)).neighs = l₁ ++ n.heard clk m :: l₂ ∧
    ((l₁ ++ n.heard clk m :: l₂).map Neigh.ip).Pairwise (· < ·) := by
  rw [hlist] at hasc
  refine ⟨?_, by simpa [Neigh.heard] using hasc⟩
  have hkept : (restartTimer mem clk n.ip r).neighs = l₁ ++ n :: l₂ := by
    rw [restartTimer, insertTimer, ← hlist]
    split <;> rfl
  rw [putNeigh, hkept]
  exact map_put (n.heard clk m) hasc rfl

theorem Keeps.hello {kmalloc : Option (ℕ × Neigh)} {mem : Mem} {τ : Task} {m : Rrep}
    (h : Keeps s r.neighs) (hmem : kmalloc.isSome = mem .neigh 0)
    (hk : ∀ k ∈ kmalloc, s.mem.get k.1 = none) :
    ∃ t, recvHello kmalloc clk τ m s = some t ∧ Keeps t (greeted mem clk τ m r).neighs := by
  rw [recvHello, greeted]
  rcases h.find m.dstIp with ⟨hn, hf⟩ | ⟨n, a, hn, hf, -, c₁, c₂, hc, hlist⟩
  · rw [hn, hf, ← hmem]
    rcases h.create hk m.dstIp τ.dev with ⟨hnone, hcreate⟩ |
      ⟨n, u, a, t, c₁, c₂, old, hnew, hcreate, rfl, hc, hlist, hasc⟩
    · simp only [Option.bind_eq_bind, Option.bind_some, hcreate, hnone]
      exact ⟨s, rfl, h⟩
    · obtain ⟨t₁, ht₁, hc₁⟩ := exists_write hc fun n => { n with dev := τ.dev }
      obtain ⟨t₂, ht₂, hc₂⟩ := exists_write hc₁ fun n => n.heard clk m
      obtain ⟨heq, hasc'⟩ := neighs_heard mem clk m hlist hasc
      simp only [Option.bind_eq_bind, Option.bind_some, hcreate, hnew, ht₁, ht₂]
      rw [heq]
      exact ⟨t₂, rfl, ⟨_, hc₂, by rw [List.map_append, List.map_cons]⟩, hasc'⟩
  · obtain ⟨t, ht, hc'⟩ := exists_write hc fun n => n.heard clk m
    obtain ⟨heq, hasc⟩ := neighs_heard mem clk m hlist h.ascending
    rw [hn, hf]
    simp only [Option.bind_eq_bind, Option.bind_some, ht]
    rw [heq]
    exact ⟨t, rfl, ⟨_, hc', by rw [List.map_append, List.map_cons]⟩, hasc⟩

/-- What the module does to its neighbours happens in memory. -/
theorem Keeps.handle {p : Params} {kmalloc : Option (ℕ × Neigh)} {mem : Mem} {τ : Task} {u : Router}
    (h : Keeps s r.neighs) (hmem : kmalloc.isSome = mem .neigh 0)
    (hk : ∀ k ∈ kmalloc, s.mem.get k.1 = none) (hr : Aodv.handle p mem clk τ r = some u) :
    ∃ t, NeighList.handle kmalloc clk τ s = some t ∧ Keeps t u.neighs := by
  rw [(chores_iff.1 (chores_handle hr)).2.2, NeighList.handle, scheduled]
  cases τ.type with
  | packet msg =>
    cases msg with
    | rrep m =>
      dsimp only
      split_ifs
      · exact h.hello hmem hk
      · exact ⟨s, rfl, h⟩
      · exact ⟨s, rfl, h⟩
    | rreq m => exact ⟨s, rfl, h⟩
    | rerr m => exact ⟨s, rfl, h⟩
    | rrepAck => exact ⟨s, rfl, h⟩
  | neighbor =>
    obtain ⟨t, ht, hkept⟩ := h.delete τ.srcIp
    refine ⟨t, ht, ?_⟩
    dsimp only
    split_ifs with hlisted
    · exact hkept
    · have hnone : ∀ n ∈ r.neighs, ¬(n.ip == τ.srcIp) = true := fun n hn he =>
        hlisted (List.any_eq_true.2 ⟨n, hn, he⟩)
      rwa [List.eraseP_of_forall_not hnone] at hkept
  | cleanup =>
    refine ⟨s, rfl, ?_⟩
    dsimp only [insertTimer]
    split_ifs <;> exact h
  | hello =>
    refine ⟨s, rfl, ?_⟩
    dsimp only [insertTimer]
    split_ifs <;> exact h
  | routeCleanup => exact ⟨s, rfl, h⟩
  | resendRreq =>
    refine ⟨s, rfl, ?_⟩
    dsimp only [insertRreqTimer]
    split_ifs <;> exact h

end NeighList

/-- The module with the list in memory. -/
structure NeighMemory where
  router : Router
  heap : Heap Neigh := {}

namespace NeighMemory

variable (p : Params)

/-- An event, and what `kmalloc` finds for a neighbour. -/
abbrev Action := Event × Option (ℕ × Neigh)

def thread : Action → NeighMemory → Option (Heap Neigh)
  | (.thread _ clk, kmalloc), s =>
    match s.router.taskQ.head? with
    | some τ => NeighList.handle kmalloc clk τ s.heap
    | none => some s.heap
  | _, s => some s.heap

/-- It is not possible when it leaves the memory that is allocated. -/
def step (a : Action) (s : NeighMemory) : Option NeighMemory := do
  let router ← Aodv.step p a.1 s.router
  let heap ← thread a s
  return { router := router, heap := heap }

/-- `kmalloc` finds an address where nothing is, or fails, as the module has it. -/
def Fresh : Action → NeighMemory → Prop
  | (.thread mem _, kmalloc), s =>
    kmalloc.isSome = mem .neigh 0 ∧ ∀ k ∈ kmalloc, s.heap.mem.get k.1 = none
  | _, _ => True

instance : ∀ (a : Action) (s : NeighMemory), Decidable (Fresh a s)
  | (.thread mem _, kmalloc), s => inferInstanceAs (Decidable
    (kmalloc.isSome = mem .neigh 0 ∧ ∀ k ∈ kmalloc, s.heap.mem.get k.1 = none))
  | (.packet _ _ _, _), _ | (.output _ _ _, _), _ | (.timer _, _), _ => isTrue trivial

/-- The neighbours of the module are in memory. -/
def Follows (s : NeighMemory) : Prop := NeighList.Keeps s.heap s.router.neighs

variable {p} {a : Action} {s t : NeighMemory} {r u : Router} {h : Heap Neigh}

/-- Each event of the module is possible in memory. -/
theorem Follows.step (hs : Follows s) (ha : Fresh a s) (hr : Aodv.step p a.1 s.router = some u) :
    ∃ t, NeighMemory.step p a s = some t ∧ t.router = u ∧ Follows t := by
  obtain ⟨e, kmalloc⟩ := a
  have hstep : NeighMemory.step p (e, kmalloc) s =
      (thread (e, kmalloc) s).map fun heap => { router := u, heap := heap } := by
    rw [NeighMemory.step, hr]
    cases thread (e, kmalloc) s <;> rfl
  have hsame (hneighs : u.neighs = s.router.neighs)
      (hthread : thread (e, kmalloc) s = some s.heap) :
      ∃ t, NeighMemory.step p (e, kmalloc) s = some t ∧ t.router = u ∧ Follows t := by
    refine ⟨_, by rw [hstep, hthread, Option.map_some], rfl, ?_⟩
    rw [Follows, hneighs]
    exact hs
  cases e with
  | packet mem clk m =>
    obtain ⟨n, q, rfl, -⟩ := packetIn_cases (Option.some.inj hr)
    exact hsame rfl rfl
  | output mem clk daddr =>
    obtain rfl : output p mem clk daddr s.router = u := Option.some.inj hr
    refine hsame ?_ rfl
    rw [(chores_iff.1 (chores_output daddr)).2.2, insertRreqTimer]
    split_ifs <;> rfl
  | timer clk =>
    obtain rfl : timerQueueSignal clk s.router = u := Option.some.inj hr
    exact hsame rfl rfl
  | thread mem clk =>
    rcases runTask_cases hr with ⟨hq, rfl⟩ | ⟨τ, hhead, -, hhandle⟩
    · exact hsame rfl (by rw [thread, hq]; rfl)
    · obtain ⟨heap, hheap, hkept⟩ := NeighList.Keeps.handle
        (r := { s.router with taskQ := s.router.taskQ.tail }) hs ha.1 ha.2 hhandle
      refine ⟨{ router := u, heap := heap }, ?_, rfl, hkept⟩
      rw [hstep, thread, hhead]
      exact congrArg (Option.map _) hheap

/-- Whatever the module does, its neighbours are in memory in ascending order, with nothing else,
and `valid_aodv_neigh` says of every address what it says elsewhere. -/
theorem neighs_in_memory {clk : Clock} (hr : initModule p clk = some r) (actions : List Action)
    (hu : exec (Aodv.step p) (actions.map Prod.fst) r = some u)
    (hok : AllSteps (step p) Fresh actions { router := r }) :
    ∃ t, exec (step p) actions { router := r } = some t ∧ t.router = u ∧
      (∃ c, Holds t.heap c ∧ c.map Prod.snd = u.neighs) ∧
      (u.neighs.map Neigh.ip).Pairwise (· < ·) ∧
      ∀ clk ip, NeighList.validAodvNeigh clk ip t.heap = some (validAodvNeigh clk ip u) := by
  have hstart : Follows { router := r } := by
    have hnil : r.neighs = [] := by
      rw [initModule_eq] at hr
      rw [← Option.some.inj hr]
      rfl
    rw [Follows, hnil]
    exact NeighList.keeps_empty
  suffices h : ∀ (actions : List Action) (s : NeighMemory), Follows s →
      exec (Aodv.step p) (actions.map Prod.fst) s.router = some u →
      AllSteps (step p) Fresh actions s →
      ∃ t, exec (step p) actions s = some t ∧ t.router = u ∧ Follows t by
    obtain ⟨t, ht, rfl, hfollows⟩ := h actions _ hstart hu hok
    exact ⟨t, ht, rfl, hfollows.holds, hfollows.ascending, hfollows.valid⟩
  intro actions
  induction actions with
  | nil => exact fun s hs hu _ => ⟨s, rfl, Option.some.inj hu, hs⟩
  | cons a actions ih =>
    intro s hs hu hok
    obtain ⟨v, hv, hrest⟩ := exec_cons_eq_some.1 hu
    obtain ⟨t, ht, rfl, hfollows⟩ := hs.step hok.1 hv
    obtain ⟨t', ht', hend⟩ := ih t hfollows hrest (hok.2 t ht)
    exact ⟨t', exec_cons_eq_some.2 ⟨t, ht, ht'⟩, hend⟩

/-- Two neighbours are entered, the first again heard, and the second dropped. -/
def dropRun : List Action :=
  (handled 1 (helloFrom (peer 5) 1) ++ handled 2 (helloFrom (peer 2) 1) ++
    handled 3 (helloFrom (peer 5) 2) ++ [Event.timer (clockAt 3102)] ++
    List.replicate 5 (Event.thread .plenty (clockAt 3102))).zipIdx.map fun e =>
      (e.1, some (e.2, ⟨0, 0, none, false⟩))

theorem neighs_in_memory_dropRun : ∃ r u t, initModule plainNode (clockAt 0) = some r ∧
    exec (Aodv.step plainNode) (dropRun.map Prod.fst) r = some u ∧
    exec (step plainNode) dropRun { router := r } = some t ∧ t.router = u ∧
      (∃ c, Holds t.heap c ∧ c.map Prod.snd = u.neighs) ∧
      (u.neighs.map Neigh.ip).Pairwise (· < ·) ∧
      ∀ clk ip, NeighList.validAodvNeigh clk ip t.heap = some (validAodvNeigh clk ip u) := by
  have hrun : (initModule plainNode (clockAt 0)).any (fun r =>
      (exec (Aodv.step plainNode) (dropRun.map Prod.fst) r).any
        (fun u => u.neighs.map Neigh.ip == [peer 5]) &&
      decide (AllSteps (step plainNode) Fresh dropRun { router := r })) = true := by decide +kernel
  obtain ⟨r, hr, hq⟩ := (Option.any_eq_true _ _).1 hrun
  obtain ⟨hu, hok⟩ := Bool.and_eq_true_iff.1 hq
  obtain ⟨u, hu, -⟩ := (Option.any_eq_true _ _).1 hu
  obtain ⟨t, ht⟩ := neighs_in_memory hr dropRun hu (of_decide_eq_true hok)
  exact ⟨r, u, t, hr, hu, ht⟩

end NeighMemory

end MobileCloudCaching.Aodv

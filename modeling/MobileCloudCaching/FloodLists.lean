import MobileCloudCaching.Library.Singly
import MobileCloudCaching.Library.Transition
import MobileCloudCaching.Aodv.Thread
import MobileCloudCaching.Caching.FileReq

/-!
# The flood ids of the two modules (`flood_id.c`, `cFlood.c`)

Both modules keep the floods that they have seen in a singly linked list, with the same code.  The
lists that stand for it elsewhere are what is in memory.
-/

namespace MobileCloudCaching.FloodLists

open Linked Singly Transition

variable {ν σ : Type}

/-- What the functions read of an entry. -/
structure Fields (ν : Type) where
  srcIp : ν → U32
  id : ν → U32
  lifetime : ν → ℕ

variable (F : Fields ν)

/-- The lifetime of an entry is over. -/
def Fields.over (clk : Clock) (e : ν) : Bool := timeBefore (F.lifetime e) clk.now

/-! ## The code -/

/-- `find_flood_id`; it gives up at the first entry whose lifetime is over. -/
def findFloodId (clk : Clock) (srcIp id : U32) (s : Heap ν) : Option (Option ℕ) :=
  find (F.over clk) (fun e => srcIp = F.srcIp e ∧ id = F.id e) s.mem s.mem.cells.length s.head

/-- `insert_flood_id`, for which `kmalloc` has found an address or none. -/
def insertFloodId (kmalloc : Option ℕ) (e : ν) (s : Heap ν) : Option (Heap ν) :=
  match kmalloc with
  | none => some s
  | some a => insert none a e s

/-- The loop of `flush_flood_id_queue`. -/
def flushFloodIdQueue (clk : Clock) (s : Heap ν) : Option (Heap ν) :=
  sweep (F.over clk) s.mem.cells.length none s.head s

/-- The list in memory, and the entries that `find_flood_id` has returned. -/
structure Queue (ν : Type) where
  heap : Heap ν := {}
  found : List (Option ν) := []

inductive Action (ν : Type)
  | find (clk : Clock) (srcIp id : U32)
  | insert (kmalloc : Option ℕ) (e : ν)
  | flush (clk : Clock)

/-- One call; it is not possible when it leaves the memory that is allocated. -/
def step : Action ν → Queue ν → Option (Queue ν)
  | .find clk srcIp id, s => (findFloodId F clk srcIp id s.heap).bind fun
    | none => some { s with found := s.found ++ [none] }
    | some a => (s.heap.mem.get a).map fun n => { s with found := s.found ++ [some n.val] }
  | .insert kmalloc e, s => (insertFloodId kmalloc e s.heap).map fun h => { s with heap := h }
  | .flush clk, s => (flushFloodIdQueue F clk s.heap).map fun h => { s with heap := h }

/-- `kmalloc` finds an address where nothing is. -/
def Fresh : Action ν → Queue ν → Prop
  | .insert (some a) _, s => s.heap.mem.get a = none
  | _, _ => True

instance [DecidableEq ν] : ∀ (a : Action ν) (s : Queue ν), Decidable (Fresh a s)
  | .insert (some a) _, s => inferInstanceAs (Decidable (s.heap.mem.get a = none))
  | .insert none _, _ | .find _ _ _, _ | .flush _, _ => isTrue trivial

/-! ## The lists -/

/-- The functions of a module on its list. -/
structure Module (ν σ : Type) where
  list : σ → List ν
  find : Clock → U32 → U32 → List ν → Option ν
  insert : ν → σ → σ
  flush : Clock → σ → σ

/-- The same call where the flood ids are a list. -/
def Module.step (M : Module ν σ) (s : σ × List (Option ν)) : Action ν → σ × List (Option ν)
  | .find clk srcIp id => (s.1, s.2 ++ [M.find clk srcIp id (M.list s.1)])
  | .insert none _ => s
  | .insert (some _) e => (M.insert e s.1, s.2)
  | .flush clk => (M.flush clk s.1, s.2)

/-- The functions do to the list what the code does in memory. -/
structure ActsOn (M : Module ν σ) : Prop where
  find : ∀ clk srcIp id l, M.find clk srcIp id l =
    (l.takeWhile fun e => !F.over clk e).find? fun e => srcIp = F.srcIp e ∧ id = F.id e
  insert : ∀ e s, M.list (M.insert e s) = e :: M.list s
  flush : ∀ clk s, M.list (M.flush clk s) = (M.list s).filter fun e => !F.over clk e

/-- The list is in memory and nothing else, and the same entries have been found. -/
def Follows (M : Module ν σ) (s : Queue ν) (u : σ × List (Option ν)) : Prop :=
  ∃ l, Holds s.heap l ∧ l.map Prod.snd = M.list u.1 ∧ s.found = u.2

section

variable {F} {M : Module ν σ} {s : Queue ν} {u : σ × List (Option ν)} {a : Action ν}

theorem Follows.step (hM : ActsOn F M) (h : Follows M s u) (ha : Fresh a s) :
    ∃ t, FloodLists.step F a s = some t ∧ Follows M t (M.step u a) := by
  obtain ⟨l, hl, hlist, hfound⟩ := h
  cases a with
  | find clk srcIp id =>
    have hfind := hl.find (F.over clk) fun e => srcIp = F.srcIp e ∧ id = F.id e
    have hsame : M.find clk srcIp id (M.list u.1) =
        ((l.takeWhile fun c => !F.over clk c.2).find? fun c =>
          srcIp = F.srcIp c.2 ∧ id = F.id c.2).map Prod.snd := by
      rw [hM.find, ← hlist, List.takeWhile_map, List.find?_map]
      rfl
    rw [FloodLists.step, findFloodId, hfind, Option.bind_some]
    cases hr : (l.takeWhile fun c => !F.over clk c.2).find? fun c =>
        srcIp = F.srcIp c.2 ∧ id = F.id c.2 with
    | none => exact ⟨_, rfl, l, hl, hlist, by rw [hfound, Module.step, hsame, hr]; rfl⟩
    | some c =>
      have hc : c ∈ l := (List.takeWhile_sublist _).subset (List.mem_of_find?_eq_some hr)
      obtain ⟨n, hn, hval⟩ := hl.run.mem_get hc
      refine ⟨{ s with found := s.found ++ [some n.val] }, ?_, l, hl, hlist, ?_⟩
      · simp only [Option.map_some, hn]
      · simp only [Module.step, hsame, hr, Option.map_some, hfound, hval]
  | insert kmalloc e =>
    cases kmalloc with
    | none => exact ⟨s, rfl, l, hl, hlist, hfound⟩
    | some a =>
      have hlist' : Holds s.heap ([] ++ l) := hl
      obtain ⟨t, ht, hholds⟩ := hlist'.insert ha e
      refine ⟨{ s with heap := t }, ?_, (a, e) :: l, hholds, ?_, hfound⟩
      · rw [FloodLists.step, insertFloodId]
        exact congrArg (Option.map _) ht
      · rw [List.map_cons, hlist, Module.step, hM.insert]
  | flush clk =>
    obtain ⟨t, ht, hholds⟩ := hl.sweep (F.over clk)
    refine ⟨{ s with heap := t }, congrArg (Option.map _) ht, _, hholds, ?_, hfound⟩
    rw [Module.step, hM.flush, ← hlist, List.filter_map]
    rfl

/-- Every run can be taken in memory, follows the list, and leaves what `cleanup_flood_id_queue`
frees to the last cell. -/
theorem exec_follows (hM : ActsOn F M) {actions : List (Action ν)} (h : Follows M s u)
    (hok : AllSteps (FloodLists.step F) Fresh actions s) :
    ∃ t, exec (FloodLists.step F) actions s = some t ∧
      Follows M t (actions.foldl M.step u) ∧
      ∃ w, cleanup t.heap = some w ∧ ∀ a, w.mem.get a = none := by
  induction actions generalizing s u with
  | nil =>
    have hfollows := h
    obtain ⟨l, hl, -⟩ := h
    obtain ⟨w, hw, hempty⟩ := hl.cleanup
    refine ⟨s, rfl, hfollows, w, hw, fun a => ?_⟩
    cases hget : w.mem.get a with
    | none => rfl
    | some n => exact absurd (hempty.owned a (by rw [hget]; rfl)) List.not_mem_nil
  | cons a actions ih =>
    obtain ⟨t, ht, hfollows⟩ := h.step hM hok.1
    obtain ⟨t', ht', hrest⟩ := ih hfollows (hok.2 t ht)
    exact ⟨t', exec_cons_eq_some.2 ⟨t, ht, ht'⟩, hrest⟩

end

/-! ## The two modules -/

def aodvFields : Fields Aodv.FloodId := ⟨Aodv.FloodId.srcIp, Aodv.FloodId.id, Aodv.FloodId.lifetime⟩

def aodvModule (p : Aodv.Params) (mem : Aodv.Mem) : Module Aodv.FloodId Aodv.Router where
  list := Aodv.Router.floodIdQueue
  find := Aodv.findFloodId
  insert e := Aodv.insertFloodId e.srcIp e.dstIp e.id e.lifetime
  flush := Aodv.flushFloodIdQueue p mem

def cachingFields : Fields Caching.FloodId :=
  ⟨Caching.FloodId.srcIp, Caching.FloodId.id, Caching.FloodId.lifetime⟩

def cachingModule (p : Caching.Params) (mem : Caching.Mem) :
    Module Caching.FloodId Caching.Daemon where
  list := Caching.Daemon.floodIdQueue
  find := Caching.findFloodId
  insert e := Caching.insertFloodId true e.srcIp e.dstIp e.id e.lifetime
  flush := Caching.flushFloodIdQueue p mem

theorem actsOn_aodv (p : Aodv.Params) (mem : Aodv.Mem) : ActsOn aodvFields (aodvModule p mem) where
  find clk srcIp id l := by
    induction l with
    | nil => rfl
    | cons e l ih =>
      simp only [aodvModule, aodvFields, Fields.over, Aodv.findFloodId] at ih ⊢
      by_cases hover : timeBefore e.lifetime clk.now = true
      · simp [hover]
      · by_cases hfound : srcIp = e.srcIp ∧ id = e.id
        · simp [hover, hfound]
        · simp [hover, hfound, ih]
  insert _ _ := rfl
  flush clk s := by
    simp only [aodvModule, Aodv.flushFloodIdQueue, Aodv.insertTimer]
    split <;> rfl

theorem actsOn_caching (p : Caching.Params) (mem : Caching.Mem) :
    ActsOn cachingFields (cachingModule p mem) where
  find clk srcIp id l := by
    induction l with
    | nil => rfl
    | cons e l ih =>
      simp only [cachingModule, cachingFields, Fields.over, Caching.findFloodId] at ih ⊢
      by_cases hover : timeBefore e.lifetime clk.now = true
      · simp [hover]
      · by_cases hfound : srcIp = e.srcIp ∧ id = e.id
        · simp [hover, hfound]
        · simp [hover, hfound, ih]
  insert _ _ := rfl
  flush clk d := by
    simp only [cachingModule, Caching.flushFloodIdQueue]
    obtain ⟨c, hc⟩ := Caching.updateTimerQueue_eq p clk (Caching.insertTimer (mem.ok .task 0) clk
      .cleanUp Caching.flushInterval p.myIp 0 0
      { d with floodIdQueue := d.floodIdQueue.filter fun e => !timeBefore e.lifetime clk.now })
    rw [hc, Caching.insertTimer]
    split <;> rfl

/-- Whatever is found, inserted and flushed, in any order and with any allocation failing: no call
leaves the memory that is allocated, the list in memory is that of the router and of the daemon, the
entries found are the same, and `cleanup_flood_id_queue` frees all that there is. -/
theorem runs_follow {s : Aodv.Router} {d : Caching.Daemon} (hs : s.floodIdQueue = [])
    (hd : d.floodIdQueue = []) :
    (∀ (p : Aodv.Params) (mem : Aodv.Mem) (actions : List (Action Aodv.FloodId)),
      AllSteps (step aodvFields) Fresh actions {} →
      ∃ t, exec (step aodvFields) actions {} = some t ∧
        Follows (aodvModule p mem) t (actions.foldl (aodvModule p mem).step (s, [])) ∧
        ∃ w, cleanup t.heap = some w ∧ ∀ a, w.mem.get a = none) ∧
    ∀ (p : Caching.Params) (mem : Caching.Mem) (actions : List (Action Caching.FloodId)),
      AllSteps (step cachingFields) Fresh actions {} →
      ∃ t, exec (step cachingFields) actions {} = some t ∧
        Follows (cachingModule p mem) t (actions.foldl (cachingModule p mem).step (d, [])) ∧
        ∃ w, cleanup t.heap = some w ∧ ∀ a, w.mem.get a = none :=
  ⟨fun p mem _ hok => exec_follows (actsOn_aodv p mem) ⟨[], holds_empty, hs.symm, rfl⟩ hok,
    fun p mem _ hok => exec_follows (actsOn_caching p mem) ⟨[], holds_empty, hd.symm, rfl⟩ hok⟩

section

variable (mk : U32 → U32 → U32 → ℕ → ν)

/-- Two floods are noted and for a third there is no memory; the first is over when its id is looked
for again. -/
def threeFloods : List (Action ν) :=
  [.insert (some 3) (mk 1 9 1 50), .find ⟨10, 0⟩ 1 1, .insert (some 8) (mk 2 9 1 90),
    .insert none (mk 3 9 1 95), .find ⟨60, 0⟩ 2 1, .find ⟨60, 0⟩ 1 1, .flush ⟨60, 0⟩,
    .find ⟨60, 0⟩ 3 1]

end

theorem runs_follow_threeFloods :
    (∃ t, exec (step aodvFields) (threeFloods Aodv.FloodId.mk) {} = some t ∧
      Follows (aodvModule Aodv.plainNode fun _ _ => true) t ((threeFloods Aodv.FloodId.mk).foldl
        (aodvModule Aodv.plainNode fun _ _ => true).step (({} : Aodv.Router), [])) ∧
      ∃ w, cleanup t.heap = some w ∧ ∀ a, w.mem.get a = none) ∧
    ∃ t, exec (step cachingFields) (threeFloods Caching.FloodId.mk) {} = some t ∧
      Follows (cachingModule Caching.testNode Caching.Mem.plenty) t
        ((threeFloods Caching.FloodId.mk).foldl
          (cachingModule Caching.testNode Caching.Mem.plenty).step (({} : Caching.Daemon), [])) ∧
      ∃ w, cleanup t.heap = some w ∧ ∀ a, w.mem.get a = none :=
  have h := runs_follow (s := {}) (d := {}) rfl rfl
  ⟨h.1 _ _ _ (by decide +kernel), h.2 _ _ _ (by decide +kernel)⟩

end MobileCloudCaching.FloodLists

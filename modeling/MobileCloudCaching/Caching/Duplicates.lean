import MobileCloudCaching.Caching.Thread
import Mathlib.Data.List.InsertIdx

/-!
# When a fragment is cached twice

`retrieve_frag` does not ask whether the fragment is already in the table.  A run
of the daemon keeps the entries distinct exactly if it never prefetches a
fragment that stays in the table meanwhile.
-/

namespace MobileCloudCaching.Caching

open Transition

/-- One entry for each fragment. -/
def DistinctFrags (d : Daemon) : Prop := (d.ctable.map CacheTable.key).Nodup

/-- The prefetch of a fragment adds an entry next to one that the table keeps. -/
def Doubles (p : Params) (ok : Bool) (fileId fragId : U32) (d : Daemon) : Prop :=
  ok = true ∧ (fileId, fragId) ∈ d.ctable.map CacheTable.key ∧
    (fileCount d.ctable fileId : ℤ) < p.kval.toInt - 1 ∧
    (d.ctLen < p.bufSize.toInt ∨
      ∃ i, victim d.ctable = some i ∧ (d.ctable[i]?).map CacheTable.key ≠ some (fileId, fragId))

/-- The fragment that a task makes the node prefetch. -/
def prefetched (p : Params) (t : Task) (d : Daemon) : Option (U32 × U32) :=
  match t.type with
  | .addCacheProcess =>
    (AddCache.load p.order t.data).map fun m =>
      ((convertAddcacheToHost p.order m).fileId, (convertAddcacheToHost p.order m).fragId)
  | .addCacheSend =>
    if agent p t.fileId t.fragId d = p.myIp then some (t.fileId, t.fragId) else none
  | _ => none

/-- A handler run, with the outcomes of its allocations, its time and its task. -/
structure Run where
  mem : Mem
  clk : Clock
  task : Task

def runStep (p : Params) (r : Run) (d : Daemon) : Option Daemon := handle p r.mem r.clk r.task d

/-- The condition under which a task leaves the entries distinct: it does not prefetch a fragment
that the table keeps. -/
def KeepsDistinct (p : Params) (r : Run) (d : Daemon) : Prop :=
  ∀ k, prefetched p r.task d = some k → ¬ Doubles p (r.mem.ok .cache 0) k.1 k.2 d

theorem mem_map_key_eraseIdx_iff {t : List CacheTable} (hnd : (t.map CacheTable.key).Nodup) (i : ℕ)
    (k : U32 × U32) :
    k ∈ (t.eraseIdx i).map CacheTable.key ↔
      k ∈ t.map CacheTable.key ∧ (t[i]?).map CacheTable.key ≠ some k := by
  rw [← List.eraseIdx_map, List.mem_eraseIdx_iff_getElem?, ← List.getElem?_map]
  constructor
  · rintro ⟨j, hj, hk⟩
    refine ⟨List.mem_of_getElem? hk, fun hi => hj ?_⟩
    exact (List.getElem?_inj (List.getElem?_eq_some_iff.1 hk).1 hnd).1 (hk.trans hi.symm)
  · rintro ⟨hk, hi⟩
    obtain ⟨j, hj⟩ := List.getElem?_of_mem hk
    exact ⟨j, fun e => hi (e ▸ hj), hj⟩

theorem distinctFrags_createCache {d : Daemon} (ok : Bool) (fileId fragId : U32) :
    DistinctFrags (createCache ok fileId fragId 0 d) ↔
      DistinctFrags d ∧ ¬ (ok = true ∧ (fileId, fragId) ∈ d.ctable.map CacheTable.key) := by
  cases ok with
  | false => simp [createCache]
  | true =>
    simp only [DistinctFrags, createCache, insertCache, if_true, List.map_cons, List.nodup_cons,
      true_and]
    exact and_comm

/-- One prefetch keeps the entries distinct exactly if it does not double one. -/
theorem distinctFrags_retrieveFrag {p : Params} {d : Daemon} (h : DistinctFrags d) (ok : Bool)
    (fileId fragId : U32) :
    DistinctFrags (retrieveFrag p ok fileId fragId d).2 ↔ ¬ Doubles p ok fileId fragId d := by
  rcases retrieveFrag_cases p ok fileId fragId d with
    ⟨hfile, hd⟩ | ⟨hfile, e, rfl, ⟨hroom, hd⟩ | ⟨hfull, hv, hd⟩ | ⟨hfull, i, hv, hd⟩⟩
  · rw [hd]
    refine iff_of_true h fun hdbl => ?_
    have := hdbl.2.2.1
    omega
  · rw [hd, distinctFrags_createCache]
    constructor
    · rintro ⟨-, hnot⟩ ⟨hok, hmem, -⟩
      exact hnot ⟨hok, hmem⟩
    · exact fun hnot => ⟨h, fun hc => hnot ⟨hc.1, hc.2, hfile, Or.inl hroom⟩⟩
  · rw [hd]
    refine iff_of_true h ?_
    rintro ⟨-, -, -, hroom | ⟨i, hi, -⟩⟩
    · omega
    · rw [hv] at hi
      cases hi
  · rw [hd, distinctFrags_createCache]
    have hrem : DistinctFrags (removeCache i { d with cPrefetch := d.cPrefetch + 1 }) := by
      unfold DistinctFrags removeCache
      rw [← List.eraseIdx_map]
      exact List.Nodup.eraseIdx i h
    have hmem := mem_map_key_eraseIdx_iff h i (fileId, fragId)
    constructor
    · rintro ⟨-, hnot⟩ ⟨hok, hk, -, hroom | ⟨j, hj, hne⟩⟩
      · omega
      · obtain rfl : i = j := Option.some.inj (hv.symm.trans hj)
        exact hnot ⟨hok, hmem.2 ⟨hk, hne⟩⟩
    · refine fun hnot => ⟨hrem, fun hc => hnot ⟨hc.1, (hmem.1 hc.2).1, hfile, Or.inr ⟨i, hv, ?_⟩⟩⟩
      exact (hmem.1 hc.2).2

/-- A task that prefetches nothing leaves the fragments of the table. -/
theorem map_key_handle {p : Params} {mem : Mem} {clk : Clock} {t : Task} {d e : Daemon}
    (h : handle p mem clk t d = some e) (ht : prefetched p t d = none) :
    e.ctable.map CacheTable.key = d.ctable.map CacheTable.key := by
  unfold handle at h
  unfold prefetched at ht
  have href : ∀ {fileId fragId : U32},
      (updateRef fileId fragId d).ctable.map CacheTable.key = d.ctable.map CacheTable.key :=
    map_key_updateRefs _ _ _
  cases htype : t.type with
  | fileReqProcess =>
    rw [htype] at h
    obtain ⟨m, -, rfl | ⟨m', -, -, -, rfl⟩⟩ := recvFlreq_cases p h
    · rfl
    · rw [ctable_acceptFlreq]
  | fileRepProcess =>
    rw [htype] at h
    rw [ctable_recvFlrep p h]
  | fragReqUpdate =>
    rw [htype] at h
    rcases recvFrreqOri_cases p h with ⟨fileId, fragId, rfl⟩ | hs
    · exact href
    · rw [hs.ctable]
  | fragReqFlush =>
    rw [htype] at h
    rcases recvFrreqFwd_cases p h with ⟨fileId, fragId, rfl⟩ | hs
    · exact href
    · rw [hs.ctable]
  | exchSend =>
    rw [htype] at h
    obtain ⟨m, -, hm⟩ := Option.bind_eq_some_iff.1 h
    obtain rfl := Option.some.inj hm
    rw [(SameTables.genExchRep p .cleanUp _ _ _ _ _ _ _ _).ctable]
  | exchUpdate =>
    rw [htype] at h
    obtain ⟨m, -, hm⟩ := Option.bind_eq_some_iff.1 h
    obtain rfl := Option.some.inj hm
    cases mem.ok .extable 0 <;> rfl
  | addCacheProcess =>
    rw [htype] at h ht
    obtain ⟨m, hm, -⟩ := Option.bind_eq_some_iff.1 h
    simp [hm] at ht
  | fragReqSend =>
    rw [htype] at h
    obtain ⟨⟨r, e'⟩, he, rfl⟩ := Option.map_eq_some_iff.1 h
    exact map_key_processFlrep p he
  | addCacheSend =>
    rw [htype] at h ht
    obtain rfl := Option.some.inj h
    obtain ⟨-, rfl, ⟨-, hs⟩ | ⟨hagent, -⟩⟩ := selectAgent_cases p mem t d
    · rw [(hs .cleanUp).ctable]
    · simp [hagent] at ht
  | cleanUp =>
    rw [htype] at h
    obtain rfl := Option.some.inj h
    rw [ctable_cleanUp]

/-- The step lemma: a task leaves the entries distinct exactly under its condition. -/
theorem distinctFrags_runStep {p : Params} {r : Run} {d e : Daemon} (h : DistinctFrags d)
    (hs : runStep p r d = some e) : DistinctFrags e ↔ KeepsDistinct p r d := by
  obtain ⟨mem, clk, t⟩ := r
  cases ht : prefetched p t d with
  | none =>
    refine iff_of_true ?_ fun k hk => ?_
    · unfold DistinctFrags
      rw [map_key_handle hs ht]
      exact h
    · rw [ht] at hk
      cases hk
  | some k =>
    have hcond : KeepsDistinct p ⟨mem, clk, t⟩ d ↔ ¬ Doubles p (mem.ok .cache 0) k.1 k.2 d := by
      simp [KeepsDistinct, ht]
    rw [hcond]
    unfold prefetched at ht
    unfold runStep handle at hs
    cases htype : t.type <;> rw [htype] at ht hs <;> try contradiction
    case addCacheProcess =>
      obtain ⟨m, hm, rfl⟩ := Option.map_eq_some_iff.1 ht
      obtain ⟨m', hm', he⟩ := Option.bind_eq_some_iff.1 hs
      obtain rfl : m = m' := Option.some.inj (hm.symm.trans hm')
      obtain rfl := Option.some.inj he
      exact distinctFrags_retrieveFrag h _ _ _
    case addCacheSend =>
      obtain rfl := Option.some.inj hs
      obtain ⟨e, rfl, ⟨hagent, -⟩ | ⟨hagent, he⟩⟩ := selectAgent_cases p mem t d
      · simp [hagent] at ht
      · simp only [hagent, if_true, Option.some.injEq] at ht
        obtain rfl := ht
        rw [he]
        refine (distinctFrags_retrieveFrag ?_ _ _ _).trans Iff.rfl
        exact h

/-- A run of tasks, in any order and with any contents, keeps the entries distinct throughout
exactly if each of its tasks meets the condition. -/
theorem distinctFrags_iff (p : Params) {runs : List Run} {d e : Daemon} (h : DistinctFrags d)
    (he : exec (runStep p) runs d = some e) :
    Along (runStep p) DistinctFrags runs d ↔ AllSteps (runStep p) (KeepsDistinct p) runs d :=
  along_iff_allSteps (fun _ _ _ _ hd hs => distinctFrags_runStep hd hs) h he

/-- A service center that has fragment (1, 1), and settles an exchange for it on itself. -/
def settled : Run where
  mem := .plenty
  clk := ⟨0, 0⟩
  task := { createTask .addCacheSend ⟨0, 0⟩ with fileId := 1, fragId := 1 }

def holder : Daemon where
  ctable := [{ fileId := 1, fragId := 1, refs := 0, isServiceCenter := 1 }]
  ctLen := 1

theorem distinctFrags_iff_holder :
    ¬ AllSteps (runStep testNode) (KeepsDistinct testNode) [settled] holder := by
  have hrun : exec (runStep testNode) [settled] holder =
      some { holder with
        ctable := { fileId := 1, fragId := 1, refs := 0, isServiceCenter := 0 } :: holder.ctable
        ctLen := 2, cPrefetch := 1 } := by decide
  rw [← distinctFrags_iff testNode (show (holder.ctable.map CacheTable.key).Nodup by decide) hrun]
  intro h
  have := Along.reached (show Along _ _ ([settled] ++ []) _ from h) hrun
  exact absurd this (by unfold DistinctFrags; decide)

/-- An exchange that ends at a node which already has the fragment caches it twice. -/
theorem not_distinctFrags_run :
    ¬ ∀ (p : Params) (runs : List Run) (d e : Daemon), DistinctFrags d →
      exec (runStep p) runs d = some e → DistinctFrags e := by
  intro h
  have := h testNode [settled] holder _ (by unfold DistinctFrags; decide) rfl
  exact absurd this (by unfold DistinctFrags; decide)

end MobileCloudCaching.Caching

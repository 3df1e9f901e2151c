import MobileCloudCaching.Caching.FileRep
import MobileCloudCaching.Library.Selection

/-!
# What a retrieval chooses

`process_flrep` serves the nearest replies first.  It comes to its end exactly when the node and the
replies have `KVAL` fragments between them, and then no other way of completing the local fragments
is cheaper, by `Selection.NearestFirst.cost_le`.
-/

namespace MobileCloudCaching.Caching

open Octets Selection

/-- The fragment ids that a reply lists. -/
def FileRepInfo.frags (r : FileRepInfo) : List U32 := r.map.toList.take r.fragCount.toNat

/-! ## The nearest reply -/

theorem live_expire (fileId : U32) (r : FileRepInfo) : r.expire.live fileId = false := by
  simp [FileRepInfo.live, FileRepInfo.expire]

theorem nearestFrom_eq_some {fileId : U32} {l : List FileRepInfo} {i k : ℕ}
    {best : Option (ℕ × U32)} (h : nearestFrom fileId l i best = some k) :
    ∃ m : U32, (best = some (k, m) ∨ ∃ n r, l[n]? = some r ∧ k = i + n ∧ r.live fileId = true ∧
        m = r.dist) ∧
      (∀ j m', best = some (j, m') → m ≤ m') ∧ ∀ r ∈ l, r.live fileId = true → m ≤ r.dist := by
  induction l generalizing i best with
  | nil =>
    obtain ⟨⟨j, m⟩, rfl, rfl⟩ := Option.map_eq_some_iff.1 h
    refine ⟨m, Or.inl rfl, ?_, by simp⟩
    rintro j' m' hb
    obtain ⟨-, rfl⟩ := Prod.mk.inj (Option.some.inj hb)
    exact BitVec.le_refl m
  | cons r l ih =>
    -- the scan goes on with `b`, the old candidate or `r`
    have later : ∀ {b : Option (ℕ × U32)}, nearestFrom fileId l (i + 1) b = some k →
        ((b = best ∧ (r.live fileId = true → ∃ j m', b = some (j, m') ∧ m' ≤ r.dist)) ∨
          (b = some (i, r.dist) ∧ r.live fileId = true ∧
            ∀ j m', best = some (j, m') → r.dist ≤ m')) →
        ∃ m : U32, (best = some (k, m) ∨ ∃ n r', (r :: l)[n]? = some r' ∧ k = i + n ∧
            r'.live fileId = true ∧ m = r'.dist) ∧
          (∀ j m', best = some (j, m') → m ≤ m') ∧
          ∀ r' ∈ r :: l, r'.live fileId = true → m ≤ r'.dist := by
      intro b hb hcase
      obtain ⟨m, hm, hbest, hl⟩ := ih hb
      have hshift : (∃ n r', l[n]? = some r' ∧ k = i + 1 + n ∧ r'.live fileId = true ∧
          m = r'.dist) → ∃ n r', (r :: l)[n]? = some r' ∧ k = i + n ∧ r'.live fileId = true ∧
          m = r'.dist := by
        rintro ⟨n, r', hn, rfl, hr'⟩
        exact ⟨n + 1, r', hn, by omega, hr'⟩
      rcases hcase with ⟨rfl, hr⟩ | ⟨rfl, hr, hbound⟩
      · refine ⟨m, hm.imp_right hshift, hbest, List.forall_mem_cons.2 ⟨fun hlive => ?_, hl⟩⟩
        obtain ⟨j, m', hj, hle⟩ := hr hlive
        exact BitVec.le_trans (hbest j m' hj) hle
      · have hmr : m ≤ r.dist := hbest i r.dist rfl
        refine ⟨m, Or.inr ?_, fun j m' hj => BitVec.le_trans hmr (hbound j m' hj),
          List.forall_mem_cons.2 ⟨fun _ => hmr, hl⟩⟩
        rcases hm with hm | hm
        · obtain ⟨rfl, rfl⟩ := Prod.mk.inj (Option.some.inj hm)
          exact ⟨0, r, rfl, rfl, hr, rfl⟩
        · exact hshift hm
    rcases best with - | ⟨j, minDist⟩
    · rw [nearestFrom] at h
      split at h
      · rename_i hr
        exact later h (Or.inr ⟨rfl, hr, by simp⟩)
      · rename_i hr
        exact later h (Or.inl ⟨rfl, fun hlive => absurd hlive hr⟩)
    · rw [nearestFrom] at h
      split at h
      · rename_i hr
        refine later h (Or.inr ⟨rfl, hr.1, fun j' m' hj => ?_⟩)
        obtain ⟨-, rfl⟩ := Prod.mk.inj (Option.some.inj hj)
        exact BitVec.le_of_lt hr.2
      · rename_i hr
        refine later h (Or.inl ⟨rfl, fun hlive => ⟨j, minDist, rfl, ?_⟩⟩)
        exact BitVec.not_lt.1 fun hlt => hr ⟨hlive, hlt⟩

/-- The scan finds an entry of the file with the smallest distance. -/
theorem nearest_eq_some {fileId : U32} {l : List FileRepInfo} {i : ℕ}
    (h : nearest fileId l = some i) :
    ∃ r, l[i]? = some r ∧ r.live fileId = true ∧
      ∀ r' ∈ l, r'.live fileId = true → r.dist ≤ r'.dist := by
  obtain ⟨m, hm | ⟨n, r, hn, rfl, hr, rfl⟩, -, hl⟩ := nearestFrom_eq_some h
  · cases hm
  · exact ⟨r, by rw [Nat.zero_add]; exact hn, hr, hl⟩

theorem nearestFrom_eq_none {fileId : U32} {l : List FileRepInfo} {i : ℕ}
    {best : Option (ℕ × U32)} :
    nearestFrom fileId l i best = none ↔ best = none ∧ ∀ r ∈ l, r.live fileId = false := by
  induction l generalizing i best with
  | nil => simp [nearestFrom]
  | cons r l ih =>
    rcases best with - | ⟨j, minDist⟩
    · rw [nearestFrom]
      cases hr : r.live fileId <;> simp [ih, hr]
    · rw [nearestFrom]
      split <;> simp [ih]

theorem nearest_eq_none {fileId : U32} {l : List FileRepInfo} :
    nearest fileId l = none ↔ ∀ r ∈ l, r.live fileId = false := by
  rw [nearest, nearestFrom_eq_none]
  exact and_iff_right rfl

/-! ## Filling the buffer from one reply -/

/-- The local variables of `process_flrep` after the fragments `picks` have been chosen, the last
one first: the buffer holds the local fragments `buf₀` and then the chosen ones, and the arrays
are filled from their ends down to index `need`. -/
structure ChoiceInv (kval : ℤ) (buf₀ : List U32) (c : Choice) (picks : List (FileRepInfo × U32)) :
    Prop where
  buf : c.buf = buf₀ ++ (picks.map Prod.snd).reverse
  nodup : c.buf.Nodup
  need : c.need = kval - c.buf.length
  nonneg : 0 ≤ c.need
  energy : c.energy = BitVec.ofNat 32 (cost (fun r => r.dist.toNat) picks)
  length_dst : c.dst.length = (kval - buf₀.length).toNat
  length_frag : c.frag.length = (kval - buf₀.length).toNat
  drop_dst : c.dst.drop c.need.toNat = picks.map fun x => x.1.dstIp
  drop_frag : c.frag.drop c.need.toNat = picks.map Prod.snd

theorem drop_set_self {α : Type*} {l : List α} {m : ℕ} (hm : m < l.length) (a : α) :
    (l.set m a).drop m = a :: l.drop (m + 1) := by
  rw [List.drop_eq_getElem_cons (by simpa using hm), List.getElem_set_self,
    List.drop_set_of_lt (Nat.lt_succ_self m)]

namespace ChoiceInv

variable {kval : ℤ} {buf₀ : List U32} {c : Choice} {picks : List (FileRepInfo × U32)}

theorem length_buf_le (h : ChoiceInv kval buf₀ c picks) : (buf₀.length : ℤ) ≤ c.buf.length := by
  rw [h.buf, List.length_append]
  omega

/-- Choosing one more fragment stays inside the arrays. -/
theorem add (h : ChoiceInv kval buf₀ c picks) (r : FileRepInfo) {x : U32} (hx : x ∉ c.buf)
    (hneed : 0 < c.need) :
    ∃ c', c.add r.dist r.dstIp x = some c' ∧ ChoiceInv kval buf₀ c' ((r, x) :: picks) ∧
      c'.buf = c.buf ++ [x] := by
  have hle := h.length_buf_le
  have hn := h.need
  have hdst := h.length_dst
  have hfrag := h.length_frag
  have hsucc : (c.need - 1).toNat + 1 = c.need.toNat := by omega
  refine ⟨_, if_pos ⟨hneed, by omega⟩, ⟨?_, ?_, ?_, ?_, ?_, ?_, ?_, ?_, ?_⟩, rfl⟩
  · simp [h.buf]
  · exact List.nodup_append.2 ⟨h.nodup, by simp, by
      intro a ha b hb
      rw [List.mem_singleton.1 hb]
      exact fun e => hx (e ▸ ha)⟩
  · simp only [List.length_append, List.length_singleton]
    omega
  · simp only
    omega
  · simp only [h.energy, cost, List.map_cons, List.sum_cons]
    rw [Nat.add_comm, BitVec.ofNat_add, BitVec.ofNat_toNat, BitVec.setWidth_eq]
  · rw [List.length_set, hdst]
  · rw [List.length_set, hfrag]
  · have hlt : (c.need - 1).toNat < c.dst.length := by omega
    exact (drop_set_self hlt _).trans (by rw [hsucc, h.drop_dst]; rfl)
  · have hlt : (c.need - 1).toNat < c.frag.length := by omega
    exact (drop_set_self hlt _).trans (by rw [hsucc, h.drop_frag]; rfl)

end ChoiceInv

/-- The fragments of a reply are taken as far as they are new and needed: afterwards nothing more is
needed or all of them are in the buffer. -/
theorem fillMap_spec {kval : ℤ} {buf₀ : List U32} (r : FileRepInfo) {n i : ℕ} (hi : i + n ≤ 8)
    {c : Choice} {picks : List (FileRepInfo × U32)} (h : ChoiceInv kval buf₀ c picks) :
    ∃ (c' : Choice) (new : List U32), (fillMap kval r n i c).value = some c' ∧
      ChoiceInv kval buf₀ c' (new.map (fun x => (r, x)) ++ picks) ∧
      (∀ x ∈ new, x ∈ (r.map.toList.drop i).take n ∧ x ∉ c.buf) ∧
      (c'.need = 0 ∨ ∀ x ∈ (r.map.toList.drop i).take n, x ∈ c'.buf) := by
  induction n generalizing i c picks with
  | zero => exact ⟨c, [], rfl, h, by simp, Or.inr (by simp)⟩
  | succ n ih =>
    have hlt : i < 8 := by omega
    have hslice : (r.map.toList.drop i).take (n + 1) =
        r.map[i] :: (r.map.toList.drop (i + 1)).take n := by
      rw [List.drop_eq_getElem_cons (by simpa using hlt), List.take_succ_cons,
        Vector.getElem_toList]
    have hload : r.loadMap i = some r.map[i] := dif_pos hlt
    have hn := h.need
    have hn0 := h.nonneg
    by_cases hk : (c.buf.length : ℤ) < kval
    · by_cases hx : r.map[i] ∈ c.buf
      · obtain ⟨c', new, hc', hinv, hnew, hdone⟩ := ih (i := i + 1) (by omega) h
        refine ⟨c', new, ?_, hinv, fun x hmem => ?_, hdone.imp_right fun hall x hmem => ?_⟩
        · simpa [fillMap, hk, hload, hx] using hc'
        · rw [hslice]
          exact ⟨List.mem_cons_of_mem _ (hnew x hmem).1, (hnew x hmem).2⟩
        · rw [hslice] at hmem
          rcases List.mem_cons.1 hmem with rfl | hmem
          · rw [hinv.buf, List.map_append, List.reverse_append, ← List.append_assoc, ← h.buf]
            exact List.mem_append_left _ hx
          · exact hall x hmem
      · obtain ⟨c₁, hadd, hinv₁, hbuf₁⟩ := h.add r hx (by omega)
        obtain ⟨c', new, hc', hinv, hnew, hdone⟩ := ih (i := i + 1) (by omega) hinv₁
        refine ⟨c', new ++ [r.map[i]], ?_, ?_, fun x hmem => ?_,
          hdone.imp_right fun hall x hmem => ?_⟩
        · simpa [fillMap, hk, hload, hx, hadd] using hc'
        · simpa using hinv
        · rw [hslice]
          rcases List.mem_append.1 hmem with hmem | hmem
          · obtain ⟨hin, hout⟩ := hnew x hmem
            rw [hbuf₁] at hout
            exact ⟨List.mem_cons_of_mem _ hin, fun hc => hout (List.mem_append_left _ hc)⟩
          · rw [List.mem_singleton.1 hmem]
            exact ⟨List.mem_cons_self, hx⟩
        · rw [hslice] at hmem
          rcases List.mem_cons.1 hmem with rfl | hmem
          · rw [hinv.buf, List.map_append, List.reverse_append, ← List.append_assoc, ← hinv₁.buf,
              hbuf₁]
            simp
          · exact hall x hmem
    · refine ⟨c, [], ?_, h, by simp, Or.inl (by omega)⟩
      simp [fillMap, hk]

/-! ## Choosing from all replies -/

/-- An unexpired reply for the file lists the fragment. -/
def Offers (l : List FileRepInfo) (fileId : U32) (r : FileRepInfo) (x : U32) : Prop :=
  r ∈ l ∧ r.live fileId = true ∧ x ∈ r.frags

/-- The search after some rounds: `l₀` is the list of replies before the first round, and `l` the
list with the marks of the rounds so far. -/
structure SearchInv (kval : ℤ) (fileId : U32) (buf₀ : List U32) (l₀ : List FileRepInfo) (c : Choice)
    (picks : List (FileRepInfo × U32)) (l : List FileRepInfo) : Prop
    extends ChoiceInv kval buf₀ c picks where
  sub : ∀ r ∈ l, r.live fileId = true → r ∈ l₀
  /-- a reply that has been marked has nothing more to give -/
  served : c.need = 0 ∨
    ∀ r ∈ l₀, r.live fileId = true → r ∈ l ∨ ∀ x ∈ r.frags, x ∈ c.buf
  sold : ∀ y ∈ picks, Offers l₀ fileId y.1 y.2
  nearestFirst :
    NearestFirst (fun r => r.dist.toNat) (Offers l₀ fileId) (fun x => x ∈ buf₀) picks

theorem exists_of_getElem? {α : Type*} {l : List α} {i : ℕ} {a : α} (h : l[i]? = some a) :
    ∃ l₁ l₂, l = l₁ ++ a :: l₂ ∧ ∀ f, l.modify i f = l₁ ++ f a :: l₂ := by
  obtain ⟨hi, rfl⟩ := List.getElem?_eq_some_iff.1 h
  refine ⟨l.take i, l.drop (i + 1), ?_, fun f => List.modify_eq_take_cons_drop hi⟩
  rw [← List.drop_eq_getElem_cons hi, List.take_append_drop]

/-- Marking a live entry leaves one live entry less. -/
theorem countP_modify_expire {fileId : U32} {l : List FileRepInfo} {i : ℕ} {r : FileRepInfo}
    (hi : l[i]? = some r) (hr : r.live fileId = true) :
    (l.modify i FileRepInfo.expire).countP (FileRepInfo.live fileId) + 1 =
      l.countP (FileRepInfo.live fileId) := by
  obtain ⟨l₁, l₂, rfl, hmod⟩ := exists_of_getElem? hi
  rw [hmod, List.countP_append, List.countP_append, List.countP_cons, List.countP_cons,
    live_expire, hr]
  simp only [Bool.false_eq_true, if_false, if_true]
  omega

namespace SearchInv

variable {kval : ℤ} {fileId : U32} {buf₀ : List U32} {l₀ l : List FileRepInfo} {c : Choice}
  {picks : List (FileRepInfo × U32)}

/-- A fragment in the buffer is a local one or a chosen one. -/
theorem mem_buf_iff (h : ChoiceInv kval buf₀ c picks) (x : U32) :
    x ∈ c.buf ↔ x ∈ buf₀ ∨ x ∈ picks.map Prod.snd := by
  rw [h.buf, List.mem_append, List.mem_reverse]

/-- One round, with the nearest live entry `r` at position `i`. -/
theorem round (h : SearchInv kval fileId buf₀ l₀ c picks l) (hneed : 0 < c.need) {i : ℕ}
    {r : FileRepInfo} (hi : l[i]? = some r) (hr : r.live fileId = true)
    (hmin : ∀ r' ∈ l, r'.live fileId = true → r.dist ≤ r'.dist)
    (hcount : ∀ r ∈ l₀, r.live fileId = true → r.fragCount.toNat ≤ 8) :
    ∃ (c' : Choice) (picks' : List (FileRepInfo × U32)),
      (fillMap kval r r.fragCount.toNat 0 c).value = some c' ∧
      SearchInv kval fileId buf₀ l₀ c' picks' (l.modify i FileRepInfo.expire) := by
  have hmem : r ∈ l := List.mem_of_getElem? hi
  have hr₀ : r ∈ l₀ := h.sub r hmem hr
  have hserved := h.served.resolve_left (by omega)
  have hlen : 0 + r.fragCount.toNat ≤ 8 := by
    rw [Nat.zero_add]
    exact hcount r hr₀ hr
  obtain ⟨c', new, hc', hinv, hnew, hdone⟩ := fillMap_spec r hlen h.toChoiceInv
  rw [List.drop_zero] at hnew hdone
  have hold : ∀ x ∈ c.buf, x ∈ c'.buf := by
    intro x hx
    rw [mem_buf_iff hinv, List.map_append, List.mem_append]
    exact ((mem_buf_iff h.toChoiceInv x).1 hx).imp_right Or.inr
  obtain ⟨l₁, l₂, hl, hmod⟩ := exists_of_getElem? hi
  refine ⟨c', _, hc', hinv, ?_, ?_, ?_, ?_⟩
  · intro r' hr' hlive
    rw [hmod, List.mem_append, List.mem_cons] at hr'
    refine h.sub r' ?_ hlive
    rw [hl, List.mem_append, List.mem_cons]
    rcases hr' with hr' | rfl | hr'
    · exact Or.inl hr'
    · rw [live_expire] at hlive
      cases hlive
    · exact Or.inr (Or.inr hr')
  · refine hdone.imp_right fun hall r' hr' hlive => ?_
    rcases hserved r' hr' hlive with hin | hin
    · rw [hl, List.mem_append, List.mem_cons] at hin
      rw [hmod, List.mem_append, List.mem_cons]
      rcases hin with hin | rfl | hin
      · exact Or.inl (Or.inl hin)
      · exact Or.inr hall
      · exact Or.inl (Or.inr (Or.inr hin))
    · exact Or.inr fun x hx => hold x (hin x hx)
  · intro y hy
    rcases List.mem_append.1 hy with hy | hy
    · obtain ⟨x, hx, rfl⟩ := List.mem_map.1 hy
      exact ⟨hr₀, hr, (hnew x hx).1⟩
    · exact h.sold y hy
  · intro y hy a b hsells hb
    rcases List.mem_append.1 hy with hy | hy
    · -- a new choice: a reply that is still live is not nearer, one that is not has nothing to give
      obtain ⟨x, hx, rfl⟩ := List.mem_map.1 hy
      rcases hserved a hsells.1 hsells.2.1 with ha | ha
      · exact hmin a ha hsells.2.1
      · have hbuf := ha b hsells.2.2
        rcases hb with rfl | ⟨hloc, hpick⟩
        · exact absurd hbuf (hnew b hx).2
        · rw [List.map_append, List.mem_append, not_or] at hpick
          exact absurd ((mem_buf_iff h.toChoiceInv b).1 hbuf) (not_or.2 ⟨hloc, hpick.2⟩)
    · refine h.nearestFirst y hy a b hsells (hb.imp_right fun hb => ⟨hb.1, fun hmem => hb.2 ?_⟩)
      rw [List.map_append, List.mem_append]
      exact Or.inr hmem

end SearchInv

/-- The search ends, with nothing more needed or without any live entry. -/
theorem chooseFrags_spec {kval : ℤ} {fileId : U32} {buf₀ : List U32} {l₀ : List FileRepInfo}
    (hcount : ∀ r ∈ l₀, r.live fileId = true → r.fragCount.toNat ≤ 8) {fuel : ℕ} {c : Choice}
    {picks : List (FileRepInfo × U32)} {l : List FileRepInfo}
    (h : SearchInv kval fileId buf₀ l₀ c picks l)
    (hfuel : l.countP (FileRepInfo.live fileId) < fuel) :
    ∃ (enough : Bool) (c' : Choice) (l' : List FileRepInfo) (picks' : List (FileRepInfo × U32)),
      chooseFrags kval fileId fuel c l = some (enough, c', l') ∧
      SearchInv kval fileId buf₀ l₀ c' picks' l' ∧
      (enough = true → c'.need = 0) ∧
      (enough = false → 0 < c'.need ∧ ∀ r ∈ l', r.live fileId = false) := by
  induction fuel generalizing c picks l with
  | zero => omega
  | succ fuel ih =>
    by_cases hneed : 0 < c.need
    · cases hnear : nearest fileId l with
      | none =>
        refine ⟨false, c, l, picks, ?_, h, by simp, fun _ => ⟨hneed, nearest_eq_none.1 hnear⟩⟩
        simp [chooseFrags, hneed, hnear]
      | some i =>
        obtain ⟨r, hi, hr, hmin⟩ := nearest_eq_some hnear
        obtain ⟨c₁, picks₁, hfill, hinv⟩ := h.round hneed hi hr hmin hcount
        have hless := countP_modify_expire hi hr
        obtain ⟨enough, c', l', picks', hch, hrest⟩ := ih hinv (by omega)
        refine ⟨enough, c', l', picks', ?_, hrest⟩
        simp [chooseFrags, hneed, hnear, hi, hfill, hch]
    · have := h.nonneg
      refine ⟨true, c, l, picks, ?_, h, fun _ => by omega, by simp⟩
      simp [chooseFrags, hneed]

/-! ## The requests that are sent -/

/-- The datagram carries a fragment request of this node's own. -/
def Datagram.isFrreq (g : Datagram) : Bool := g.payload.head? == some fragReqOriMessage

/-- The request for a chosen fragment, as `gen_frreq` sends it. -/
def frreqTo (p : Params) (fileId dstIp fragId : U32) : Datagram where
  dst := dstIp
  ttl := BitVec.ofNat 8 netDiameter
  payload := frreqOctets p fragReqOriMessage p.myIp dstIp fileId fragId

/-- Counting a request may send an exchange request, but no fragment request. -/
theorem countFrreq_sent {p : Params} {mem : Mem} {clk : Clock} {i : ℕ} {dstIp fileId fragId : U32}
    {d e : Daemon} (h : countFrreq p mem clk i dstIp fileId fragId id d = some e) :
    ∃ l, e.sent = d.sent ++ l ∧ l.filter Datagram.isFrreq = [] := by
  have hexch : ∀ (ok : Bool) (d : Daemon), ∃ l,
      (genExchReq p ok p.myIp dstIp fileId fragId d).sent = d.sent ++ l ∧
        l.filter Datagram.isFrreq = [] := by
    intro ok d
    cases ok
    · exact ⟨[], (List.append_nil _).symm, rfl⟩
    · exact ⟨_, rfl, rfl⟩
  unfold countFrreq at h
  split at h
  · split at h
    · obtain rfl := Option.some.inj h
      exact ⟨[], (List.append_nil _).symm, rfl⟩
    · cases h
  · split at h
    · obtain rfl := Option.some.inj h
      obtain ⟨l, hl, hf⟩ := hexch (mem.ok .message (2 * i + 1)) (flushCount fileId fragId d)
      refine ⟨l, Eq.trans ?_ hl, hf⟩
      unfold updateTimerQueue insertTimer
      cases mem.ok .task i <;> split <;> rfl
    · obtain rfl := Option.some.inj h
      exact ⟨[], (List.append_nil _).symm, rfl⟩

theorem requestFrags_sent {p : Params} {mem : Mem} (hmem : mem.Succeeds)
    {clk : Clock} {fileId : U32} {l : List (U32 × U32)} {i : ℕ} {d e : Daemon}
    (h : requestFrags p mem clk fileId l i d = some e) :
    ∃ new, e.sent = d.sent ++ new ∧
      new.filter Datagram.isFrreq = l.map fun x => frreqTo p fileId x.1 x.2 := by
  induction l generalizing i d with
  | nil =>
    obtain rfl := Option.some.inj h
    exact ⟨[], (List.append_nil _).symm, rfl⟩
  | cons x l ih =>
    obtain ⟨c, hc, he⟩ := Option.bind_eq_some_iff.1 h
    obtain ⟨new, hnew, hf⟩ := ih he
    have hgen : (genFrreq p (mem.ok .message (2 * i)) p.myIp x.1 fileId x.2 d).sent =
        d.sent ++ [frreqTo p fileId x.1 x.2] := by
      rw [genFrreq, hmem]
      rfl
    have hreq : (frreqTo p fileId x.1 x.2).isFrreq = true := rfl
    have hcount : ∃ l', c.sent = d.sent ++ [frreqTo p fileId x.1 x.2] ++ l' ∧
        l'.filter Datagram.isFrreq = [] := by
      rw [← hgen]
      split at hc
      · exact countFrreq_sent hc
      · obtain rfl := Option.some.inj hc
        exact ⟨[], (List.append_nil _).symm, rfl⟩
    obtain ⟨l', hl', hf'⟩ := hcount
    refine ⟨frreqTo p fileId x.1 x.2 :: l' ++ new, ?_, ?_⟩
    · rw [hnew, hl']
      simp
    · rw [List.filter_append, List.filter_cons_of_pos hreq, hf', hf]
      rfl

theorem isSome_requestFrags {p : Params} {mem : Mem} (hmem : mem.Succeeds) (clk : Clock)
    (fileId : U32) (l : List (U32 × U32)) (i : ℕ) (d : Daemon) :
    (requestFrags p mem clk fileId l i d).isSome := by
  induction l generalizing i d with
  | nil => rfl
  | cons x l ih =>
    rw [requestFrags]
    split
    · have hcount : (countFrreq p mem clk i x.1 fileId x.2 id
          (genFrreq p (mem.ok .message (2 * i)) p.myIp x.1 fileId x.2 d)).isSome = true :=
        isSome_countFrreq_iff.2 fun _ => hmem _ _
      obtain ⟨e, he⟩ := Option.isSome_iff_exists.1 hcount
      rw [he]
      exact ih _ _
    · exact ih _ _

/-! ## The outcome -/

/-- The fragments of a file that the node or an unexpired reply has. -/
def available (d : Daemon) (fileId : U32) : Finset U32 :=
  (fragsOf d.ctable fileId ++
    (d.rinfo.filter (FileRepInfo.live fileId)).flatMap FileRepInfo.frags).toFinset

theorem mem_available_iff {d : Daemon} {fileId x : U32} :
    x ∈ available d fileId ↔ x ∈ fragsOf d.ctable fileId ∨ ∃ r, Offers d.rinfo fileId r x := by
  simp only [available, List.mem_toFinset, List.mem_append, List.mem_flatMap, List.mem_filter,
    Offers, and_assoc]

/-- The state `e` after a successful retrieval from `d` that has chosen `picks`. -/
structure Retrieved (p : Params) (mem : Mem) (fileId : U32) (d e : Daemon)
    (picks : List (FileRepInfo × U32)) : Prop where
  number : picks.length = p.kval.toInt.toNat - min p.kval.toInt.toNat (fileCount d.ctable fileId)
  assignment : Assignment (Offers d.rinfo fileId) (fun x => x ∈ fragsOf d.ctable fileId) picks
  cheapest : ∀ other,
    Assignment (Offers d.rinfo fileId) (fun x => x ∈ fragsOf d.ctable fileId) other →
    other.length = picks.length →
    cost (fun r => r.dist.toNat) picks ≤ cost (fun r => r.dist.toNat) other
  cEnergy : e.cEnergy = d.cEnergy + BitVec.ofNat 32 (cost (fun r => r.dist.toNat) picks)
  cSuccess : e.cSuccess = d.cSuccess + 1
  sent : mem.Succeeds → ∃ new, e.sent = d.sent ++ new ∧
    new.filter Datagram.isFrreq = picks.map fun y => frreqTo p fileId y.1.dstIp y.2

theorem searchInv_start {kval : ℤ} (hk : 1 ≤ kval) {d : Daemon}
    (hnd : (d.ctable.map CacheTable.key).Nodup) (fileId : U32) (buf : List U32)
    (hbuf : buf = heldFrags kval fileId d.ctable 0) :
    SearchInv kval fileId buf d.rinfo
      { buf := buf, need := kval - buf.length, energy := 0,
        dst := List.replicate (kval - buf.length).toNat 0,
        frag := List.replicate (kval - buf.length).toNat 0 } [] d.rinfo := by
  have hlen : (buf.length : ℤ) ≤ kval := by
    rw [hbuf, length_heldFrags]
    omega
  have hnodup : buf.Nodup := by
    rw [hbuf, heldFrags_eq_take]
    exact (nodup_fragsOf hnd fileId).sublist (List.take_sublist _ _)
  refine ⟨⟨?_, hnodup, rfl, ?_, rfl, ?_, ?_, ?_, ?_⟩, fun _ h _ => h, ?_, ?_, ?_⟩
  · simp
  · simp only
    omega
  · simp
  · simp
  · simp
  · simp
  · exact Or.inr fun r hr _ => Or.inl hr
  · simp
  · intro y hy
    cases hy

/-- While fragments are missing, the buffer started with all local ones. -/
theorem fragsOf_eq_of_lt {kval : ℤ} {d : Daemon} {fileId : U32}
    (h : ((heldFrags kval fileId d.ctable 0).length : ℤ) < kval) :
    heldFrags kval fileId d.ctable 0 = fragsOf d.ctable fileId := by
  rw [length_heldFrags] at h
  rw [heldFrags_eq_take, List.take_of_length_le]
  rw [length_fragsOf]
  omega

namespace SearchInv

variable {kval : ℤ} {fileId : U32} {buf : List U32} {d : Daemon} {l : List FileRepInfo} {c : Choice}
  {picks : List (FileRepInfo × U32)}

theorem mem_available (h : SearchInv kval fileId buf d.rinfo c picks l)
    (hbuf : buf = heldFrags kval fileId d.ctable 0) {x : U32} (hx : x ∈ c.buf) :
    x ∈ available d fileId := by
  rw [mem_available_iff]
  rcases (mem_buf_iff h.toChoiceInv x).1 hx with hx | hx
  · rw [hbuf, heldFrags_eq_take] at hx
    exact Or.inl (List.mem_of_mem_take hx)
  · obtain ⟨y, hy, rfl⟩ := List.mem_map.1 hx
    exact Or.inr ⟨y.1, h.sold y hy⟩

/-- A full buffer is `KVAL` available fragments. -/
theorem le_card (h : SearchInv kval fileId buf d.rinfo c picks l)
    (hbuf : buf = heldFrags kval fileId d.ctable 0) (hneed : c.need = 0) :
    kval ≤ (available d fileId).card := by
  have hn := h.need
  have hcard : c.buf.length ≤ (available d fileId).card := by
    rw [← List.toFinset_card_of_nodup h.nodup]
    exact Finset.card_le_card fun x hx => h.mem_available hbuf (List.mem_toFinset.1 hx)
  omega

/-- When no reply is left and something is missing, the buffer has all available fragments. -/
theorem card_lt (h : SearchInv kval fileId buf d.rinfo c picks l)
    (hbuf : buf = heldFrags kval fileId d.ctable 0) (hneed : 0 < c.need)
    (hl : ∀ r ∈ l, r.live fileId = false) : ((available d fileId).card : ℤ) < kval := by
  have hn := h.need
  have hle := h.length_buf_le
  have hall : buf = fragsOf d.ctable fileId := by
    rw [hbuf]
    exact fragsOf_eq_of_lt (by rw [← hbuf]; omega)
  have hsub : available d fileId ⊆ c.buf.toFinset := by
    intro x hx
    rw [List.mem_toFinset]
    rcases mem_available_iff.1 hx with hx | ⟨r, hr, hlive, hx⟩
    · exact (mem_buf_iff h.toChoiceInv x).2 (Or.inl (hall ▸ hx))
    · rcases h.served.resolve_left (by omega) r hr hlive with hin | hin
      · rw [hl r hin] at hlive
        cases hlive
      · exact hin x hx
  have hcard := (Finset.card_le_card hsub).trans (List.toFinset_card_le _)
  omega

theorem length_picks (h : SearchInv kval fileId buf d.rinfo c picks l) (hneed : c.need = 0) :
    picks.length = (kval - buf.length).toNat := by
  have hdst := h.drop_dst
  rw [hneed, Int.toNat_zero, List.drop_zero] at hdst
  rw [← h.length_dst, hdst, List.length_map]

/-- What is chosen is a cheapest assignment of the missing fragments. -/
theorem cheapest (h : SearchInv kval fileId buf d.rinfo c picks l)
    (hbuf : buf = heldFrags kval fileId d.ctable 0) (hneed : c.need = 0) :
    Assignment (Offers d.rinfo fileId) (fun x => x ∈ fragsOf d.ctable fileId) picks ∧
    ∀ other, Assignment (Offers d.rinfo fileId) (fun x => x ∈ fragsOf d.ctable fileId) other →
      other.length = picks.length →
      cost (fun r => r.dist.toNat) picks ≤ cost (fun r => r.dist.toNat) other := by
  have hlen := h.length_picks hneed
  by_cases hlt : (buf.length : ℤ) < kval
  · have hall : buf = fragsOf d.ctable fileId := by
      rw [hbuf]
      exact fragsOf_eq_of_lt (by rw [← hbuf]; exact hlt)
    rw [← hall]
    have hnodup : (buf ++ (picks.map Prod.snd).reverse).Nodup := h.buf ▸ h.nodup
    obtain ⟨-, hrev, hdisj⟩ := List.nodup_append.1 hnodup
    have hassign : Assignment (Offers d.rinfo fileId) (fun x => x ∈ buf) picks := by
      refine ⟨List.nodup_reverse.1 hrev, fun y hy hin => ?_, h.sold⟩
      exact hdisj y.2 hin y.2 (List.mem_reverse.2 (List.mem_map_of_mem hy)) rfl
    exact ⟨hassign, fun other hother => h.nearestFirst.cost_le hassign hother⟩
  · have hnil : picks = [] := List.eq_nil_of_length_eq_zero (by omega)
    rw [hnil]
    exact ⟨⟨List.nodup_nil, by simp, by simp⟩, fun other _ _ => Nat.zero_le _⟩

/-- The arrays that the requests are read from. -/
theorem zip_eq (h : SearchInv kval fileId buf d.rinfo c picks l) (hneed : c.need = 0) :
    c.dst.zip c.frag = picks.map fun y => (y.1.dstIp, y.2) := by
  have hdst := h.drop_dst
  have hfrag := h.drop_frag
  rw [hneed, Int.toNat_zero, List.drop_zero] at hdst hfrag
  rw [hdst, hfrag, List.zip_map']

end SearchInv

/-- `process_flrep` succeeds exactly when the node and the replies have `KVAL` fragments of the
file between them.  It then requests the missing fragments from nodes that have them, at the
least possible sum of distances; otherwise it requests and counts nothing. -/
theorem processFlrep_spec (p : Params) (mem : Mem) (clk : Clock) (t : Task) (d : Daemon)
    (hk : 1 ≤ p.kval.toInt) (hnd : (d.ctable.map CacheTable.key).Nodup)
    (hcount : ∀ r ∈ d.rinfo, r.live t.fileId = true → r.fragCount.toNat ≤ 8) :
    (mem.Succeeds → (processFlrep p mem clk t d).isSome) ∧
    ∀ r e, processFlrep p mem clk t d = some (r, e) →
      (r = 0 ∨ r = 1) ∧ (r = 0 ↔ p.kval.toInt ≤ (available d t.fileId).card) ∧
      (r = 0 → ∃ picks, Retrieved p mem t.fileId d e picks) ∧
      (r = 1 → e.sent = d.sent ∧ e.cEnergy = d.cEnergy ∧ e.cSuccess = d.cSuccess ∧
        e.crlist = d.crlist) := by
  obtain ⟨enough, c, l, picks, hch, hinv, hyes, hno⟩ :=
    chooseFrags_spec hcount (searchInv_start hk hnd t.fileId _ rfl)
      (Nat.lt_add_one_of_le (List.countP_le_length (l := d.rinfo)))
  refine ⟨fun hmem => ?_, fun r e h => ?_⟩
  · unfold processFlrep
    dsimp only
    rw [hch]
    cases enough with
    | false => rfl
    | true =>
      change (Option.bind (requestFrags p mem clk t.fileId (c.dst.zip c.frag) 0 _) _).isSome
      rw [Option.isSome_bind, Option.any_eq_true_iff_get]
      exact ⟨isSome_requestFrags hmem clk t.fileId _ 0 _, rfl⟩
  · obtain ⟨buf, ct, enough', c', l', rfl, -, hch', hcase⟩ := processFlrep_cases p h
    obtain ⟨rfl, rfl, rfl⟩ : enough = enough' ∧ c = c' ∧ l = l' := by
      simpa using hch.symm.trans hch'
    rcases hcase with ⟨rfl, rfl, d₂, hd₂, rfl⟩ | ⟨rfl, rfl, rfl⟩
    · have hneed := hyes rfl
      have hsame := SameTables.requestFrags p hd₂
      obtain ⟨hassign, hcheap⟩ := hinv.cheapest rfl hneed
      refine ⟨Or.inl rfl, iff_of_true rfl (hinv.le_card rfl hneed), fun _ => ⟨picks, ?_⟩,
        fun h => absurd h (by decide)⟩
      refine ⟨?_, hassign, hcheap, ?_, hsame.cSuccess, fun hmem => ?_⟩
      · rw [hinv.length_picks hneed, length_heldFrags]
        omega
      · rw [← hinv.energy]
        exact hsame.cEnergy
      · rw [hinv.zip_eq hneed] at hd₂
        obtain ⟨new, hnew, hf⟩ := requestFrags_sent hmem hd₂
        refine ⟨new, hnew, ?_⟩
        rw [hf, List.map_map]
        rfl
    · obtain ⟨hneed, hl⟩ := hno rfl
      have hlt := hinv.card_lt rfl hneed hl
      exact ⟨Or.inr rfl, iff_of_false (by decide) (by omega), fun h => absurd h (by decide),
        fun _ => ⟨rfl, rfl, rfl, rfl⟩⟩

/-- Two of three fragments are missing, and three replies list them. -/
def waiting : Daemon where
  ctable := [{ fileId := 1, fragId := 1, refs := 0, isServiceCenter := 1 }]
  ctLen := 1
  rinfo := [⟨1, 0xC0A80014, 2, #v[2, 1, 0, 0, 0, 0, 0, 0], 2, 0⟩,
    ⟨1, 0xC0A8001E, 3, #v[3, 2, 0, 0, 0, 0, 0, 0], 2, 0⟩,
    ⟨1, 0xC0A80028, 1, #v[2, 0, 0, 0, 0, 0, 0, 0], 1, 0⟩]

theorem processFlrep_spec_waiting :
    ∃ e picks, processFlrep testNode .plenty ⟨0, 0⟩
        { createTask .fragReqSend ⟨0, 0⟩ with fileId := 1 } waiting = some (0, e) ∧
      Retrieved testNode .plenty 1 waiting e picks := by
  obtain ⟨htotal, h⟩ := processFlrep_spec testNode .plenty ⟨0, 0⟩
    { createTask .fragReqSend ⟨0, 0⟩ with fileId := 1 } waiting (by decide) (by decide) (by decide)
  obtain ⟨⟨r, e⟩, he⟩ := Option.isSome_iff_exists.1 (htotal Mem.plenty_succeeds)
  obtain ⟨-, hiff, hdone, -⟩ := h r e he
  have hr : r = 0 := hiff.2 (by decide)
  obtain ⟨picks, hpicks⟩ := hdone hr
  exact ⟨e, picks, hr ▸ he, hpicks⟩

end MobileCloudCaching.Caching

import MobileCloudCaching.Aodv.Unique
import Mathlib.Data.List.TakeWhile

/-!
# Finding and replacing an entry (`find_aodv_route`, `update_aodv_route`)

Each insertion puts an entry before the first one with the same or a higher address, so a table is
in ascending order, entries with one address side by side.  A search stops at the first higher
address; every entry is for a single address, except the one for the local subnet, whose address can
be any address of the subnet.  An update replaces the entry that the search has found.
-/

namespace MobileCloudCaching.Aodv

open Transition Octets

variable {p : Params} {mem : Mem} {clk : Clock} {s t s₁ : Router} {τ : Task} {ip target : U32}

/-! ## Tables in order -/

/-- A table as insertions make it. -/
structure InOrder (s : Router) : Prop where
  distinct : Distinct s
  sorted : (s.routes.map Route.ip).Pairwise (· ≤ ·)

/-- The last entry with the address `ip`. -/
def lastRouteTo (ip : U32) (s : Router) : Option Route :=
  (s.routes.filter fun r => r.ip == ip).getLast?

theorem sorted_placeRoute {r : Route} {l : List Route} (h : (l.map Route.ip).Pairwise (· ≤ ·)) :
    ((placeRoute r l).map Route.ip).Pairwise (· ≤ ·) := by
  rw [map_placeRoute]
  exact List.Pairwise.orderedInsert _ _ h

/-- A test that fails for all elements behind one for which it fails. -/
theorem takeWhile_eq_filter {α : Type*} {q : α → Bool} {l : List α}
    (h : l.Pairwise fun x y => q y = true → q x = true) : l.takeWhile q = l.filter q := by
  induction l with
  | nil => rfl
  | cons x l ih =>
    obtain ⟨hx, hl⟩ := List.pairwise_cons.1 h
    by_cases hq : q x = true
    · rw [List.takeWhile_cons_of_pos hq, List.filter_cons_of_pos hq, ih hl]
    · have hnone : l.filter q = [] := List.filter_eq_nil_iff.2 fun y hy hqy => hq (hx y hy hqy)
      rw [List.takeWhile_cons_of_neg hq, List.filter_cons_of_neg hq, hnone]

theorem lastRouteTo_eq_none_iff : lastRouteTo ip s = none ↔ ∀ r ∈ s.routes, r.ip ≠ ip := by
  rw [lastRouteTo, List.getLast?_eq_none_iff, List.filter_eq_nil_iff]
  simp only [beq_iff_eq, ne_eq]

/-- The last entry for an address, with what is before and behind it. -/
theorem exists_split_of_lastRouteTo {r : Route} (h : lastRouteTo ip s = some r) :
    r.ip = ip ∧ ∃ l₁ l₂, s.routes = l₁ ++ r :: l₂ ∧ ∀ x ∈ l₂, x.ip ≠ ip := by
  obtain ⟨l, hl⟩ := List.getLast?_eq_some_iff.1 h
  obtain ⟨l₁, l₂, hsplit, -, hl₂⟩ := List.filter_eq_append_iff.1 hl
  obtain ⟨k₁, k₂, rfl, -, hr, hk₂⟩ := List.filter_eq_cons_iff.1 hl₂
  refine ⟨eq_of_beq hr, l₁ ++ k₁, k₂, by rw [hsplit, List.append_assoc], fun x hx hip => ?_⟩
  exact List.filter_eq_nil_iff.1 hk₂ x hx (beq_iff_eq.2 hip)

theorem mem_of_lastRouteTo {r : Route} (h : lastRouteTo ip s = some r) :
    r ∈ s.routes ∧ r.ip = ip := by
  obtain ⟨hip, l₁, l₂, hl, -⟩ := exists_split_of_lastRouteTo h
  exact ⟨by simp [hl], hip⟩

namespace InOrder

theorem of_map (h : InOrder s) (hd : Distinct t)
    (hmap : t.routes.map Route.ip = s.routes.map Route.ip) :
    InOrder t := ⟨hd, hmap ▸ h.sorted⟩

/-- A search for an address that has entries comes to the last of them. -/
theorem entryFor_eq (h : InOrder s) {r : Route} (hr : lastRouteTo target s = some r) :
    entryFor target s = some r := by
  obtain ⟨rfl, l₁, l₂, hl, hafter⟩ := exists_split_of_lastRouteTo hr
  have hsorted := h.sorted
  rw [hl, List.map_append, List.map_cons, List.pairwise_append, List.pairwise_cons] at hsorted
  obtain ⟨-, ⟨hge, -⟩, hle⟩ := hsorted
  have hbefore : ∀ x ∈ l₁, decide (x.ip ≤ r.ip) = true := fun x hx =>
    decide_eq_true (hle x.ip (List.mem_map_of_mem hx) r.ip List.mem_cons_self)
  have htail : l₂.takeWhile (fun x => decide (x.ip ≤ r.ip)) = [] := by
    cases l₂ with
    | nil => rfl
    | cons x l =>
      have hgt : r.ip < x.ip :=
        BitVec.lt_of_le_ne (hge x.ip (List.mem_map_of_mem List.mem_cons_self))
        (hafter x List.mem_cons_self).symm
      exact List.takeWhile_cons_of_neg (by simpa using hgt)
  rw [entryFor, hl, List.takeWhile_append_of_pos hbefore,
    List.takeWhile_cons_of_pos (by exact decide_eq_true (BitVec.le_refl r.ip)), htail,
    List.filter_append,
    List.filter_cons_of_pos (by simp [Route.compare])]
  simp

/-- The entries that a search looks at are those that are not above the target. -/
theorem mem_walked (h : InOrder s) {r : Route} :
    r ∈ (s.routes.takeWhile fun x => decide (x.ip ≤ target)).filter (fun x => x.compare target) ↔
      r ∈ s.routes ∧ r.ip ≤ target ∧ r.compare target = true := by
  have hpair : s.routes.Pairwise fun x y =>
    decide (y.ip ≤ target) = true → decide (x.ip ≤ target) = true :=
    (List.pairwise_map.1 h.sorted).imp fun hxy hy =>
      decide_eq_true (BitVec.le_trans hxy (of_decide_eq_true hy))
  rw [takeWhile_eq_filter hpair, List.mem_filter, List.mem_filter, and_assoc, decide_eq_true_iff]

theorem entryFor_eq_none_iff (h : InOrder s) : entryFor target s = none ↔
    ∀ r ∈ s.routes, r.compare target = true → ¬r.ip ≤ target := by
  rw [entryFor, List.getLast?_eq_none_iff, List.eq_nil_iff_forall_not_mem]
  simp only [h.mem_walked, not_and]
  exact forall₂_congr fun _ _ => imp_not_comm

theorem mem_of_entryFor (h : InOrder s) {r : Route} (hr : entryFor target s = some r) :
    r ∈ s.routes ∧ r.ip ≤ target ∧ r.compare target = true :=
  h.mem_walked.1 (List.mem_of_getLast? hr)

end InOrder

/-! ## Longest prefixes -/

/-- What the scan of `find_aodv_route` is for: it finds nothing only if no entry of the table
fits the target, and else an entry whose netmask has all the bits of the netmasks that fit. -/
structure LongestMatch (clk : Clock) (target : U32) (s : Router) : Prop where
  none_iff : (findAodvRoute clk target s).1 = none ↔ ∀ r ∈ s.routes, r.compare target = false
  longest : ∀ r, (findAodvRoute clk target s).1 = some r →
    r ∈ (findAodvRoute clk target s).2.routes ∧ r.compare target = true ∧
      ∀ x ∈ s.routes, x.compare target = true → x.netmask &&& r.netmask = x.netmask

/-- An entry for a subnet that fits the target is not in the way of an entry for
the target itself, which comes last among those with its address, or, where
there is none, is not above the target. -/
def SubnetBelow (target : U32) (s : Router) : Prop :=
  ∀ e ∈ s.routes, e.compare target = true → e.netmask ≠ broadcastIp →
    if ∃ r ∈ s.routes, r.ip = target ∧ r.netmask = broadcastIp then
      (lastRouteTo target s).any (fun r => r.netmask == broadcastIp) = true
    else e.ip ≤ target

/-- Entries are for single addresses, but for the one of the local subnet. -/
def SubnetPrefix (p : Params) (s : Router) : Prop :=
  ∀ r ∈ s.routes, r.netmask = broadcastIp ∨ p.localSubnet = some (r.ip, r.netmask)

theorem compare_of_broadcast {r : Route} (h : r.netmask = broadcastIp) : r.compare target = true ↔
    r.ip = target := by
  have hall : ∀ x : U32, x &&& broadcastIp = x := fun x => BitVec.and_allOnes
  rw [Route.compare, h, hall, hall, beq_iff_eq]

theorem and_broadcastIp (x : U32) : x &&& broadcastIp = x := BitVec.and_allOnes

theorem longestMatch_iff_entryFor (h : InOrder s) : LongestMatch clk target s ↔
    (entryFor target s = none → ∀ r ∈ s.routes, r.compare target = false) ∧
      ∀ r, entryFor target s = some r →
        ∀ x ∈ s.routes, x.compare target = true → x.netmask &&& r.netmask = x.netmask := by
  have hfound : (findAodvRoute clk target s).1 = (entryFor target s).map (Route.refresh clk) :=
    foundRoute_entryFor target
  constructor
  · rintro ⟨hnone, hlongest⟩
    refine ⟨fun he => hnone.1 (by rw [hfound, he]; rfl), fun r hr x hx hcompare => ?_⟩
    obtain ⟨-, -, hmask⟩ := hlongest (r.refresh clk) (by rw [hfound, hr]; rfl)
    have hand := hmask x hx hcompare
    rwa [Route.netmask_refresh] at hand
  · rintro ⟨hnone, hlongest⟩
    refine ⟨⟨fun he => hnone (by simpa [hfound] using he), fun hall => ?_⟩,
      fun r hr => ⟨mem_searched hr, ?_⟩⟩
    · rw [hfound, Option.map_eq_none_iff, h.entryFor_eq_none_iff]
      intro r hr hcompare
      rw [hall r hr] at hcompare
      cases hcompare
    · obtain ⟨hcompare, -⟩ := mem_of_foundRoute hr
      rw [hfound] at hr
      obtain ⟨x, hx, rfl⟩ := Option.map_eq_some_iff.1 hr
      rw [Route.netmask_refresh]
      exact ⟨hcompare, hlongest x hx⟩

/-- On tables in order, the early exit loses nothing exactly if the subnet's entry is in its
place. -/
theorem longestMatch_iff (h : InOrder s) (hp : SubnetPrefix p s) (clk : Clock) (target : U32) :
    LongestMatch clk target s ↔ SubnetBelow target s := by
  rw [longestMatch_iff_entryFor h]
  by_cases hhost : ∃ r ∈ s.routes, r.ip = target ∧ r.netmask = broadcastIp
  · -- the search ends at the last entry for the target
    obtain ⟨v, hv⟩ : ∃ v, lastRouteTo target s = some v := by
      obtain ⟨r, hr, hip, -⟩ := hhost
      exact Option.ne_none_iff_exists'.1 fun hnone => lastRouteTo_eq_none_iff.1 hnone r hr hip
    obtain ⟨hmem, hvip⟩ := mem_of_lastRouteTo hv
    have hcompare : v.compare target = true := by simp [Route.compare, hvip]
    simp only [SubnetBelow, if_pos hhost, hv, h.entryFor_eq hv, Option.any_some, beq_iff_eq]
    constructor
    · rintro ⟨-, hlongest⟩ - - - -
      obtain ⟨r, hr, hip, hmask⟩ := hhost
      have hand := hlongest v rfl r hr ((compare_of_broadcast hmask).2 hip)
      rwa [hmask, BitVec.and_comm, and_broadcastIp] at hand
    · intro hbelow
      have hmask : v.netmask = broadcastIp := by
        by_contra hne
        exact hne (hbelow v hmem hcompare hne)
      refine ⟨fun he => absurd he (Option.some_ne_none v), ?_⟩
      rintro r hr x - -
      rw [← Option.some.inj hr, hmask, and_broadcastIp]
  · -- only the entry of the subnet can fit the target
    have hsubnet : ∀ r ∈ s.routes, r.compare target = true →
        r.netmask ≠ broadcastIp ∧ p.localSubnet = some (r.ip, r.netmask) := fun r hr hcompare => by
      have hne : r.netmask ≠ broadcastIp := fun hmask =>
        hhost ⟨r, hr, (compare_of_broadcast hmask).1 hcompare, hmask⟩
      exact ⟨hne, (hp r hr).resolve_left hne⟩
    have hsame : ∀ r ∈ s.routes, r.compare target = true → ∀ x ∈ s.routes, x.compare target = true →
        r.ip = x.ip ∧ r.netmask = x.netmask := fun r hr hrc x hx hxc =>
      Prod.mk.inj (Option.some.inj ((hsubnet r hr hrc).2.symm.trans (hsubnet x hx hxc).2))
    simp only [SubnetBelow, if_neg hhost]
    constructor
    · rintro ⟨hnone, -⟩ e he hcompare -
      cases hfound : entryFor target s with
      | none => exact absurd hcompare (by rw [hnone hfound e he]; exact Bool.false_ne_true)
      | some r =>
        obtain ⟨hr, hle, hrc⟩ := h.mem_of_entryFor hfound
        exact (hsame r hr hrc e he hcompare).1 ▸ hle
    · intro hbelow
      refine ⟨fun hnone r hr => Bool.eq_false_iff.2 fun hcompare => ?_,
        fun r hr x hx hcompare => ?_⟩
      · exact h.entryFor_eq_none_iff.1 hnone r hr hcompare
          (hbelow r hr hcompare (hsubnet r hr hcompare).1)
      · obtain ⟨hr, -, hrc⟩ := h.mem_of_entryFor hr
        rw [(hsame r hr hrc x hx hcompare).2, BitVec.and_self]

/-! ## Tables that are reached -/

/-- The addresses of the entries in memory, and for what they are. -/
def shapes (s : Router) : List (ℕ × U32 × U32) := s.routes.map fun r => (r.ptr, r.ip, r.netmask)

theorem map_ip_shapes (s : Router) : (shapes s).map (fun k => k.2.1) = s.routes.map Route.ip :=
  List.map_map

theorem map_ptr_shapes (s : Router) : (shapes s).map Prod.fst = s.routes.map Route.ptr :=
  List.map_map

theorem shapes_searched (ip : U32) : shapes (searched clk ip s) = shapes s :=
  map_eq_of_forall₂ marked_searched fun x y hxy => by
    rcases hxy with rfl | rfl
    · rfl
    · rw [Route.ptr_refresh, Route.ip_refresh, Route.netmask_refresh]

theorem shapes_putRoute {r : Route}
    (h : ∀ x ∈ s.routes, x.ptr = r.ptr → r.ip = x.ip ∧ r.netmask = x.netmask) :
    shapes (putRoute r s) = shapes s := by
  rw [shapes, putRoute, List.map_map]
  refine List.map_congr_left fun x hx => ?_
  rw [Function.comp_apply]
  split
  · obtain ⟨hip, hmask⟩ := h x hx ‹_›
    rw [‹x.ptr = r.ptr›, hip, hmask]
  · rfl

theorem shapes_broken {l : List Route} (h : Broken clk ip s.routes l) :
    shapes { t with routes := l } = shapes s :=
  map_eq_of_forall₂ h fun x y hxy => by
    rcases hxy with rfl | ⟨-, -, -, rfl⟩ <;> rfl

/-- Tables in order, with one entry for a subnet at most. -/
structure Listed (p : Params) (s : Router) : Prop extends InOrder s where
  prefixes : SubnetPrefix p s

/-- What a handler that starts from `s` relies on: new entries are those of single addresses. -/
structure ListedFrom (p : Params) (s t : Router) : Prop extends InOrder t where
  next : s.nextPtr ≤ t.nextPtr
  stems : ∀ r ∈ t.routes, r.StemsFrom s

namespace ListedFrom

theorem refl (h : Listed p s) : ListedFrom p s s :=
  ⟨h.toInOrder, le_rfl, fun r hr => .inl ⟨r, hr, rfl, rfl, rfl⟩⟩

theorem listed (hs : Listed p s) (h : ListedFrom p s t) : Listed p t where
  toInOrder := h.toInOrder
  prefixes r hr := by
    rcases h.stems r hr with ⟨x, hx, -, hip, hmask⟩ | ⟨-, hmask⟩
    · exact hip ▸ hmask ▸ hs.prefixes x hx
    · exact .inl hmask

/-- Writes that leave for what the entries are. -/
theorem of_shapes (h : ListedFrom p s s₁) (hshapes : shapes t = shapes s₁)
    (hnext : t.nextPtr = s₁.nextPtr) :
    ListedFrom p s t where
  toInOrder := h.toInOrder.of_map
    (h.distinct.of_map (by rw [← map_ptr_shapes, ← map_ptr_shapes, hshapes]) hnext)
    (by rw [← map_ip_shapes, ← map_ip_shapes, hshapes])
  next := hnext ▸ h.next
  stems r hr := by
    have hmem : (r.ptr, r.ip, r.netmask) ∈ shapes s₁ := hshapes ▸ List.mem_map_of_mem hr
    obtain ⟨x, hx, he⟩ := List.mem_map.1 hmem
    obtain ⟨hptr, he⟩ := Prod.mk.inj he
    obtain ⟨hip, hmask⟩ := Prod.mk.inj he
    have hstems := h.stems x hx
    rwa [Route.StemsFrom, hptr, hip, hmask] at hstems

theorem putOf (h : ListedFrom p s s₁) {r r' : Route} (hr : r ∈ s₁.routes) (hptr : r'.ptr = r.ptr)
    (hip : r'.ip = r.ip) (hmask : r'.netmask = r.netmask) : ListedFrom p s (putRoute r' s₁) :=
  h.of_shapes (shapes_putRoute fun x hx he => by
    rw [h.distinct.eq_of_ptr hx hr (he.trans hptr)]
    exact ⟨hip, hmask⟩) rfl

/-- An entry that the walk of `flush_aodv_route_table` has come to is still for the same address. -/
theorem put_old (h : ListedFrom p s s₁) (hs : Distinct s) {r r' : Route} (hr : r ∈ s.routes)
    (hptr : r'.ptr = r.ptr) (hip : r'.ip = r.ip) (hmask : r'.netmask = r.netmask) :
    ListedFrom p s (putRoute r' s₁) :=
  h.of_shapes (shapes_putRoute fun x hx he => by
    rcases h.stems x hx with ⟨y, hy, hyptr, hyip, hymask⟩ | ⟨hle, -⟩
    · rw [← hyip, ← hymask, hs.eq_of_ptr hy hr ((hyptr.trans he).trans hptr)]
      exact ⟨hip, hmask⟩
    · exact absurd (hs.lt r hr) (Nat.not_lt.2 (he.trans hptr ▸ hle))) rfl

theorem created (h : ListedFrom p s s₁) (ip : U32) : ListedFrom p s (created ip s₁) where
  distinct := h.distinct.created ip
  sorted := by
    unfold Aodv.created
    dsimp only
    split
    · exact h.sorted
    · exact sorted_placeRoute h.sorted
  next := Nat.le_succ_of_le h.next
  stems x hx := by
    rcases mem_created hx with rfl | hx
    · exact .inr ⟨h.next, rfl⟩
    · exact h.stems x hx

/-- A new entry that has been filled in. -/
theorem putNew (h : ListedFrom p s s₁) {r : Route} (hptr : r.ptr = s₁.nextPtr) (hr : r.ip = ip)
    (hmask : r.netmask = broadcastIp) : ListedFrom p s (putRoute r (Aodv.created ip s₁)) :=
  (h.created ip).of_shapes (shapes_putRoute fun x hx he => by
    rcases mem_created hx with rfl | hx
    · exact ⟨hr, hmask⟩
    · exact absurd (he.trans hptr) (Nat.ne_of_lt (h.distinct.lt x hx))) rfl

theorem filter (h : ListedFrom p s s₁) {keep : Route → Bool}
    (hroutes : t.routes = s₁.routes.filter keep) (hnext : t.nextPtr = s₁.nextPtr) :
    ListedFrom p s t where
  distinct := h.distinct.filter hroutes hnext
  sorted := by
    rw [hroutes]
    exact List.Pairwise.sublist (List.filter_sublist.map _) h.sorted
  next := hnext ▸ h.next
  stems r hr := h.stems r (List.mem_filter.1 (hroutes ▸ hr)).1

end ListedFrom

/-! ## Start-up and steps -/

theorem sorted_initialRoutes : ((initialRoutes p).map Route.ip).Pairwise (· ≤ ·) := by
  have hplace : ∀ (c : Prop) [Decidable c] (r : Route) {l : List Route},
      (l.map Route.ip).Pairwise (· ≤ ·) →
      ((if c then l else placeRoute r l).map Route.ip).Pairwise (· ≤ ·) := fun c _ r l h => by
    split
    · exact h
    · exact sorted_placeRoute h
  have hloopback : ((placeRoute (loopbackEntry p) []).map Route.ip).Pairwise (· ≤ ·) :=
    sorted_placeRoute .nil
  unfold initialRoutes
  cases p.localSubnet with
  | none => exact hplace _ _ hloopback
  | some q => exact hplace _ _ (hplace _ _ hloopback)

theorem netmask_of_mem_initialRoutes {r : Route} (h : r ∈ initialRoutes p) :
    r.netmask = broadcastIp ∨ p.localSubnet = some (r.ip, r.netmask) := by
  have hplace : ∀ (c : Prop) [Decidable c] (x : Route) {l : List Route},
      r ∈ (if c then l else placeRoute x l) → r = x ∨ r ∈ l := fun c _ x l h => by
    split at h
    · exact .inr h
    · exact mem_placeRoute.1 h
  have hloopback : r ∈ placeRoute (loopbackEntry p) [] → r.netmask = broadcastIp := fun h => by
    rcases mem_placeRoute.1 h with rfl | h
    · rfl
    · cases h
  unfold initialRoutes at h
  cases hlocal : p.localSubnet with
  | none =>
    rw [hlocal] at h
    rcases hplace _ _ h with rfl | h
    · exact .inl rfl
    · exact .inl (hloopback h)
  | some q =>
    rw [hlocal] at h
    rcases hplace _ _ h with rfl | h
    · exact .inl rfl
    rcases hplace _ _ h with rfl | h
    · exact .inr rfl
    · exact .inl (hloopback h)

/-- Every handler keeps the table in order. -/
theorem listed_writes (hs : Listed p s) :
    HandlerWrites p mem clk τ s (ListedFrom p s) (ListedFrom p s) := by
  constructor
  case congr | congrEnd =>
    exact fun h ht =>
      h.of_shapes (congrArg (List.map _) (congrArg Prod.fst ht)) (congrArg (·.2.1) ht)
  case done => exact id
  case search => exact fun ip _ h => h.of_shapes (shapes_searched ip) rfl
  case update =>
    intro u r s₁ _ _ _ hmem h
    have hput : ListedFrom p s (putRoute (u.route clk r) s₁) := h.putOf hmem rfl rfl rfl
    exact hput.of_shapes rfl rfl
  case updateNew =>
    intro u s₁ _ _ _ _ h
    have hput : ListedFrom p s (putRoute (u.route clk (newRoute s₁.nextPtr u.ip))
        (created u.ip s₁)) :=
      h.putNew rfl rfl rfl
    exact hput.of_shapes rfl rfl
  case hello =>
    intro m n r s₁ _ _ _ hmem h
    have hput : ListedFrom p s (putRoute (n.route clk m r) s₁) := h.putOf hmem rfl rfl rfl
    exact hput.of_shapes rfl rfl
  case helloNew =>
    intro m n s₁ _ _ _ _ h
    have hput : ListedFrom p s (putRoute (n.route clk m (newRoute s₁.nextPtr m.dstIp))
        (created m.dstIp s₁)) :=
      h.putNew rfl rfl rfl
    exact hput.of_shapes rfl rfl
  case revive => exact fun _ _ _ _ _ _ hmem h => h.putOf hmem rfl rfl rfl
  case ownSeq => exact fun _ hmem _ _ h => h.putOf hmem rfl rfl rfl
  case gateway => exact fun _ _ _ _ _ h => h.putNew rfl rfl rfl
  case rerr =>
    exact fun _ _ _ hmem _ _ h => ⟨fun _ => h.putOf hmem rfl rfl rfl,
      fun _ => h.putOf hmem rfl rfl rfl⟩
  case flush => exact fun _ hmem _ _ _ h => h.put_old hs.distinct hmem rfl rfl rfl
  case flushRemove => exact fun _ _ _ _ _ h => h.filter rfl rfl
  case drop =>
    intro r x l s₁ _ _ _ _ _ h hl hx _ _
    have hbroken : ListedFrom p s { deleteKernelRouteEntry r.ip r.netmask s₁ with routes := l } :=
      h.of_shapes (shapes_broken hl) rfl
    exact hbroken.putOf hx rfl rfl rfl
  case dropRemove =>
    intro r x l s₁ _ _ _ _ _ h hl _ _ _
    have hbroken : ListedFrom p s { deleteKernelRouteEntry r.ip r.netmask s₁ with routes := l } :=
      h.of_shapes (shapes_broken hl) rfl
    exact hbroken.filter rfl rfl
  case number => exact fun _ _ hmem h => h.putOf hmem rfl rfl rfl

namespace Listed

theorem step {e : Event} (h : Listed p s) (hs : step p e s = some t) : Listed p t := by
  have hsame : ∀ {t : Router}, tables t = tables s → Listed p t := fun ht =>
    ((ListedFrom.refl h).of_shapes (congrArg (List.map _) (congrArg Prod.fst ht))
      (congrArg (·.2.1) ht)).listed h
  cases e with
  | packet mem clk a =>
    obtain ⟨n, q, rfl, -⟩ := packetIn_cases (Option.some.inj hs)
    exact hsame rfl
  | output mem clk daddr =>
    obtain rfl : output p mem clk daddr s = t := Option.some.inj hs
    have hfrom : ListedFrom p s (output p mem clk daddr s) :=
      output_keeps
        (fun h ht => h.of_shapes (congrArg (List.map _) (congrArg Prod.fst ht))
          (congrArg (·.2.1) ht)) id
        (fun ip _ h => h.of_shapes (shapes_searched ip) rfl) (fun _ hmem _ _ h =>
          h.putOf hmem rfl rfl rfl)
        (fun _ hmem h => h.putOf hmem rfl rfl rfl) (.refl h)
    exact hfrom.listed h
  | timer clk =>
    obtain rfl : timerQueueSignal clk s = t := Option.some.inj hs
    exact hsame rfl
  | thread mem clk =>
    rcases runTask_cases hs with ⟨-, rfl⟩ | ⟨τ, hhead, -, hh⟩
    · exact h
    · have hpop : Listed p { s with taskQ := s.taskQ.tail } := hsame rfl
      exact ((listed_writes hpop).handle (.refl hpop) hh).listed hpop

theorem initModule (h : initModule p clk = some s) : Listed p s := by
  have hroutes : s.routes = initialRoutes p := by
    rw [initModule_eq] at h
    rw [← Option.some.inj h]
    rfl
  refine ⟨⟨.initModule h, ?_⟩, fun r hr => ?_⟩
  · rw [hroutes]
    exact sorted_initialRoutes
  · exact netmask_of_mem_initialRoutes (hroutes ▸ hr)

theorem exec {events : List Event} (h : Listed p s)
    (he : Transition.exec (Aodv.step p) events s = some t) :
    Listed p t := exec_of_step (fun _ _ _ => step) h he

end Listed

/-- In every table that a node can reach, a search finds the most specific
entry that fits, unless the subnet's address is above the target or, as the
target's own, in front of an entry for it. -/
theorem longestMatch_reached_iff {clk₀ : Clock} {events : List Event}
    (h₀ : initModule p clk₀ = some s) (he : exec (step p) events s = some t) (clk : Clock)
    (target : U32) :
    LongestMatch clk target t ↔ SubnetBelow target t :=
  have h : Listed p t := (Listed.initModule h₀).exec he
  longestMatch_iff h.toInOrder h.prefixes clk target

instance (target : U32) (s : Router) : Decidable (SubnetBelow target s) := by
  unfold SubnetBelow
  infer_instance

/-- A host of the subnet, on a node that has heard a neighbour. -/
theorem longestMatch_reached_subnet : ∃ s t, initModule subnetNode (clockAt 0) = some s ∧
    exec (step subnetNode) (handled 1 (helloFrom (peer 2) 1)) s = some t ∧
      LongestMatch (clockAt 2) 0x0A000005 t := by
  have hrun : (runFrom subnetNode (clockAt 0) (handled 1 (helloFrom (peer 2) 1))).any
      (fun t => decide (SubnetBelow 0x0A000005 t)) = true := by decide +kernel
  obtain ⟨s, t, hs, ht, hbelow⟩ := exists_of_runFrom _ hrun
  exact ⟨s, t, hs, ht, (longestMatch_reached_iff hs ht _ _).2 (of_decide_eq_true hbelow)⟩

/-- The subnet 10.0.0.0/24 under the address 10.0.0.9: there is no route to 10.0.0.5. -/
theorem not_longestMatch_upperHalf :
    ¬∀ (p : Params) (clk₀ : Clock) (events : List Event) (s t : Router),
    initModule p clk₀ = some s →
      exec (step p) events s = some t → ∀ clk target, LongestMatch clk target t := by
  intro h
  have hrun : (runFrom { plainNode with localSubnet := some (0x0A000009, 0xFFFFFF00) }
      (clockAt 0) []).any
      (fun t => (findAodvRoute (clockAt 1) 0x0A000005 t).1.isNone &&
      t.routes.any (·.compare 0x0A000005)) = true := by
    decide +kernel
  obtain ⟨s, t, hs, ht, hq⟩ := exists_of_runFrom _ hrun
  obtain ⟨hnone, hany⟩ := Bool.and_eq_true_iff.1 hq
  obtain ⟨r, hr, hcompare⟩ := List.any_eq_true.1 hany
  have hlongest := h _ _ [] s t hs ht (clockAt 1) 0x0A000005
  have hmiss := hlongest.none_iff.1 (Option.isNone_iff_eq_none.1 hnone) r hr
  rw [hmiss] at hcompare
  exact Bool.noConfusion hcompare

end MobileCloudCaching.Aodv

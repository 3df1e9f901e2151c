import MobileCloudCaching.Aodv.Offers

/-!
# The table as a map from addresses to entries

In a table that is in order and lists single addresses only, a search for an address leads to the
entry for it.  The handlers of requests and replies are described by what becomes of the
entry for each address: one is written, and the others may be marked when they have run out.
-/

namespace MobileCloudCaching.Aodv

open Octets

variable {p : Params} {mem : Mem} {clk clk' : Clock} {s s₁ t : Router} {ip ip' : U32} {r x : Route}
  {u : Update}

/-- The table is in order, its entries are for single addresses, and nothing holds the lock. -/
structure Tidy (s : Router) : Prop extends Ordered s where
  hosts : ∀ r ∈ s.routes, r.netmask = broadcastIp
  unlocked : s.routeReaders = 0

instance (s : Router) : Decidable (Tidy s) :=
  decidable_of_iff ((s.routes.map Route.ptr).Nodup ∧ (∀ r ∈ s.routes, r.ptr < s.nextPtr) ∧
      (s.routes.map Route.ip).Pairwise (· < ·) ∧ (∀ r ∈ s.routes, r.netmask = broadcastIp) ∧
      s.routeReaders = 0)
    ⟨fun ⟨hnodup, hlt, hasc, hhosts, hlock⟩ => ⟨⟨⟨hnodup, hlt⟩, hasc⟩, hhosts, hlock⟩,
      fun h => ⟨h.distinct.nodup, h.distinct.lt, h.ascending, h.hosts, h.unlocked⟩⟩

/-- The entry for `ip` is as before, or has been marked. -/
def Ages (clk : Clock) (ip : U32) (s t : Router) : Prop :=
  entryFor ip t = entryFor ip s ∨ entryFor ip t = (entryFor ip s).map (Route.refresh clk)

/-- The entry for its destination gives way to the update. -/
def Update.Wins (u : Update) (clk : Clock) (s : Router) : Prop :=
  ∀ r ∈ entryFor u.ip s, u.refused (r.refresh clk) = false

/-- The entry for its destination gives way to the update, or leads to the same next hop. -/
def Update.Suits (u : Update) (clk : Clock) (s : Router) : Prop :=
  ∀ r ∈ entryFor u.ip s, u.refused (r.refresh clk) = true →
    (r.refresh clk).routeValid = true ∧ r.nextHop = u.nextHop

instance (u : Update) (clk : Clock) (s : Router) : Decidable (u.Wins clk s) := by
  unfold Update.Wins
  infer_instance

instance (u : Update) (clk : Clock) (s : Router) : Decidable (u.Suits clk s) := by
  unfold Update.Suits
  infer_instance

/-! ## Lookups -/

theorem Tidy.congr (h : Tidy s) (hroutes : t.routes = s.routes) (hnext : t.nextPtr = s.nextPtr)
    (hlock : t.routeReaders = s.routeReaders) : Tidy t where
  toOrdered := h.toOrdered.congr hroutes hnext
  hosts := hroutes ▸ h.hosts
  unlocked := hlock.trans h.unlocked

theorem Tidy.entryFor_iff (h : Tidy s) : entryFor ip s = some r ↔ r ∈ s.routes ∧ r.ip = ip := by
  constructor
  · intro hr
    have hmem := mem_entryFor hr
    have hcompare := (List.mem_filter.1 (List.mem_of_getLast? hr)).2
    exact ⟨hmem, (compare_of_broadcast (h.hosts r hmem)).1 hcompare⟩
  · rintro ⟨hr, rfl⟩
    exact h.entryFor_of_mem hr

theorem entryFor_congr (h : t.routes = s.routes) : entryFor ip t = entryFor ip s := by
  rw [entryFor, entryFor, h]

namespace Ages

theorem refl : Ages clk ip s s := .inl rfl

theorem of_eq (h : t.routes = s.routes) : Ages clk ip s t := .inl (entryFor_congr h)

theorem trans (h : Ages clk ip s s₁) (h' : Ages clk ip s₁ t) : Ages clk ip s t := by
  unfold Ages at *
  rcases h' with h' | h' <;> rcases h with h | h <;> rw [h', h]
  · exact .inl rfl
  · exact .inr rfl
  · exact .inr rfl
  · refine .inr ?_
    rw [Option.map_map]
    exact congrFun (congrArg Option.map (funext fun r => Route.refresh_refresh)) _

theorem search (ip' : U32) : Ages clk ip s (searched clk ip' s) := by
  have hrel : Option.Rel (fun x y => y = x ∨ y = x.refresh clk) (entryFor ip s)
      (entryFor ip (searched clk ip' s)) :=
    getLast?_of_forall₂ (List.rel_filter
      (fun {x y} hxy => by rcases hxy with rfl | rfl <;> simp)
      (forall₂_takeWhile marked_searched
        fun x y hxy => by rcases hxy with rfl | rfl <;> simp))
  unfold Ages
  generalize entryFor ip s = o, entryFor ip (searched clk ip' s) = o' at *
  cases hrel with
  | none => exact .inl rfl
  | some hxy => exact hxy.imp (congrArg some) (congrArg some)

/-- What holds of an entry when it is marked and when it is not. -/
theorem of_some {P : Route → Prop} (h : Ages clk ip s t) (hr : entryFor ip s = some r) (hP : P r)
    (hrefresh : P (r.refresh clk)) : ∃ x, entryFor ip t = some x ∧ P x := by
  rcases h with h | h <;> rw [h, hr]
  · exact ⟨r, rfl, hP⟩
  · exact ⟨r.refresh clk, rfl, hrefresh⟩

theorem of_forall {P : Route → Prop} (h : Ages clk ip s t) (hs : ∀ r ∈ entryFor ip s, P r)
    (hrefresh : ∀ r ∈ entryFor ip s, P r → P (r.refresh clk)) : ∀ r ∈ entryFor ip t, P r := by
  intro r hr
  rcases h with h | h <;> rw [h] at hr
  · exact hs r hr
  · obtain ⟨x, hx, rfl⟩ := Option.map_eq_some_iff.1 hr
    exact hrefresh x hx (hs x hx)

end Ages

theorem Tidy.search (h : Tidy s) (ip : U32) : Tidy (searched clk ip s) where
  toOrdered := h.toOrdered.search ip
  hosts r hr := by
    obtain ⟨x, hx, hxr⟩ := exists_left_of_forall₂ marked_searched hr
    rcases hxr with rfl | rfl
    · exact h.hosts r hx
    · rw [Route.netmask_refresh]
      exact h.hosts x hx
  unlocked := h.unlocked

/-- A search marks the entry that it leads to. -/
theorem Tidy.entryFor_searched (h : Tidy s) :
    entryFor ip (searched clk ip s) = (entryFor ip s).map (Route.refresh clk) := by
  rw [← foundRoute_entryFor]
  cases hf : foundRoute clk ip s with
  | none =>
    have hnone : entryFor ip s = none := by simpa [foundRoute_entryFor] using hf
    have hage : Ages clk ip s (searched clk ip s) := .search ip
    rcases hage with h' | h' <;> rw [h', hnone]
    rfl
  | some r =>
    obtain ⟨hcompare, x, hx, rfl⟩ := mem_of_foundRoute hf
    rw [Route.compare_refresh] at hcompare
    refine (h.search ip).entryFor_iff.2 ⟨mem_searched hf, ?_⟩
    rw [Route.ip_refresh]
    exact (compare_of_broadcast (h.hosts x hx)).1 hcompare

theorem Tidy.putOf (h : Tidy s) (hx : x ∈ s.routes) (hptr : r.ptr = x.ptr) (hip : r.ip = x.ip)
    (hmask : r.netmask = broadcastIp) : Tidy (putRoute r s) where
  toOrdered := h.toOrdered.putOf hx hptr hip
  hosts y hy := by
    rcases mem_putRoute hy with ⟨rfl, -⟩ | ⟨hy, -⟩
    · exact hmask
    · exact h.hosts y hy
  unlocked := h.unlocked

theorem Tidy.entryFor_put (h : Tidy s) (hx : x ∈ s.routes) (hptr : r.ptr = x.ptr)
    (hip : r.ip = x.ip) (hmask : r.netmask = broadcastIp) :
    entryFor ip (putRoute r s) = if ip = r.ip then some r else entryFor ip s := by
  have htidy := h.putOf hx hptr hip hmask
  have hmem : r ∈ (putRoute r s).routes := List.mem_map.2 ⟨x, hx, if_pos hptr.symm⟩
  split
  · rename_i he
    exact htidy.entryFor_iff.2 ⟨hmem, he.symm⟩
  · rename_i hne
    ext y
    rw [htidy.entryFor_iff, h.entryFor_iff]
    constructor
    · rintro ⟨hy, rfl⟩
      rcases mem_putRoute hy with ⟨rfl, -⟩ | ⟨hy, -⟩
      · exact absurd rfl hne
      · exact ⟨hy, rfl⟩
    · rintro ⟨hy, rfl⟩
      refine ⟨List.mem_map.2 ⟨y, hy, if_neg fun he => hne ?_⟩, rfl⟩
      rw [h.distinct.eq_of_ptr hy hx (he.trans hptr), hip]

theorem Tidy.putNew (h : Tidy s) (hip : ip ∉ s.routes.map Route.ip) (hptr : r.ptr = s.nextPtr)
    (hr : r.ip = ip) (hmask : r.netmask = broadcastIp) : Tidy (putRoute r (created ip s)) where
  toOrdered := h.toOrdered.putNew hip hptr hr
  hosts y hy := by
    rcases mem_putRoute hy with ⟨rfl, -⟩ | ⟨hy, -⟩
    · exact hmask
    · rcases mem_created hy with rfl | hy
      · rfl
      · exact h.hosts y hy
  unlocked := h.unlocked

theorem Tidy.entryFor_putNew (h : Tidy s) (hne : ip ≠ 0) (hip : ip ∉ s.routes.map Route.ip)
    (hptr : r.ptr = s.nextPtr) (hr : r.ip = ip) (hmask : r.netmask = broadcastIp) :
    entryFor ip' (putRoute r (created ip s)) = if ip' = ip then some r else entryFor ip' s := by
  have htidy := h.putNew hip hptr hr hmask
  have hroutes : (created ip s).routes = placeRoute (newRoute s.nextPtr ip) s.routes := if_neg hne
  split
  · rename_i he
    refine htidy.entryFor_iff.2 ⟨List.mem_map.2 ⟨newRoute s.nextPtr ip, ?_, if_pos hptr.symm⟩,
      hr.trans he.symm⟩
    rw [hroutes]
    exact mem_placeRoute.2 (.inl rfl)
  · rename_i hne'
    ext y
    rw [htidy.entryFor_iff, h.entryFor_iff]
    constructor
    · rintro ⟨hy, rfl⟩
      rcases mem_putRoute hy with ⟨rfl, -⟩ | ⟨hy, -⟩
      · exact absurd hr hne'
      · rcases mem_created hy with rfl | hy
        · exact absurd rfl hne'
        · exact ⟨hy, rfl⟩
    · rintro ⟨hy, rfl⟩
      refine ⟨List.mem_map.2 ⟨y, ?_, if_neg fun he => ?_⟩, rfl⟩
      · rw [hroutes]
        exact mem_placeRoute.2 (.inr hy)
      · exact Nat.ne_of_lt (h.distinct.lt y hy) (he.trans hptr)

/-! ## Updates -/

theorem Update.Wins.ages (h : u.Wins clk s) (hage : Ages clk u.ip s t) : u.Wins clk t :=
  hage.of_forall h fun r _ hr => by rwa [Route.refresh_refresh]

theorem Update.Suits.ages (h : u.Suits clk s) (hage : Ages clk u.ip s t) : u.Suits clk t :=
  hage.of_forall h fun r _ hr => by rwa [Route.refresh_refresh, Route.nextHop_refresh]

/-- The entry may have been marked before. -/
theorem Update.Suits.later (hs : Tidy s) (h : u.Suits clk' s)
    (h' : u.Suits clk' (searched clk u.ip s)) (hage : Ages clk u.ip s t) : u.Suits clk' t := by
  intro r hr
  rcases hage with he | he <;> rw [he] at hr
  · exact h r hr
  · exact h' r (by rwa [hs.entryFor_searched])

theorem Update.Wins.later (hs : Tidy s) (h : u.Wins clk' s)
    (h' : u.Wins clk' (searched clk u.ip s)) (hage : Ages clk u.ip s t) : u.Wins clk' t := by
  intro r hr
  rcases hage with he | he <;> rw [he] at hr
  · exact h r hr
  · exact h' r (by rwa [hs.entryFor_searched])

/-- The entry for the destination is the one of the update. -/
structure Learned (clk : Clock) (u : Update) (s t : Router) : Prop extends Tidy t where
  entry : ∃ r, entryFor u.ip t = some (u.route clk r) ∧
    r.selfRoute = (entryFor u.ip s).any Route.selfRoute
  neighs : t.neighs = s.neighs
  taskQ : t.taskQ = s.taskQ

/-- What `update_aodv_route` does when it takes the route. -/
structure Learns (clk : Clock) (u : Update) (s t : Router) : Prop extends Learned clk u s t where
  others : ∀ ip, ip ≠ u.ip → Ages clk ip s t

theorem Learned.congr (h : Learned clk u s s₁) (hroutes : t.routes = s₁.routes)
    (hnext : t.nextPtr = s₁.nextPtr) (hlock : t.routeReaders = s₁.routeReaders)
    (hneighs : t.neighs = s₁.neighs) (htasks : t.taskQ = s₁.taskQ) : Learned clk u s t where
  toTidy := h.toTidy.congr hroutes hnext hlock
  entry := by
    rw [entryFor_congr hroutes]
    exact h.entry
  neighs := hneighs.trans h.neighs
  taskQ := htasks.trans h.taskQ

theorem Learns.congr (h : Learns clk u s s₁) (hroutes : t.routes = s₁.routes)
    (hnext : t.nextPtr = s₁.nextPtr) (hlock : t.routeReaders = s₁.routeReaders)
    (hneighs : t.neighs = s₁.neighs) (htasks : t.taskQ = s₁.taskQ) : Learns clk u s t where
  toLearned := h.toLearned.congr hroutes hnext hlock hneighs htasks
  others ip hip := (h.others ip hip).trans (.of_eq hroutes)

/-- The entry that has just been written has not run out. -/
theorem Update.refresh_route : (u.route clk r).refresh clk = u.route clk r :=
  Route.refresh_of_fresh (n := activeRouteTimeout) rfl (by decide)

theorem Learned.search (h : Learned clk u s s₁) (ip : U32) :
    Learned clk u s (searched clk ip s₁) where
  toTidy := h.toTidy.search ip
  entry := by
    obtain ⟨r, hr, hself⟩ := h.entry
    refine ⟨r, ?_, hself⟩
    have hage : Ages clk u.ip s₁ (searched clk ip s₁) := .search ip
    rcases hage with he | he <;> rw [he, hr]
    rw [Option.map_some, Update.refresh_route]
  neighs := h.neighs
  taskQ := h.taskQ

theorem Learns.search (h : Learns clk u s s₁) (ip : U32) : Learns clk u s (searched clk ip s₁) where
  toLearned := h.toLearned.search ip
  others ip' hne := (h.others ip' hne).trans (.search ip)

/-- A search before the update makes no difference. -/
theorem Learns.of_searched (ip : U32) (h : Learns clk u (searched clk ip s) t) :
    Learns clk u s t where
  toTidy := h.toTidy
  entry := by
    obtain ⟨r, hr, hself⟩ := h.entry
    refine ⟨r, hr, hself.trans ?_⟩
    have hage : Ages clk u.ip s (searched clk ip s) := .search ip
    rcases hage with he | he <;> rw [he]
    rw [Option.any_map]
    exact congrFun (congrArg Option.any (funext fun r => Route.selfRoute_refresh)) _
  neighs := h.neighs
  taskQ := h.taskQ
  others ip' hne := (Ages.search ip).trans (h.others ip' hne)

/-- The entry for the destination leads to the same next hop as the update, and is not older. -/
structure Adopts (clk : Clock) (u : Update) (s t : Router) : Prop extends Tidy t where
  entry : ∃ r, entryFor u.ip t = some r ∧ r.routeValid = true ∧ r.nextHop = u.nextHop ∧
    Serial.before r.seq u.seq = false ∧ r.refresh clk = r
  others : ∀ ip, ip ≠ u.ip → Ages clk ip s t
  neighs : t.neighs = s.neighs
  taskQ : t.taskQ = s.taskQ

theorem Learns.adopts (h : Learns clk u s t) : Adopts clk u s t where
  toTidy := h.toTidy
  entry := by
    obtain ⟨r, hr, -⟩ := h.entry
    exact ⟨u.route clk r, hr, rfl, rfl, Serial.before_self _, Update.refresh_route⟩
  others := h.others
  neighs := h.neighs
  taskQ := h.taskQ

namespace Adopts

theorem congr (h : Adopts clk u s s₁) (hroutes : t.routes = s₁.routes)
    (hnext : t.nextPtr = s₁.nextPtr) (hlock : t.routeReaders = s₁.routeReaders)
    (hneighs : t.neighs = s₁.neighs) (htasks : t.taskQ = s₁.taskQ) : Adopts clk u s t where
  toTidy := h.toTidy.congr hroutes hnext hlock
  entry := by
    rw [entryFor_congr hroutes]
    exact h.entry
  others ip hip := (h.others ip hip).trans (.of_eq hroutes)
  neighs := hneighs.trans h.neighs
  taskQ := htasks.trans h.taskQ

theorem of_eq (h : Adopts clk u s₁ t) (hroutes : s₁.routes = s.routes)
    (hneighs : s₁.neighs = s.neighs) (htasks : s₁.taskQ = s.taskQ) : Adopts clk u s t where
  toTidy := h.toTidy
  entry := h.entry
  others ip hip := (Ages.of_eq hroutes).trans (h.others ip hip)
  neighs := h.neighs.trans hneighs
  taskQ := h.taskQ.trans htasks

theorem search (h : Adopts clk u s s₁) (ip : U32) : Adopts clk u s (searched clk ip s₁) where
  toTidy := h.toTidy.search ip
  entry := by
    obtain ⟨r, hr, hrest⟩ := h.entry
    refine ⟨r, ?_, hrest⟩
    have hage : Ages clk u.ip s₁ (searched clk ip s₁) := .search ip
    rcases hage with he | he <;> rw [he, hr]
    rw [Option.map_some, hrest.2.2.2]
  others ip' hne := (h.others ip' hne).trans (.search ip)
  neighs := h.neighs
  taskQ := h.taskQ

end Adopts

theorem Tidy.update (h : Tidy s) (hneigh : validAodvNeigh clk u.nextHop s = true) (hip : u.ip ≠ 0)
    (hwins : u.Wins clk s) : ∃ t, updateAodvRoute true clk u s = some t ∧ Learns clk u s t ∧
      ∃ l k n, t = { s with
        routes := l, nextPtr := n, kernelRoutes := k, queue := s.queue.sendIp u.ip } := by
  have hvalid : validAodvNeigh clk u.nextHop (searched clk u.ip s) = true := hneigh
  have hs : Tidy (searched clk u.ip s) := h.search u.ip
  unfold updateAodvRoute
  simp only [findAodvRoute_eq, hvalid, Bool.not_true, Bool.false_eq_true, if_false]
  cases hf : foundRoute clk u.ip s with
  | some r =>
    have hentry : entryFor u.ip (searched clk u.ip s) = some r := by
      rw [h.entryFor_searched, ← foundRoute_entryFor, hf]
    obtain ⟨hmem, hrip⟩ := hs.entryFor_iff.1 hentry
    obtain ⟨x, hx, rfl⟩ : ∃ x, entryFor u.ip s = some x ∧ x.refresh clk = r := by
      rwa [foundRoute_entryFor, Option.map_eq_some_iff] at hf
    simp only [hwins x hx, Bool.false_eq_true, if_false]
    have hmask : (x.refresh clk).netmask = broadcastIp := hs.hosts _ hmem
    have hput : ∀ ip, entryFor ip (putRoute (u.route clk (x.refresh clk)) (searched clk u.ip s)) =
        if ip = u.ip then some (u.route clk (x.refresh clk))
        else entryFor ip (searched clk u.ip s) := fun ip => by
      rw [hs.entryFor_put (r := u.route clk (x.refresh clk)) hmem rfl rfl hmask, ← hrip]
      rfl
    have htidy : Tidy (putRoute (u.route clk (x.refresh clk)) (searched clk u.ip s)) :=
      hs.putOf hmem rfl rfl hmask
    refine ⟨_, rfl, ⟨⟨htidy.congr rfl rfl rfl,
      ⟨x.refresh clk, (entryFor_congr rfl).trans ((hput u.ip).trans (if_pos rfl)), ?_⟩, rfl, rfl⟩,
      fun ip hne => (Ages.search u.ip).trans (.inl ?_)⟩, _, _, _, rfl⟩
    · rw [hx, Option.any_some, Route.selfRoute_refresh]
    · exact (entryFor_congr rfl).trans ((hput ip).trans (if_neg hne))
  | none =>
    have hnone : entryFor u.ip s = none := by simpa [foundRoute_entryFor] using hf
    have hnew : u.ip ∉ (searched clk u.ip s).routes.map Route.ip := fun hmem => by
      obtain ⟨x, hx, he⟩ := List.mem_map.1 hmem
      have hsome := hs.entryFor_iff.2 ⟨hx, he⟩
      rw [h.entryFor_searched, hnone] at hsome
      cases hsome
    have hcreate : createAodvRoute true u.ip (searched clk u.ip s) =
        some (some (newRoute s.nextPtr u.ip), created u.ip (searched clk u.ip s)) := by
      have hlock : (searched clk u.ip s).routeReaders = 0 := h.unlocked
      simp only [createAodvRoute, if_true, if_neg hip, insertAodvRoute, hlock, Option.map_some,
        created]
      rfl
    rw [hcreate]
    have hput : ∀ ip, entryFor ip (putRoute (u.route clk (newRoute s.nextPtr u.ip))
        (created u.ip (searched clk u.ip s))) =
        if ip = u.ip then some (u.route clk (newRoute s.nextPtr u.ip))
        else entryFor ip (searched clk u.ip s) := fun ip =>
      hs.entryFor_putNew hip hnew rfl rfl rfl
    have htidy : Tidy (putRoute (u.route clk (newRoute s.nextPtr u.ip))
        (created u.ip (searched clk u.ip s))) := hs.putNew hnew rfl rfl rfl
    refine ⟨_, rfl, ⟨⟨htidy.congr rfl rfl rfl,
      ⟨newRoute s.nextPtr u.ip, (entryFor_congr rfl).trans ((hput u.ip).trans (if_pos rfl)), ?_⟩,
      rfl, rfl⟩, fun ip hne => (Ages.search u.ip).trans (.inl ?_)⟩, _, _, _, rfl⟩
    · rw [hnone]
      rfl
    · exact (entryFor_congr rfl).trans ((hput ip).trans (if_neg hne))

/-- The update is taken, or the entry stays as it is. -/
theorem Tidy.adopt (h : Tidy s) (hneigh : validAodvNeigh clk u.nextHop s = true) (hip : u.ip ≠ 0)
    (hsuits : u.Suits clk s) : ∃ t, updateAodvRoute true clk u s = some t ∧ Adopts clk u s t ∧
      ∃ l k n q, t = { s with routes := l, nextPtr := n, kernelRoutes := k, queue := q } := by
  by_cases hwins : u.Wins clk s
  · obtain ⟨t, ht, hlearns, l, k, n, he⟩ := h.update hneigh hip hwins
    exact ⟨t, ht, hlearns.adopts, l, k, n, _, he⟩
  · obtain ⟨r, hr, hrefused⟩ : ∃ r ∈ entryFor u.ip s, u.refused (r.refresh clk) = true := by
      simpa [Update.Wins] using hwins
    obtain ⟨hvalid, hhop⟩ := hsuits r hr hrefused
    have hf : foundRoute clk u.ip s = some (r.refresh clk) := by
      rw [foundRoute_entryFor, Option.mem_def.1 hr]
      rfl
    have hneigh' : validAodvNeigh clk u.nextHop (searched clk u.ip s) = true := hneigh
    have hbefore := (refused_iff u _).1 hrefused
    refine ⟨searched clk u.ip s, ?_, ⟨h.search u.ip, ⟨r.refresh clk, ?_, hvalid, ?_, ?_, ?_⟩,
      fun ip _ => .search u.ip, rfl, rfl⟩, _, _, _, _, rfl⟩
    · unfold updateAodvRoute
      simp only [findAodvRoute_eq, hneigh', hf, hrefused, Bool.not_true, Bool.false_eq_true,
        if_false, if_true]
      rfl
    · rw [h.entryFor_searched, Option.mem_def.1 hr]
      rfl
    · rw [Route.nextHop_refresh]
      exact hhop
    · exact hbefore
    · exact Route.refresh_refresh

/-- A message goes out when there is an entry for its receiver. -/
theorem send_of_entry (clk : Clock) {dst : U32} {ttl : Byte} (httl : ttl ≠ 0) (msg : Message)
    (hr : entryFor dst s = some r) (hdev : r.dev = some p.dev) :
    sendMessage p clk dst ttl msg s = { searched clk dst s with
      sent := s.sent ++ [{ dst := dst, ttl := ttl, msg := msg }] } := by
  have hf : foundRoute clk dst s = some (r.refresh clk) := by
    rw [foundRoute_entryFor, hr]
    rfl
  have hdev' : (r.refresh clk).dev = some p.dev := by
    rcases r.refresh_eq_or clk with he | ⟨-, he⟩ <;> rw [he]
    · exact hdev
    · exact hdev
  unfold sendMessage
  rw [if_neg httl, findAodvRoute_eq, hf]
  simp only [hdev', if_true]
  rfl

/-! ## Requests -/

/-- The request passes `check_rreq`, and the entry for its source gives way. -/
structure Heeds (clk : Clock) (τ : Task) (m : Rreq) (s : Router) : Prop extends Tidy s where
  ttl : ¬τ.ttl ≤ 1
  new : findFloodId clk m.srcIp m.rreqId s.floodIdQueue = none
  neigh : validAodvNeigh clk τ.srcIp s = true
  srcIp_ne : m.srcIp ≠ 0
  wins : (m.update τ).Wins clk s

variable {τ : Task} {m : Rreq}

theorem Heeds.recvRreq_eq (h : Heeds clk τ m s) (hmem : mem.Succeeds) :
    ∃ s₁, recvRreq p mem clk τ m s = answerRreq p mem clk τ m s₁ ∧ Learns clk (m.update τ) s s₁ ∧
      s₁.sent = s.sent := by
  have hs : Tidy (searched clk m.srcIp s) := h.toTidy.search m.srcIp
  have hwins : (m.update τ).Wins clk (searched clk m.srcIp s) := h.wins.ages (.search _)
  obtain ⟨s₁, hu, hlearns, l, k, n, he⟩ := hs.update (u := m.update τ) h.neigh h.srcIp_ne hwins
  refine ⟨insertFloodId m.srcIp m.dstIp m.rreqId (clk.now + pathDiscoveryTime) s₁, ?_,
    (hlearns.of_searched m.srcIp).congr rfl rfl rfl rfl rfl, ?_⟩
  · have hcheck : checkRreq clk m τ.srcIp s = (true, searched clk m.srcIp s) := by
      rw [checkRreq, h.new]
      exact Prod.ext h.neigh rfl
    have hroute : mem .route 0 = true := hmem .route 0
    have hflood : mem .floodId 0 = true := hmem .floodId 0
    rw [Aodv.recvRreq, if_neg h.ttl, hcheck]
    simp only [acceptRreq, hroute, hu, hflood, if_true]
    rfl
  · rw [he]
    rfl

/-- The request as a node sends it on. -/
def Rreq.passed (τ : Task) (m : Rreq) : Datagram where
  dst := broadcastIp
  ttl := τ.ttl - 1
  msg := .rreq { m with metric := m.metric + 1 }

/-- A node that is not the destination sends the request on. -/
theorem Heeds.relay (h : Heeds clk τ m s) (hmem : mem.Succeeds)
    (hsubnet : aodvSubnetTest p m.dstIp = true) (hne : m.dstIp ≠ m.srcIp)
    (hself : ∀ r ∈ entryFor m.dstIp s, r.selfRoute = false) :
    ∃ t, recvRreq p mem clk τ m s = some t ∧ Learns clk (m.update τ) s t ∧
      t.sent = s.sent ++ [m.passed τ] := by
  obtain ⟨s₁, he, hlearns, hsent⟩ := h.recvRreq_eq (p := p) hmem
  have hself₁ : ∀ r ∈ foundRoute clk m.dstIp s₁, r.selfRoute = false := by
    rw [foundRoute_entryFor]
    intro r hr
    obtain ⟨x, hx, rfl⟩ := Option.map_eq_some_iff.1 hr
    rw [Route.selfRoute_refresh]
    exact (hlearns.others m.dstIp hne).of_forall hself
      (fun r _ hr => by rwa [Route.selfRoute_refresh]) x hx
  have hreply : replyToRreq p mem clk m s₁ = some (false, searched clk m.dstIp s₁) := by
    rw [replyToRreq, findAodvRoute_eq, hsubnet]
    simp only [Bool.not_true, Bool.false_eq_true, if_false]
    cases hf : foundRoute clk m.dstIp s₁ with
    | none => rfl
    | some r => simp only [hself₁ r hf, Bool.false_eq_true, if_false]
  have httl : ¬τ.ttl - 1 < 1 := by
    have := h.ttl
    bv_omega
  refine ⟨{ searched clk m.dstIp s₁ with sent := s₁.sent ++ [m.passed τ] }, ?_,
    (hlearns.search m.dstIp).congr rfl rfl rfl rfl rfl, by rw [← hsent]⟩
  rw [he, answerRreq, hreply]
  simp only [Option.bind_eq_bind, Option.bind_some, localBroadcast, if_neg httl]
  rfl

/-! ## Replies -/

theorem Tidy.routeAt_of_entry (h : Tidy s) (hr : entryFor ip s = some r) :
    routeAt r.ptr s = some r := by
  obtain ⟨hmem, -⟩ := h.entryFor_iff.1 hr
  obtain ⟨x, hx⟩ : ∃ x, routeAt r.ptr s = some x := by
    refine Option.isSome_iff_exists.1 (List.find?_isSome.2 ⟨r, hmem, beq_self_eq_true _⟩)
  have hptr : x.ptr = r.ptr := by simpa using List.find?_some hx
  rw [hx, h.distinct.eq_of_ptr (List.mem_of_find?_eq_some hx) hmem hptr]

/-- The sequence number with which the destination answers. -/
def Rreq.answerSeq (m : Rreq) (own : Route) : U32 :=
  if seqLessOrEqual own.seq m.dstSeq then m.dstSeq + 1 else own.seq

/-- The reply for a node's own entry. -/
def Route.reply (own : Route) (nextHop srcIp : U32) : Datagram where
  dst := nextHop
  ttl := BitVec.ofNat 8 netDiameter
  msg := .rrep { metric := own.metric, dstIp := own.ip, dstSeq := own.seq, srcIp := srcIp
                 lifetime := BitVec.ofNat 32 myRouteTimeout }

/-- The node has an entry that leads messages for `ip` out. -/
def Reaches (p : Params) (ip : U32) (s : Router) : Prop :=
  ∃ r, entryFor ip s = some r ∧ r.dev = some p.dev

instance (p : Params) (ip : U32) (s : Router) : Decidable (Reaches p ip s) :=
  decidable_of_iff ((entryFor ip s).any fun r => r.dev == some p.dev) (by
    simp [Reaches, Option.any_eq_true])

theorem Reaches.ages (h : Reaches p ip s) (hage : Ages clk ip s t) : Reaches p ip t := by
  obtain ⟨r, hr, hdev⟩ := h
  refine hage.of_some hr hdev ?_
  rcases r.refresh_eq_or clk with he | ⟨-, he⟩ <;> rw [he]
  · exact hdev
  · exact hdev

variable {own : Route}

/-- The destination's own entry with the number of the answer. -/
def Rreq.numbered (m : Rreq) (own : Route) : Route := { own with seq := m.answerSeq own }

/-- The destination raises its number when the request knows of a newer one. -/
theorem replyToRreq_own (hsubnet : aodvSubnetTest p m.dstIp = true) (hself : own.selfRoute = true)
    (hf : foundRoute clk m.dstIp s = some own) : replyToRreq p mem clk m s = some (true,
      if seqLessOrEqual own.seq m.dstSeq then putRoute (m.numbered own) (searched clk m.dstIp s)
      else searched clk m.dstIp s) := by
  rw [replyToRreq, findAodvRoute_eq, hsubnet, hf]
  simp only [Bool.not_true, Bool.false_eq_true, if_false]
  rw [if_pos hself, Rreq.numbered, Rreq.answerSeq]
  split <;> rfl

/-- What is left in the table when the destination has numbered its answer. -/
theorem Learned.reply (h : Learned clk (m.update τ) s s₁) (mem : Mem)
    (hsubnet : aodvSubnetTest p m.dstIp = true)
    (hne : m.dstIp ≠ m.srcIp) (hown : entryFor m.dstIp s₁ = some own)
    (hself : own.selfRoute = true) : ∃ s₂, replyToRreq p mem clk m s₁ = some (true, s₂) ∧
      Learned clk (m.update τ) s s₂ ∧ entryFor m.dstIp s₂ = some (m.numbered own) ∧
      (∀ ip, ip ≠ m.dstIp → Ages clk ip s₁ s₂) ∧ s₂.sent = s₁.sent := by
  have hrefresh : own.refresh clk = own := Route.refresh_of_self hself
  have hf : foundRoute clk m.dstIp s₁ = some own := by
    rw [foundRoute_entryFor, hown, Option.map_some, hrefresh]
  have hs : Tidy (searched clk m.dstIp s₁) := h.toTidy.search m.dstIp
  have hown' : entryFor m.dstIp (searched clk m.dstIp s₁) = some own := by
    rw [h.toTidy.entryFor_searched, hown, Option.map_some, hrefresh]
  refine ⟨_, replyToRreq_own hsubnet hself hf, ?_⟩
  split
  · obtain ⟨hmem, hip⟩ := hs.entryFor_iff.1 hown'
    have hmask : own.netmask = broadcastIp := hs.hosts own hmem
    have hput : ∀ ip, entryFor ip (putRoute (m.numbered own) (searched clk m.dstIp s₁)) =
        if ip = m.dstIp then some (m.numbered own)
        else entryFor ip (searched clk m.dstIp s₁) := fun ip => by
      rw [hs.entryFor_put (r := m.numbered own) hmem rfl rfl hmask, ← hip]
      rfl
    obtain ⟨r, hr, hrself⟩ := (h.search m.dstIp).entry
    have hsrc := ((hput m.srcIp).trans (if_neg hne.symm)).trans hr
    refine ⟨⟨hs.putOf (r := m.numbered own) hmem rfl rfl hmask, ⟨r, hsrc, hrself⟩, h.neighs,
      h.taskQ⟩, (hput m.dstIp).trans (if_pos rfl),
      fun ip hip' => (Ages.search m.dstIp).trans (.inl ((hput ip).trans (if_neg hip'))), rfl⟩
  · rename_i hle
    have hsame : m.numbered own = own := by rw [Rreq.numbered, Rreq.answerSeq, if_neg hle]
    rw [hsame]
    exact ⟨h.search m.dstIp, hown', fun ip _ => .search m.dstIp, rfl⟩

/-- The reply to a request whose source has just been entered. -/
theorem Learned.genRrep (h : Learned clk (m.update τ) s s₁) (hmem : mem.Succeeds)
    (hown : entryFor m.dstIp s₁ = some own) (hself : own.selfRoute = true)
    (hreach : Reaches p τ.srcIp s₁) :
    ∃ t, genRrep p mem clk m.srcIp m.dstIp s₁ = some t ∧ Learned clk (m.update τ) s t ∧
      t.sent = s₁.sent ++ [own.reply τ.srcIp m.srcIp] := by
  obtain ⟨r, hr, -⟩ := h.entry
  have hsrc : foundRoute clk m.srcIp s₁ = some ((m.update τ).route clk r) := by
    rw [foundRoute_entryFor, show entryFor m.srcIp s₁ = _ from hr, Option.map_some,
      Update.refresh_route]
  have hdst : foundRoute clk m.dstIp s₁ = some own := by
    rw [foundRoute_entryFor, hown, Option.map_some, Route.refresh_of_self hself]
  have hafter := (h.search m.srcIp).search m.dstIp
  have hr' : entryFor m.srcIp (searched clk m.dstIp (searched clk m.srcIp s₁)) =
      some ((m.update τ).route clk r) := by
    have hage : Ages clk m.srcIp s₁ (searched clk m.dstIp (searched clk m.srcIp s₁)) :=
      .trans (.search m.srcIp) (.search m.dstIp)
    rcases hage with ha | ha <;> rw [ha, show entryFor m.srcIp s₁ = _ from hr]
    rw [Option.map_some, Update.refresh_route]
  have hip : ((m.update τ).route clk r).ip = m.srcIp := (hafter.toTidy.entryFor_iff.1 hr').2
  have hptr := hafter.toTidy.routeAt_of_entry hr'
  have hreach' : Reaches p τ.srcIp (searched clk m.dstIp (searched clk m.srcIp s₁)) :=
    (hreach.ages (.search m.srcIp)).ages (.search m.dstIp)
  obtain ⟨x, hx, hdev⟩ := hreach'
  have hrrep : mem .rrep 0 = true := hmem .rrep 0
  have httl : (own.reply τ.srcIp m.srcIp).ttl ≠ 0 := show BitVec.ofNat 8 netDiameter ≠ 0 by decide
  have hsend := send_of_entry clk httl (own.reply τ.srcIp m.srcIp).msg hx hdev
  refine ⟨{ searched clk τ.srcIp (searched clk m.dstIp (searched clk m.srcIp s₁)) with
      sent := s₁.sent ++ [own.reply τ.srcIp m.srcIp] }, ?_,
    (hafter.search τ.srcIp).congr rfl rfl rfl rfl rfl, rfl⟩
  unfold Aodv.genRrep
  simp only [findAodvRoute_eq, hsrc, foundRoute_searched, hdst, hptr, Option.bind_eq_bind,
    Option.bind_some, sendRrep, hrrep, if_true, hself, hip]
  exact congrArg some hsend

/-- The destination answers along the way on which the request has come. -/
theorem Heeds.answer (h : Heeds clk τ m s) (hmem : mem.Succeeds)
    (hsubnet : aodvSubnetTest p m.dstIp = true) (hne : m.dstIp ≠ m.srcIp)
    (hown : entryFor m.dstIp s = some own) (hself : own.selfRoute = true)
    (hvia : τ.srcIp ≠ m.dstIp) (hdev : τ.dev = some p.dev)
    (hreach : τ.srcIp = m.srcIp ∨ Reaches p τ.srcIp s) :
    ∃ t, recvRreq p mem clk τ m s = some t ∧ Learned clk (m.update τ) s t ∧
      t.sent = s.sent ++ [(m.numbered own).reply τ.srcIp m.srcIp] := by
  obtain ⟨s₁, he, hlearns, hsent⟩ := h.recvRreq_eq (p := p) hmem
  have hown₁ : entryFor m.dstIp s₁ = some own := by
    rcases hlearns.others m.dstIp hne with ha | ha <;> rw [ha, hown]
    rw [Option.map_some, Route.refresh_of_self hself]
  obtain ⟨s₂, hreply, hlearned, hown₂, hages, hsent₂⟩ :=
    hlearns.toLearned.reply (p := p) mem hsubnet hne hown₁ hself
  have hreach₂ : Reaches p τ.srcIp s₂ := by
    by_cases hsrc : τ.srcIp = m.srcIp
    · obtain ⟨r, hr, -⟩ := hlearned.entry
      exact ⟨_, (congrArg (entryFor · s₂) hsrc).trans hr, hdev⟩
    · exact ((hreach.resolve_left hsrc).ages (hlearns.others _ hsrc)).ages (hages _ hvia)
  obtain ⟨t, hgen, hlearned', hsent'⟩ := hlearned.genRrep hmem hown₂ hself hreach₂
  refine ⟨t, ?_, hlearned', by rw [hsent', hsent₂, hsent]⟩
  rw [he, answerRreq, hreply]
  exact hgen

/-- The reply as a node sends it on. -/
def Rrep.passed (m : Rrep) (nextHop : U32) : Datagram where
  dst := nextHop
  ttl := BitVec.ofNat 8 netDiameter
  msg := .rrep { m with metric := m.metric + 1 }

/-- A reply from a neighbour that is no hello. -/
structure Accepts (clk : Clock) (τ : Task) (m : Rrep) (s : Router) : Prop extends Tidy s where
  noHello : m.srcIp ≠ m.dstIp
  neigh : validAodvNeigh clk τ.srcIp s = true
  dstIp_ne : m.dstIp ≠ 0

variable {a : Rrep}

theorem Accepts.recvRrep_eq (h : Accepts clk τ a s) (hmem : mem.Succeeds)
    (hu : updateAodvRoute true clk (a.update τ) (deleteTimer a.dstIp .resendRreq s) = some s₁) :
    recvRrep p mem clk τ a s = some (forwardRrep p clk a s₁) := by
  have hroute : mem .route 0 = true := hmem .route 0
  rw [Aodv.recvRrep, if_neg h.noHello, checkRrep, h.neigh]
  simp only [Bool.not_true, Bool.false_eq_true, if_false, acceptRrep, hroute, hu, Option.map_some]

/-- A node on the way sends the reply on to where the request has come from. -/
theorem Accepts.relay (h : Accepts clk τ a s) (hmem : mem.Succeeds)
    (hsuits : (a.update τ).Suits clk s) (hr : entryFor a.srcIp s = some r)
    (hself : r.selfRoute = false) (hhop : r.nextHop ≠ a.dstIp) (hreach : Reaches p r.nextHop s) :
    ∃ t, recvRrep p mem clk τ a s = some t ∧ Adopts clk (a.update τ) s t ∧
      t.sent = s.sent ++ [a.passed r.nextHop] := by
  have hs : Tidy (deleteTimer a.dstIp .resendRreq s) := h.toTidy.congr rfl rfl rfl
  obtain ⟨s₁, hu, hadopts, l, k, n, q, he⟩ :=
    hs.adopt (u := a.update τ) h.neigh h.dstIp_ne hsuits
  have hsent : s₁.sent = s.sent := by rw [he]; rfl
  have hf : foundRoute clk a.srcIp s₁ = some (r.refresh clk) := by
    rw [foundRoute_entryFor]
    rcases hadopts.others a.srcIp h.noHello with ha | ha <;> rw [ha]
    · exact congrArg (Option.map _) hr
    · rw [show entryFor a.srcIp (deleteTimer a.dstIp .resendRreq s) = _ from hr, Option.map_some,
        Option.map_some, Route.refresh_refresh]
  have hreach₁ : Reaches p r.nextHop s₁ :=
    Reaches.ages (s := deleteTimer a.dstIp .resendRreq s) hreach (hadopts.others _ hhop)
  have hreach' : Reaches p r.nextHop (searched clk a.srcIp s₁) := hreach₁.ages (.search a.srcIp)
  obtain ⟨x, hx, hdev⟩ := hreach'
  have httl : (a.passed r.nextHop).ttl ≠ 0 := show BitVec.ofNat 8 netDiameter ≠ 0 by decide
  have hsend := send_of_entry clk httl (a.passed r.nextHop).msg hx hdev
  refine ⟨{ searched clk r.nextHop (searched clk a.srcIp s₁) with
      sent := s₁.sent ++ [a.passed r.nextHop] }, ?_,
    (((hadopts.search a.srcIp).search r.nextHop).of_eq (s := s) rfl rfl rfl).congr rfl rfl rfl rfl
      rfl, by rw [← hsent]⟩
  rw [h.recvRrep_eq hmem hu, forwardRrep, findAodvRoute_eq, hf]
  simp only [Route.selfRoute_refresh, hself, Bool.false_eq_true, if_false, Route.nextHop_refresh]
  exact congrArg some hsend

/-- The reply ends at the node that has asked, whose packets go out. -/
theorem Accepts.arrive (h : Accepts clk τ a s) (hmem : mem.Succeeds)
    (hwins : (a.update τ).Wins clk s) (hr : entryFor a.srcIp s = some r)
    (hself : r.selfRoute = true) :
    ∃ t, recvRrep p mem clk τ a s = some t ∧ Adopts clk (a.update τ) s t ∧ t.sent = s.sent ∧
      t.queue = s.queue.sendIp a.dstIp ∧
      t.timerQueue = s.timerQueue.filter fun t => !t.isFor a.dstIp .resendRreq := by
  have hs : Tidy (deleteTimer a.dstIp .resendRreq s) := h.toTidy.congr rfl rfl rfl
  obtain ⟨s₁, hu, hlearns, l, k, n, he⟩ := hs.update (u := a.update τ) h.neigh h.dstIp_ne hwins
  have hf : foundRoute clk a.srcIp s₁ = some r := by
    rw [foundRoute_entryFor]
    rcases hlearns.others a.srcIp h.noHello with ha | ha <;>
      rw [ha, show entryFor a.srcIp (deleteTimer a.dstIp .resendRreq s) = _ from hr]
    · rw [Option.map_some, Route.refresh_of_self hself]
    · rw [Option.map_some, Option.map_some, Route.refresh_refresh, Route.refresh_of_self hself]
  refine ⟨searched clk a.srcIp s₁, ?_,
    (hlearns.adopts.search a.srcIp).of_eq rfl rfl rfl, ?_, ?_, ?_⟩
  · rw [h.recvRrep_eq hmem hu, forwardRrep, findAodvRoute_eq, hf]
    simp only [hself, if_true]
  all_goals rw [he]; rfl

/-! ## Starting a discovery -/

/-- The request with which a discovery starts. -/
def Route.request (own : Route) (clk : Clock) (dstIp : U32) (s : Router) : Datagram where
  dst := broadcastIp
  ttl := BitVec.ofNat 8 netDiameter
  msg := .rreq (outRreq clk own.ip dstIp own.numbered s)

/-- A packet for `d` finds no valid route, and no discovery for `d` is under way. -/
structure Asks (p : Params) (clk : Clock) (d : U32) (own : Route) (s : Router) : Prop
    extends Tidy s where
  unrouted : unrouted p clk d s = true
  noTimer : findTimer d .resendRreq s = none
  entry : entryFor p.myIp s = some own
  self : own.selfRoute = true

theorem Asks.output (h : Asks p clk ip own s) (hmem : mem.Succeeds) :
    ∃ t, output p mem clk ip s = t ∧ Tidy t ∧ entryFor p.myIp t = some own.numbered ∧
      (∀ ip', ip' ≠ p.myIp → Ages clk ip' s t) ∧ t.neighs = s.neighs ∧ t.taskQ = s.taskQ ∧
      t.sent = s.sent ++ [own.request clk ip s] ∧
      t.queue = s.queue.enqueue { postRouting := true, daddr := ip } := by
  have hown : own.ip = p.myIp := (h.toTidy.entryFor_iff.1 h.entry).2
  have hs : Tidy (searched clk ip s) := h.toTidy.search ip
  have hrefresh : own.refresh clk = own := Route.refresh_of_self h.self
  have hentry : ∀ {t}, Ages clk p.myIp s t → entryFor p.myIp t = some own := fun {t} ha => by
    rcases ha with ha | ha <;> rw [ha, h.entry]
    rw [Option.map_some, hrefresh]
  have hf : foundRoute clk p.myIp (searched clk ip s) = some own := by
    rw [foundRoute_searched, foundRoute_entryFor, h.entry, Option.map_some, hrefresh]
  -- the table at the write to the own entry
  have hage : ∀ ip', Ages clk ip' s (searched clk p.myIp (searched clk ip (searched clk ip s))) :=
    fun ip' => ((Ages.search ip).trans (.search ip)).trans (.search p.myIp)
  have htable : Tidy (searched clk p.myIp (searched clk ip (searched clk ip s))) :=
    (hs.search ip).search p.myIp
  obtain ⟨hmem', -⟩ := htable.entryFor_iff.1 (hentry (hage p.myIp))
  have hmask : own.netmask = broadcastIp := htable.hosts own hmem'
  have hput : ∀ ip', entryFor ip' (putRoute own.numbered
      (searched clk p.myIp (searched clk ip (searched clk ip s)))) =
      if ip' = p.myIp then some own.numbered
      else entryFor ip' (searched clk p.myIp (searched clk ip (searched clk ip s))) := fun ip' => by
    rw [htable.entryFor_put (r := own.numbered) hmem' rfl rfl hmask, ← hown]
    rfl
  have htidy := htable.putOf (r := own.numbered) hmem' rfl rfl hmask
  have hnone : findTimer ip .resendRreq (searched clk ip s) = none := h.noTimer
  have hrreq : (mem .rreq 0 && mem .rreq 1) = true := by rw [hmem, hmem]; rfl
  have hflood : mem .floodId 0 = true := hmem .floodId 0
  rw [output_of_unrouted h.unrouted, genRreq, hnone, Option.isSome_none, if_neg Bool.false_ne_true,
    if_pos hrreq, broadcastRreq_of_some hf, if_pos hflood, hmem .task 0]
  have hcast : ∀ msg s₁, localBroadcast (BitVec.ofNat 8 netDiameter) msg s₁ =
      { s₁ with sent := s₁.sent ++ [{ dst := broadcastIp, ttl := BitVec.ofNat 8 netDiameter,
                                      msg := msg }] } := fun _ _ => if_neg (by decide)
  rw [hcast]
  refine ⟨_, rfl, htidy.congr rfl rfl rfl,
    (entryFor_congr rfl).trans ((hput p.myIp).trans (if_pos rfl)), fun ip' hne =>
    (hage ip').trans (.inl ((entryFor_congr rfl).trans ((hput ip').trans (if_neg hne)))), rfl, rfl,
    ?_, rfl⟩
  rw [Route.request, outRreq, outRreq, foundRoute_searched, hown]
  rfl

end MobileCloudCaching.Aodv

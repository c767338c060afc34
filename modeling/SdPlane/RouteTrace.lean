import SdPlane.NexthopCounts
import SdPlane.RouteRefcnt

/-!
# What a route that is not stored leaves behind (`rib_manager.c`)

`ROUTE_ENTRY_ADD` gets a group and a reference to it first, and a place in the RIB afterwards. Three
things may go wrong on the way: the group, the table and the nodes of the tree. When the first of
them fails, what is left behind is what `nexthop_add_entry` leaves. When the others do, the group
and the reference stay. The last failure is not even seen: `rib_route_add` answers `-1`, and the
handler asks whether the answer is positive.

`routeEntryAdd_clean_iff` says when none of this can happen.
-/

set_option autoImplicit false

namespace SdPlane

open Radix (RibTree ribNew ribRouteAdd)

/-! ## What is to hold -/

/-- The handler of `ROUTE_ENTRY_ADD` leaves before it reports the route as added. -/
def routeEntryAddFailed (env : Env) (r : Routing) (msg : InternalMsgRouteEntry) : Bool :=
  match nexthopAddEntry env.mallocNhNode r.nh msg.nh with
  | (_, none) => true
  | (_, some sdplaneNhId) =>
    match Routing.routeTable env.mallocRibTree r.ribTreeMaster msg.tableId msg.family with
    | none => true
    | some (i, ribTreeMaster) =>
      (ribTreeMaster i).any fun t => decide ((ribRouteAdd env.mallocRibNode t msg.dst.dstIpAddr
        msg.dst.plen ⟨msg.dst, sdplaneNhId⟩).2 > 0)

/-- The route has a group, a table and its nodes. -/
def RouteStored (env : Env) (r : Routing) (msg : InternalMsgRouteEntry) : Prop :=
  ∃ slot i t, (nexthopAddEntry env.mallocNhNode r.nh msg.nh).2 = some slot
    ∧ Routing.routeTable env.mallocRibTree r.ribTreeMaster msg.tableId msg.family
      = some (i, Function.update r.ribTreeMaster i (some t))
    ∧ (ribRouteAdd env.mallocRibNode t msg.dst.dstIpAddr msg.dst.plen ⟨msg.dst, slot⟩).2 = 0

/-- The groups and gateways in use, the counts of all slots and the kernel ids are the same. -/
structure NoTrace (s t : NhState) : Prop where
  live : SameLive s t
  refcnt : ∀ g < MAX_NEXTHOP_GRP_SIZE, t.refcnt g = s.refcnt g
  index : ∀ k, t.nhHt.find k = s.nhHt.find k

/-- A route that is not stored leaves no trace, and the handler knows. -/
def RouteAddClean (env : Env) (r : Routing) (msg : InternalMsgRouteEntry) : Prop :=
  ¬RouteStored env r msg →
    NoTrace r.nh (r.routeEntryAdd env msg).nh ∧ routeEntryAddFailed env r msg = true

/-! ## When it does -/

/-- There is no slot for the entry, or it is given up. -/
def Refused (malloc : Bool) (s : NhState) (nh : InternalMsgNhEntry) : Prop :=
  findExisting s nh = none ∧ (findSlot s = none ∨ ∃ i, GivesUp malloc s nh i)

/-- There is a table for the route, or memory for one, and memory for the nodes. -/
def HasRoom (env : Env) (r : Routing) (msg : InternalMsgRouteEntry) : Prop :=
  ∃ i t, Routing.routeTable env.mallocRibTree r.ribTreeMaster msg.tableId msg.family
      = some (i, Function.update r.ribTreeMaster i (some t))
    ∧ ∀ j, j < Radix.missing t.root msg.dst.dstIpAddr 0 msg.dst.plen → env.mallocRibNode j = true

/-- The entry is given up, if at all, after members that leave the groups in use and the counts of
    all slots as they were. -/
def RefusedClean (malloc : Bool) (s : NhState) (nh : InternalMsgNhEntry) : Prop :=
  ∀ i, GivesUp malloc s nh i → (∀ j < i, Harmless s nh j) ∧ CountsBack s nh i

/-- The new group has no members, so its slot goes on to read as free, and the one reference that
    the slot had is set to zero before the route's is added. If the entry has a kernel id, that is
    the one of the slot already. -/
def Memberless (s : NhState) (nh : InternalMsgNhEntry) : Prop :=
  findExisting s nh = none ∧ nh.nhcnt = 0 ∧ ∀ slot, findSlot s = some slot →
    s.refcnt slot = 1 ∧ (nh.kernelNhId ≠ 0 → s.nhHt.find nh.kernelNhId = some slot)

/-- Either the group is refused, and without a trace, or the route has room. -/
def AddsClean (env : Env) (r : Routing) (msg : InternalMsgRouteEntry) : Prop :=
  (Refused env.mallocNhNode r.nh msg.nh ∧ RefusedClean env.mallocNhNode r.nh msg.nh)
  ∨ ¬Refused env.mallocNhNode r.nh msg.nh ∧ (HasRoom env r msg
      ∨ Routing.routeTable env.mallocRibTree r.ribTreeMaster msg.tableId msg.family = none
        ∧ Memberless r.nh msg.nh)

/-! ## The group -/

section Group

variable {malloc : Bool} {s u : NhState} {nh : InternalMsgNhEntry} {slot : Nat}

theorem refused_iff (hgood : NhGood s) :
    Refused malloc s nh ↔ (nexthopAddEntry malloc s nh).2 = none := by
  constructor
  · rintro ⟨hnew, hfull | ⟨i, hgives⟩⟩
    · simp only [nexthopAddEntry, addEntryWith, hnew, hfull]
    · exact (sameLive_iff_of_givesUp hgood hgives).1
  · intro hnone
    have hres := addEntryWith_result (addStandalone malloc) malloc s nh
    change AddResult (addStandalone malloc) malloc s nh (nexthopAddEntry malloc s nh) at hres
    have hgives := exists_givesUp hnone
    generalize nexthopAddEntry malloc s nh = res at hnone hres hgives
    cases hres with
    | reused => cases hnone
    | full hnew hfull => exact ⟨hnew, .inl hfull⟩
    | rolledBack hnew slot hslot t hpop =>
      obtain ⟨i, hi, t, ht, hround⟩ := exists_error hpop
      exact ⟨hnew, .inr ⟨i, .member hnew slot hslot t ht hi _ hround⟩⟩
    | legacy => cases hnone
    | notIndexed hnew slot hslot t hpop hid hins =>
      exact ⟨hnew, .inr ⟨_, .hash hnew slot hslot t hpop rfl hid hins⟩⟩
    | indexed => cases hnone

/-- A refusal leaves no trace but what `nexthop_add_entry` leaves. -/
theorem noTrace_refused_iff (hgood : NhGood s) (hadd : nexthopAddEntry malloc s nh = (u, none)) :
    NoTrace s u ↔ RefusedClean malloc s nh := by
  have hindex : u.nhHt = s.nhHt := by
    have hheads := nexthopAddEntry_heads malloc s nh hgood.top
    rw [hadd] at hheads
    cases hheads with
    | kept _ hht => exact hht
  have hstate : (nexthopAddEntry malloc s nh).1 = u := by rw [hadd]
  have hnone : (nexthopAddEntry malloc s nh).2 = none := by rw [hadd]
  constructor
  · intro htrace i hgives
    have hharmless : ∀ j < i, Harmless s nh j := by
      apply (sameLive_iff_of_givesUp hgood hgives).2.mp
      rw [hstate]
      exact htrace.live
    refine ⟨hharmless, (refcnt_back_iff hgood hgives hharmless).mp ?_⟩
    rw [hstate]
    exact htrace.refcnt
  · intro hclean
    rw [← hstate]
    rcases exists_givesUp hnone with heq | ⟨i, hgives⟩
    · rw [heq]
      exact ⟨.refl s, fun _ _ => rfl, fun _ => rfl⟩
    · obtain ⟨hharmless, hback⟩ := hclean i hgives
      refine ⟨(sameLive_iff_of_givesUp hgood hgives).2.mpr hharmless,
        (refcnt_back_iff hgood hgives hharmless).mpr hback, fun k => ?_⟩
      rw [hstate, hindex]

/-- With no members there is nothing to fill in. -/
theorem populate_memberless {t : NhState} (hzero : nh.nhcnt = 0)
    (hpop : populate (addStandalone malloc) nh slot (reserve s slot nh) = .ok t) :
    t = reserve s slot nh := by
  rw [populate, hzero] at hpop
  exact (Except.ok.inj hpop).symm

/-- A new group is a trace, unless it has no members. -/
theorem sameLive_new_iff {t : NhState} (hgood : NhGood s) (hslot : findSlot s = some slot)
    (hpop : populate (addStandalone malloc) nh slot (reserve s slot nh) = .ok t)
    (hgroups : u.groups = t.groups) (hpool : u.infoPool = t.infoPool) :
    SameLive s (u.addRef slot 1) ↔ nh.nhcnt = 0 := by
  obtain ⟨hlt, hfree⟩ := findSlot_some hslot hgood.top
  obtain ⟨_, hfill⟩ := exists_filling hgood.top hslot hpop
  constructor
  · intro hsame
    have hcnt := hsame.cnt slot hlt
    rw [NhState.cnt_addRef, NhState.cnt, hgroups, hfree] at hcnt
    exact hfill.cnt.symm.trans hcnt
  · intro hzero
    obtain rfl := populate_memberless hzero hpop
    refine ⟨fun g _ => ?_, fun g _ hbusy => ?_, fun i _ => ?_, fun i _ _ => ?_⟩
    · rw [NhState.cnt_addRef, NhState.cnt, hgroups]
      show (reserve s slot nh).cnt g = s.cnt g
      rw [cnt_reserve]
      split
      · next heq => rw [heq, hfree, hzero]
      · rfl
    · have hne : g ≠ slot := by
        rintro rfl
        exact hbusy hfree
      rw [NhState.addRef, NhState.groups_setGroup, if_neg hne, hgroups, reserve,
        NhState.groups_setGroup, if_neg hne]
    · show 0 < (u.infoPool i).refcnt ↔ 0 < (s.infoPool i).refcnt
      rw [hpool]
      exact Iff.rfl
    · show u.infoPool i = s.infoPool i
      rw [hpool]
      rfl

/-- Without members, the counts are what they were if the slot had one reference. -/
theorem refcnt_new_iff (hlt : slot < MAX_NEXTHOP_GRP_SIZE)
    (hgroups : u.groups = (reserve s slot nh).groups) :
    (∀ g < MAX_NEXTHOP_GRP_SIZE, (u.addRef slot 1).refcnt g = s.refcnt g)
      ↔ s.refcnt slot = 1 := by
  have hrefcnt : ∀ g, (u.addRef slot 1).refcnt g = if g = slot then 1 else s.refcnt g := by
    intro g
    have hgroup : u.refcnt g = (reserve s slot nh).refcnt g := by
      rw [NhState.refcnt, hgroups, NhState.refcnt]
    rw [NhState.refcnt_addRef, hgroup, refcnt_reserve]
    split
    · rfl
    · exact Int.add_zero _
  simp only [hrefcnt]
  constructor
  · intro hback
    have hslot := hback slot hlt
    rw [if_pos rfl] at hslot
    exact hslot.symm
  · intro hone g _
    split
    · next heq => rw [heq, hone]
    · rfl

/-- A group that was found or made, with a reference to it, is a trace, unless it has no
    members. -/
theorem noTrace_accepted_iff (hgood : NhGood s)
    (hadd : nexthopAddEntry malloc s nh = (u, some slot)) :
    NoTrace s (u.addRef slot 1) ↔ Memberless s nh := by
  have hlt := hgood.addSlot_lt hadd
  have hres := addEntryWith_result (addStandalone malloc) malloc s nh
  rw [show addEntryWith (addStandalone malloc) malloc s nh = (u, some slot) from hadd] at hres
  cases hres with
  | reused _ hex =>
    -- the group that is found has one reference more
    refine iff_of_false (fun htrace => ?_) fun hless => ?_
    · have hback := htrace.refcnt slot hlt
      rw [NhState.refcnt_addRef, if_pos rfl] at hback
      omega
    · cases hex.symm.trans hless.1
  | legacy hnew _ hslot t hpop hid =>
    obtain ⟨_, hfill⟩ := exists_filling hgood.top hslot hpop
    have hlive := sameLive_new_iff hgood hslot hpop (u := updateHint t slot) rfl rfl
    constructor
    · intro htrace
      have hzero := hlive.mp htrace.live
      obtain rfl := populate_memberless hzero hpop
      have hone := (refcnt_new_iff hlt rfl).mp htrace.refcnt
      refine ⟨hnew, hzero, fun slot' hslot' => ?_⟩
      obtain rfl := Option.some.inj (hslot.symm.trans hslot')
      exact ⟨hone, absurd hid⟩
    · rintro ⟨-, hzero, hcorner⟩
      have hsame := hlive.mpr hzero
      obtain rfl := populate_memberless hzero hpop
      exact ⟨hsame, (refcnt_new_iff hlt rfl).mpr (hcorner slot hslot).1, fun k => rfl⟩
  | indexed hnew _ hslot t hpop hid ht hins =>
    obtain ⟨_, hfill⟩ := exists_filling hgood.top hslot hpop
    have hins : s.nhHt.insert malloc nh.kernelNhId slot = some ht := by
      rw [← hfill.nhHt]
      exact hins
    have hlive := sameLive_new_iff hgood hslot hpop (u := { updateHint t slot with nhHt := ht })
      rfl rfl
    constructor
    · intro htrace
      have hzero := hlive.mp htrace.live
      obtain rfl := populate_memberless hzero hpop
      have hone := (refcnt_new_iff hlt rfl).mp htrace.refcnt
      refine ⟨hnew, hzero, fun slot' hslot' => ?_⟩
      obtain rfl := Option.some.inj (hslot.symm.trans hslot')
      have hfind : ht.find nh.kernelNhId = s.nhHt.find nh.kernelNhId := htrace.index _
      refine ⟨hone, fun _ => ?_⟩
      rw [← hfind, HashTable.find_insert hins, if_pos (by simp [nexthopKeyOps, nexthopEqKernelNhId])]
    · rintro ⟨-, hzero, hcorner⟩
      obtain ⟨hone, hid'⟩ := hcorner slot hslot
      have hsame := hlive.mpr hzero
      obtain rfl := populate_memberless hzero hpop
      refine ⟨hsame, (refcnt_new_iff hlt rfl).mpr hone, fun k => ?_⟩
      show ht.find k = s.nhHt.find k
      rw [HashTable.find_insert hins]
      split
      · next heq =>
        obtain rfl : nh.kernelNhId = k := by simpa [nexthopKeyOps, nexthopEqKernelNhId] using heq
        exact (hid' hid).symm
      · rfl

end Group

/-! ## The handler -/

section Handler

variable {env : Env} {r : Routing} {msg : InternalMsgRouteEntry}

/-- The answer of `rib_route_add` is never positive. -/
theorem ribRouteAdd_not_pos (t : RibTree) (key : IpAddr) (keylen : Nat) (data : RouteEntry) :
    ¬(ribRouteAdd env.mallocRibNode t key keylen data).2 > 0 := by
  rcases Radix.ribRouteAdd_cases env.mallocRibNode t key keylen data with ⟨hok, -⟩ | ⟨hfail, -⟩
  · rw [hok]
    decide
  · rw [hfail]
    decide

/-- A route that is not stored is not in the RIB, which is as it was. -/
theorem routeAt_of_not_stored (h : ¬RouteStored env r msg) (x : RouteKey) :
    routeAt (r.routeEntryAdd env msg).ribTreeMaster x = routeAt r.ribTreeMaster x := by
  have hadded := routeAdded env r msg
  generalize r.routeEntryAdd env msg = r' at hadded
  cases hadded with
  | refused => rfl
  | noTable => rfl
  | @tabled nh slot i t hadd hfound hi htable =>
    obtain ⟨j, p⟩ := x
    rw [routeAt_update]
    split
    · next hj =>
      obtain rfl : j = i := hj
      rcases Radix.ribRouteAdd_cases env.mallocRibNode t msg.dst.dstIpAddr msg.dst.plen
        ⟨msg.dst, slot⟩ with ⟨hok, -⟩ | ⟨-, hroutes⟩
      · exact absurd ⟨slot, j, t, by rw [hadd], hfound, hok⟩ h
      · exact (hroutes p).trans (htable.routes_eq p)
    · rfl

/-- One that is stored is there. -/
theorem routeAt_of_stored (h : RouteStored env r msg) :
    ∃ slot i t, (r.routeEntryAdd env msg).ribTreeMaster i = some t ∧ t.family = msg.family
      ∧ t.tableId = msg.tableId
      ∧ routeAt (r.routeEntryAdd env msg).ribTreeMaster (i, prefixOf msg.dst.dstIpAddr msg.dst.plen)
        = some ⟨msg.dst, slot⟩ := by
  obtain ⟨slot, i, t, hslot, hfound, hok⟩ := h
  have hadded := routeAdded env r msg
  generalize r.routeEntryAdd env msg = r' at hadded
  cases hadded with
  | refused hadd =>
    rw [hadd] at hslot
    cases hslot
  | noTable hadd htable => cases htable.symm.trans hfound
  | @tabled nh slot' i' t' hadd hfound' hi htable hfamily htableId =>
    obtain ⟨rfl, hupdate⟩ := Prod.mk.inj (Option.some.inj (hfound.symm.trans hfound'))
    obtain rfl : t = t' := by simpa using congrFun hupdate i
    rw [hadd] at hslot
    obtain rfl := Option.some.inj hslot
    refine ⟨slot', i, _, Function.update_self .., hfamily, htableId, ?_⟩
    rw [routeAt_stored htable (Radix.ribRouteAdd_success_iff.mp hok), if_pos rfl]

/-- With a group, the route is stored if there is room for it. -/
theorem routeStored_iff {slot : Nat}
    (h : (nexthopAddEntry env.mallocNhNode r.nh msg.nh).2 = some slot) :
    RouteStored env r msg ↔ HasRoom env r msg := by
  constructor
  · rintro ⟨_, i, t, -, hfound, hok⟩
    exact ⟨i, t, hfound, Radix.ribRouteAdd_success_iff.mp hok⟩
  · rintro ⟨i, t, hfound, hmemory⟩
    exact ⟨slot, i, t, h, hfound, Radix.ribRouteAdd_success_iff.mpr hmemory⟩

theorem routeAddClean_iff (hgood : NhGood r.nh) :
    RouteAddClean env r msg ↔ AddsClean env r msg := by
  rw [RouteAddClean, AddsClean, refused_iff hgood]
  have hadded := routeAdded env r msg
  generalize r.routeEntryAdd env msg = r' at hadded
  cases hadded with
  | @refused nh hadd =>
    have hnot : ¬RouteStored env r msg := by
      rintro ⟨slot, i, t, hslot, -⟩
      rw [hadd] at hslot
      cases hslot
    have hfailed : routeEntryAddFailed env r msg = true := by simp only [routeEntryAddFailed, hadd]
    rw [← noTrace_refused_iff hgood hadd, hadd]
    simp [hnot, hfailed]
  | @noTable nh slot hadd htable =>
    have hnone : ¬HasRoom env r msg := by
      rintro ⟨i, t, hfound, -⟩
      cases htable.symm.trans hfound
    have hslot : (nexthopAddEntry env.mallocNhNode r.nh msg.nh).2 = some slot := by rw [hadd]
    have hfailed : routeEntryAddFailed env r msg = true := by
      simp only [routeEntryAddFailed, hadd, htable]
    rw [routeStored_iff hslot, hslot, RefcntExact.nexthopIncrement (hgood.addSlot_lt hadd),
      noTrace_accepted_iff hgood hadd]
    simp [hnone, hfailed, htable]
  | @tabled nh slot i t hadd hfound hi htable =>
    -- what goes wrong here is not seen
    have hslot : (nexthopAddEntry env.mallocNhNode r.nh msg.nh).2 = some slot := by rw [hadd]
    have hfailed : routeEntryAddFailed env r msg = false := by
      simp only [routeEntryAddFailed, hadd, hfound, Function.update_self, Option.any_some]
      exact decide_eq_false (ribRouteAdd_not_pos _ _ _ _)
    rw [routeStored_iff hslot, hslot]
    simp [hfailed, hfound]

end Handler

/-! ## Runs -/

theorem nhGood_routed (events : List (Env × RoutingMsg)) : NhGood (routed events).nh := by
  unfold routed
  induction events using List.reverseRecOn with
  | nil => exact NhGood.init
  | append_singleton events e ih =>
    rw [List.foldl_append]
    exact ih.routing e.1 e.2

/-- **A route that is not stored leaves no trace, and the handler knows, if and only if** its group
    is refused without a trace, or it has room, or it has no table and a group without members in a
    slot that had one reference. -/
theorem routeEntryAdd_clean_iff (events : List (Env × RoutingMsg)) (env : Env)
    (msg : InternalMsgRouteEntry) :
    RouteAddClean env (routed events) msg ↔ AddsClean env (routed events) msg :=
  routeAddClean_iff (nhGood_routed events)

/-- There is no memory for a node of the tree: the group stays, and the route counts as added. -/
theorem lost_route_kept : ¬ ∀ (events : List (Env × RoutingMsg)) (env : Env)
    (msg : InternalMsgRouteEntry), RouteAddClean env (routed events) msg := by
  intro hall
  have hstored : ¬RouteStored { Env.plain with mallocRibNode := fun _ => false } (routed [])
      defaultRoute := by
    rintro ⟨slot, i, t, -, hfound, hok⟩
    obtain ⟨-, t', hupdate, htable, -⟩ := routeTable_some hfound
    obtain rfl : t = t' := by simpa using congrFun hupdate i
    rcases htable with ht | ⟨-, hroot⟩
    · cases ht
    · have hmemory := Radix.ribRouteAdd_success_iff.mp hok 0
      rw [hroot] at hmemory
      exact absurd (hmemory Nat.one_pos) (by decide)
  have hclean := hall [] { Env.plain with mallocRibNode := fun _ => false } defaultRoute hstored
  exact absurd hclean.2 (by decide +kernel)

end SdPlane

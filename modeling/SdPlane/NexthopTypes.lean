import SdPlane.Routing

/-!
# What a pool of gateways is made of

A slot of `info_pool` is written when a gateway is put in, cleared when it is given up, and counted
up and down in between. So a property that the gateways of all messages have, all slots have, and
the count has no part in it (`Pooled`).

The property that is needed is about the type. `_info_find` shares a slot by family, address and
interface, and leaves the type of the first message there. That is the type of the second one as
well when a connected next hop is one without an address (`NhInfo.Typed`).
-/

set_option autoImplicit false

namespace SdPlane

/-- A next hop is connected when it has no address. -/
def NhInfo.Typed (x : NhInfo) : Prop := x.type = .connected ↔ x.gw = .zero

/-- The gateways that are given by content. -/
def InternalMsgNhEntry.Typed (nh : InternalMsgNhEntry) : Prop := ∀ i, (nh.members i).info.Typed

/-- Every slot of the pool has the property. -/
def Pooled (P : NhInfo → Prop) (s : Nexthop) : Prop := ∀ idx, P (s.infoPool idx)

/-- The property is not about the count, and a slot that was cleared has it. -/
structure Uncounted (P : NhInfo → Prop) : Prop where
  zero : P .zero
  count : ∀ x refcnt, P x → P { x with refcnt := refcnt }

theorem uncounted_typed : Uncounted NhInfo.Typed where
  zero := ⟨fun _ => rfl, fun _ => rfl⟩
  count _ _ h := h

theorem NhInfo.Typed.type_eq {x y : NhInfo} (hx : x.Typed) (hy : y.Typed) (h : x.same y = true) :
    x.type = y.type := by
  simp only [NhInfo.same, Bool.and_eq_true, decide_eq_true_eq] at h
  have hiff : x.type = .connected ↔ y.type = .connected := by
    rw [show (x.type = .connected ↔ x.gw = .zero) from hx,
      show (y.type = .connected ↔ y.gw = .zero) from hy, h.1.2]
  cases hxt : x.type with
  | connected => exact (hiff.mp hxt).symm
  | gateway =>
    cases hyt : y.type with
    | connected => exact absurd (hiff.mpr hyt) (by rw [hxt]; exact NexthopType.noConfusion)
    | gateway => rfl

/-! ## One operation -/

section Operations

variable {P : NhInfo → Prop} {s : NhState}

theorem pooled_init (h : Uncounted P) : Pooled P nexthopInit.toNexthop := fun _ => h.zero

theorem Pooled.setInfo (h : Pooled P s.toNexthop) {idx : Nat} {x : NhInfo} (hx : P x) :
    Pooled P (s.setInfo idx x).toNexthop := by
  intro i
  by_cases heq : i = idx
  · subst heq
    simpa [NhState.setInfo] using hx
  · simpa [NhState.setInfo, heq] using h i

/-- What only writes groups. -/
theorem Pooled.congr {t : NhState} (h : Pooled P s.toNexthop) (hpool : t.infoPool = s.infoPool) :
    Pooled P t.toNexthop := fun i => by
  rw [hpool]
  exact h i

theorem Pooled.holdInfo (hP : Uncounted P) (h : Pooled P s.toNexthop) (idx : Nat) :
    Pooled P (s.holdInfo idx).toNexthop :=
  h.setInfo (hP.count _ _ (h idx))

theorem Pooled.infoAlloc (hP : Uncounted P) (h : Pooled P s.toNexthop) {src : NhInfo} (hsrc : P src)
    {idx : Nat} {t : NhState} (halloc : infoAlloc s src = some (idx, t)) : Pooled P t.toNexthop := by
  unfold SdPlane.infoAlloc at halloc
  split at halloc
  · obtain ⟨-, rfl⟩ := Prod.mk.inj (Option.some.inj halloc)
    exact h.holdInfo hP _
  · split at halloc
    · obtain ⟨-, rfl⟩ := Prod.mk.inj (Option.some.inj halloc)
      exact Pooled.congr (h.setInfo (hP.count _ _ hsrc)) rfl
    · cases halloc

theorem Pooled.infoRelease (hP : Uncounted P) (h : Pooled P s.toNexthop) (idx : Int) :
    Pooled P (infoRelease s idx).toNexthop := by
  unfold SdPlane.infoRelease
  split
  · exact h
  · dsimp only
    split
    · exact h.setInfo hP.zero
    · exact h.setInfo (hP.count _ _ (h _))

theorem Pooled.releaseInfos (hP : Uncounted P) (h : Pooled P s.toNexthop) (slot n : Nat) :
    Pooled P (releaseInfos s slot n).toNexthop :=
  Lib.forUpTo_rule (fun _ (s : NhState) => Pooled P s.toNexthop) h fun _ _ _ h => h.infoRelease hP _

theorem Pooled.releaseMembers (hP : Uncounted P) (h : Pooled P s.toNexthop) (slot n : Nat) :
    Pooled P (releaseMembers s slot n).toNexthop := by
  refine Lib.forUpTo_rule (fun _ (s : NhState) => Pooled P s.toNexthop) h fun j s _ h => ?_
  unfold releaseMember
  dsimp only
  refine Pooled.infoRelease hP (h.congr ?_) _
  split
  · rfl
  · rfl

theorem Pooled.shareMember (hP : Uncounted P) (h : Pooled P s.toNexthop) (slot i refSlot w : Nat) :
    Pooled P (shareMember s slot i refSlot w).toNexthop := by
  unfold SdPlane.shareMember
  dsimp only
  split
  · exact Pooled.congr (Pooled.holdInfo hP (h.congr rfl) _) rfl
  · exact h.congr rfl

/-! ## A message -/

/-- What a call for an entry leaves behind. -/
def KeepsPooled (P : NhInfo → Prop) (add : NhState → InternalMsgNhEntry → NhState × Option Nat) : Prop :=
  ∀ s nh, Pooled P s.toNexthop → (∀ i, P (nh.members i).info) → Pooled P (add s nh).1.toNexthop

/-- What a round of a loop leaves behind, also when the function is left. -/
def PooledAfter (P : NhInfo → Prop) (r : Except NhState NhState) : Prop :=
  (∀ t, r = .ok t → Pooled P t.toNexthop) ∧ ∀ t, r = .error t → Pooled P t.toNexthop

theorem pooledAfter_ok (h : Pooled P s.toNexthop) : PooledAfter P (.ok s) := by
  refine ⟨fun t ht => ?_, fun t ht => ?_⟩
  · obtain rfl := Except.ok.inj ht
    exact h
  · cases ht

theorem pooledAfter_error (h : Pooled P s.toNexthop) : PooledAfter P (.error s) := by
  refine ⟨fun t ht => ?_, fun t ht => ?_⟩
  · cases ht
  · obtain rfl := Except.error.inj ht
    exact h

theorem Pooled.populateMember (hP : Uncounted P)
    {add : NhState → InternalMsgNhEntry → NhState × Option Nat} (hadd : KeepsPooled P add)
    {nh : InternalMsgNhEntry} (hnh : ∀ i, P (nh.members i).info) (h : Pooled P s.toNexthop)
    (slot i : Nat) : PooledAfter P (populateMember add nh slot i s) := by
  unfold SdPlane.populateMember
  dsimp only
  split
  · -- a group with a kernel id
    split
    · exact pooledAfter_ok (h.congr rfl)
    · exact pooledAfter_ok (h.shareMember hP slot i _ _)
  · split
    · -- one of several gateways gets a group of its own
      have hone : ∀ j, P ((standaloneEntry (nh.members i)).members j).info := by
        intro j
        simp only [standaloneEntry]
        split
        · exact hnh i
        · exact hP.zero
      have hself := hadd s (standaloneEntry (nh.members i)) h hone
      split
      · next heq =>
        rw [heq] at hself
        exact pooledAfter_error ((hself.releaseMembers hP slot i).congr rfl)
      · next heq =>
        rw [heq] at hself
        exact pooledAfter_ok (hself.shareMember hP slot i _ _)
    · split
      · exact pooledAfter_error ((h.releaseInfos hP slot i).congr rfl)
      · next halloc => exact pooledAfter_ok ((h.infoAlloc hP (hnh i) halloc).congr rfl)

theorem KeepsPooled.addEntryWith (hP : Uncounted P)
    {add : NhState → InternalMsgNhEntry → NhState × Option Nat} (hadd : KeepsPooled P add)
    (malloc : Bool) : KeepsPooled P (addEntryWith add malloc) := by
  intro s nh h hnh
  unfold SdPlane.addEntryWith
  split
  · exact h
  · split
    · exact h
    · next slot _ =>
      have hreserved : Pooled P (reserve s slot nh).toNexthop := h.congr rfl
      have hloop : PooledAfter P (populate add nh slot (reserve s slot nh)) :=
        Lib.forRange_rule (fun _ (s : NhState) => Pooled P s.toNexthop)
          (fun s : NhState => Pooled P s.toNexthop) hreserved
          fun i s _ h => h.populateMember hP hadd hnh slot i
      split
      · next hfailed => exact hloop.2 _ hfailed
      · next t hfilled =>
        have hfull := hloop.1 _ hfilled
        have hhint : Pooled P (updateHint t slot).toNexthop := hfull.congr rfl
        dsimp only
        split
        · split
          · exact (hhint.releaseInfos hP slot nh.nhcnt).congr rfl
          · exact hhint.congr rfl
        · exact hhint

theorem Pooled.nexthopAddEntry (hP : Uncounted P) (malloc : Bool) (h : Pooled P s.toNexthop)
    {nh : InternalMsgNhEntry} (hnh : ∀ i, P (nh.members i).info) :
    Pooled P (nexthopAddEntry malloc s nh).1.toNexthop := by
  have hnone : KeepsPooled P fun s _ => (s, none) := fun _ _ h _ => h
  exact KeepsPooled.addEntryWith hP (KeepsPooled.addEntryWith hP hnone malloc) malloc s nh h hnh

theorem Pooled.nexthopDelEntry (hP : Uncounted P) (h : Pooled P s.toNexthop) (nh : InternalMsgNhEntry) :
    Pooled P (nexthopDelEntry s nh).1.toNexthop := by
  unfold SdPlane.nexthopDelEntry
  split
  · exact h
  · next slot _ =>
    have hfree : ∀ t : NhState, t.infoPool = s.infoPool → Pooled P (freeGroup t slot).toNexthop :=
      fun t ht => Pooled.congr (Pooled.releaseMembers hP (h.congr ht) slot _) rfl
    dsimp only
    split
    · exact hfree _ rfl
    · exact hfree s rfl

theorem Pooled.nexthopAddRefcnt (h : Pooled P s.toNexthop) (sdplaneNhId d : Int) :
    Pooled P (nexthopAddRefcnt s sdplaneNhId d).toNexthop := by
  unfold SdPlane.nexthopAddRefcnt
  split
  · exact h.congr rfl
  · exact h

end Operations

/-- The next hops of the message. -/
def RoutingMsg.nextHops : RoutingMsg → InternalMsgNhEntry
  | .routeEntryAdd msg | .routeEntryDel msg => msg.nh
  | .nexthopEntryAdd msg | .nexthopEntryDel msg => msg

/-- **A message puts its own gateways into the pool, and nothing else.** -/
theorem Pooled.routing {P : NhInfo → Prop} (hP : Uncounted P) {r : Routing}
    (h : Pooled P r.nh.toNexthop) (env : Env) {msg : RoutingMsg}
    (hmsg : ∀ i, P (msg.nextHops.members i).info) : Pooled P (routingMessage env r msg).nh.toNexthop := by
  cases msg with
  | routeEntryAdd msg =>
    have hadded : Pooled P (SdPlane.nexthopAddEntry env.mallocNhNode r.nh msg.nh).1.toNexthop :=
      h.nexthopAddEntry hP env.mallocNhNode hmsg
    simp only [routingMessage, Routing.routeEntryAdd]
    split
    · next hadd =>
      rw [hadd] at hadded
      exact hadded
    · next hadd =>
      rw [hadd] at hadded
      split
      · exact Pooled.nexthopAddRefcnt hadded _ 1
      · exact Pooled.nexthopAddRefcnt hadded _ 1
  | routeEntryDel msg =>
    have hdeleted : Pooled P (Routing.routeEntryDelNexthop r.nh msg).1.toNexthop := by
      unfold Routing.routeEntryDelNexthop
      split
      · exact h
      · exact h.nexthopDelEntry hP _
    simp only [routingMessage, Routing.routeEntryDel]
    split
    · next hdel =>
      rw [hdel] at hdeleted
      exact hdeleted
    · next hdel =>
      rw [hdel] at hdeleted
      split
      · exact Pooled.nexthopAddRefcnt hdeleted _ (-1)
      · exact Pooled.nexthopAddRefcnt hdeleted _ (-1)
  | nexthopEntryAdd nh => exact h.nexthopAddEntry hP env.mallocNhNode hmsg
  | nexthopEntryDel nh => exact h.nexthopDelEntry hP nh

end SdPlane

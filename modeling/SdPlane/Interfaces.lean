import SdPlane.RibCheck
import SdPlane.Wiring

/-!
# Router and capture interfaces (`router_if_delete`, `capture_if_delete`)

A vswitch has a router interface and a capture interface, each with a ring up and a ring down;
`RingKind` names the four. The pointers are in two places: in the vswitch (`VswitchConf.ring`),
where the forwarding threads find them, and in global arrays (`Rings.ring`), which the RIB manager
keeps from one version to the next.

The functions that write to both are stated here once, for any kind: deleting an interface of
either sort, and the loop of `rib_check` that creates what is missing.
-/

set_option autoImplicit false

namespace SdPlane

inductive RingKind
  | routerUp
  | routerDn
  | captureUp
  | captureDn
deriving DecidableEq

/-- The ring in the global arrays. -/
def Rings.ring (rings : Rings) : RingKind → Nat → Nat
  | .routerUp => rings.routerIfRingUp
  | .routerDn => rings.routerIfRingDn
  | .captureUp => rings.captureIfRingUp
  | .captureDn => rings.captureIfRingDn

/-- The ring in the vswitch. -/
def VswitchConf.ring (v : VswitchConf) : RingKind → Nat
  | .routerUp => v.routerIf.ringUp
  | .routerDn => v.routerIf.ringDn
  | .captureUp => v.captureIf.ringUp
  | .captureDn => v.captureIf.ringDn

/-- The two sorts of interfaces. -/
inductive IfKind
  | router
  | capture
deriving DecidableEq

def RingKind.owner : RingKind → IfKind
  | .routerUp | .routerDn => .router
  | .captureUp | .captureDn => .capture

/-- The socket of the interface, negative where there is none. -/
def VswitchConf.sockfd (v : VswitchConf) : IfKind → Int
  | .router => v.routerIf.sockfd
  | .capture => v.captureIf.sockfd

def VswitchConf.tapName (v : VswitchConf) : IfKind → CharBuf
  | .router => v.routerIf.tapName
  | .capture => v.captureIf.tapName

/-- The vswitch as it is left without the interface. -/
def VswitchConf.drop (v : VswitchConf) : IfKind → VswitchConf
  | .router => { v with
      routerIf := { RouterIf.zero with sockfd := -1, tapRingId := 65535, ifindex := -1 } }
  | .capture => { v with captureIf := { CaptureIf.zero with sockfd := -1, tapRingId := 65535 } }

/-- `router_if_delete` and `capture_if_delete`. -/
def ifDelete : IfKind → RibConf → Rings → UInt16 → Except Fault (RibConf × Rings)
  | .router => routerIfDelete
  | .capture => captureIfDelete

/-! ## Deleting -/

/-- What deleting an interface has done: the vswitch is found by its id, and the rings by the id
    itself. -/
structure IfDeleted (kind : IfKind) (c : RibConf) (rings : Rings) (vswitchId : UInt16) (i : Nat)
    (d : RibConf) (rings' : Rings) : Prop where
  lookup : vswitchLookup c vswitchId = some i
  bound : vswitchId.toNat < MAX_VSWITCH
  conf : d = c.setVswitch i fun v => v.drop kind
  ring : ∀ k j, rings'.ring k j
    = if k.owner = kind ∧ j = vswitchId.toNat then 0 else rings.ring k j

theorem ifDeleted_ok {kind : IfKind} {c d : RibConf} {rings rings' : Rings} {vswitchId : UInt16}
    (h : ifDelete kind c rings vswitchId = .ok (d, rings')) :
    ∃ i, IfDeleted kind c rings vswitchId i d rings' := by
  cases kind with
  | router =>
    unfold ifDelete routerIfDelete at h
    dsimp only at h
    split at h
    · cases h
    · next i hlookup =>
      obtain ⟨_, hbound, h⟩ := bind_ok h
      obtain ⟨rfl, rfl⟩ := Prod.mk.inj (Except.ok.inj h)
      refine ⟨i, hlookup, inBounds_ok hbound, rfl, fun k j => ?_⟩
      cases k <;> simp [Rings.ring, RingKind.owner, Function.update_apply]
  | capture =>
    unfold ifDelete captureIfDelete at h
    dsimp only at h
    split at h
    · cases h
    · next i hlookup =>
      obtain ⟨_, hbound, h⟩ := bind_ok h
      obtain ⟨rfl, rfl⟩ := Prod.mk.inj (Except.ok.inj h)
      refine ⟨i, hlookup, inBounds_ok hbound, rfl, fun k j => ?_⟩
      cases k <;> simp [Rings.ring, RingKind.owner, Function.update_apply]

theorem exists_ifDelete {kind : IfKind} {c : RibConf} {vswitchId : UInt16} {i : Nat}
    (hlookup : vswitchLookup c vswitchId = some i) (hbound : vswitchId.toNat < MAX_VSWITCH)
    (rings : Rings) : ∃ r, ifDelete kind c rings vswitchId = .ok r := by
  cases kind with
  | router =>
    simp only [ifDelete, routerIfDelete, hlookup, inBounds, hbound, if_true, bind, Except.bind]
    exact ⟨_, rfl⟩
  | capture =>
    simp only [ifDelete, captureIfDelete, hlookup, inBounds, hbound, if_true, bind, Except.bind]
    exact ⟨_, rfl⟩

section Drop

variable (v : VswitchConf) (kind : IfKind)

@[simp] theorem drop_vswitchId : (v.drop kind).vswitchId = v.vswitchId := by cases kind <;> rfl

@[simp] theorem drop_isDeleted : (v.drop kind).isDeleted = v.isDeleted := by cases kind <;> rfl

theorem drop_keeps : ∃ rif cif, v.drop kind = { v with routerIf := rif, captureIf := cif } := by
  cases kind <;> exact ⟨_, _, rfl⟩

@[simp] theorem drop_ring (k : RingKind) :
    (v.drop kind).ring k = if k.owner = kind then 0 else v.ring k := by
  cases kind <;> cases k <;> rfl

end Drop

theorem IfDeleted.keepsWiring {kind : IfKind} {c d : RibConf} {rings rings' : Rings}
    {vswitchId : UInt16} {i : Nat} (h : IfDeleted kind c rings vswitchId i d rings') :
    KeepsWiring c d := by
  rw [h.conf]
  exact (Peripheral.setVswitch i fun v => drop_keeps v kind).toKeepsWiring

/-- Ids stay in their slots, so they are found there. -/
theorem KeepsWiring.lookup {c d : RibConf} (h : KeepsWiring c d) (vswitchId : UInt16) :
    vswitchLookup d vswitchId = vswitchLookup c vswitchId := by
  have hslot : ∀ i, (d.vswitch i).vswitchId = (c.vswitch i).vswitchId
      ∧ (d.vswitch i).isDeleted = (c.vswitch i).isDeleted := by
    intro i
    obtain ⟨rif, cif, hi⟩ := h.vswitch i
    rw [hi]
    exact ⟨rfl, rfl⟩
  unfold vswitchLookup
  rw [h.vswitchSize]
  congr 1
  funext i
  rw [(hslot i).1, (hslot i).2]

end SdPlane

import SdPlane.Lib.Entries
import SdPlane.RibConfSpec

/-!
# Vswitches, links and ports (`rib_manager.c`)

A vswitch lists its links, a port lists its tagged links and names a native one, and a link
names its vswitch and its port. `Wired` is what is true of these tables after every message,
whatever the messages are: lists stay within their arrays, a link that a vswitch lists is in use
and names that vswitch, no vswitch lists a link twice, and the id of a vswitch in use belongs to
no slot in front of it. That last point is why the forwarding threads, which search for an id
without looking at `is_deleted`, still find the vswitch in use if there is one.

How a port refers to its links is not part of it. There the code goes wrong.
-/

set_option autoImplicit false

namespace SdPlane

/-! ## The tables as lists -/

/-- `vswitch_link_id[0 .. vswitch_port_size)`. -/
def VswitchConf.links (v : VswitchConf) : List UInt16 :=
  Lib.entries v.vswitchLinkId v.vswitchPortSize.toNat

/-- `vswitch_link_id_of_vlan[0 .. vlan_size)`. -/
def PortConf.vlans (p : PortConf) : List UInt16 :=
  Lib.entries p.vswitchLinkIdOfVlan p.vlanSize.toNat

namespace RibConf

def LiveVswitch (c : RibConf) (i : Nat) : Prop :=
  i < c.vswitchSize.toNat ∧ (c.vswitch i).isDeleted = false

def LiveLink (c : RibConf) (l : Nat) : Prop :=
  l < c.vswitchLinkSize.toNat ∧ (c.vswitchLink l).isDeleted = false

instance (c : RibConf) (l : Nat) : Decidable (c.LiveLink l) := inferInstanceAs (Decidable (_ ∧ _))

section Writes

variable (c : RibConf) (i j : Nat) (f : VswitchConf → VswitchConf) (g : VswitchLink → VswitchLink)
  (h : PortConf → PortConf)

@[simp] theorem setVswitch_vswitch :
    (c.setVswitch i f).vswitch j = if j = i then f (c.vswitch i) else c.vswitch j :=
  Function.update_apply ..

@[simp] theorem setVswitch_vswitchLink : (c.setVswitch i f).vswitchLink = c.vswitchLink := rfl
@[simp] theorem setVswitch_port : (c.setVswitch i f).port = c.port := rfl
@[simp] theorem setVswitch_vswitchSize : (c.setVswitch i f).vswitchSize = c.vswitchSize := rfl
@[simp] theorem setVswitch_vswitchLinkSize :
    (c.setVswitch i f).vswitchLinkSize = c.vswitchLinkSize := rfl

@[simp] theorem setLink_vswitchLink :
    (c.setLink i g).vswitchLink j = if j = i then g (c.vswitchLink i) else c.vswitchLink j :=
  Function.update_apply ..

@[simp] theorem setLink_vswitch : (c.setLink i g).vswitch = c.vswitch := rfl
@[simp] theorem setLink_port : (c.setLink i g).port = c.port := rfl
@[simp] theorem setLink_vswitchSize : (c.setLink i g).vswitchSize = c.vswitchSize := rfl
@[simp] theorem setLink_vswitchLinkSize : (c.setLink i g).vswitchLinkSize = c.vswitchLinkSize := rfl

@[simp] theorem setPort_port :
    (c.setPort i h).port j = if j = i then h (c.port i) else c.port j :=
  Function.update_apply ..

@[simp] theorem setPort_vswitch : (c.setPort i h).vswitch = c.vswitch := rfl
@[simp] theorem setPort_vswitchLink : (c.setPort i h).vswitchLink = c.vswitchLink := rfl
@[simp] theorem setPort_vswitchSize : (c.setPort i h).vswitchSize = c.vswitchSize := rfl
@[simp] theorem setPort_vswitchLinkSize : (c.setPort i h).vswitchLinkSize = c.vswitchLinkSize := rfl

end Writes

end RibConf

/-! ## Taking a link out of a list -/

theorem entries_shiftDown {α : Type} (arr : Nat → α) {i size : Nat} (hi : i < size) :
    Lib.entries (shiftDown arr i size) (size - 1) = (Lib.entries arr size).eraseIdx i := by
  apply Lib.entries_eraseIdx hi
  intro j hj
  simp [shiftDown, hj]

theorem toNat_pred {n : UInt16} (h : 0 < n.toNat) : (n - 1).toNat = n.toNat - 1 := by
  have hle : (1 : UInt16) ≤ n := UInt16.le_iff_toNat_le.mpr h
  rw [UInt16.toNat_sub_of_le _ _ hle]
  rfl

/-- Nothing but the list of the vswitch changes. -/
theorem linkRemoved (l : UInt16) (v : VswitchConf) : ∃ arr size,
    vswitchLinkRemoveFromVswitchPortArray l v
      = { v with vswitchLinkId := arr, vswitchPortSize := size } := by
  unfold vswitchLinkRemoveFromVswitchPortArray
  apply Lib.forUpTo_rule fun _ (w : VswitchConf) =>
    ∃ arr size, w = { v with vswitchLinkId := arr, vswitchPortSize := size }
  · exact ⟨_, _, rfl⟩
  · rintro i w - ⟨arr, size, rfl⟩
    split
    · exact ⟨_, _, rfl⟩
    · exact ⟨_, _, rfl⟩

/-- The vswitch takes the link off its list. -/
theorem links_remove {v : VswitchConf} {l : UInt16} (hnodup : v.links.Nodup) :
    ∃ arr size, vswitchLinkRemoveFromVswitchPortArray l v
        = { v with vswitchLinkId := arr, vswitchPortSize := size }
      ∧ Lib.entries arr size.toNat = v.links.erase l := by
  have hgone : (vswitchLinkRemoveFromVswitchPortArray l v).links = v.links.erase l := by
    have hlength : v.vswitchPortSize.toNat = v.links.length := (Lib.length_entries _ _).symm
    rw [vswitchLinkRemoveFromVswitchPortArray, hlength]
    apply Lib.erase_loop VswitchConf.links hnodup
    · intro i w hl
      have hl := Lib.getElem?_entries.mp hl
      rw [if_pos hl, VswitchConf.links, toNat_pred (Nat.zero_lt_of_lt hl.1),
        entries_shiftDown _ hl.1]
      rfl
    · intro i w hl
      rw [if_neg fun hl' => hl (Lib.getElem?_entries.mpr hl')]
  obtain ⟨arr, size, hremoved⟩ := linkRemoved l v
  rw [hremoved] at hgone
  exact ⟨arr, size, hremoved, hgone⟩

/-- Nothing but the links of the port changes. -/
theorem portLinkRemoved (l : UInt16) (p : PortConf) : ∃ arr size native,
    vswitchLinkRemoveFromPortVlanArray l p = { p with
      vswitchLinkIdOfVlan := arr, vlanSize := size, vswitchLinkIdOfNativeVlan := native } := by
  unfold vswitchLinkRemoveFromPortVlanArray
  split
  · exact ⟨_, _, _, rfl⟩
  · split
    · exact ⟨_, _, _, rfl⟩
    · exact ⟨_, _, _, rfl⟩

/-- The port takes a tagged link off its list, unless the link is also its native one and does
    not come first. -/
theorem vlans_remove {p : PortConf} {l : UInt16}
    (h : p.vswitchLinkIdOfNativeVlan = l → 0 < p.vlanSize.toNat → p.vswitchLinkIdOfVlan 0 = l) :
    ∃ arr size, vswitchLinkRemoveFromPortVlanArray l p
        = { p with vswitchLinkIdOfVlan := arr, vlanSize := size }
      ∧ Lib.entries arr size.toNat = p.vlans.erase l := by
  unfold vswitchLinkRemoveFromPortVlanArray
  split
  · next hnone =>
    refine ⟨p.vswitchLinkIdOfVlan, p.vlanSize, rfl, ?_⟩
    rw [List.erase_of_not_mem]
    · rfl
    · intro hmem
      obtain ⟨k, hk, hl⟩ := Lib.mem_entries.mp hmem
      have hno := List.find?_eq_none.mp hnone k (List.mem_range.mpr hk)
      simp [hl] at hno
  · next i hfind =>
    obtain ⟨hp, hi, hbefore⟩ := List.find?_range_eq_some.mp hfind
    have hi := List.mem_range.mp hi
    have hl : p.vswitchLinkIdOfVlan i = l := by
      by_cases hnative : p.vswitchLinkIdOfNativeVlan = l
      · -- then the loop stops in its first round
        have hhead := h hnative (Nat.zero_lt_of_lt hi)
        rcases Nat.eq_zero_or_pos i with rfl | hpos
        · exact hhead
        · have hno := hbefore 0 hpos
          simp [hnative] at hno
      · simpa [hnative] using hp
    rw [if_pos hl]
    refine ⟨_, _, rfl, ?_⟩
    rw [toNat_pred (Nat.zero_lt_of_lt hi), entries_shiftDown _ hi]
    apply Lib.eraseIdx_eq_erase (by simpa using hi)
    · simpa using hl
    · intro j hj hlt
      have hno := hbefore j hj
      simp only [Bool.not_eq_true', Bool.or_eq_false_iff, decide_eq_false_iff_not] at hno
      simpa using hno.1

/-- A native link is forgotten by a port that has tagged ones. -/
theorem native_remove {p : PortConf} {l : UInt16} (hsize : 0 < p.vlanSize.toNat)
    (hnative : p.vswitchLinkIdOfNativeVlan = l) (hhead : p.vswitchLinkIdOfVlan 0 ≠ l) :
    vswitchLinkRemoveFromPortVlanArray l p = { p with vswitchLinkIdOfNativeVlan := 65535 } := by
  have hfind : ((List.range p.vlanSize.toNat).find? fun i =>
      decide (p.vswitchLinkIdOfVlan i = l) || decide (p.vswitchLinkIdOfNativeVlan = l)) = some 0 := by
    rw [List.find?_range_eq_some]
    refine ⟨by simp [hnative], List.mem_range.mpr hsize, fun j hj => absurd hj (Nat.not_lt_zero j)⟩
  unfold vswitchLinkRemoveFromPortVlanArray
  rw [hfind]
  simp [hhead]

/-- A port without tagged links does nothing: the loop has no round. -/
theorem remove_of_no_vlans {p : PortConf} (l : UInt16) (hsize : p.vlanSize.toNat = 0) :
    vswitchLinkRemoveFromPortVlanArray l p = p := by
  unfold vswitchLinkRemoveFromPortVlanArray
  rw [hsize]
  rfl

/-! ## Lookups -/

theorem inBounds_ok {i size : Nat} {u : Unit} (h : inBounds i size = .ok u) : i < size := by
  unfold inBounds at h
  split at h
  · assumption
  · cases h

theorem vswitchLookup_some {c : RibConf} {vswitchId : UInt16} {i : Nat}
    (h : vswitchLookup c vswitchId = some i) :
    c.LiveVswitch i ∧ (c.vswitch i).vswitchId = vswitchId := by
  obtain ⟨hp, hi, -⟩ := List.find?_range_eq_some.mp h
  simp only [Bool.and_eq_true, decide_eq_true_eq, Bool.not_eq_true'] at hp
  exact ⟨⟨List.mem_range.mp hi, hp.2⟩, hp.1⟩

theorem vswitchLookup_none {c : RibConf} {vswitchId : UInt16}
    (h : vswitchLookup c vswitchId = none) {i : Nat} (hi : c.LiveVswitch i) :
    (c.vswitch i).vswitchId ≠ vswitchId := by
  have hno := List.find?_eq_none.mp h i (List.mem_range.mpr hi.1)
  intro hid
  simp [hid, hi.2] at hno

theorem vswitchLinkLookup_some {c : RibConf} {vswitch port l : Nat}
    (h : vswitchLinkLookup c vswitch port = some l) :
    c.LiveLink l ∧ (c.vswitchLink l).vswitchId = (c.vswitch vswitch).vswitchId
      ∧ (c.vswitchLink l).portId = (c.port port).dpdkPortId := by
  obtain ⟨hp, hl, -⟩ := List.find?_range_eq_some.mp h
  simp only [Bool.and_eq_true, decide_eq_true_eq, Bool.not_eq_true'] at hp
  exact ⟨⟨List.mem_range.mp hl, hp.2⟩, hp.1.1, hp.1.2⟩

/-! ## A new vswitch -/

/-- What `vswitch_new` has done. -/
structure VswitchNew (c : RibConf) (vswitchId vlanId : UInt16) (i : Nat) (d : RibConf) : Prop where
  free : ¬ c.LiveVswitch i
  bound : c.vswitchSize.toNat ≤ MAX_VSWITCH → i < MAX_VSWITCH
  le : i ≤ c.vswitchSize.toNat
  /-- It is the first free slot. -/
  before : ∀ j, j < i → c.LiveVswitch j
  size : d.vswitchSize.toNat = max c.vswitchSize.toNat (i + 1)
  others : ∀ j, j ≠ i → d.vswitch j = c.vswitch j
  id : (d.vswitch i).vswitchId = vswitchId
  vlan : (d.vswitch i).vlanId = vlanId
  live : (d.vswitch i).isDeleted = false
  /-- A slot that is used again is cleared first. -/
  ports : (d.vswitch i).vswitchPortSize = 0
    ∨ c.vswitchSize.toNat ≤ i ∧ (d.vswitch i).vswitchPortSize = (c.vswitch i).vswitchPortSize
  routerIf : (d.vswitch i).routerIf.sockfd = -1
  linkSize : d.vswitchLinkSize = c.vswitchLinkSize
  link : d.vswitchLink = c.vswitchLink
  port : d.port = c.port

theorem vswitchNew_some {c d : RibConf} {vswitchId vlanId : UInt16} {i : Nat}
    (h : vswitchNew c vswitchId vlanId = some (i, d)) : VswitchNew c vswitchId vlanId i d := by
  simp only [vswitchNew] at h
  split at h
  · next hfind =>
    obtain ⟨rfl, rfl⟩ := Prod.mk.inj (Option.some.inj h)
    obtain ⟨hdeleted, hi, hbefore⟩ := List.find?_range_eq_some.mp hfind
    have hi := List.mem_range.mp hi
    refine ⟨fun hlive => by simp [hlive.2] at hdeleted, hi.trans_le, hi.le,
      fun j hj => ⟨hj.trans hi, by simpa using hbefore j hj⟩, ?_, fun j hj => by simp [hj], ?_, ?_, ?_,
      .inl ?_, ?_, rfl, rfl, rfl⟩
    · exact (Nat.max_eq_left (Nat.succ_le_of_lt hi)).symm
    all_goals simp [VswitchConf.zero]
  · next hfind =>
    split at h
    · cases h
    · next hroom =>
      obtain ⟨rfl, rfl⟩ := Prod.mk.inj (Option.some.inj h)
      have hroom : c.vswitchSize.toNat < MAX_VSWITCH := Nat.lt_of_not_le hroom
      have hnone := List.find?_eq_none.mp hfind
      refine ⟨fun hlive => absurd hlive.1 (Nat.lt_irrefl _), fun _ => hroom, le_rfl,
        fun j hj => ⟨hj, by simpa using hnone j (List.mem_range.mpr hj)⟩, ?_,
        fun j hj => by simp [hj], ?_, ?_, ?_, .inr ⟨le_rfl, ?_⟩, ?_, rfl, rfl, rfl⟩
      · rw [Nat.max_eq_right (Nat.le_succ _)]
        show (c.vswitchSize + 1).toNat = c.vswitchSize.toNat + 1
        have hlt : c.vswitchSize.toNat < 4 := hroom
        rw [UInt8.toNat_add]
        exact Nat.mod_eq_of_lt (by simp; omega)
      all_goals simp

/-! ## A new link -/

/-- A link becomes a port of the vswitch if there is room. -/
def VswitchConf.attached (v : VswitchConf) (l : UInt16) : VswitchConf :=
  if v.vswitchPortSize.toNat < MAX_VSWITCH_PORTS then
    { v with
      vswitchPortSize := v.vswitchPortSize + 1
      vswitchLinkId := Function.update v.vswitchLinkId v.vswitchPortSize.toNat l }
  else v

theorem toNat_succ {n : UInt16} (h : n.toNat < MAX_VSWITCH_PORTS) : (n + 1).toNat = n.toNat + 1 := by
  have hlt : n.toNat < 16 := h
  rw [UInt16.toNat_add]
  exact Nat.mod_eq_of_lt (by simp; omega)

theorem links_attached (v : VswitchConf) (l : UInt16) :
    (v.attached l).links
      = if v.vswitchPortSize.toNat < MAX_VSWITCH_PORTS then v.links ++ [l] else v.links := by
  unfold VswitchConf.attached
  split
  · next hroom =>
    simp only [VswitchConf.links, toNat_succ hroom]
    exact Lib.entries_push ..
  · rfl

/-- The slot that the next link takes: the first one that is free, or one more. -/
def freeLink (c : RibConf) : Option Nat :=
  match (List.range c.vswitchLinkSize.toNat).find? fun i => (c.vswitchLink i).isDeleted with
  | some l => some l
  | none => if c.vswitchLinkSize.toNat ≥ MAX_VSWITCH_LINK then none else some c.vswitchLinkSize.toNat

theorem freeLink_eq (c : RibConf) (vswitch port : Nat) :
    freeLink c = (vswitchLinkNew c vswitch port).map Prod.fst := by
  unfold freeLink vswitchLinkNew
  cases (List.range c.vswitchLinkSize.toNat).find? fun i => (c.vswitchLink i).isDeleted with
  | some l => rfl
  | none =>
    dsimp only
    split <;> rfl

theorem freeLink_of_some {c d : RibConf} {vswitch port l : Nat}
    (h : vswitchLinkNew c vswitch port = some (l, d)) : freeLink c = some l := by
  rw [freeLink_eq c vswitch port, h]
  rfl

/-- A new link of the vswitch in slot `v`, for port `p`. -/
structure LinkMade (c : RibConf) (v p l : Nat) (d : RibConf) : Prop where
  free : ¬ c.LiveLink l
  bound : c.vswitchLinkSize.toNat ≤ MAX_VSWITCH_LINK → l < MAX_VSWITCH_LINK
  le : l ≤ c.vswitchLinkSize.toNat
  size : d.vswitchLinkSize.toNat = max c.vswitchLinkSize.toNat (l + 1)
  others : ∀ j, j ≠ l → d.vswitchLink j = c.vswitchLink j
  id : (d.vswitchLink l).vswitchLinkId = UInt16.ofNat l
  portId : (d.vswitchLink l).portId = (c.port p).dpdkPortId
  vswitchId : (d.vswitchLink l).vswitchId = (c.vswitch v).vswitchId
  live : (d.vswitchLink l).isDeleted = false
  vswitchPort : (c.vswitch v).vswitchPortSize.toNat < MAX_VSWITCH_PORTS →
    (d.vswitchLink l).vswitchPort = (c.vswitch v).vswitchPortSize
  vswitch : d.vswitch
    = Function.update c.vswitch v ((c.vswitch v).attached (UInt16.ofNat l))
  vswitchSize : d.vswitchSize = c.vswitchSize

/-- What `vswitch_link_new` has done. -/
structure LinkNew (c : RibConf) (v p l : Nat) (d : RibConf) : Prop
    extends LinkMade c v p l d where
  tag : (d.vswitchLink l).tagId = (c.vswitch v).vlanId
  port : d.port = c.port

theorem linkNew_some {c d : RibConf} {vswitch port l : Nat}
    (h : vswitchLinkNew c vswitch port = some (l, d)) : LinkNew c vswitch port l d := by
  simp only [vswitchLinkNew] at h
  split at h
  · next hfind =>
    obtain ⟨rfl, rfl⟩ := Prod.mk.inj (Option.some.inj h)
    obtain ⟨hdeleted, hl, -⟩ := List.find?_range_eq_some.mp hfind
    have hl := List.mem_range.mp hl
    refine ⟨⟨fun hlive => by simp [hlive.2] at hdeleted, hl.trans_le, hl.le, ?_, ?_, ?_, ?_, ?_, ?_,
      ?_, ?_, ?_⟩, ?_, ?_⟩
    · rw [Nat.max_eq_left (Nat.succ_le_of_lt hl)]
      split <;> rfl
    · intro j hj
      split <;> simp [hj]
    · split <;> simp [VswitchLink.zero]
    · split <;> simp [VswitchLink.zero]
    · split <;> simp [VswitchLink.zero]
    · split <;> simp [VswitchLink.zero]
    · intro hroom
      simp [hroom]
    · by_cases hroom : (c.vswitch vswitch).vswitchPortSize.toNat < MAX_VSWITCH_PORTS
      · rw [VswitchConf.attached, if_pos hroom]
        split
        · rfl
        · next hfull => exact absurd hroom hfull
      · rw [VswitchConf.attached, if_neg hroom, Function.update_eq_self]
        split
        · next hroom' => exact absurd hroom' hroom
        · rfl
    · split <;> rfl
    · split <;> simp [VswitchLink.zero]
    · split <;> rfl
  · next hfind =>
    split at h
    · cases h
    · next hroom =>
      obtain ⟨rfl, rfl⟩ := Prod.mk.inj (Option.some.inj h)
      have hroom : c.vswitchLinkSize.toNat < MAX_VSWITCH_LINK := Nat.lt_of_not_le hroom
      refine ⟨⟨fun hlive => absurd hlive.1 (Nat.lt_irrefl _), fun _ => hroom, le_rfl, ?_, ?_, ?_, ?_,
        ?_, ?_, ?_, ?_, ?_⟩, ?_, ?_⟩
      · rw [Nat.max_eq_right (Nat.le_succ _)]
        have hlt : c.vswitchLinkSize.toNat < 32 := hroom
        have hsucc : (c.vswitchLinkSize + 1).toNat = c.vswitchLinkSize.toNat + 1 := by
          rw [UInt8.toNat_add]
          exact Nat.mod_eq_of_lt (by simp; omega)
        split <;> exact hsucc
      · intro j hj
        split <;> simp [hj]
      · split <;> simp
      · split <;> simp
      · split <;> simp
      · split <;> simp
      · intro hroom
        simp [hroom]
      · by_cases hroom : (c.vswitch vswitch).vswitchPortSize.toNat < MAX_VSWITCH_PORTS
        · rw [VswitchConf.attached, if_pos hroom]
          split
          · rfl
          · next hfull => exact absurd hroom hfull
        · rw [VswitchConf.attached, if_neg hroom, Function.update_eq_self]
          split
          · next hroom' => exact absurd hroom' hroom
          · rfl
      · split <;> rfl
      · split <;> simp
      · split <;> rfl

theorem vswitchLinkNew_none {c : RibConf} {vswitch port : Nat}
    (h : vswitchLinkNew c vswitch port = none) :
    MAX_VSWITCH_LINK ≤ c.vswitchLinkSize.toNat
      ∧ ∀ l, l < c.vswitchLinkSize.toNat → c.LiveLink l := by
  simp only [vswitchLinkNew] at h
  split at h
  · cases h
  · next hfind =>
    split at h
    · next hfull =>
      refine ⟨hfull, fun l hl => ⟨hl, ?_⟩⟩
      simpa using List.find?_eq_none.mp hfind l (List.mem_range.mpr hl)
    · cases h

namespace LinkMade

variable {c d : RibConf} {v p l : Nat}

theorem liveLink_iff (h : LinkMade c v p l d) (x : Nat) : d.LiveLink x ↔ x = l ∨ c.LiveLink x := by
  have hsize := h.size
  have hle := h.le
  rw [RibConf.LiveLink, RibConf.LiveLink]
  by_cases hx : x = l
  · subst hx
    exact ⟨fun _ => .inl rfl, fun _ => ⟨by omega, h.live⟩⟩
  · rw [h.others x hx]
    constructor
    · exact fun hd => .inr ⟨by omega, hd.2⟩
    · rintro (rfl | hc)
      · exact absurd rfl hx
      · exact ⟨by omega, hc.2⟩

theorem vswitch_apply (h : LinkMade c v p l d) (j : Nat) : d.vswitch j
    = if j = v then (c.vswitch v).attached (UInt16.ofNat l) else c.vswitch j := by
  rw [h.vswitch]
  exact Function.update_apply ..

theorem vswitch_same (h : LinkMade c v p l d) (j : Nat) :
    (d.vswitch j).vswitchId = (c.vswitch j).vswitchId
      ∧ (d.vswitch j).isDeleted = (c.vswitch j).isDeleted := by
  rw [h.vswitch_apply j]
  split
  · next hj =>
    subst hj
    unfold VswitchConf.attached
    split <;> exact ⟨rfl, rfl⟩
  · exact ⟨rfl, rfl⟩

theorem liveVswitch_iff (h : LinkMade c v p l d) (j : Nat) :
    d.LiveVswitch j ↔ c.LiveVswitch j := by
  rw [RibConf.LiveVswitch, RibConf.LiveVswitch, h.vswitchSize, (h.vswitch_same j).2]

theorem links_eq (h : LinkMade c v p l d) (j : Nat) : (d.vswitch j).links
    = if j = v ∧ (c.vswitch v).vswitchPortSize.toNat < MAX_VSWITCH_PORTS then
        (c.vswitch v).links ++ [UInt16.ofNat l]
      else (c.vswitch j).links := by
  rw [h.vswitch_apply j]
  by_cases hj : j = v
  · subst hj
    simp [links_attached]
  · simp [hj]

theorem mem_links (h : LinkMade c v p l d) {j : Nat} {x : UInt16}
    (hx : x ∈ (d.vswitch j).links) : x ∈ (c.vswitch j).links ∨ j = v ∧ x = UInt16.ofNat l := by
  rw [h.links_eq j] at hx
  split at hx
  · next hj =>
    rw [hj.1]
    rcases List.mem_append.mp hx with hx | hx
    · exact .inl hx
    · exact .inr ⟨rfl, List.mem_singleton.mp hx⟩
  · exact .inl hx

end LinkMade

/-- The port lists a tagged link if there is room. -/
def PortConf.tagged (p : PortConf) (l : UInt16) : PortConf :=
  if p.vlanSize.toNat ≥ MAX_VLAN_PER_PORT then p
  else { p with
    vlanSize := p.vlanSize + 1
    vswitchLinkIdOfVlan := Function.update p.vswitchLinkIdOfVlan p.vlanSize.toNat l }

theorem vlanSize_tagged (p : PortConf) (l : UInt16) :
    (p.tagged l).vlanSize.toNat
      = if p.vlanSize.toNat < MAX_VLAN_PER_PORT then p.vlanSize.toNat + 1 else p.vlanSize.toNat := by
  unfold PortConf.tagged
  by_cases hroom : p.vlanSize.toNat < MAX_VLAN_PER_PORT
  · rw [if_neg (Nat.not_le.mpr hroom), if_pos hroom]
    exact toNat_succ (hroom.trans (by decide))
  · rw [if_pos (Nat.not_lt.mp hroom), if_neg hroom]

theorem vlans_tagged (p : PortConf) (l : UInt16) :
    (p.tagged l).vlans
      = if p.vlanSize.toNat < MAX_VLAN_PER_PORT then p.vlans ++ [l] else p.vlans := by
  by_cases hroom : p.vlanSize.toNat < MAX_VLAN_PER_PORT
  · rw [if_pos hroom, PortConf.vlans, vlanSize_tagged, if_pos hroom, PortConf.tagged,
      if_neg (Nat.not_le.mpr hroom)]
    exact Lib.entries_push ..
  · rw [if_neg hroom, PortConf.tagged, if_pos (Nat.not_lt.mp hroom)]

/-- The tag that a link of a vlan carries, as a message has it. -/
def InternalMsgVswitchPort.tag (msg : InternalMsgVswitchPort) (vlanId : UInt16) : UInt16 :=
  if msg.isTagged = false then 0 else if msg.tagId ≠ 0 then msg.tagId else vlanId

/-- The port that a link is set on. -/
def InternalMsgVswitchPort.set (msg : InternalMsgVswitchPort) (p : PortConf) (l : UInt16) :
    PortConf :=
  if msg.isTagged = false then { p with vswitchLinkIdOfNativeVlan := l } else p.tagged l

/-- What `VSWITCH_PORT_SET` has done. -/
structure PortSet (c : RibConf) (msg : InternalMsgVswitchPort) (v l : Nat) (d : RibConf) :
    Prop extends LinkMade c v msg.portId.toNat l d where
  lookup : vswitchLookup c msg.vswitchId = some v
  port_bound : msg.portId.toNat < MAX_ETH_PORTS
  tag : (d.vswitchLink l).tagId = msg.tag (c.vswitch v).vlanId
  port : d.port = Function.update c.port msg.portId.toNat
    (msg.set (c.port msg.portId.toNat) (UInt16.ofNat l))
  slot : freeLink c = some l

/-- A link may get another tag. -/
theorem LinkMade.setTag {c d : RibConf} {vswitch port l : Nat} (h : LinkMade c vswitch port l d)
    (f : VswitchLink → UInt16) :
    LinkMade c vswitch port l (d.setLink l fun x => { x with tagId := f x }) := by
  refine ⟨h.free, h.bound, h.le, h.size, fun j hj => ?_, ?_, ?_, ?_, ?_, fun hroom => ?_, h.vswitch,
    h.vswitchSize⟩
  · rw [RibConf.setLink_vswitchLink, if_neg hj]
    exact h.others j hj
  all_goals rw [RibConf.setLink_vswitchLink, if_pos rfl]
  · exact h.id
  · exact h.portId
  · exact h.vswitchId
  · exact h.live
  · exact h.vswitchPort hroom

theorem LinkMade.setPort {c d : RibConf} {vswitch port l : Nat} (h : LinkMade c vswitch port l d)
    (p : Nat) (f : PortConf → PortConf) : LinkMade c vswitch port l (d.setPort p f) :=
  ⟨h.free, h.bound, h.le, h.size, h.others, h.id, h.portId, h.vswitchId, h.live, h.vswitchPort,
    h.vswitch, h.vswitchSize⟩

theorem PortSet.port_apply {c d : RibConf} {msg : InternalMsgVswitchPort} {v l : Nat}
    (h : PortSet c msg v l d) (q : Nat) : d.port q
      = if q = msg.portId.toNat then msg.set (c.port q) (UInt16.ofNat l) else c.port q := by
  rw [h.port, Function.update_apply]
  split
  · next hq => rw [hq]
  · rfl

theorem vswitchPortSet_ok {c d : RibConf} {msg : InternalMsgVswitchPort}
    (h : c.vswitchPortSet msg = .ok d) :
    (d = c ∧ ∀ v, vswitchLookup c msg.vswitchId = some v →
        vswitchLinkNew c v msg.portId.toNat = none)
      ∨ ∃ v l, PortSet c msg v l d := by
  unfold RibConf.vswitchPortSet at h
  split at h
  · next hlookup =>
    obtain rfl := Except.ok.inj h
    exact .inl ⟨rfl, fun v hv => nomatch hlookup.symm.trans hv⟩
  · next v hlookup =>
    split at h
    · next hnone =>
      obtain rfl := Except.ok.inj h
      refine .inl ⟨rfl, fun v' hv' => ?_⟩
      obtain rfl := Option.some.inj (hlookup.symm.trans hv')
      exact hnone
    · next l c' hsome =>
      have hnew := linkNew_some hsome
      obtain ⟨_, hbound, h⟩ := bind_ok h
      refine .inr ⟨v, l, ?_⟩
      split at h
      · next htagged =>
        obtain rfl := Except.ok.inj h
        refine ⟨(hnew.toLinkMade.setTag fun _ => 0).setPort _ _, hlookup, inBounds_ok hbound, ?_, ?_,
          freeLink_of_some hsome⟩
        · simp [portSetNativeVlan, InternalMsgVswitchPort.tag, htagged]
        · rw [InternalMsgVswitchPort.set, if_pos htagged, ← hnew.id, ← hnew.port]
          rfl
      · next htagged =>
        obtain rfl := Except.ok.inj h
        generalize hc'' : (if msg.tagId ≠ 0 ∧ msg.tagId ≠ (c'.vswitchLink l).tagId then
          c'.setLink l fun l => { l with tagId := msg.tagId } else c') = c''
        have hmade : LinkMade c v msg.portId.toNat l c'' := by
          rw [← hc'']
          split
          · exact hnew.toLinkMade.setTag fun _ => msg.tagId
          · exact hnew.toLinkMade
        have hport : c''.port = c.port := by
          rw [← hc'']
          split <;> exact hnew.port
        have htag : (c''.vswitchLink l).tagId = msg.tag (c.vswitch v).vlanId := by
          rw [← hc'', InternalMsgVswitchPort.tag, if_neg htagged, hnew.tag]
          by_cases hzero : msg.tagId = 0
          · simp [hzero, hnew.tag]
          · by_cases hsame : msg.tagId = (c.vswitch v).vlanId
            · simp [hsame, hnew.tag]
            · simp [hzero, hsame]
        refine ⟨hmade.setPort _ _, hlookup, inBounds_ok hbound, htag, ?_,
          freeLink_of_some hsome⟩
        rw [InternalMsgVswitchPort.set, if_neg htagged, ← hmade.id, ← hport]
        rfl

/-! ## Deleting a link -/

/-- What `vswitch_link_delete` has done; the vswitch of the link is in slot `i`. -/
structure LinkDeleted (c : RibConf) (l : UInt16) (i : Nat) (d : RibConf) : Prop where
  bound : l.toNat < MAX_VSWITCH_LINK
  port_bound : (c.vswitchLink l.toNat).portId.toNat < MAX_ETH_PORTS
  lookup : vswitchLookup c (c.vswitchLink l.toNat).vswitchId = some i
  vswitch : d.vswitch = Function.update c.vswitch i
    (vswitchLinkRemoveFromVswitchPortArray l (c.vswitch i))
  port : d.port = Function.update c.port (c.vswitchLink l.toNat).portId.toNat
    (vswitchLinkRemoveFromPortVlanArray l (c.port (c.vswitchLink l.toNat).portId.toNat))
  link : ∀ j, d.vswitchLink j = { c.vswitchLink j with
    vswitchPort :=
      if l.toNat ≤ j ∧ j < c.vswitchLinkSize.toNat
          ∧ (c.vswitchLink j).vswitchId = (c.vswitchLink l.toNat).vswitchId
      then (c.vswitchLink j).vswitchPort - 1 else (c.vswitchLink j).vswitchPort
    isDeleted := if j = l.toNat then true else (c.vswitchLink j).isDeleted }
  vswitchSize : d.vswitchSize = c.vswitchSize
  linkSize : d.vswitchLinkSize = c.vswitchLinkSize

theorem linkDeleted_ok {c d : RibConf} {l : UInt16} (h : vswitchLinkDelete c l = .ok d) :
    ∃ i, LinkDeleted c l i d := by
  obtain ⟨_, hbound, h⟩ := bind_ok h
  dsimp only at h
  split at h
  · cases h
  · next i hlookup =>
    obtain ⟨_, hport, h⟩ := bind_ok h
    obtain rfl := Except.ok.inj h
    refine ⟨i, inBounds_ok hbound, inBounds_ok hport, hlookup, rfl, rfl, fun j => ?_, rfl, rfl⟩
    have hrenumbered : (if l.toNat ≤ j ∧ j < c.vswitchLinkSize.toNat
          ∧ (c.vswitchLink j).vswitchId = (c.vswitchLink l.toNat).vswitchId
        then { c.vswitchLink j with vswitchPort := (c.vswitchLink j).vswitchPort - 1 }
        else c.vswitchLink j)
      = { c.vswitchLink j with
          vswitchPort :=
            if l.toNat ≤ j ∧ j < c.vswitchLinkSize.toNat
                ∧ (c.vswitchLink j).vswitchId = (c.vswitchLink l.toNat).vswitchId
            then (c.vswitchLink j).vswitchPort - 1 else (c.vswitchLink j).vswitchPort } := by
      split <;> rfl
    rw [RibConf.setLink_vswitchLink]
    by_cases hj : j = l.toNat
    · subst hj
      rw [if_pos rfl, if_pos rfl]
      exact congrArg (fun (x : VswitchLink) => { x with isDeleted := true }) hrenumbered
    · rw [if_neg hj, if_neg hj]
      exact hrenumbered

end SdPlane

import SdPlane.Lib.Run
import SdPlane.Wiring

/-!
# What holds of the wiring after every message

`Wired` is the invariant: it holds of the zero configuration, and no configuration message
breaks it (`Wired.step`). Messages that are not about vswitches leave the wiring alone
(`KeepsWiring`), and the other four are a new vswitch, a new link, a link that is deleted, and
all links of a vswitch deleted one after the other.
-/

set_option autoImplicit false

namespace SdPlane

structure Wired (c : RibConf) : Prop where
  vswitchSize : c.vswitchSize.toNat ≤ MAX_VSWITCH
  linkSize : c.vswitchLinkSize.toNat ≤ MAX_VSWITCH_LINK
  /-- A slot that is not in use lists nothing. -/
  idle : ∀ i, ¬ c.LiveVswitch i → (c.vswitch i).vswitchPortSize = 0
  room : ∀ i, (c.vswitch i).vswitchPortSize.toNat ≤ MAX_VSWITCH_PORTS
  first : ∀ i j, j < i → c.LiveVswitch i → (c.vswitch j).vswitchId ≠ (c.vswitch i).vswitchId
  named : ∀ l, l < c.vswitchLinkSize.toNat → (c.vswitchLink l).vswitchLinkId = UInt16.ofNat l
  listed : ∀ i l, l ∈ (c.vswitch i).links →
    c.LiveLink l.toNat ∧ (c.vswitchLink l.toNat).vswitchId = (c.vswitch i).vswitchId
  once : ∀ i, (c.vswitch i).links.Nodup
  vlanRoom : ∀ p, (c.port p).vlanSize.toNat ≤ MAX_VLAN_PER_PORT
  vlans : ∀ p l, l ∈ (c.port p).vlans → l.toNat < c.vswitchLinkSize.toNat

namespace Wired

theorem zero : Wired .zero := by
  refine ⟨Nat.zero_le _, Nat.zero_le _, fun i _ => rfl, fun i => Nat.zero_le _, fun i j _ h => ?_,
    fun l h => absurd h (Nat.not_lt_zero l), fun i l h => (by cases h), fun i => List.nodup_nil,
    fun p => Nat.zero_le _, fun p l h => (by cases h)⟩
  exact absurd h.1 (Nat.not_lt_zero i)

variable {c d : RibConf}

theorem keep (h : Wired c) (hkeeps : KeepsWiring c d) : Wired d := by
  have hvswitch : ∀ i, (d.vswitch i).vswitchId = (c.vswitch i).vswitchId
      ∧ (d.vswitch i).vswitchPortSize = (c.vswitch i).vswitchPortSize
      ∧ (d.vswitch i).links = (c.vswitch i).links
      ∧ (d.vswitch i).isDeleted = (c.vswitch i).isDeleted := by
    intro i
    obtain ⟨rif, cif, hd⟩ := hkeeps.vswitch i
    rw [hd]
    exact ⟨rfl, rfl, rfl, rfl⟩
  have hlive : ∀ i, d.LiveVswitch i ↔ c.LiveVswitch i := by
    intro i
    rw [RibConf.LiveVswitch, RibConf.LiveVswitch, hkeeps.vswitchSize, (hvswitch i).2.2.2]
  have hvlans : ∀ p, (d.port p).vlans = (c.port p).vlans := by
    intro p
    rw [PortConf.vlans, PortConf.vlans, (hkeeps.port p).1, (hkeeps.port p).2.1]
  refine ⟨?_, ?_, ?_, ?_, ?_, ?_, ?_, ?_, ?_, ?_⟩
  · rw [hkeeps.vswitchSize]
    exact h.vswitchSize
  · rw [hkeeps.linkSize]
    exact h.linkSize
  · intro i hi
    rw [(hvswitch i).2.1]
    exact h.idle i fun hlive' => hi ((hlive i).mpr hlive')
  · intro i
    rw [(hvswitch i).2.1]
    exact h.room i
  · intro i j hji hi
    rw [(hvswitch i).1, (hvswitch j).1]
    exact h.first i j hji ((hlive i).mp hi)
  · rw [hkeeps.linkSize, hkeeps.link]
    exact h.named
  · intro i l hl
    rw [(hvswitch i).2.2.1] at hl
    rw [RibConf.LiveLink, hkeeps.linkSize, hkeeps.link, (hvswitch i).1]
    exact h.listed i l hl
  · intro i
    rw [(hvswitch i).2.2.1]
    exact h.once i
  · intro p
    rw [(hkeeps.port p).1]
    exact h.vlanRoom p
  · intro p l hl
    rw [hvlans p] at hl
    rw [hkeeps.linkSize]
    exact h.vlans p l hl

/-! ## Consequences -/

/-- The id of a vswitch in use belongs to no other one. -/
theorem live_unique (h : Wired c) {i j : Nat} (hi : c.LiveVswitch i) (hj : c.LiveVswitch j)
    (hid : (c.vswitch i).vswitchId = (c.vswitch j).vswitchId) : i = j := by
  rcases Nat.lt_trichotomy i j with hlt | heq | hgt
  · exact absurd hid (h.first j i hlt hj)
  · exact heq
  · exact absurd hid.symm (h.first i j hgt hi)

theorem live_of_listed (h : Wired c) {i : Nat} {l : UInt16} (hl : l ∈ (c.vswitch i).links) :
    c.LiveVswitch i := by
  by_contra hi
  rw [VswitchConf.links, h.idle i hi] at hl
  cases hl

/-- `listed`, for a place on the list. -/
theorem listed_at (h : Wired c) {i j : Nat} (hj : j < (c.vswitch i).vswitchPortSize.toNat) :
    ((c.vswitch i).vswitchLinkId j).toNat < c.vswitchLinkSize.toNat
      ∧ (c.vswitchLink ((c.vswitch i).vswitchLinkId j).toNat).vswitchId
        = (c.vswitch i).vswitchId := by
  obtain ⟨hlive, hid⟩ := h.listed i _ (Lib.mem_entries.mpr ⟨j, hj, rfl⟩)
  exact ⟨hlive.1, hid⟩

/-- A link is on one list at most. -/
theorem listed_unique (h : Wired c) {i j : Nat} {l : UInt16} (hi : l ∈ (c.vswitch i).links)
    (hj : l ∈ (c.vswitch j).links) : i = j :=
  h.live_unique (h.live_of_listed hi) (h.live_of_listed hj)
    ((h.listed i l hi).2.symm.trans (h.listed j l hj).2)

theorem lookup_eq (h : Wired c) {i : Nat} (hi : c.LiveVswitch i) :
    vswitchLookup c (c.vswitch i).vswitchId = some i := by
  cases hlookup : vswitchLookup c (c.vswitch i).vswitchId with
  | none => exact absurd rfl (vswitchLookup_none hlookup hi)
  | some j =>
    obtain ⟨hj, hid⟩ := vswitchLookup_some hlookup
    rw [h.live_unique hj hi hid]

theorem ofNat_toNat {l : Nat} (h : l < MAX_VSWITCH_LINK) : (UInt16.ofNat l).toNat = l := by
  have hlt : l < 32 := h
  simp
  omega

theorem named_toNat (h : Wired c) {l : Nat} (hl : l < c.vswitchLinkSize.toNat) :
    (c.vswitchLink l).vswitchLinkId.toNat = l := by
  rw [h.named l hl]
  exact ofNat_toNat (hl.trans_le h.linkSize)

/-! ## The four operations -/

theorem vswitchNew {vswitchId vlanId : UInt16} {i : Nat} (h : Wired c)
    (hfresh : ∀ j, c.LiveVswitch j → (c.vswitch j).vswitchId ≠ vswitchId)
    (hnew : VswitchNew c vswitchId vlanId i d) : Wired d := by
  have hports : (d.vswitch i).vswitchPortSize = 0 := by
    rcases hnew.ports with hzero | ⟨hi, hsame⟩
    · exact hzero
    · rw [hsame]
      exact h.idle i fun hlive => absurd hlive.1 (Nat.not_lt.mpr hi)
  have hlinks : (d.vswitch i).links = [] := by rw [VswitchConf.links, hports]; rfl
  have hlive : ∀ j, j ≠ i → (d.LiveVswitch j ↔ c.LiveVswitch j) := by
    intro j hj
    have hsize := hnew.size
    have hle := hnew.le
    rw [RibConf.LiveVswitch, RibConf.LiveVswitch, hnew.others j hj]
    constructor
    · exact fun hd => ⟨by omega, hd.2⟩
    · exact fun hc => ⟨by omega, hc.2⟩
  refine ⟨?_, ?_, ?_, ?_, ?_, ?_, ?_, ?_, ?_, ?_⟩
  · rw [hnew.size]
    exact max_le h.vswitchSize (hnew.bound h.vswitchSize)
  · rw [hnew.linkSize]
    exact h.linkSize
  · intro j hj
    by_cases hji : j = i
    · rw [hji]
      exact hports
    · rw [hnew.others j hji]
      exact h.idle j fun hlive' => hj ((hlive j hji).mpr hlive')
  · intro j
    by_cases hji : j = i
    · rw [hji, hports]
      exact Nat.zero_le _
    · rw [hnew.others j hji]
      exact h.room j
  · intro j k hkj hj
    by_cases hji : j = i
    · -- the slots in front of the new one are in use
      subst hji
      rw [hnew.others k (Nat.ne_of_lt hkj), hnew.id]
      exact hfresh k (hnew.before k hkj)
    · have hj' := (hlive j hji).mp hj
      rw [hnew.others j hji]
      by_cases hki : k = i
      · rw [hki, hnew.id]
        exact fun heq => hfresh j hj' heq.symm
      · rw [hnew.others k hki]
        exact h.first j k hkj hj'
  · rw [hnew.linkSize, hnew.link]
    exact h.named
  · intro j l hl
    by_cases hji : j = i
    · rw [hji, hlinks] at hl
      cases hl
    · rw [hnew.others j hji] at hl ⊢
      rw [RibConf.LiveLink, hnew.linkSize, hnew.link]
      exact h.listed j l hl
  · intro j
    by_cases hji : j = i
    · rw [hji, hlinks]
      exact List.nodup_nil
    · rw [hnew.others j hji]
      exact h.once j
  · rw [hnew.port]
    exact h.vlanRoom
  · rw [hnew.port, hnew.linkSize]
    exact h.vlans

theorem linkMade {v p l : Nat} (h : Wired c) (hnew : LinkMade c v p l d)
    (hlive : c.LiveVswitch v)
    (hvlanRoom : ∀ q, (d.port q).vlanSize.toNat ≤ MAX_VLAN_PER_PORT)
    (hvlans : ∀ q x, x ∈ (d.port q).vlans → x.toNat < d.vswitchLinkSize.toNat) : Wired d := by
  have hl := hnew.bound h.linkSize
  have htoNat : (UInt16.ofNat l).toNat = l := ofNat_toNat hl
  have hsize := hnew.size
  have hle := hnew.le
  refine ⟨?_, ?_, ?_, ?_, ?_, ?_, ?_, ?_, hvlanRoom, hvlans⟩
  · rw [hnew.vswitchSize]
    exact h.vswitchSize
  · rw [hsize]
    exact max_le h.linkSize hl
  · intro j hj
    rw [hnew.liveVswitch_iff] at hj
    have hjv : j ≠ v := by
      rintro rfl
      exact hj hlive
    rw [hnew.vswitch_apply j, if_neg hjv]
    exact h.idle j hj
  · intro j
    rw [hnew.vswitch_apply j]
    split
    · unfold VswitchConf.attached
      split
      · next hroom => exact (toNat_succ hroom).trans_le hroom
      · exact h.room v
    · exact h.room j
  · intro i j hji hi
    rw [(hnew.vswitch_same i).1, (hnew.vswitch_same j).1]
    exact h.first i j hji ((hnew.liveVswitch_iff i).mp hi)
  · intro x hx
    by_cases hxl : x = l
    · rw [hxl]
      exact hnew.id
    · rw [hnew.others x hxl]
      exact h.named x (by omega)
  · intro j x hx
    rw [(hnew.vswitch_same j).1, hnew.liveLink_iff]
    rcases hnew.mem_links hx with hx | ⟨rfl, rfl⟩
    · obtain ⟨hxlive, hxid⟩ := h.listed j x hx
      have hne : x.toNat ≠ l := fun heq => hnew.free (heq ▸ hxlive)
      rw [hnew.others _ hne]
      exact ⟨.inr hxlive, hxid⟩
    · rw [htoNat]
      exact ⟨.inl rfl, hnew.vswitchId⟩
  · intro j
    rw [hnew.links_eq j]
    split
    · rw [List.nodup_append]
      refine ⟨h.once v, List.nodup_singleton _, fun x hx y hy heq => ?_⟩
      -- what is listed is in use, and the new link was not
      rw [List.mem_singleton.mp hy] at heq
      have hxlive := (h.listed v x hx).1
      rw [heq, htoNat] at hxlive
      exact hnew.free hxlive
    · exact h.once j

theorem portSet {msg : InternalMsgVswitchPort} {v l : Nat} (h : Wired c)
    (hset : PortSet c msg v l d) : Wired d := by
  have hl := ofNat_toNat (hset.bound h.linkSize)
  have hsize := hset.size
  refine h.linkMade hset.toLinkMade (vswitchLookup_some hset.lookup).1 (fun q => ?_) fun q x hx => ?_
  · rw [hset.port_apply q]
    unfold InternalMsgVswitchPort.set
    split
    · split
      · exact h.vlanRoom q
      · rw [vlanSize_tagged]
        split
        · next hroom => exact hroom
        · exact h.vlanRoom q
    · exact h.vlanRoom q
  · have hold : x ∈ (c.port q).vlans → x.toNat < d.vswitchLinkSize.toNat := by
      intro hx
      have hlt := h.vlans q x hx
      omega
    rw [hset.port_apply q] at hx
    unfold InternalMsgVswitchPort.set at hx
    split at hx
    · split at hx
      · exact hold hx
      · rw [vlans_tagged] at hx
        split at hx
        · rcases List.mem_append.mp hx with hx | hx
          · exact hold hx
          · rw [List.mem_singleton.mp hx, hl]
            omega
        · exact hold hx
    · exact hold hx

/-- The lists of the vswitches after a link is deleted. -/
theorem links_deleted {l : UInt16} {i : Nat} (h : Wired c) (hdel : LinkDeleted c l i d) (j : Nat) :
    (d.vswitch j).links = (c.vswitch j).links.erase l
      ∧ (d.vswitch j).vswitchId = (c.vswitch j).vswitchId
      ∧ (d.vswitch j).isDeleted = (c.vswitch j).isDeleted
      ∧ (d.vswitch j).routerIf = (c.vswitch j).routerIf := by
  rw [hdel.vswitch, Function.update_apply]
  split
  · next hj =>
    subst hj
    obtain ⟨arr, size, heq, hlinks⟩ := links_remove (l := l) (h.once j)
    rw [heq]
    exact ⟨hlinks, rfl, rfl, rfl⟩
  · next hj =>
    -- the link is on no other list
    refine ⟨(List.erase_of_not_mem fun hmem => hj ?_).symm, rfl, rfl, rfl⟩
    obtain ⟨hi, hid⟩ := vswitchLookup_some hdel.lookup
    exact h.live_unique (h.live_of_listed hmem) hi ((h.listed j l hmem).2.symm.trans hid.symm)

theorem length_links (v : VswitchConf) : v.links.length = v.vswitchPortSize.toNat :=
  Lib.length_entries ..

theorem length_vlans (p : PortConf) : p.vlans.length = p.vlanSize.toNat :=
  Lib.length_entries ..

theorem vlans_eq_nil {p : PortConf} : p.vlans = [] ↔ p.vlanSize.toNat = 0 := by
  rw [← length_vlans, List.length_eq_zero_iff]

theorem head_vlans {p : PortConf} (hpos : 0 < p.vlanSize.toNat) :
    p.vlans.head? = some (p.vswitchLinkIdOfVlan 0) := by
  rw [List.head?_eq_getElem?, List.getElem?_eq_getElem (by rwa [length_vlans])]
  simp [PortConf.vlans]

/-- What becomes of a port. Where the link is the native one and another one comes first on the
    list, it is the native field that is cleared, whether the link is on the list or not. -/
theorem port_removed (p : PortConf) (l : UInt16) :
    (vswitchLinkRemoveFromPortVlanArray l p).vlans
        = (if p.vswitchLinkIdOfNativeVlan = l ∧ p.vlans.head? ≠ some l then p.vlans
          else p.vlans.erase l)
      ∧ (vswitchLinkRemoveFromPortVlanArray l p).vswitchLinkIdOfNativeVlan
        = if p.vswitchLinkIdOfNativeVlan = l ∧ p.vlans ≠ [] ∧ p.vlans.head? ≠ some l then 65535
          else p.vswitchLinkIdOfNativeVlan := by
  by_cases hnil : p.vlans = []
  · rw [remove_of_no_vlans l (vlans_eq_nil.mp hnil), hnil]
    simp
  · have hpos : 0 < p.vlanSize.toNat := Nat.pos_of_ne_zero fun hzero => hnil (vlans_eq_nil.mpr hzero)
    rw [head_vlans hpos]
    by_cases hnative : p.vswitchLinkIdOfNativeVlan = l ∧ p.vswitchLinkIdOfVlan 0 ≠ l
    · have hhead : some (p.vswitchLinkIdOfVlan 0) ≠ some l := fun heq =>
        hnative.2 (Option.some.inj heq)
      rw [native_remove hpos hnative.1 hnative.2, if_pos ⟨hnative.1, hhead⟩,
        if_pos ⟨hnative.1, hnil, hhead⟩]
      exact ⟨rfl, rfl⟩
    · obtain ⟨arr, size, heq, hvlans⟩ := vlans_remove (p := p) (l := l)
        fun hn _ => not_not.mp fun hhead => hnative ⟨hn, hhead⟩
      have hsame : ¬ (p.vswitchLinkIdOfNativeVlan = l
          ∧ some (p.vswitchLinkIdOfVlan 0) ≠ some l) := fun h =>
        hnative ⟨h.1, fun heq => h.2 (by rw [heq])⟩
      rw [heq, if_neg hsame, if_neg fun h => hsame ⟨h.1, h.2.2⟩]
      exact ⟨hvlans, rfl⟩

/-- A port lists what it did, or less. -/
theorem vlans_removed (p : PortConf) (l : UInt16) :
    (vswitchLinkRemoveFromPortVlanArray l p).vlans = p.vlans
      ∨ (vswitchLinkRemoveFromPortVlanArray l p).vlans = p.vlans.erase l := by
  rw [(port_removed p l).1]
  split
  · exact .inl rfl
  · exact .inr rfl

theorem linkDeleted {l : UInt16} {i : Nat} (h : Wired c) (hdel : LinkDeleted c l i d) :
    Wired d := by
  have hlinks := h.links_deleted hdel
  have hlive : ∀ j, d.LiveVswitch j ↔ c.LiveVswitch j := by
    intro j
    rw [RibConf.LiveVswitch, RibConf.LiveVswitch, hdel.vswitchSize, (hlinks j).2.2.1]
  have hsize : ∀ j, (d.vswitch j).vswitchPortSize.toNat ≤ (c.vswitch j).vswitchPortSize.toNat := by
    intro j
    rw [← length_links, ← length_links, (hlinks j).1]
    exact List.length_erase_le
  have hport : ∀ q, (d.port q).vlans = (c.port q).vlans
      ∨ (d.port q).vlans = (c.port q).vlans.erase l := by
    intro q
    rw [hdel.port, Function.update_apply]
    split
    · next hq =>
      rw [hq]
      exact vlans_removed ..
    · exact .inl rfl
  refine ⟨?_, ?_, ?_, ?_, ?_, ?_, ?_, ?_, ?_, ?_⟩
  · rw [hdel.vswitchSize]
    exact h.vswitchSize
  · rw [hdel.linkSize]
    exact h.linkSize
  · intro j hj
    have hzero := h.idle j fun hlive' => hj ((hlive j).mpr hlive')
    have hle := hsize j
    rw [hzero] at hle
    exact UInt16.toNat_inj.mp (Nat.le_zero.mp hle)
  · exact fun j => (hsize j).trans (h.room j)
  · intro j k hkj hj
    rw [(hlinks j).2.1, (hlinks k).2.1]
    exact h.first j k hkj ((hlive j).mp hj)
  · rw [hdel.linkSize]
    intro x hx
    rw [hdel.link x]
    exact h.named x hx
  · intro j x hx
    rw [(hlinks j).1] at hx
    obtain ⟨hne, hmem⟩ := (h.once j).mem_erase_iff.mp hx
    obtain ⟨hxlive, hxid⟩ := h.listed j x hmem
    have hne' : x.toNat ≠ l.toNat := fun heq => hne (UInt16.toNat_inj.mp heq)
    rw [(hlinks j).2.1, RibConf.LiveLink, hdel.linkSize, hdel.link x.toNat, if_neg hne']
    exact ⟨hxlive, hxid⟩
  · intro j
    rw [(hlinks j).1]
    exact (h.once j).erase l
  · intro q
    have hroom := h.vlanRoom q
    rw [← length_vlans] at hroom ⊢
    rcases hport q with hq | hq
    · rw [hq]
      exact hroom
    · rw [hq]
      exact List.length_erase_le.trans hroom
  · intro q x hx
    rw [hdel.linkSize]
    rcases hport q with hq | hq
    · exact h.vlans q x (hq ▸ hx)
    · rw [hq] at hx
      exact h.vlans q x (List.mem_of_mem_erase hx)

theorem deleteLinks {i fuel : Nat} (h : Wired c)
    (hdel : vswitchDeleteLinks i fuel c = .ok d) :
    Wired d ∧ (d.vswitch i).vswitchPortSize = 0 := by
  refine vswitchDeleteLinks_rule Wired h (fun e e' he _ hone => ?_) hdel
  obtain ⟨j, hj⟩ := linkDeleted_ok hone
  exact he.linkDeleted hj

/-- A vswitch that lists nothing is taken out of use. -/
theorem retire {i : Nat} (h : Wired c) (hempty : (c.vswitch i).vswitchPortSize = 0) :
    Wired (c.setVswitch i fun v => { v with isDeleted := true }) := by
  have hvswitch : ∀ j, ((c.setVswitch i fun v => { v with isDeleted := true }).vswitch j)
      = { c.vswitch j with isDeleted := if j = i then true else (c.vswitch j).isDeleted } := by
    intro j
    rw [RibConf.setVswitch_vswitch]
    split
    · next hj => rw [hj]
    · rfl
  have hlive : ∀ j, (c.setVswitch i fun v => { v with isDeleted := true }).LiveVswitch j →
      c.LiveVswitch j := by
    intro j hj
    refine ⟨hj.1, ?_⟩
    have hdeleted := hj.2
    rw [hvswitch j] at hdeleted
    dsimp only at hdeleted
    split at hdeleted
    · cases hdeleted
    · exact hdeleted
  refine ⟨h.vswitchSize, h.linkSize, fun j hj => ?_, fun j => ?_, fun j k hkj hj => ?_, h.named,
    fun j x hx => ?_, fun j => ?_, h.vlanRoom, h.vlans⟩
  · rw [hvswitch j]
    by_cases hji : j = i
    · rw [hji]
      exact hempty
    · refine h.idle j fun hj' => hj ⟨hj'.1, ?_⟩
      rw [hvswitch j]
      simpa [hji] using hj'.2
  · rw [hvswitch j]
    exact h.room j
  · rw [hvswitch j, hvswitch k]
    exact h.first j k hkj (hlive j hj)
  · rw [hvswitch j] at hx ⊢
    exact h.listed j x hx
  · rw [hvswitch j]
    exact h.once j

end Wired

/-- The router and capture interface of a vswitch go first. -/
theorem interfacesDeleted {c c₁ c₂ : RibConf} {rings rings₁ rings₂ : Rings} {vswitchId : UInt16}
    {i : Nat}
    (h₁ : (if (c.vswitch i).routerIf.sockfd ≥ 0 then routerIfDelete c rings vswitchId
      else .ok (c, rings)) = .ok (c₁, rings₁))
    (h₂ : (if (c₁.vswitch i).captureIf.sockfd ≥ 0 then captureIfDelete c₁ rings₁ vswitchId
      else .ok (c₁, rings₁)) = .ok (c₂, rings₂)) : KeepsWiring c c₂ := by
  have hrouter : KeepsWiring c c₁ := by
    split at h₁
    · exact (Peripheral.routerIfDelete h₁).toKeepsWiring
    · obtain ⟨rfl, -⟩ := Prod.mk.inj (Except.ok.inj h₁)
      exact .refl _
  split at h₂
  · exact hrouter.trans (Peripheral.captureIfDelete h₂).toKeepsWiring
  · obtain ⟨rfl, -⟩ := Prod.mk.inj (Except.ok.inj h₂)
    exact hrouter

/-- `vswitch_delete`, as the loop over the links and the mark at the end. -/
theorem vswitchDelete_links {c d : RibConf} {rings rings' : Rings} {vswitchId : UInt16}
    (h : vswitchDelete c rings vswitchId = .ok (d, rings')) :
    (vswitchLookup c vswitchId = none ∧ d = c)
      ∨ ∃ i c₁ c₂, vswitchLookup c vswitchId = some i ∧ KeepsWiring c c₁
        ∧ vswitchDeleteLinks i (c₁.vswitch i).vswitchPortSize.toNat c₁ = .ok c₂
        ∧ d = c₂.setVswitch i fun v => { v with isDeleted := true } := by
  rcases vswitchDelete_ok h with ⟨hnone, rfl, -⟩ | ⟨i, c₁, rings₁, c₂, c₃, hi, h₁, h₂, h₃, rfl⟩
  · exact .inl ⟨hnone, rfl⟩
  · exact .inr ⟨i, c₂, c₃, hi, interfacesDeleted h₁ h₂, h₃, rfl⟩

theorem vswitchPortNoSet_ok {c d : RibConf} {msg : InternalMsgVswitchPort} (hwired : Wired c)
    (h : c.vswitchPortNoSet msg = .ok d) :
    (d = c ∧ ∀ v, vswitchLookup c msg.vswitchId = some v →
        vswitchLinkLookup c v msg.portId.toNat = none)
      ∨ ∃ v l i, vswitchLookup c msg.vswitchId = some v
        ∧ vswitchLinkLookup c v msg.portId.toNat = some l
        ∧ LinkDeleted c (UInt16.ofNat l) i d := by
  unfold RibConf.vswitchPortNoSet at h
  split at h
  · next hlookup =>
    obtain rfl := Except.ok.inj h
    exact .inl ⟨rfl, fun v hv => nomatch hlookup.symm.trans hv⟩
  · next v hlookup =>
    obtain ⟨-, h⟩ := guard_ok h
    split at h
    · next hnone =>
      obtain rfl := Except.ok.inj h
      refine .inl ⟨rfl, fun v' hv' => ?_⟩
      obtain rfl := Option.some.inj (hlookup.symm.trans hv')
      exact hnone
    · next l hl =>
      rw [hwired.named l (vswitchLinkLookup_some hl).1.1] at h
      obtain ⟨i, hi⟩ := linkDeleted_ok h
      exact .inr ⟨v, l, i, hlookup, hl, hi⟩

/-- What `VSWITCH_SET` has done. -/
theorem vswitchSet_cases (c : RibConf) (msg : InternalMsgVswitch) :
    c.vswitchSet msg = c
      ∨ vswitchLookup c msg.vswitchId = none
        ∧ ∃ i, VswitchNew c msg.vswitchId msg.vlanId i (c.vswitchSet msg) := by
  unfold RibConf.vswitchSet
  split
  · exact .inl rfl
  · next hnone =>
    split
    · next i d hnew => exact .inr ⟨hnone, i, vswitchNew_some hnew⟩
    · exact .inl rfl

/-- What a configuration message does to the wiring. A message about a vswitch that is not there,
    or for which there is no room, does nothing. -/
inductive WiringStep (c : RibConf) : ConfMsg → RibConf → Prop
  | other {msg : ConfMsg} {d : RibConf} (hmsg : msg.isVswitch = false) (hkeeps : KeepsWiring c d) :
      WiringStep c msg d
  | vswitchKept {msg : InternalMsgVswitch} : WiringStep c (.vswitchSet msg) c
  | vswitchNew {msg : InternalMsgVswitch} {i : Nat} {d : RibConf}
      (hfresh : vswitchLookup c msg.vswitchId = none)
      (hnew : VswitchNew c msg.vswitchId msg.vlanId i d) : WiringStep c (.vswitchSet msg) d
  | vswitchAbsent {msg : InternalMsgVswitch} (hlookup : vswitchLookup c msg.vswitchId = none) :
      WiringStep c (.vswitchNoSet msg) c
  | vswitchDeleted {msg : InternalMsgVswitch} {i : Nat} {c₁ c₂ : RibConf}
      (hlookup : vswitchLookup c msg.vswitchId = some i) (hkeeps : KeepsWiring c c₁)
      (hlinks : vswitchDeleteLinks i (c₁.vswitch i).vswitchPortSize.toNat c₁ = .ok c₂) :
      WiringStep c (.vswitchNoSet msg) (c₂.setVswitch i fun v => { v with isDeleted := true })
  | linkKept {msg : InternalMsgVswitchPort}
      (hnone : ∀ v, vswitchLookup c msg.vswitchId = some v →
        vswitchLinkNew c v msg.portId.toNat = none) : WiringStep c (.vswitchPortSet msg) c
  | linkSet {msg : InternalMsgVswitchPort} {v l : Nat} {d : RibConf} (hset : PortSet c msg v l d) :
      WiringStep c (.vswitchPortSet msg) d
  | linkAbsent {msg : InternalMsgVswitchPort}
      (hnone : ∀ v, vswitchLookup c msg.vswitchId = some v →
        vswitchLinkLookup c v msg.portId.toNat = none) : WiringStep c (.vswitchPortNoSet msg) c
  | linkDeleted {msg : InternalMsgVswitchPort} {v l i : Nat} {d : RibConf}
      (hlookup : vswitchLookup c msg.vswitchId = some v)
      (hlink : vswitchLinkLookup c v msg.portId.toNat = some l)
      (hdel : LinkDeleted c (UInt16.ofNat l) i d) : WiringStep c (.vswitchPortNoSet msg) d

theorem wiringStep_of_some {env : Env} {old : Option Rib} {c d : RibConf} {rings rings' : Rings}
    {msg : ConfMsg} (hwired : Wired c)
    (h : confMessage env old c rings msg = .ok (some (d, rings'))) : WiringStep c msg d := by
  cases hvswitch : msg.isVswitch with
  | false => exact .other hvswitch (confMessage_keepsWiring hvswitch h)
  | true =>
    cases msg with
    | vswitchSet msg =>
      have hd : c.vswitchSet msg = d := plain_ok h
      rw [← hd]
      rcases vswitchSet_cases c msg with heq | ⟨hnone, i, hnew⟩
      · rw [heq]
        exact .vswitchKept
      · exact .vswitchNew hnone hnew
    | vswitchNoSet msg =>
      obtain ⟨⟨c', rings₁⟩, hc', h⟩ := bind_ok h
      obtain ⟨rfl, -⟩ := Prod.mk.inj (Option.some.inj (Except.ok.inj h))
      rcases vswitchDelete_links hc' with ⟨hnone, rfl⟩ | ⟨i, c₁, c₂, hi, hkeeps, hlinks, rfl⟩
      · exact .vswitchAbsent hnone
      · exact .vswitchDeleted hi hkeeps hlinks
    | vswitchPortSet msg =>
      rcases vswitchPortSet_ok (handler_ok h) with ⟨rfl, hnone⟩ | ⟨v, l, hset⟩
      · exact .linkKept hnone
      · exact .linkSet hset
    | vswitchPortNoSet msg =>
      rcases vswitchPortNoSet_ok hwired (handler_ok h) with
        ⟨rfl, hnone⟩ | ⟨v, l, i, hlookup, hlink, hdel⟩
      · exact .linkAbsent hnone
      · exact .linkDeleted hlookup hlink hdel
    | _ => cases hvswitch

/-- Only the messages that `rib_check` looks at give up. -/
theorem isVswitch_of_none {env : Env} {old : Option Rib} {c : RibConf} {rings : Rings}
    {msg : ConfMsg} (h : confMessage env old c rings msg = .ok none) : msg.isVswitch = false := by
  cases msg with
  | vswitchSet msg => cases Except.ok.inj h
  | vswitchNoSet msg =>
    obtain ⟨_, -, h⟩ := bind_ok h
    cases Except.ok.inj h
  | vswitchPortSet msg =>
    obtain ⟨_, -, h⟩ := bind_ok h
    cases Except.ok.inj h
  | vswitchPortNoSet msg =>
    obtain ⟨_, -, h⟩ := bind_ok h
    cases Except.ok.inj h
  | _ => rfl

theorem wiringStep_of_ok {env : Env} {s t : RibState} {msg : ConfMsg} (hwired : Wired s.conf)
    (h : ribManagerProcessMessage env s (.conf msg) = .ok t) :
    WiringStep s.conf.next msg t.conf := by
  have hnext := (Peripheral.next s.conf).toKeepsWiring
  rcases conf_of_ok h with ⟨c, rings, hresult, rfl, -, -⟩ | ⟨hnone, hsame | hflag⟩
  · exact wiringStep_of_some (hwired.keep hnext) hresult
  · refine .other (isVswitch_of_none hnone) ?_
    rw [hsame]
    exact .of_eq rfl rfl rfl rfl rfl
  · refine .other (isVswitch_of_none hnone) ?_
    have hback : KeepsWiring s.conf.next s.conf := .of_eq rfl rfl rfl rfl rfl
    exact hback.trans (Peripheral.putStopFlag hflag).toKeepsWiring

/-- **Every configuration message keeps the invariant.** -/
theorem Wired.step {c d : RibConf} {msg : ConfMsg} (h : Wired c) (hstep : WiringStep c msg d) :
    Wired d := by
  cases hstep with
  | other hmsg hkeeps => exact h.keep hkeeps
  | vswitchKept => exact h
  | vswitchNew hfresh hnew => exact h.vswitchNew (fun j hj => vswitchLookup_none hfresh hj) hnew
  | vswitchAbsent => exact h
  | vswitchDeleted hlookup hkeeps hlinks =>
    obtain ⟨hdone, hempty⟩ := (h.keep hkeeps).deleteLinks hlinks
    exact hdone.retire hempty
  | linkKept => exact h
  | linkSet hset => exact h.portSet hset
  | linkAbsent => exact h
  | linkDeleted hlookup hlink hdel => exact h.linkDeleted hdel

/-- One configuration message, in any world. -/
def ConfStep (s : RibState) (event : Env × ConfMsg) (t : RibState) : Prop :=
  ribManagerProcessMessage event.1 s (.conf event.2) = .ok t

theorem wired_next {s : RibState} (h : Wired s.conf) : Wired s.conf.next :=
  h.keep (Peripheral.next _).toKeepsWiring

theorem wired_confStep {s t : RibState} {event : Env × ConfMsg} (h : Wired s.conf)
    (hstep : ConfStep s event t) : Wired t.conf :=
  (wired_next h).step (wiringStep_of_ok h hstep)

/-! ## The ids of the ports

A configuration starts with `0` for the id of every port, and a port that the driver reports gets
its index. A link names its port by that id.
-/

theorem PortSet.dpdkPortId_same {c d : RibConf} {msg : InternalMsgVswitchPort} {v l : Nat}
    (hset : PortSet c msg v l d) (p : Nat) : (d.port p).dpdkPortId = (c.port p).dpdkPortId := by
  rw [hset.port_apply p]
  unfold InternalMsgVswitchPort.set PortConf.tagged
  split
  · split
    · rfl
    · split <;> rfl
  · rfl

structure PortIds (c : RibConf) : Prop where
  port : ∀ p, (c.port p).dpdkPortId.toNat < MAX_ETH_PORTS
  link : ∀ l, l < c.vswitchLinkSize.toNat → (c.vswitchLink l).portId.toNat < MAX_ETH_PORTS

namespace PortIds

variable {c d : RibConf}

theorem zero : PortIds .zero :=
  ⟨fun _ => Nat.zero_lt_succ _, fun l hl => absurd hl (Nat.not_lt_zero l)⟩

theorem keep (h : PortIds c) (hkeeps : KeepsWiring c d) : PortIds d := by
  refine ⟨fun p => ?_, fun l hl => ?_⟩
  · rcases hkeeps.ids p with hid | ⟨hp, hid⟩
    · rw [hid]
      exact h.port p
    · rw [hid, Wired.ofNat_toNat (hp.trans (by decide))]
      exact hp
  · rw [hkeeps.linkSize] at hl
    rw [hkeeps.link]
    exact h.link l hl

theorem portSet {msg : InternalMsgVswitchPort} {v l : Nat} (h : PortIds c)
    (hset : PortSet c msg v l d) : PortIds d := by
  refine ⟨fun p => ?_, fun x hx => ?_⟩
  · rw [hset.dpdkPortId_same p]
    exact h.port p
  · by_cases hxl : x = l
    · rw [hxl, hset.portId]
      exact h.port _
    · rw [hset.others x hxl]
      have hsize := hset.size
      have hle := hset.le
      exact h.link x (by omega)

theorem linkDeleted {l : UInt16} {i : Nat} (h : PortIds c) (hdel : LinkDeleted c l i d) :
    PortIds d := by
  refine ⟨fun p => ?_, fun x hx => ?_⟩
  · have hid : (d.port p).dpdkPortId = (c.port p).dpdkPortId := by
      rw [hdel.port, Function.update_apply]
      split
      · next hp =>
        obtain ⟨arr, size, native, hremoved⟩ := portLinkRemoved l (c.port p)
        rw [← hp, hremoved]
      · rfl
    rw [hid]
    exact h.port p
  · rw [hdel.linkSize] at hx
    rw [hdel.link x]
    exact h.link x hx

theorem step {msg : ConfMsg} (h : PortIds c) (hstep : WiringStep c msg d) : PortIds d := by
  cases hstep with
  | other hmsg hkeeps => exact h.keep hkeeps
  | vswitchKept => exact h
  | vswitchNew hfresh hnew =>
    refine ⟨?_, ?_⟩
    · rw [hnew.port]
      exact h.port
    · rw [hnew.linkSize, hnew.link]
      exact h.link
  | vswitchAbsent => exact h
  | vswitchDeleted hlookup hkeeps hlinks =>
    have hdone := vswitchDeleteLinks_rule PortIds (h.keep hkeeps) (fun e e' he _ hone => by
      obtain ⟨j, hj⟩ := linkDeleted_ok hone
      exact he.linkDeleted hj) hlinks
    exact ⟨hdone.1.port, hdone.1.link⟩
  | linkKept => exact h
  | linkSet hset => exact h.portSet hset
  | linkAbsent => exact h
  | linkDeleted hlookup hlink hdel => exact h.linkDeleted hdel

end PortIds

theorem portIds_confStep {s t : RibState} {event : Env × ConfMsg} (hw : Wired s.conf)
    (h : PortIds s.conf) (hstep : ConfStep s event t) : PortIds t.conf :=
  (h.keep (Peripheral.next _).toKeepsWiring).step (wiringStep_of_ok hw hstep)

/-! ## Starts -/

/-- Nothing is configured yet. The native fields and the ids of the ports may be anything. -/
structure Bare (c : RibConf) : Prop where
  vswitchSize : c.vswitchSize = 0
  linkSize : c.vswitchLinkSize = 0
  lists : ∀ i, (c.vswitch i).vswitchPortSize = 0
  vlans : ∀ p, (c.port p).vlanSize = 0

namespace Bare

variable {c : RibConf}

theorem zero : Bare .zero := ⟨rfl, rfl, fun _ => rfl, fun _ => rfl⟩

theorem not_live (h : Bare c) (i : Nat) : ¬ c.LiveVswitch i ∧ ¬ c.LiveLink i := by
  constructor
  · intro hi
    have hlt := hi.1
    rw [h.vswitchSize] at hlt
    exact Nat.not_lt_zero i hlt
  · intro hi
    have hlt := hi.1
    rw [h.linkSize] at hlt
    exact Nat.not_lt_zero i hlt

theorem links (h : Bare c) (i : Nat) : (c.vswitch i).links = [] := by
  rw [VswitchConf.links, h.lists i]
  rfl

theorem vlans_nil (h : Bare c) (p : Nat) : (c.port p).vlans = [] := by
  rw [PortConf.vlans, h.vlans p]
  rfl

theorem wired (h : Bare c) : Wired c := by
  refine ⟨?_, ?_, fun i _ => h.lists i, fun i => ?_, fun i j _ hi => absurd hi (h.not_live i).1,
    fun l hl => ?_, fun i l hl => ?_, fun i => ?_, fun p => ?_, fun p l hl => ?_⟩
  · rw [h.vswitchSize]
    exact Nat.zero_le _
  · rw [h.linkSize]
    exact Nat.zero_le _
  · rw [h.lists i]
    exact Nat.zero_le _
  · rw [h.linkSize] at hl
    exact absurd hl (Nat.not_lt_zero l)
  · rw [h.links i] at hl
    cases hl
  · rw [h.links i]
    exact List.nodup_nil
  · rw [h.vlans p]
    exact Nat.zero_le _
  · rw [h.vlans_nil p] at hl
    cases hl

end Bare

/-! ## Concrete runs -/

/-- A world of `n` ports, in which every request is granted. -/
def Env.ports (n : UInt16) : Env := { Env.plain with nbPorts := n }

theorem Env.ports_allocs (n : UInt16) : (Env.ports n).AllocsOk := ⟨rfl, rfl, rfl, rfl, rfl, rfl, rfl⟩

/-- `vswitch_delete` of a vswitch without a router and a capture interface. -/
def vswitchDeleteBare (c : RibConf) (vswitchId : UInt16) : Option (Except Fault RibConf) :=
  match vswitchLookup c vswitchId with
  | none => some (.ok c)
  | some i =>
    if (c.vswitch i).routerIf.sockfd < 0 ∧ (c.vswitch i).captureIf.sockfd < 0 then
      some do
        let c ← vswitchDeleteLinks i (c.vswitch i).vswitchPortSize.toNat c
        .ok (c.setVswitch i fun v => { v with isDeleted := true })
    else none

theorem vswitchDelete_of_bare {c d : RibConf} {vswitchId : UInt16} {rings : Rings}
    (h : vswitchDeleteBare c vswitchId = some (.ok d)) :
    vswitchDelete c rings vswitchId = .ok (d, rings) := by
  rw [vswitchDeleteBare] at h
  rw [vswitchDelete]
  cases hlookup : vswitchLookup c vswitchId with
  | none =>
    rw [hlookup] at h
    obtain rfl := Except.ok.inj (Option.some.inj h)
    rfl
  | some i =>
    rw [hlookup] at h
    dsimp only at h ⊢
    split at h
    · next hno =>
      obtain ⟨c', hlinks, hd⟩ := bind_ok (Option.some.inj h)
      obtain rfl := Except.ok.inj hd
      simp only [if_neg (Int.not_le.mpr hno.1), if_neg (Int.not_le.mpr hno.2), bind, Except.bind,
        hlinks]
    · cases h

/-- The handlers that look at nothing but the configuration. -/
def ConfMsg.handler (env : Env) (c : RibConf) : ConfMsg → Option (Except Fault RibConf)
  | .portStatus => some (updatePortStatus env c)
  | .vswitchSet msg => some (.ok (c.vswitchSet msg))
  | .vswitchNoSet msg => vswitchDeleteBare c msg.vswitchId
  | .vswitchPortSet msg => some (c.vswitchPortSet msg)
  | .vswitchPortNoSet msg => some (c.vswitchPortNoSet msg)
  | .fdbEntryAdd msg => some (.ok { c with
      fdb := (fdbAddEntry c.fdb env.time msg.macAddr msg.vlanId msg.port.toNat).2 })
  | _ => none

/-- The configuration after messages that none of these handlers fails at. -/
def confRun (env : Env) : List ConfMsg → RibConf → Option RibConf
  | [], c => some c
  | msg :: rest, c =>
    match msg.handler env c.next with
    | some (.ok d) => confRun env rest d
    | _ => none

theorem ConfMsg.handler_eq {env : Env} {old : Option Rib} {c d : RibConf} {rings : Rings}
    {msg : ConfMsg} (h : msg.handler env c = some (.ok d)) :
    confMessage env old c rings msg = .ok (some (d, rings)) := by
  cases msg with
  | portStatus =>
    have hd := Option.some.inj h
    rw [confMessage, hd]
    rfl
  | vswitchSet msg =>
    obtain rfl := Except.ok.inj (Option.some.inj h)
    rfl
  | vswitchNoSet msg =>
    rw [confMessage, vswitchDelete_of_bare h]
    rfl
  | vswitchPortSet msg =>
    have hd := Option.some.inj h
    rw [confMessage, hd]
    rfl
  | vswitchPortNoSet msg =>
    have hd := Option.some.inj h
    rw [confMessage, hd]
    rfl
  | fdbEntryAdd msg =>
    obtain rfl := Except.ok.inj (Option.some.inj h)
    rfl
  | _ => cases h

/-- A message that a handler answers is taken, and its configuration is the answer. -/
theorem exists_confStep {env : Env} (hallocs : env.AllocsOk) {s : RibState} {msg : ConfMsg}
    {d : RibConf} (h : msg.handler env s.conf.next = some (.ok d)) :
    ∃ t, ConfStep s (env, msg) t ∧ t.conf = d := by
  have hresult := @ConfMsg.handler_eq env s.rib s.conf.next d s.rings msg h
  obtain ⟨t, ht⟩ := process_ok hallocs hresult
  rcases conf_of_ok ht with ⟨c', _, hc', hconf, -⟩ | ⟨hnone, -⟩
  · have hd := (Prod.mk.inj (Option.some.inj (Except.ok.inj (hc'.symm.trans hresult)))).1
    exact ⟨t, ht, hconf.trans hd⟩
  · cases hnone.symm.trans hresult

theorem run_of_confRun {env : Env} (hallocs : env.AllocsOk) {s₀ s : RibState}
    {events : List (Env × ConfMsg)} (hrun : Lib.Run ConfStep s₀ events s) {msgs : List ConfMsg}
    {c : RibConf} (h : confRun env msgs s.conf = some c) :
    ∃ t, Lib.Run ConfStep s₀ (events ++ msgs.map (env, ·)) t ∧ t.conf = c := by
  induction msgs generalizing s events with
  | nil =>
    refine ⟨s, ?_, Option.some.inj h⟩
    rw [List.map_nil, List.append_nil]
    exact hrun
  | cons msg rest ih =>
    simp only [confRun] at h
    split at h
    · next d hd =>
      obtain ⟨t, hlast, hconf⟩ := exists_confStep hallocs hd
      obtain ⟨t', hrun', hc⟩ := ih (hrun.snoc hlast) (hconf ▸ h)
      refine ⟨t', ?_, hc⟩
      rw [List.append_assoc] at hrun'
      exact hrun'
    · cases h

/-- The state after the messages, by what is computed of its configuration. -/
theorem exists_run {env : Env} (hallocs : env.AllocsOk) {msgs : List ConfMsg} {α : Type}
    {f : RibConf → α} {a : α} (h : (confRun env msgs .zero).map f = some a) :
    ∃ s, Lib.Run ConfStep .init (msgs.map (env, ·)) s ∧ f s.conf = a := by
  obtain ⟨c, hc, hf⟩ := Option.map_eq_some_iff.mp h
  have hinit : confRun env msgs RibState.init.conf = some c := hc
  obtain ⟨s, hrun, rfl⟩ := run_of_confRun hallocs .nil hinit
  exact ⟨s, hrun, hf⟩

/-- What every message of a computed run finds. -/
def confRunMeets (env : Env) (G : RibConf → ConfMsg → Prop) [∀ c msg, Decidable (G c msg)] :
    List ConfMsg → RibConf → Bool
  | [], _ => true
  | msg :: rest, c =>
    decide (G c msg) && match msg.handler env c.next with
      | some (.ok d) => confRunMeets env G rest d
      | _ => false

theorem confRun_append (env : Env) (pre post : List ConfMsg) (c : RibConf) :
    confRun env (pre ++ post) c = (confRun env pre c).bind (confRun env post) := by
  induction pre generalizing c with
  | nil => rfl
  | cons msg rest ih =>
    simp only [List.cons_append, confRun]
    split
    · exact ih _
    · rfl

/-- A run has the configuration that is computed. -/
theorem conf_of_run {env : Env} {s₀ s : RibState} {events : List (Env × ConfMsg)}
    (hrun : Lib.Run ConfStep s₀ events s) {msgs : List ConfMsg} {c : RibConf}
    (hevents : events = msgs.map (env, ·)) (h : confRun env msgs s₀.conf = some c) :
    s.conf = c := by
  induction hrun generalizing msgs c with
  | nil =>
    rw [List.map_eq_nil_iff.mp hevents.symm] at h
    exact Option.some.inj h
  | @snoc events t u event _ last ih =>
    obtain ⟨pre, post, rfl, hpre, hpost⟩ := List.map_eq_append_iff.mp hevents.symm
    obtain ⟨msg, rfl, rfl⟩ := List.map_eq_singleton_iff.mp hpost
    rw [confRun_append] at h
    obtain ⟨d, hd, hlast⟩ := Option.bind_eq_some_iff.mp h
    obtain rfl := ih hpre.symm hd
    simp only [confRun] at hlast
    split at hlast
    · next e he =>
      obtain rfl := Option.some.inj hlast
      have hresult := @ConfMsg.handler_eq env t.rib t.conf.next e t.rings msg he
      rcases conf_of_ok last with ⟨c', _, hc', hconf, -⟩ | ⟨hnone, -⟩
      · rw [hconf]
        exact (Prod.mk.inj (Option.some.inj (Except.ok.inj (hc'.symm.trans hresult)))).1
      · cases hnone.symm.trans hresult
    · cases hlast

theorem confRunMeets_at {env : Env} {G : RibConf → ConfMsg → Prop} [∀ c msg, Decidable (G c msg)]
    {pre post : List ConfMsg} {msg : ConfMsg} {c : RibConf}
    (h : confRunMeets env G (pre ++ msg :: post) c = true) :
    ∃ d, confRun env pre c = some d ∧ G d msg := by
  induction pre generalizing c with
  | nil => exact ⟨c, rfl, of_decide_eq_true (Bool.and_eq_true_iff.mp h).1⟩
  | cons first rest ih =>
    have hrest := (Bool.and_eq_true_iff.mp h).2
    split at hrest
    · next d hd =>
      obtain ⟨e, he, hG⟩ := ih hrest
      refine ⟨e, ?_, hG⟩
      simp only [confRun, hd]
      exact he
    · cases hrest

theorem stepwise_of_confRun {env : Env} (G : RibConf → ConfMsg → Prop)
    [∀ c msg, Decidable (G c msg)] {msgs : List ConfMsg} {s₀ : RibState}
    (h : confRunMeets env G msgs s₀.conf = true) : Lib.Stepwise ConfStep s₀
      (fun s event => G s.conf event.2) (msgs.map (env, ·)) := by
  intro pre event s t hpre hrun _
  obtain ⟨post, hpost⟩ := hpre
  rw [List.append_assoc] at hpost
  obtain ⟨pre', rest, rfl, rfl, hrest⟩ := List.map_eq_append_iff.mp hpost.symm
  obtain ⟨msg, rest, rfl, rfl, -⟩ := List.map_eq_cons_iff.mp hrest
  obtain ⟨d, hd, hG⟩ := confRunMeets_at h
  rw [conf_of_run hrun rfl hd]
  exact hG

end SdPlane

import SdPlane.Handled
import SdPlane.PortRefs

/-!
# Detaching a port from a vswitch (`rib_manager.c`)

`VSWITCH_PORT_SET` makes a new link, whether the port has one to the vswitch or not.
`VSWITCH_PORT_NO_SET` deletes the first link there is of the two. So a port that was attached twice
is still attached afterwards, and how often it was attached before makes a difference.

The port has to forget the link as well. `vswitch_link_remove_from_port_vlan_array` takes one
reference away at most, and none from the native field of a port without tagged links.
`Detachable` is when none of this shows.
-/

set_option autoImplicit false

namespace SdPlane

/-! ## What detaching is to do -/

/-- The slot has a link of the vswitch, in use or not. -/
def RibConf.LinkOf (c : RibConf) (vswitchId l : UInt16) : Prop :=
  l.toNat < c.vswitchLinkSize.toNat ∧ (c.vswitchLink l.toNat).vswitchId = vswitchId

/-- The port names the link, as its native one or as a tagged one. -/
def PortConf.Names (p : PortConf) (l : UInt16) : Prop :=
  p.vswitchLinkIdOfNativeVlan = l ∨ l ∈ p.vlans

/-- A message that attaches the port to the vswitch, with a tag or without one. -/
def ConfMsg.Attaches (vswitchId portId : UInt16) : ConfMsg → Prop
  | .vswitchPortSet msg => msg.vswitchId = vswitchId ∧ msg.portId = portId
  | _ => False

def VswitchLink.SameLink (l m : VswitchLink) : Prop :=
  m.vswitchId = l.vswitchId ∧ m.portId = l.portId ∧ m.tagId = l.tagId

/-- The same links are in use. -/
def RibConf.SameLinks (c d : RibConf) : Prop :=
  ∀ l, (d.LiveLink l ↔ c.LiveLink l)
    ∧ (c.LiveLink l → (c.vswitchLink l).SameLink (d.vswitchLink l))

/-- What a message that detaches a port does in state `s`, in any world. -/
structure Detaches (s : RibState) (msg : InternalMsgVswitchPort) : Prop where
  /-- No link between the two is left. -/
  links : ∀ env t, ConfStep s (env, .vswitchPortNoSet msg) t → ∀ l, t.conf.LiveLink l →
    (t.conf.vswitchLink l).vswitchId = msg.vswitchId →
    (t.conf.vswitchLink l).portId ≠ msg.portId
  /-- The port names no link of the vswitch any more. -/
  names : ∀ env t, ConfStep s (env, .vswitchPortNoSet msg) t → ∀ l,
    t.conf.LinkOf msg.vswitchId l → ¬ (t.conf.port msg.portId.toNat).Names l
  /-- It makes no difference how often the port has just been attached. -/
  repeated : ∀ env t env' u u' sets, ConfStep s (env, .vswitchPortNoSet msg) t →
    (∀ event ∈ sets, ConfMsg.Attaches msg.vswitchId msg.portId event.2) →
    Lib.Run ConfStep s sets u → ConfStep u (env', .vswitchPortNoSet msg) u' →
    t.conf.SameLinks u'.conf

/-- One deletion is enough for the port to forget the link. -/
def PortConf.Forgets (p : PortConf) (l : UInt16) : Prop :=
  p.vlans.count l ≤ 1 ∧ (p.vswitchLinkIdOfNativeVlan = l → p.vlans ≠ [] ∧ l ∉ p.vlans)

/-- When the message does what it is to do. -/
structure Detachable (c : RibConf) (v : Nat) (portId : UInt16) : Prop where
  /-- There is one link between the two at most, and it is the one that is found. -/
  once : ∀ l, c.LiveLink l → (c.vswitchLink l).vswitchId = (c.vswitch v).vswitchId →
    (c.vswitchLink l).portId = portId → vswitchLinkLookup c v portId.toNat = some l
  /-- The port names no other link of the vswitch, and this one is a link of the port. -/
  own : ∀ l, c.LinkOf (c.vswitch v).vswitchId l → (c.port portId.toNat).Names l →
    vswitchLinkLookup c v portId.toNat = some l.toNat ∧ (c.vswitchLink l.toNat).portId = portId
      ∧ (c.port portId.toNat).Forgets l
  /-- There is no room for a link, or for one only, and that one would be deleted again. -/
  full : (∀ l < MAX_VSWITCH_LINK, c.LiveLink l)
    ∨ vswitchLinkLookup c v portId.toNat = none
      ∧ ∀ l < MAX_VSWITCH_LINK, ∀ l' < MAX_VSWITCH_LINK, ¬ c.LiveLink l → ¬ c.LiveLink l' → l = l'

/-! ## The link that is found -/

/-- A link in use between the vswitch and the port, which is named by the id it has. -/
def RibConf.Between (c : RibConf) (v p l : Nat) : Prop :=
  c.LiveLink l ∧ (c.vswitchLink l).vswitchId = (c.vswitch v).vswitchId
    ∧ (c.vswitchLink l).portId = (c.port p).dpdkPortId

section Lookup

variable {c d : RibConf} {v p l : Nat}

/-- The first link between the two. -/
theorem vswitchLinkLookup_iff : vswitchLinkLookup c v p = some l
    ↔ c.Between v p l ∧ ∀ x < l, ¬ c.Between v p x := by
  constructor
  · intro h
    refine ⟨vswitchLinkLookup_some h, fun x hx hbetween => ?_⟩
    have hno := (List.find?_range_eq_some.mp h).2.2 x hx
    simp [hbetween.1.2, hbetween.2.1, hbetween.2.2] at hno
  · rintro ⟨⟨hlive, hvswitch, hport⟩, hfirst⟩
    refine List.find?_range_eq_some.mpr ⟨?_, List.mem_range.mpr hlive.1, fun x hx => ?_⟩
    · simp [hlive.2, hvswitch, hport]
    · by_contra hfound
      simp only [Bool.not_eq_true', Bool.not_eq_false, Bool.and_eq_true, decide_eq_true_eq] at hfound
      exact hfirst x hx ⟨⟨hx.trans hlive.1, hfound.2⟩, hfound.1.1, hfound.1.2⟩

theorem vswitchLinkLookup_none (h : vswitchLinkLookup c v p = none) : ¬ c.Between v p l := by
  rintro ⟨hlive, hvswitch, hport⟩
  have hno := List.find?_eq_none.mp h l (List.mem_range.mpr hlive.1)
  simp [hlive.2, hvswitch, hport] at hno

theorem exists_vswitchLinkLookup (h : c.Between v p l) :
    ∃ x, vswitchLinkLookup c v p = some x := by
  cases hlookup : vswitchLinkLookup c v p with
  | none => exact absurd h (vswitchLinkLookup_none hlookup)
  | some x => exact ⟨x, rfl⟩

/-- The same links are there to be found. -/
theorem vswitchLinkLookup_congr (h : ∀ x, d.Between v p x ↔ c.Between v p x) :
    vswitchLinkLookup d v p = vswitchLinkLookup c v p := by
  ext x
  rw [vswitchLinkLookup_iff, vswitchLinkLookup_iff]
  simp only [h]

end Lookup

/-! ## A deletion, as a port sees it -/

/-- What the port names after the link was deleted. -/
theorem names_removed {p : PortConf} {l x : UInt16} (hx : x ≠ NATIVE_UNSET) :
    (vswitchLinkRemoveFromPortVlanArray l p).Names x
      ↔ p.Names x ∧ ¬ (x = l ∧ p.Forgets l) := by
  obtain ⟨hvlans, hnative⟩ := Wired.port_removed p l
  rw [PortConf.Names, PortConf.Names, PortConf.Forgets, hvlans, hnative]
  by_cases hown : p.vswitchLinkIdOfNativeVlan = l
  · by_cases hhead : p.vlans.head? = some l
    · -- the list is looked at first, so the native field stays
      have hmem : l ∈ p.vlans := List.mem_of_head? hhead
      have herase : x ≠ l → (x ∈ p.vlans.erase l ↔ x ∈ p.vlans) := List.mem_erase_of_ne
      by_cases hxl : x = l
      · simp [hxl, hown, hhead, hmem]
      · simp [hxl, hown, hhead, herase hxl]
    · by_cases hnil : p.vlans = []
      · simp [hown, hnil]
      · have hunset : (65535 : UInt16) ≠ x := fun heq => hx heq.symm
        by_cases hxl : x = l
        · subst hxl
          have hcount : x ∉ p.vlans → p.vlans.count x ≤ 1 := fun hnot => by
            simp [List.count_eq_zero_of_not_mem hnot]
          by_cases hmem : x ∈ p.vlans
          · simp [hown, hhead, hmem]
          · simp [hown, hhead, hnil, hmem, hunset, hcount hmem]
        · have hlx : l ≠ x := fun heq => hxl heq.symm
          simp [hown, hhead, hnil, hxl, hlx, hunset]
  · by_cases hxl : x = l
    · have hmem : l ∈ p.vlans.erase l ↔ 2 ≤ p.vlans.count l := by
        rw [← List.count_pos_iff, List.count_erase_self]
        omega
      have hold : 2 ≤ p.vlans.count l → l ∈ p.vlans := fun hcount =>
        List.count_pos_iff.mp (by omega)
      simp only [hxl, hown, hmem, false_and, if_false, false_or, true_and]
      constructor
      · exact fun hcount => ⟨hold hcount, fun hle => absurd hle.1 (by omega)⟩
      · rintro ⟨-, hnot⟩
        by_contra hle
        exact hnot ⟨by omega, fun heq => heq.elim⟩
    · simp [hxl, hown, List.mem_erase_of_ne hxl]

/-- What `VSWITCH_PORT_NO_SET` has done to the links, and to port `p`. -/
structure Detached (c : RibConf) (v p : Nat) (d : RibConf) : Prop where
  linkSize : d.vswitchLinkSize = c.vswitchLinkSize
  live : ∀ l, d.LiveLink l ↔ c.LiveLink l ∧ vswitchLinkLookup c v p ≠ some l
  link : ∀ l, (c.vswitchLink l).SameLink (d.vswitchLink l)
  names : ∀ x, x ≠ NATIVE_UNSET → ((d.port p).Names x ↔ (c.port p).Names x
    ∧ ¬ (vswitchLinkLookup c v p = some x.toNat ∧ (c.vswitchLink x.toNat).portId.toNat = p
      ∧ (c.port p).Forgets x))

theorem LinkDeleted.detached {c d : RibConf} {v p i l : Nat} (hw : Wired c)
    (hl : vswitchLinkLookup c v p = some l) (hdel : LinkDeleted c (UInt16.ofNat l) i d) :
    Detached c v p d := by
  have htoNat := Wired.ofNat_toNat ((vswitchLinkLookup_some hl).1.1.trans_le hw.linkSize)
  have hlink := hdel.link
  have hport := hdel.port
  rw [htoNat] at hlink hport
  refine ⟨hdel.linkSize, fun x => ?_, fun x => ?_, fun x hx => ?_⟩
  · rw [RibConf.LiveLink, hdel.linkSize, hlink x, hl]
    by_cases hxl : x = l
    · simp [hxl]
    · have hlx : l ≠ x := fun heq => hxl heq.symm
      simp [hxl, hlx, RibConf.LiveLink]
  · rw [hlink x]
    exact ⟨rfl, rfl, rfl⟩
  · have hxl : some l = some x.toNat ↔ x = UInt16.ofNat l := by
      rw [Option.some.injEq, ← UInt16.toNat_inj, htoNat]
      exact eq_comm
    rw [hl, hxl, hport, Function.update_apply]
    by_cases hp : p = (c.vswitchLink l).portId.toNat
    · rw [if_pos hp, ← hp, names_removed hx]
      refine and_congr_right fun _ => not_congr (and_congr_right fun hxl => ?_)
      rw [hxl, htoNat, ← hp]
      simp
    · rw [if_neg hp]
      refine (and_iff_left ?_).symm
      rintro ⟨rfl, hown, -⟩
      rw [htoNat] at hown
      exact hp hown.symm

section Message

variable {s t : RibState} {env : Env} {msg : InternalMsgVswitchPort} {v : Nat}

theorem detached_of_step (hw : Wired s.conf) (hv : vswitchLookup s.conf msg.vswitchId = some v)
    (h : ConfStep s (env, .vswitchPortNoSet msg) t) :
    Detached s.conf v msg.portId.toNat t.conf := by
  have hok := (conf_of_handler rfl h).1
  rcases vswitchPortNoSet_ok (wired_next hw) hok with ⟨heq, hnone⟩ | ⟨v', l, i, hv', hl, hdel⟩
  · have hlookup : vswitchLinkLookup s.conf v msg.portId.toNat = none := hnone v hv
    rw [heq]
    refine ⟨rfl, fun l => ?_, fun l => ⟨rfl, rfl, rfl⟩, fun x _ => ?_⟩
    · rw [hlookup]
      exact ⟨fun hlive => ⟨hlive, nofun⟩, fun h => h.1⟩
    · rw [hlookup]
      exact ⟨fun hnames => ⟨hnames, fun h => nomatch h.1⟩, fun h => h.1⟩
  · obtain rfl : v' = v := Option.some.inj (hv'.symm.trans hv)
    have hdetached := hdel.detached (wired_next hw) hl
    exact ⟨hdetached.linkSize, hdetached.live, hdetached.link, hdetached.names⟩

theorem exists_detach (hw : Wired s.conf) (hp : PortIds s.conf)
    (hport : msg.portId.toNat < MAX_ETH_PORTS) :
    ∃ t, ConfStep s (.plain, .vswitchPortNoSet msg) t := by
  have hpn : PortIds s.conf.next := ⟨hp.port, hp.link⟩
  obtain ⟨d, hd⟩ := exists_vswitchPortNoSet (wired_next hw) hpn hport
  have hanswer : (ConfMsg.vswitchPortNoSet msg).handler .plain s.conf.next = some (.ok d) :=
    congrArg some hd
  obtain ⟨t, ht, -⟩ := exists_confStep Env.plain_allocs hanswer
  exact ⟨t, ht⟩

end Message

/-! ## Attaching a port again and again -/

/-- Links have been made between the vswitch and the port, in the slots `made`. -/
structure Attached (c : RibConf) (v p : Nat) (made : List Nat) (e : RibConf) : Prop where
  vswitch : ∀ w, (e.vswitch w).vswitchId = (c.vswitch w).vswitchId
    ∧ (e.LiveVswitch w ↔ c.LiveVswitch w)
  port : (e.port p).dpdkPortId = (c.port p).dpdkPortId
  live : ∀ l, e.LiveLink l ↔ c.LiveLink l ∨ l ∈ made
  fresh : ∀ l ∈ made, l < MAX_VSWITCH_LINK ∧ ¬ c.LiveLink l
  old : ∀ l, c.LiveLink l → (c.vswitchLink l).SameLink (e.vswitchLink l)
  new : ∀ l ∈ made, (e.vswitchLink l).vswitchId = (c.vswitch v).vswitchId
    ∧ (e.vswitchLink l).portId = (c.port p).dpdkPortId

namespace Attached

variable {c e e' : RibConf} {v p : Nat} {made : List Nat}

theorem start (c : RibConf) (v p : Nat) : Attached c v p [] c :=
  ⟨fun _ => ⟨rfl, Iff.rfl⟩, rfl, fun l => by simp, fun _ hl => (by cases hl),
    fun _ _ => ⟨rfl, rfl, rfl⟩, fun _ hl => (by cases hl)⟩

/-- One more link. -/
theorem portSet {msg : InternalMsgVswitchPort} {l : Nat} (h : Attached c v msg.portId.toNat made e)
    (hw : Wired e) (hset : PortSet e msg v l e') :
    Attached c v msg.portId.toNat (l :: made) e' := by
  have hnew : l ∉ made ∧ ¬ c.LiveLink l := by
    have hfree := hset.free
    rw [h.live, not_or] at hfree
    exact ⟨hfree.2, hfree.1⟩
  refine ⟨fun w => ⟨(hset.vswitch_same w).1.trans (h.vswitch w).1,
    (hset.liveVswitch_iff w).trans (h.vswitch w).2⟩, (hset.dpdkPortId_same _).trans h.port,
    fun x => ?_, fun x hx => ?_, fun x hx => ?_, fun x hx => ?_⟩
  · rw [hset.liveLink_iff, h.live, List.mem_cons]
    tauto
  · rcases List.mem_cons.mp hx with rfl | hx
    · exact ⟨hset.bound hw.linkSize, hnew.2⟩
    · exact h.fresh x hx
  · rw [hset.others x fun heq => hnew.2 (heq ▸ hx)]
    exact h.old x hx
  · rcases List.mem_cons.mp hx with rfl | hx
    · rw [hset.vswitchId, hset.portId]
      exact ⟨(h.vswitch v).1, h.port⟩
    · rw [hset.others x fun heq => hnew.1 (heq ▸ hx)]
      exact h.new x hx

/-- What lies between the vswitch and the port now. -/
theorem between_iff (h : Attached c v p made e) (l : Nat) :
    e.Between v p l ↔ c.Between v p l ∨ l ∈ made := by
  rw [RibConf.Between, RibConf.Between, h.live, (h.vswitch v).1, h.port]
  constructor
  · rintro ⟨hlive | hmade, hvswitch, hport⟩
    · obtain ⟨hsame, hsame', -⟩ := h.old l hlive
      rw [hsame] at hvswitch
      rw [hsame'] at hport
      exact .inl ⟨hlive, hvswitch, hport⟩
    · exact .inr hmade
  · rintro (⟨hlive, hvswitch, hport⟩ | hmade)
    · obtain ⟨hsame, hsame', -⟩ := h.old l hlive
      rw [hsame, hsame']
      exact ⟨.inl hlive, hvswitch, hport⟩
    · exact ⟨.inr hmade, h.new l hmade⟩

theorem lookup_eq (h : Attached c v p made e) (hw : Wired e) (hv : c.LiveVswitch v) :
    vswitchLookup e (c.vswitch v).vswitchId = some v := by
  rw [← (h.vswitch v).1]
  exact hw.lookup_eq ((h.vswitch v).2.mpr hv)

/-- A message that attaches the port makes one more link, or there is no room. -/
theorem step {s t : RibState} {env : Env} {msg : ConfMsg} {portId : UInt16}
    (h : Attached c v portId.toNat made s.conf) (hw : Wired s.conf) (hv : c.LiveVswitch v)
    (hmsg : msg.Attaches (c.vswitch v).vswitchId portId) (hstep : ConfStep s (env, msg) t) :
    (t.conf = s.conf.next ∧ ∀ l < MAX_VSWITCH_LINK, s.conf.LiveLink l)
      ∨ ∃ l ∉ made, Attached c v portId.toNat (l :: made) t.conf := by
  cases msg with
  | vswitchPortSet msg =>
    obtain ⟨hid, rfl⟩ := hmsg
    have hlookup : vswitchLookup s.conf msg.vswitchId = some v := by
      rw [hid]
      exact h.lookup_eq hw hv
    rcases vswitchPortSet_ok (conf_of_handler rfl hstep).1 with ⟨heq, hnone⟩ | ⟨v', l, hset⟩
    · obtain ⟨hfull, hall⟩ := vswitchLinkNew_none (hnone v hlookup)
      exact .inl ⟨heq, fun l hl => hall l (hl.trans_le hfull)⟩
    · obtain rfl : v' = v := Option.some.inj (hset.lookup.symm.trans hlookup)
      have hnext : Attached c v' msg.portId.toNat made s.conf.next :=
        ⟨h.vswitch, h.port, h.live, h.fresh, h.old, h.new⟩
      refine .inr ⟨l, fun hl => ?_, hnext.portSet (wired_next hw) hset⟩
      exact hset.free ((hnext.live l).mpr (.inr hl))
  | _ => exact hmsg.elim

theorem of_run {s u : RibState} {portId : UInt16} {sets : List (Env × ConfMsg)}
    (hw : Wired s.conf) (hv : s.conf.LiveVswitch v)
    (hsets : ∀ event ∈ sets, event.2.Attaches (s.conf.vswitch v).vswitchId portId)
    (hrun : Lib.Run ConfStep s sets u) :
    Wired u.conf ∧ ∃ made, Attached s.conf v portId.toNat made u.conf := by
  induction hrun with
  | nil => exact ⟨hw, [], .start ..⟩
  | snoc run last ih =>
    obtain ⟨hwu, made, h⟩ := ih fun event hevent => hsets event (List.mem_append_left _ hevent)
    refine ⟨wired_confStep hwu last, ?_⟩
    rcases h.step hwu hv (hsets _ (by simp)) last with ⟨heq, -⟩ | ⟨l, -, h'⟩
    · rw [heq]
      exact ⟨made, h.vswitch, h.port, h.live, h.fresh, h.old, h.new⟩
    · exact ⟨l :: made, h'⟩

/-- Where there is room, another link can be made. -/
theorem exists_step {s : RibState} {portId : UInt16} (h : Attached c v portId.toNat made s.conf)
    (hw : Wired s.conf) (hv : c.LiveVswitch v) (hport : portId.toNat < MAX_ETH_PORTS) {l : Nat}
    (hl : l < MAX_VSWITCH_LINK) (hfree : ¬ s.conf.LiveLink l) :
    ∃ event t x, event.2.Attaches (c.vswitch v).vswitchId portId ∧ ConfStep s event t
      ∧ x ∉ made ∧ Attached c v portId.toNat (x :: made) t.conf := by
  have hmsg : (ConfMsg.vswitchPortSet ⟨(c.vswitch v).vswitchId, portId, 0, true⟩).Attaches
      (c.vswitch v).vswitchId portId := ⟨rfl, rfl⟩
  obtain ⟨d, hd⟩ := @exists_vswitchPortSet s.conf.next
    ⟨(c.vswitch v).vswitchId, portId, 0, true⟩ hport
  have hanswer : (ConfMsg.vswitchPortSet ⟨(c.vswitch v).vswitchId, portId, 0, true⟩).handler .plain
      s.conf.next = some (.ok d) := congrArg some hd
  obtain ⟨t, ht, -⟩ := exists_confStep Env.plain_allocs hanswer
  rcases h.step hw hv hmsg ht with ⟨-, hall⟩ | ⟨x, hx, h'⟩
  · exact absurd (hall l hl) hfree
  · exact ⟨_, t, x, hmsg, ht, hx, h'⟩

end Attached

/-! ## When detaching does what it is to do -/

namespace Detached

variable {c d : RibConf} {v : Nat} {vswitchId portId : UInt16}

theorem links_iff (h : Detached c v portId.toNat d) :
    (∀ l, d.LiveLink l → (d.vswitchLink l).vswitchId = vswitchId →
        (d.vswitchLink l).portId ≠ portId)
      ↔ ∀ l, c.LiveLink l → (c.vswitchLink l).vswitchId = vswitchId →
        (c.vswitchLink l).portId = portId → vswitchLinkLookup c v portId.toNat = some l := by
  constructor
  · intro hnone l hl hvswitch hport
    by_contra hlookup
    obtain ⟨hsame, hsame', -⟩ := h.link l
    exact hnone l ((h.live l).mpr ⟨hl, hlookup⟩) (hsame.trans hvswitch) (hsame'.trans hport)
  · intro honce l hl hvswitch hport
    obtain ⟨hsame, hsame', -⟩ := h.link l
    obtain ⟨hlive, hother⟩ := (h.live l).mp hl
    exact hother (honce l hlive (hsame.symm.trans hvswitch) (hsame'.symm.trans hport))

theorem names_iff (h : Detached c v portId.toNat d) (hw : Wired c) :
    (∀ l, d.LinkOf vswitchId l → ¬ (d.port portId.toNat).Names l)
      ↔ ∀ l, c.LinkOf vswitchId l → (c.port portId.toNat).Names l →
        vswitchLinkLookup c v portId.toNat = some l.toNat
          ∧ (c.vswitchLink l.toNat).portId = portId ∧ (c.port portId.toNat).Forgets l := by
  have hsame : ∀ l, d.LinkOf vswitchId l ↔ c.LinkOf vswitchId l := by
    intro l
    rw [RibConf.LinkOf, RibConf.LinkOf, h.linkSize, (h.link l.toNat).1]
  refine forall_congr' fun l => ?_
  rw [hsame l]
  refine imp_congr_right fun hl => ?_
  have hunset : l ≠ NATIVE_UNSET := by
    have hne := ne_unset (hl.1.trans_le hw.linkSize)
    rwa [UInt16.ofNat_toNat] at hne
  rw [h.names l hunset, not_and, not_not, UInt16.toNat_inj]

variable {made : List Nat} {e d' : RibConf}

/-- Links that have just been made do not show after one of them is deleted, if there is one at
    most and there was none. -/
theorem sameLinks (h : Detached c v portId.toNat d) (hmade : Attached c v portId.toNat made e)
    (h' : Detached e v portId.toNat d')
    (hfull : (∀ l < MAX_VSWITCH_LINK, c.LiveLink l)
      ∨ vswitchLinkLookup c v portId.toNat = none ∧ ∀ l < MAX_VSWITCH_LINK,
        ∀ l' < MAX_VSWITCH_LINK, ¬ c.LiveLink l → ¬ c.LiveLink l' → l = l') :
    d.SameLinks d' := by
  have hlive : ∀ l, d'.LiveLink l ↔ d.LiveLink l := by
    intro l
    rw [h.live, h'.live, hmade.live]
    rcases List.eq_nil_or_concat made with rfl | ⟨rest, x, rfl⟩
    · have hbetween : ∀ y, e.Between v portId.toNat y ↔ c.Between v portId.toNat y := by
        intro y
        rw [hmade.between_iff]
        simp
      rw [vswitchLinkLookup_congr hbetween]
      simp
    · -- a link was made, so there was room for it
      have hx : x ∈ rest.concat x := by simp
      obtain ⟨hlt, hfree⟩ := hmade.fresh x hx
      rcases hfull with hall | ⟨hnone, hone⟩
      · exact absurd (hall x hlt) hfree
      · have hall : ∀ y ∈ rest.concat x, y = x := fun y hy =>
          hone y (hmade.fresh y hy).1 x hlt (hmade.fresh y hy).2 hfree
        obtain ⟨z, hz⟩ := exists_vswitchLinkLookup ((hmade.between_iff x).mpr (.inr hx))
        obtain rfl : z = x := by
          rcases (hmade.between_iff z).mp (vswitchLinkLookup_iff.mp hz).1 with hold | hnew
          · exact absurd hold (vswitchLinkLookup_none hnone)
          · exact hall z hnew
        rw [hz, hnone]
        constructor
        · rintro ⟨hold | hnew, hne⟩
          · exact ⟨hold, nofun⟩
          · exact absurd (by rw [hall l hnew]) hne
        · rintro ⟨hold, -⟩
          refine ⟨.inl hold, fun heq => hfree ?_⟩
          rw [Option.some.inj heq]
          exact hold
  refine fun l => ⟨hlive l, fun hl => ?_⟩
  have hold := hmade.old l ((h.live l).mp hl).1
  have hd := h.link l
  have hd' := h'.link l
  exact ⟨hd'.1.trans (hold.1.trans hd.1.symm), hd'.2.1.trans (hold.2.1.trans hd.2.1.symm),
    hd'.2.2.trans (hold.2.2.trans hd.2.2.symm)⟩

/-- If they do not show, the one that is found is each of them, and the one that was found before. -/
theorem found_of_sameLinks (h : Detached c v portId.toNat d)
    (hmade : Attached c v portId.toNat made e) (h' : Detached e v portId.toNat d')
    (hsame : d.SameLinks d') {l : Nat}
    (hl : l ∈ made ∨ vswitchLinkLookup c v portId.toNat = some l) :
    vswitchLinkLookup e v portId.toNat = some l := by
  by_contra hother
  have hgone : ¬ d.LiveLink l := by
    rw [h.live]
    rintro ⟨hlive, hne⟩
    rcases hl with hmem | hfound
    · exact (hmade.fresh l hmem).2 hlive
    · exact hne hfound
  refine hgone ((hsame l).1.mp ((h'.live l).mpr ⟨(hmade.live l).mpr ?_, hother⟩))
  rcases hl with hmem | hfound
  · exact .inr hmem
  · exact .inl (vswitchLinkLookup_iff.mp hfound).1.1

end Detached

/-- Where every link that is made is the one that is found, there is no room for two, nor for one
    besides an old one. -/
theorem full_of_found {s : RibState} {v : Nat} {portId : UInt16} (hw : Wired s.conf)
    (hlive : s.conf.LiveVswitch v) (hport : portId.toNat < MAX_ETH_PORTS)
    (hfound : ∀ sets u made, (∀ event ∈ sets,
        ConfMsg.Attaches (s.conf.vswitch v).vswitchId portId event.2) →
      Lib.Run ConfStep s sets u → Attached s.conf v portId.toNat made u.conf →
      ∀ l, l ∈ made ∨ vswitchLinkLookup s.conf v portId.toNat = some l →
        vswitchLinkLookup u.conf v portId.toNat = some l) :
    (∀ l < MAX_VSWITCH_LINK, s.conf.LiveLink l)
      ∨ vswitchLinkLookup s.conf v portId.toNat = none ∧ ∀ l < MAX_VSWITCH_LINK,
        ∀ l' < MAX_VSWITCH_LINK, ¬ s.conf.LiveLink l → ¬ s.conf.LiveLink l' → l = l' := by
  by_contra hnot
  rw [not_or] at hnot
  obtain ⟨hroom, hmore⟩ := hnot
  simp only [not_forall] at hroom
  obtain ⟨l, hl, hfree⟩ := hroom
  obtain ⟨event, u, x, hset, hu, -, hmade⟩ :=
    (Attached.start s.conf v portId.toNat).exists_step hw hlive hport hl hfree
  have hsets : ∀ event' ∈ [event],
      ConfMsg.Attaches (s.conf.vswitch v).vswitchId portId event'.2 := by
    intro event' hmem
    rw [List.mem_singleton.mp hmem]
    exact hset
  have hrun : Lib.Run ConfStep s [event] u := Lib.Run.nil.snoc hu
  have hx := hfound _ u _ hsets hrun hmade
  have hnone : vswitchLinkLookup s.conf v portId.toNat = none := by
    -- the link that was found first would have to be the new one
    cases hlookup : vswitchLinkLookup s.conf v portId.toNat with
    | none => rfl
    | some y =>
      have heq := (hx y (.inr hlookup)).symm.trans (hx x (.inl (by simp)))
      obtain rfl := Option.some.inj heq
      exact absurd (vswitchLinkLookup_some hlookup).1 (hmade.fresh y (by simp)).2
  refine hmore ⟨hnone, fun a ha b hb hfreea hfreeb => ?_⟩
  by_contra hab
  -- one of the two is still free, so another link can be made
  obtain ⟨y, hy, hfreey⟩ : ∃ y, y < MAX_VSWITCH_LINK ∧ ¬ u.conf.LiveLink y := by
    by_cases hax : a = x
    · refine ⟨b, hb, fun hb' => ?_⟩
      rcases (hmade.live b).mp hb' with hold | hnew
      · exact hfreeb hold
      · exact hab (hax.trans (List.mem_singleton.mp hnew).symm)
    · refine ⟨a, ha, fun ha' => ?_⟩
      rcases (hmade.live a).mp ha' with hold | hnew
      · exact hfreea hold
      · exact hax (List.mem_singleton.mp hnew)
  obtain ⟨event₂, u₂, z, hset₂, hu₂, hz, hmade₂⟩ :=
    hmade.exists_step (wired_confStep hw hu) hlive hport hy hfreey
  have hsets₂ : ∀ event' ∈ [event] ++ [event₂],
      ConfMsg.Attaches (s.conf.vswitch v).vswitchId portId event'.2 := by
    intro event' hmem
    rcases List.mem_append.mp hmem with hmem | hmem
    · exact hsets event' hmem
    · rw [List.mem_singleton.mp hmem]
      exact hset₂
  have hboth := hfound _ u₂ _ hsets₂ (hrun.snoc hu₂) hmade₂
  have heq := (hboth x (.inl (by simp))).symm.trans (hboth z (.inl (by simp)))
  exact hz (List.mem_singleton.mpr (Option.some.inj heq).symm)

/-- **When a port is detached as it should be.** -/
theorem detaches_iff {s₀ s : RibState} {events : List (Env × ConfMsg)} (hbare : Bare s₀.conf)
    (hports : PortIds s₀.conf) (hrun : Lib.Run ConfStep s₀ events s) {msg : InternalMsgVswitchPort}
    {v : Nat} (hv : vswitchLookup s.conf msg.vswitchId = some v)
    (hport : msg.portId.toNat < MAX_ETH_PORTS) :
    Detaches s msg ↔ Detachable s.conf v msg.portId := by
  have hstep : ∀ (s : RibState) (event : Env × ConfMsg) (t : RibState),
      Wired s.conf ∧ PortIds s.conf → ConfStep s event t → Wired t.conf ∧ PortIds t.conf :=
    fun _ _ _ h hstep => ⟨wired_confStep h.1 hstep, portIds_confStep h.1 h.2 hstep⟩
  obtain ⟨hw, hp⟩ := hrun.invariant (fun s => Wired s.conf ∧ PortIds s.conf)
    ⟨hbare.wired, hports⟩ hstep
  obtain ⟨hlive, hid⟩ := vswitchLookup_some hv
  have hdetached : ∀ {env t}, ConfStep s (env, .vswitchPortNoSet msg) t →
      Detached s.conf v msg.portId.toNat t.conf := fun h => detached_of_step hw hv h
  -- the same after the port has been attached some more times
  have hdetached' : ∀ {made u env u'}, Wired u.conf →
      Attached s.conf v msg.portId.toNat made u.conf →
      ConfStep u (env, .vswitchPortNoSet msg) u' →
      Detached u.conf v msg.portId.toNat u'.conf := fun hwu hmade h =>
    detached_of_step hwu (hid ▸ hmade.lookup_eq hwu hlive) h
  constructor
  · intro h
    obtain ⟨t, ht⟩ := exists_detach hw hp hport
    refine ⟨?_, ?_, full_of_found hw hlive hport fun sets u made hsets hu hmade l hl => ?_⟩
    · rw [hid]
      exact (hdetached ht).links_iff.mp (h.links _ t ht)
    · rw [hid]
      exact ((hdetached ht).names_iff hw).mp (h.names _ t ht)
    · rw [hid] at hsets
      obtain ⟨hwu, hpu⟩ := hu.invariant (fun s => Wired s.conf ∧ PortIds s.conf) ⟨hw, hp⟩ hstep
      obtain ⟨u', hu'⟩ := exists_detach hwu hpu hport
      exact (hdetached ht).found_of_sameLinks hmade (hdetached' hwu hmade hu')
        (h.repeated _ t _ u u' sets ht hsets hu hu') hl
  · intro h
    have honce := h.once
    have hown := h.own
    rw [hid] at honce hown
    refine ⟨fun env t ht => (hdetached ht).links_iff.mpr honce,
      fun env t ht => ((hdetached ht).names_iff hw).mpr hown,
      fun env t env' u u' sets ht hsets hu hu' => ?_⟩
    rw [← hid] at hsets
    obtain ⟨hwu, made, hmade⟩ := Attached.of_run hw hlive hsets hu
    exact (hdetached ht).sameLinks hmade (hdetached' hwu hmade hu') h.full

/-- Two vswitches with as many links as they can have. Port 0 has one of them. -/
def allLinks : List ConfMsg :=
  [.portStatus, .vswitchSet ⟨1, 10⟩, .vswitchSet ⟨2, 20⟩]
    ++ (List.range 16).map (fun i => .vswitchPortSet ⟨2, UInt16.ofNat (1 + i % 6), 0, true⟩)
    ++ (List.range 15).map (fun i => .vswitchPortSet ⟨1, UInt16.ofNat (1 + i % 6), 0, true⟩)
    ++ [.vswitchPortSet ⟨1, 0, 0, true⟩]

/-- The links of `allLinks` are all in use, and the last one is the one of port 0. -/
theorem detachable_allLinks {c : RibConf} (hfound : vswitchLinkLookup c 0 0 = some 31)
    (hid : (c.vswitch 0).vswitchId = 1) (hnative : (c.port 0).vswitchLinkIdOfNativeVlan = 0)
    (hvlans : (c.port 0).vlans = [31]) (hfirst : (c.vswitchLink 0).vswitchId = 2)
    (hlast : (c.vswitchLink 31).portId = 0) (hlive : ∀ l < MAX_VSWITCH_LINK, c.LiveLink l)
    (hothers : ∀ l < c.vswitchLinkSize.toNat, l = 31 ∨ (c.vswitchLink l).portId ≠ 0) :
    Detachable c 0 0 where
  once l hl _ hport := by
    rcases hothers l hl.1 with rfl | hne
    · exact hfound
    · exact absurd hport hne
  own l hl hnames := by
    rcases hnames with hnames | hmem
    · rw [show (0 : UInt16).toNat = 0 from rfl, hnative] at hnames
      subst hnames
      exact absurd ((hl.2.symm.trans hfirst).symm.trans hid) (by decide)
    · rw [show (0 : UInt16).toNat = 0 from rfl, hvlans, List.mem_singleton] at hmem
      subst hmem
      refine ⟨hfound, hlast, ?_⟩
      rw [PortConf.Forgets, show (0 : UInt16).toNat = 0 from rfl, hvlans, hnative]
      decide
  full := .inl hlive

theorem detaches_iff_all_links : ∃ s, Lib.Run ConfStep .init (allLinks.map (Env.ports 8, ·)) s
    ∧ Detaches s ⟨1, 0, 0, true⟩ := by
  obtain ⟨s, hrun, hfacts⟩ := @exists_run _ (Env.ports_allocs 8) allLinks _
    (fun c => ([vswitchLookup c 1, vswitchLinkLookup c 0 0],
      [(c.vswitch 0).vswitchId, (c.port 0).vswitchLinkIdOfNativeVlan,
        (c.vswitchLink 0).vswitchId, (c.vswitchLink 31).portId], (c.port 0).vlans,
      (List.range 32).all fun l => decide (c.LiveLink l),
      (List.range c.vswitchLinkSize.toNat).all fun l => l == 31 || (c.vswitchLink l).portId != 0))
    ([some 0, some 31], [1, 0, 2, 0], [31], true, true) (by decide +kernel)
  simp only [Prod.mk.injEq, List.cons.injEq, List.all_eq_true, List.mem_range, decide_eq_true_eq,
    Bool.or_eq_true, beq_iff_eq, bne_iff_ne, and_true] at hfacts
  obtain ⟨⟨hv, hfound⟩, ⟨hid, hnative, hfirst, hlast⟩, hvlans, hlive, hothers⟩ := hfacts
  have hbare : Bare RibState.init.conf := Bare.zero
  have hports : PortIds RibState.init.conf := PortIds.zero
  have hiff := @detaches_iff _ s _ hbare hports hrun ⟨1, 0, 0, true⟩ 0 hv (by decide)
  exact ⟨s, hrun, hiff.mpr
    (detachable_allLinks hfound hid hnative hvlans hfirst hlast hlive hothers)⟩

/-- Port 0 is attached twice, and detached once. -/
theorem attached_twice_remains : ¬ ∀ (events : List (Env × ConfMsg)) (s : RibState)
    (msg : InternalMsgVswitchPort) (v : Nat), Lib.Run ConfStep .init events s →
    vswitchLookup s.conf msg.vswitchId = some v → msg.portId.toNat < MAX_ETH_PORTS →
    Detaches s msg := by
  intro hall
  obtain ⟨s, hrun, hfacts⟩ := @exists_run _ Env.plain_allocs
    [.vswitchSet ⟨1, 10⟩, .vswitchPortSet ⟨1, 0, 0, true⟩, .vswitchPortSet ⟨1, 0, 0, true⟩] _
    (fun c => (vswitchLookup c 1, match c.next.vswitchPortNoSet ⟨1, 0, 0, true⟩ with
      | .ok d => some (decide (d.LiveLink 1), (d.vswitchLink 1).vswitchId, (d.vswitchLink 1).portId)
      | .error _ => none)) (some 0, some (true, 1, 0)) (by decide +kernel)
  obtain ⟨hv, hfacts⟩ := Prod.mk.inj hfacts
  split at hfacts
  · next d hd =>
    simp only [Option.some.injEq, Prod.mk.injEq, decide_eq_true_eq] at hfacts
    obtain ⟨hlive, hvswitch, hport⟩ := hfacts
    obtain ⟨t, ht, rfl⟩ := exists_confStep Env.plain_allocs
      (show (ConfMsg.vswitchPortNoSet ⟨1, 0, 0, true⟩).handler .plain s.conf.next = some (.ok d)
        from congrArg some hd)
    have hdetaches := hall _ s ⟨1, 0, 0, true⟩ 0 hrun hv (by decide)
    exact hdetaches.links _ t ht 1 hlive hvswitch hport
  · cases hfacts

end SdPlane

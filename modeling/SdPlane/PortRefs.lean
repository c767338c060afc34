import SdPlane.Wired

/-!
# What a port lists, and what a deletion leaves

`PortRefs` says of the lists of the ports what `Wired` says of the lists of the vswitches: a link
that a port lists is in use and names that port, and no port lists a link twice.

A deletion breaks it in one way. `vswitch_link_remove_from_port_vlan_array` looks at the native
field in every round of its loop over the tagged links, so a port whose native field names the
link clears that field and keeps the link on its list, unless the link comes first there
(`Wired.port_removed`). The native field is not maintained well enough to rule that out: it
starts as `0`, and a port without tagged links keeps it when the link is deleted. `PortRefsKept`
is what a message has to find for the lists to stay right.

`Deleting` is the state of affairs after some links of a vswitch are deleted, be it one
(`VSWITCH_PORT_NO_SET`) or all of them one after the other (`VSWITCH_NO_SET`).
-/

set_option autoImplicit false

namespace SdPlane

/-- The mark of a port without a native link, `-1`. -/
def NATIVE_UNSET : UInt16 := 65535

/-- When the loop over the links of vswitch `i` comes to the native link of port `q`, the port
    still has a tagged one: one that comes later on the list, or is on another list. -/
def RibConf.Outlived (c : RibConf) (i q : Nat) : Prop :=
  ∃ x ∈ (c.port q).vlans,
    x ∉ (c.vswitch i).links.takeWhile (· ≠ (c.port q).vswitchLinkIdOfNativeVlan)

instance (c : RibConf) (i q : Nat) : Decidable (c.Outlived i q) :=
  inferInstanceAs (Decidable (∃ x ∈ (c.port q).vlans,
    x ∉ (c.vswitch i).links.takeWhile (· ≠ (c.port q).vswitchLinkIdOfNativeVlan)))

/-- When the loop over the links of vswitch `i` comes to a tagged link that the native field of
    its port names, the link comes first on the list of the port. -/
def RibConf.HeadWhenDeleted (c : RibConf) (i : Nat) : Prop :=
  ∀ l ∈ (c.vswitch i).links, (c.vswitchLink l.toNat).portId.toNat < MAX_ETH_PORTS →
    (c.port (c.vswitchLink l.toNat).portId.toNat).vswitchLinkIdOfNativeVlan = l →
    l ∈ (c.port (c.vswitchLink l.toNat).portId.toNat).vlans →
    ∀ x ∈ (c.port (c.vswitchLink l.toNat).portId.toNat).vlans.takeWhile (· ≠ l),
      x ∈ (c.vswitch i).links.takeWhile (· ≠ l)

structure PortRefs (c : RibConf) : Prop where
  tagged : ∀ p < MAX_ETH_PORTS, ∀ l ∈ (c.port p).vlans,
    c.LiveLink l.toNat ∧ (c.vswitchLink l.toNat).portId.toNat = p
  nodup : ∀ p < MAX_ETH_PORTS, (c.port p).vlans.Nodup

/-- What a message has to find for the lists of the ports to stay right. -/
def PortRefsKept (c : RibConf) : ConfMsg → Prop
  | .vswitchPortSet msg => ∀ v, vswitchLookup c msg.vswitchId = some v →
      (∃ l < MAX_VSWITCH_LINK, ¬ c.LiveLink l) →
      msg.isTagged = true → (c.port msg.portId.toNat).vlanSize.toNat < MAX_VLAN_PER_PORT →
      (c.port msg.portId.toNat).dpdkPortId = msg.portId
  | .vswitchPortNoSet msg => ∀ v l, vswitchLookup c msg.vswitchId = some v →
      vswitchLinkLookup c v msg.portId.toNat = some l →
      (c.port (c.vswitchLink l).portId.toNat).vswitchLinkIdOfNativeVlan = UInt16.ofNat l →
      UInt16.ofNat l ∈ (c.port (c.vswitchLink l).portId.toNat).vlans →
      (c.port (c.vswitchLink l).portId.toNat).vlans.head? = some (UInt16.ofNat l)
  | .vswitchNoSet msg => ∀ i, vswitchLookup c msg.vswitchId = some i → c.HeadWhenDeleted i
  | _ => True

variable {c d : RibConf}

theorem ne_unset {l : Nat} (h : l < MAX_VSWITCH_LINK) : UInt16.ofNat l ≠ NATIVE_UNSET := by
  intro heq
  have htoNat := congrArg UInt16.toNat heq
  rw [Wired.ofNat_toNat h] at htoNat
  have hlt : l < 32 := h
  rw [show NATIVE_UNSET.toNat = 65535 from rfl] at htoNat
  omega

theorem Wired.live_ne_unset (hw : Wired c) {l : UInt16} (hl : c.LiveLink l.toNat) :
    l ≠ NATIVE_UNSET := by
  have hne := ne_unset (hl.1.trans_le hw.linkSize)
  rwa [UInt16.ofNat_toNat] at hne

/-! ## Deletions -/

/-- Some links of the vswitch in slot `i` have been deleted. -/
structure Deleting (c : RibConf) (i : Nat) (done : List UInt16) (e : RibConf) : Prop where
  vswitchSize : e.vswitchSize = c.vswitchSize
  linkSize : e.vswitchLinkSize = c.vswitchLinkSize
  vswitch : ∀ j, (e.vswitch j).vswitchId = (c.vswitch j).vswitchId
    ∧ (e.vswitch j).isDeleted = (c.vswitch j).isDeleted
    ∧ (e.vswitch j).links = (c.vswitch j).links.filter (· ∉ done)
  link : ∀ j, (e.vswitchLink j).portId = (c.vswitchLink j).portId
    ∧ (e.vswitchLink j).vswitchId = (c.vswitchLink j).vswitchId
    ∧ (e.vswitchLink j).tagId = (c.vswitchLink j).tagId
  alive : ∀ x : UInt16, (e.vswitchLink x.toNat).isDeleted = false
    ↔ (c.vswitchLink x.toNat).isDeleted = false ∧ x ∉ done
  elsewhere : ∀ j, (c.vswitchLink j).vswitchId ≠ (c.vswitch i).vswitchId →
    (e.vswitchLink j).vswitchPort = (c.vswitchLink j).vswitchPort
  vlans : ∀ q < MAX_ETH_PORTS, (e.port q).vlans = (c.port q).vlans.filter (· ∉ done)
  native : ∀ q < MAX_ETH_PORTS,
    (e.port q).vswitchLinkIdOfNativeVlan = (c.port q).vswitchLinkIdOfNativeVlan
      ∨ (e.port q).vswitchLinkIdOfNativeVlan = NATIVE_UNSET
        ∧ (c.port q).vswitchLinkIdOfNativeVlan ∈ done

theorem Deleting.start {i : Nat} (hkeeps : KeepsWiring c d) : Deleting c i [] d := by
  have hnone : ∀ m : List UInt16, m = m.filter (· ∉ ([] : List UInt16)) := by
    intro m
    simp
  refine ⟨hkeeps.vswitchSize, hkeeps.linkSize, fun j => ?_, fun j => ?_, fun x => ?_, fun j _ => ?_,
    fun q _ => ?_, fun q _ => .inl (hkeeps.port q).2.2⟩
  · obtain ⟨rif, cif, hd⟩ := hkeeps.vswitch j
    rw [hd, ← hnone]
    exact ⟨rfl, rfl, rfl⟩
  · rw [hkeeps.link]
    exact ⟨rfl, rfl, rfl⟩
  · rw [hkeeps.link]
    simp
  · rw [hkeeps.link]
  · obtain ⟨hsize, hvlan, -⟩ := hkeeps.port q
    rw [← hnone, PortConf.vlans, PortConf.vlans, hsize, hvlan]

namespace Deleting

variable {e e' : RibConf} {i i' : Nat} {done : List UInt16} {l : UInt16}

theorem liveLink_iff (hd : Deleting c i done e) (x : UInt16) :
    e.LiveLink x.toNat ↔ c.LiveLink x.toNat ∧ x ∉ done := by
  rw [RibConf.LiveLink, RibConf.LiveLink, hd.linkSize, hd.alive x, and_assoc]

theorem liveVswitch_iff (hd : Deleting c i done e) (j : Nat) : e.LiveVswitch j ↔ c.LiveVswitch j := by
  rw [RibConf.LiveVswitch, RibConf.LiveVswitch, hd.vswitchSize, (hd.vswitch j).2.1]

/-- The native field of a port, as far as a link that is still there goes. -/
theorem native_eq_iff (hd : Deleting c i done e) {q : Nat} (hq : q < MAX_ETH_PORTS)
    (hunset : l ≠ NATIVE_UNSET) (hnew : l ∉ done) :
    (e.port q).vswitchLinkIdOfNativeVlan = l ↔ (c.port q).vswitchLinkIdOfNativeVlan = l := by
  rcases hd.native q hq with heq | ⟨hgone, hmem⟩
  · rw [heq]
  · rw [hgone]
    exact ⟨fun heq => absurd heq.symm hunset, fun heq => absurd (heq ▸ hmem) hnew⟩

/-- One more is deleted, and its port takes it off the list if it is on it. -/
theorem step (h : PortRefs c) (hw : Wired c) (hd : Deleting c i done e) (hwe : Wired e)
    (hid : (c.vswitchLink l.toNat).vswitchId = (c.vswitch i).vswitchId)
    (hdel : LinkDeleted e l i' e')
    (hhead : (e.port (c.vswitchLink l.toNat).portId.toNat).vswitchLinkIdOfNativeVlan = l →
      l ∈ (e.port (c.vswitchLink l.toNat).portId.toNat).vlans →
      (e.port (c.vswitchLink l.toNat).portId.toNat).vlans.head? = some l) :
    Deleting c i (done ++ [l]) e' := by
  have hep : (e.vswitchLink l.toNat).portId = (c.vswitchLink l.toNat).portId := (hd.link _).1
  have herase : ∀ {m : List UInt16}, m.Nodup → m.filter (· ∉ done ++ [l])
      = (m.filter (· ∉ done)).erase l := by
    intro m hm
    have hfilter : ∀ x : UInt16, decide (x ∉ done ++ [l])
        = (decide (x ∉ done) && decide (x ≠ l)) := by
      intro x
      simp [not_or]
    rw [(hm.filter _).erase_eq_filter, List.filter_filter]
    apply List.filter_congr
    intro x hx
    rw [hfilter, Bool.and_comm]
    congr 1
    simp [bne, BEq.beq]
  refine ⟨hdel.vswitchSize.trans hd.vswitchSize, hdel.linkSize.trans hd.linkSize, fun j => ?_,
    fun j => ?_, fun x => ?_, fun j hj => ?_, fun q hq => ?_, fun q hq => ?_⟩
  · obtain ⟨hlinks, hid', hdeleted, -⟩ := hwe.links_deleted hdel j
    refine ⟨hid'.trans (hd.vswitch j).1, hdeleted.trans (hd.vswitch j).2.1, ?_⟩
    rw [hlinks, (hd.vswitch j).2.2, herase (hw.once j)]
  · rw [hdel.link j]
    exact hd.link j
  · rw [hdel.link x.toNat]
    by_cases hxl : x = l
    · simp [hxl]
    · have hxl' : x.toNat ≠ l.toNat := fun heq => hxl (UInt16.toNat_inj.mp heq)
      simp only [if_neg hxl', hd.alive x]
      simp [hxl]
  · rw [hdel.link j]
    have hne : (e.vswitchLink j).vswitchId ≠ (e.vswitchLink l.toNat).vswitchId := by
      rw [(hd.link j).2.1, (hd.link _).2.1, hid]
      exact hj
    simp only [if_neg fun hcond : _ ∧ _ ∧ _ => hne hcond.2.2]
    exact hd.elsewhere j hj
  · rw [herase (h.nodup q hq), ← hd.vlans q hq, hdel.port, Function.update_apply, hep]
    split
    · next hqp =>
      subst hqp
      rw [(Wired.port_removed _ l).1]
      split
      · next hboth =>
        exact (List.erase_of_not_mem fun hmem => hboth.2 (hhead hboth.1 hmem)).symm
      · rfl
    · next hqp =>
      -- another port does not list it
      refine (List.erase_of_not_mem fun hmem => hqp ?_).symm
      rw [hd.vlans q hq] at hmem
      exact (h.tagged q hq l (List.mem_filter.mp hmem).1).2.symm
  · have hsame : (e'.port q).vswitchLinkIdOfNativeVlan = (e.port q).vswitchLinkIdOfNativeVlan
        ∨ (e'.port q).vswitchLinkIdOfNativeVlan = NATIVE_UNSET
          ∧ (e.port q).vswitchLinkIdOfNativeVlan = l := by
      rw [hdel.port, Function.update_apply]
      split
      · next hqp =>
        rw [hqp, (Wired.port_removed _ l).2]
        split
        · next hall => exact .inr ⟨rfl, hall.1⟩
        · exact .inl rfl
      · exact .inl rfl
    rcases hsame with hsame | ⟨hunset, hnow⟩
    · rw [hsame]
      rcases hd.native q hq with heq | ⟨hunset, hmem⟩
      · exact .inl heq
      · exact .inr ⟨hunset, List.mem_append_left _ hmem⟩
    · refine .inr ⟨hunset, ?_⟩
      rcases hd.native q hq with heq | ⟨-, hmem⟩
      · rw [← heq, hnow]
        simp
      · exact List.mem_append_left _ hmem

/-- What happens to the native fields. -/
theorem native_step (hd : Deleting c i done e) (hdel : LinkDeleted e l i' e') (q : Nat) :
    (e'.port q).vswitchLinkIdOfNativeVlan
      = if q = (c.vswitchLink l.toNat).portId.toNat ∧ (e.port q).vswitchLinkIdOfNativeVlan = l
          ∧ (e.port q).vlans ≠ [] ∧ (e.port q).vlans.head? ≠ some l then NATIVE_UNSET
        else (e.port q).vswitchLinkIdOfNativeVlan := by
  rw [hdel.port, Function.update_apply, (hd.link _).1]
  by_cases hqp : q = (c.vswitchLink l.toNat).portId.toNat
  · subst hqp
    rw [if_pos rfl, (Wired.port_removed _ l).2]
    simp only [true_and]
    rfl
  · rw [if_neg hqp, if_neg fun hall => hqp hall.1]

end Deleting

theorem takeWhile_ne {l : UInt16} {done todo : List UInt16} (h : (done ++ l :: todo).Nodup) :
    (done ++ l :: todo).takeWhile (· ≠ l) = done := by
  have hdone : ∀ x ∈ done, decide (x ≠ l) = true := by
    intro x hx
    have hne := (List.nodup_append.mp h).2.2 x hx l List.mem_cons_self
    simpa using hne
  rw [List.takeWhile_append_of_pos hdone]
  simp

/-- An element comes first once all in front of it are gone. -/
theorem head_filter {l : UInt16} {m done : List UInt16} (hmem : l ∈ m) (hnew : l ∉ done)
    (hbefore : ∀ x ∈ m.takeWhile (· ≠ l), x ∈ done) : (m.filter (· ∉ done)).head? = some l := by
  induction m with
  | nil => cases hmem
  | cons x rest ih =>
    by_cases hxl : x = l
    · simp [hxl, hnew]
    · have hx : x ∈ done := hbefore x (by simp [hxl])
      have hrest := ih ((List.mem_cons.mp hmem).resolve_left fun heq => hxl heq.symm) fun y hy =>
        hbefore y (by rw [List.takeWhile_cons_of_pos (by simpa using hxl)]; exact .tail _ hy)
      simpa [hx] using hrest

/-- Where the loop of `vswitch_delete` is: the links in `done` are gone, those in `todo` are not.
    A native field that named one of them is cleared, if the port had a tagged link at the time. -/
structure LoopAt (c : RibConf) (i : Nat) (done todo : List UInt16) (e : RibConf) : Prop where
  list : (c.vswitch i).links = done ++ todo
  deleting : Deleting c i done e
  wired : Wired e
  native : ∀ q < MAX_ETH_PORTS, (c.port q).vswitchLinkIdOfNativeVlan ∈ done →
    (c.vswitchLink (c.port q).vswitchLinkIdOfNativeVlan.toNat).portId.toNat = q →
    (c.port q).vswitchLinkIdOfNativeVlan ∉ (c.port q).vlans →
    ((e.port q).vswitchLinkIdOfNativeVlan = NATIVE_UNSET ↔ c.Outlived i q)

namespace LoopAt

variable {i : Nat} {done todo : List UInt16} {e e' : RibConf}

theorem todo_eq (hw : Wired c) (h : LoopAt c i done todo e) : (e.vswitch i).links = todo := by
  have hnodup := List.nodup_append.mp (h.list ▸ hw.once i)
  have hdone : done.filter (· ∉ done) = [] := by
    rw [List.filter_eq_nil_iff]
    intro x hx
    simpa using hx
  have htodo : todo.filter (· ∉ done) = todo := by
    rw [List.filter_eq_self]
    intro x hx
    simp only [decide_eq_true_eq]
    exact fun hmem => hnodup.2.2 x hmem x hx rfl
  rw [(h.deleting.vswitch i).2.2, h.list, List.filter_append, hdone, htodo, List.nil_append]

/-- A tagged link that the native field names comes first when it is deleted. -/
theorem head_of_native {l : UInt16} (hw : Wired c) (hheads : c.HeadWhenDeleted i)
    (hat : LoopAt c i done (l :: todo) e)
    (hport : (c.vswitchLink l.toNat).portId.toNat < MAX_ETH_PORTS)
    (hnative : (e.port (c.vswitchLink l.toNat).portId.toNat).vswitchLinkIdOfNativeVlan = l)
    (hmem : l ∈ (e.port (c.vswitchLink l.toNat).portId.toNat).vlans) :
    (e.port (c.vswitchLink l.toNat).portId.toNat).vlans.head? = some l := by
  have hnodup : (done ++ l :: todo).Nodup := hat.list ▸ hw.once i
  have hnew : l ∉ done := fun hx =>
    (List.nodup_append.mp hnodup).2.2 l hx l List.mem_cons_self rfl
  have hlisted : l ∈ (c.vswitch i).links := by
    rw [hat.list]
    simp
  have hunset := hw.live_ne_unset (hw.listed i l hlisted).1
  rw [hat.deleting.native_eq_iff hport hunset hnew] at hnative
  rw [hat.deleting.vlans _ hport] at hmem ⊢
  have hbefore := hheads l hlisted hport hnative (List.mem_filter.mp hmem).1
  rw [hat.list, takeWhile_ne hnodup] at hbefore
  exact head_filter (List.mem_filter.mp hmem).1 hnew hbefore

/-- A round of the loop. -/
theorem round {l : UInt16} (h : PortRefs c) (hw : Wired c) (hheads : c.HeadWhenDeleted i)
    (hat : LoopAt c i done (l :: todo) e) {j : Nat} (hdel : LinkDeleted e l j e') :
    LoopAt c i (done ++ [l]) todo e' := by
  have hnodup : (done ++ l :: todo).Nodup := hat.list ▸ hw.once i
  have hmem : l ∈ (c.vswitch i).links := by
    rw [hat.list]
    simp
  have hnew : l ∉ done := fun hx =>
    (List.nodup_append.mp hnodup).2.2 l hx l List.mem_cons_self rfl
  have hport := hdel.port_bound
  rw [(hat.deleting.link _).1] at hport
  have hd := hat.deleting.step h hw hat.wired (hw.listed i l hmem).2 hdel
    (hat.head_of_native hw hheads hport)
  refine ⟨by rw [hat.list]; simp, hd, hat.wired.linkDeleted hdel, fun q hq hgone hown hvlan => ?_⟩
  rw [hat.deleting.native_step hdel q]
  by_cases hq' : (c.port q).vswitchLinkIdOfNativeVlan = l
  · -- the native link of this port is the one that goes now
    have hunset := hw.live_ne_unset (hw.listed i l hmem).1
    have hstays := (hat.deleting.native_eq_iff hq hunset hnew).mpr hq'
    have hhead : (e.port q).vlans.head? ≠ some l := by
      intro heq
      have hin := List.mem_of_head? heq
      rw [hat.deleting.vlans q hq] at hin
      exact hvlan (hq' ▸ (List.mem_filter.mp hin).1)
    rw [hq'] at hown
    rw [RibConf.Outlived, hat.list, hq', takeWhile_ne hnodup]
    have hleft : (e.port q).vlans ≠ [] ↔ ∃ x ∈ (c.port q).vlans, x ∉ done := by
      rw [hat.deleting.vlans q hq]
      simp [List.filter_eq_nil_iff]
    rw [← hleft]
    constructor
    · intro hset
      by_contra hnone
      rw [if_neg fun hall => hall.2.2.1 hnone, hstays] at hset
      exact hunset hset
    · intro hsome
      rw [if_pos ⟨hown.symm, hstays, hsome, hhead⟩]
  · have hkeep : (e.port q).vswitchLinkIdOfNativeVlan ≠ l := by
      intro heq
      have hunset := hw.live_ne_unset (hw.listed i l hmem).1
      exact hq' ((hat.deleting.native_eq_iff hq hunset hnew).mp heq)
    rw [if_neg fun hall => hkeep hall.2.1]
    refine hat.native q hq ?_ hown hvlan
    rcases List.mem_append.mp hgone with hgone | hgone
    · exact hgone
    · exact absurd (List.mem_singleton.mp hgone) hq'

end LoopAt

/-- The loop deletes the whole list. -/
theorem deleteLinks {i fuel : Nat} {e : RibConf} (h : PortRefs c) (hw : Wired c)
    (hheads : c.HeadWhenDeleted i) (hkeeps : KeepsWiring c e)
    (hdel : vswitchDeleteLinks i fuel e = .ok d) : LoopAt c i (c.vswitch i).links [] d := by
  have hstart : LoopAt c i [] (c.vswitch i).links e :=
    ⟨rfl, .start hkeeps, hw.keep hkeeps, fun q _ hmem => by cases hmem⟩
  have hround : ∀ e e' : RibConf, (∃ done todo, LoopAt c i done todo e) →
      (e.vswitch i).vswitchPortSize > 0 →
      vswitchLinkDelete e ((e.vswitch i).vswitchLinkId 0) = .ok e' →
      ∃ done todo, LoopAt c i done todo e' := by
    rintro e e' ⟨done, todo, hat⟩ hsize hone
    obtain ⟨j, hj⟩ := linkDeleted_ok hone
    have htodo := hat.todo_eq hw
    -- the loop takes the first one
    have hhead : (e.vswitch i).links.head? = some ((e.vswitch i).vswitchLinkId 0) := by
      have hpos : 0 < (e.vswitch i).vswitchPortSize.toNat := UInt16.lt_iff_toNat_lt.mp hsize
      rw [List.head?_eq_getElem?, List.getElem?_eq_getElem (by rwa [Wired.length_links])]
      simp [VswitchConf.links]
    cases todo with
    | nil =>
      rw [htodo] at hhead
      cases hhead
    | cons l todo =>
      rw [htodo] at hhead
      rw [← Option.some.inj hhead] at hj
      exact ⟨_, _, hat.round h hw hheads hj⟩
  obtain ⟨⟨done, todo, hat⟩, hempty⟩ := vswitchDeleteLinks_rule
    (fun e => ∃ done todo, LoopAt c i done todo e) ⟨_, _, hstart⟩ hround hdel
  have htodo := hat.todo_eq hw
  rw [VswitchConf.links, hempty] at htodo
  obtain rfl : [] = todo := htodo
  have hlist := hat.list
  rw [List.append_nil] at hlist
  rw [hlist]
  exact hat

/-! ## The lists of the ports after every message -/

namespace PortRefs

theorem keep (h : PortRefs c) (hkeeps : KeepsWiring c d) : PortRefs d := by
  have hvlans : ∀ p, (d.port p).vlans = (c.port p).vlans := by
    intro p
    rw [PortConf.vlans, PortConf.vlans, (hkeeps.port p).1, (hkeeps.port p).2.1]
  refine ⟨fun p hp l hl => ?_, fun p hp => ?_⟩
  · rw [hvlans p] at hl
    rw [RibConf.LiveLink, hkeeps.linkSize, hkeeps.link]
    exact h.tagged p hp l hl
  · rw [hvlans p]
    exact h.nodup p hp

theorem vswitchNew {vswitchId vlanId : UInt16} {i : Nat} (h : PortRefs c)
    (hnew : VswitchNew c vswitchId vlanId i d) : PortRefs d := by
  refine ⟨?_, ?_⟩
  · rw [hnew.port, hnew.link]
    intro p hp l hl
    rw [RibConf.LiveLink, hnew.linkSize, hnew.link]
    exact h.tagged p hp l hl
  · rw [hnew.port]
    exact h.nodup

/-- What a port lists after a link has been made for it. -/
theorem vlans_set {msg : InternalMsgVswitchPort} {v l : Nat} (hset : PortSet c msg v l d) (q : Nat) :
    (d.port q).vlans = if q = msg.portId.toNat ∧ msg.isTagged = true
        ∧ (c.port q).vlanSize.toNat < MAX_VLAN_PER_PORT
      then (c.port q).vlans ++ [UInt16.ofNat l] else (c.port q).vlans := by
  rw [hset.port_apply q]
  by_cases hq : q = msg.portId.toNat
  · rw [if_pos hq]
    unfold InternalMsgVswitchPort.set
    cases htagged : msg.isTagged with
    | false => simp [PortConf.vlans]
    | true => simp [vlans_tagged, hq]
  · simp [hq]

theorem portSet {msg : InternalMsgVswitchPort} {v l : Nat} (h : PortRefs c) (hw : Wired c)
    (hset : PortSet c msg v l d)
    (hdpdk : msg.isTagged = true → (c.port msg.portId.toNat).vlanSize.toNat < MAX_VLAN_PER_PORT →
      (c.port msg.portId.toNat).dpdkPortId = msg.portId) : PortRefs d := by
  have htoNat := Wired.ofNat_toNat (hset.bound hw.linkSize)
  have hold : ∀ q < MAX_ETH_PORTS, ∀ x ∈ (c.port q).vlans,
      d.LiveLink x.toNat ∧ (d.vswitchLink x.toNat).portId.toNat = q := by
    intro q hq x hx
    obtain ⟨hlive, hp⟩ := h.tagged q hq x hx
    rw [hset.others _ fun heq => hset.free (heq ▸ hlive)]
    exact ⟨(hset.liveLink_iff _).mpr (.inr hlive), hp⟩
  refine ⟨fun q hq x hx => ?_, fun q hq => ?_⟩
  · rw [vlans_set hset q] at hx
    split at hx
    · next hall =>
      obtain ⟨rfl, htagged, hroom⟩ := hall
      rcases List.mem_append.mp hx with hx | hx
      · exact hold _ hq x hx
      · rw [List.mem_singleton.mp hx, htoNat, hset.portId, hdpdk htagged hroom]
        exact ⟨(hset.liveLink_iff l).mpr (.inl rfl), rfl⟩
    · exact hold q hq x hx
  · rw [vlans_set hset q]
    split
    · refine List.nodup_append.mpr ⟨h.nodup q hq, List.nodup_singleton _, fun x hx y hy heq => ?_⟩
      rw [List.mem_singleton.mp hy] at heq
      have hlive := (h.tagged q hq x hx).1
      rw [heq, htoNat] at hlive
      exact hset.free hlive
    · exact h.nodup q hq

theorem deleting {i : Nat} {done : List UInt16} (h : PortRefs c) (hd : Deleting c i done d) :
    PortRefs d := by
  refine ⟨fun p hp l hl => ?_, fun p hp => ?_⟩
  · rw [hd.vlans p hp] at hl
    obtain ⟨hmem, hnot⟩ := List.mem_filter.mp hl
    obtain ⟨hlive, hport⟩ := h.tagged p hp l hmem
    rw [hd.liveLink_iff, (hd.link _).1]
    exact ⟨⟨hlive, by simpa using hnot⟩, hport⟩
  · rw [hd.vlans p hp]
    exact (h.nodup p hp).filter _

/-- `Deleting`, for the one link that `VSWITCH_PORT_NO_SET` deletes. -/
theorem deleting_one {v l i : Nat} (h : PortRefs c) (hw : Wired c) (hl : c.LiveLink l)
    (hid : (c.vswitchLink l).vswitchId = (c.vswitch v).vswitchId)
    (hdel : LinkDeleted c (UInt16.ofNat l) i d)
    (hhead : (c.port (c.vswitchLink l).portId.toNat).vswitchLinkIdOfNativeVlan = UInt16.ofNat l →
      UInt16.ofNat l ∈ (c.port (c.vswitchLink l).portId.toNat).vlans →
      (c.port (c.vswitchLink l).portId.toNat).vlans.head? = some (UInt16.ofNat l)) :
    Deleting c v [UInt16.ofNat l] d := by
  have htoNat := Wired.ofNat_toNat (hl.1.trans_le hw.linkSize)
  refine Deleting.step h hw (.start (.refl c)) hw ?_ hdel ?_
  · rwa [htoNat]
  · rwa [htoNat]

end PortRefs

/-! ## Starts -/

theorem Bare.portRefs (h : Bare c) : PortRefs c := by
  refine ⟨fun p _ l hl => ?_, fun p _ => ?_⟩
  · rw [h.vlans_nil p] at hl
    cases hl
  · rw [h.vlans_nil p]
    exact List.nodup_nil

/-- A start with the mark in every native field. -/
def unmarkedStart : RibState :=
  { RibState.init with rib := some ⟨some
    ⟨{ RibConf.zero with port := fun _ =>
        { PortConf.zero with vswitchLinkIdOfNativeVlan := NATIVE_UNSET } }, .zero, fun _ => none⟩⟩ }

end SdPlane

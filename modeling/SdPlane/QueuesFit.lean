import SdPlane.QueueConf

/-!
# Queues that fit

`rib_check` counts queues in arrays of fixed size, by numbers that nobody has looked at before it.
`QueuesFit` is what keeps it inside of them. Once a version fits, every message but `QCONF` leaves
its queues alone (`KeepsQueues`), and a `QCONF` leads to such a version again when it meets
`QconfFits`, or is refused before a number is too large.
-/

set_option autoImplicit false

namespace SdPlane

structure QueuesFit (c : RibConf) : Prop where
  lcores : c.lcoreSize.toNat ≤ RTE_MAX_LCORE
  room : QueueRoom c RTE_MAX_LCORE
  total : (queuesIn c.lcoreQconf RTE_MAX_LCORE).length ≤ MAX_PORT_QCONF
  ids : ∀ x ∈ queuesIn c.lcoreQconf RTE_MAX_LCORE, x.InRange

/-- The queues of every lcore after a `QCONF`. -/
def queuesAfter (env : Env) (old qconf : Nat → LcoreQconf) : Nat → LcoreQconf :=
  fun l => if l < env.lcoreCount.toNat then withLeft old qconf l else old l

/-- There are not too many queues after the message, and where `rib_check` comes to index by their
    numbers, these are not too large. -/
structure QconfFits (env : Env) (old qconf : Nat → LcoreQconf) : Prop where
  total : (queuesIn (queuesAfter env old qconf) RTE_MAX_LCORE).length ≤ MAX_PORT_QCONF
  ids : OutOfOrder (queuesIn (queuesAfter env old qconf) env.lcoreCount.toNat)
    ∨ ∀ x ∈ queuesIn (queuesAfter env old qconf) RTE_MAX_LCORE, x.InRange

theorem length_queuesIn_mono {qconf : Nat → LcoreQconf} {m n : Nat} (h : m ≤ n) :
    (queuesIn qconf m).length ≤ (queuesIn qconf n).length := by
  rw [length_queuesIn, length_queuesIn]
  exact ((List.range_sublist.mpr h).map _).sum_le_sum fun _ _ => Nat.zero_le _

theorem QueuesFit.checkable {c : RibConf} (h : QueuesFit c) (hsize : c.vswitchSize.toNat ≤ MAX_VSWITCH) :
    Checkable c :=
  ⟨h.lcores, h.room, (length_queuesIn_mono h.lcores).trans h.total, h.ids, hsize⟩

/-- A version that fits is checked to the end. -/
theorem Checkable.exists_ribCheck {c : RibConf} (h : Checkable c) (env : Env) (rings : Rings) :
    ∃ result, ribCheck env c rings = .ok result := by
  obtain ⟨hpassed, hrefused⟩ := ribCheck_of_checkable h env rings
  by_cases hnumbered : Numbered c.queues
  · obtain ⟨r, hr⟩ := hpassed hnumbered
    exact ⟨_, hr⟩
  · exact ⟨_, hrefused hnumbered⟩

/-! ## Queues that stay -/

/-- The queues are the same. -/
structure KeepsQueues (c d : RibConf) : Prop where
  qconf : d.lcoreQconf = c.lcoreQconf
  size : d.lcoreSize = c.lcoreSize

theorem QueuesFit.of_lists {c d : RibConf} (h : QueuesFit c) (hlists : d.lcoreQconf = c.lcoreQconf)
    (hlcores : d.lcoreSize.toNat ≤ RTE_MAX_LCORE) : QueuesFit d := by
  refine ⟨hlcores, ?_, ?_, ?_⟩
  · intro l hl
    rw [hlists]
    exact h.room l hl
  · rw [hlists]
    exact h.total
  · rw [hlists]
    exact h.ids

theorem QueuesFit.keep {c d : RibConf} (h : QueuesFit c) (hkeeps : KeepsQueues c d) :
    QueuesFit d := by
  refine h.of_lists hkeeps.qconf ?_
  rw [hkeeps.size]
  exact h.lcores

namespace KeepsQueues

variable {c d : RibConf} {rings rings' : Rings}

theorem refl (c : RibConf) : KeepsQueues c c := ⟨rfl, rfl⟩

theorem trans {e : RibConf} (h : KeepsQueues c d) (h' : KeepsQueues d e) : KeepsQueues c e :=
  ⟨h'.qconf.trans h.qconf, h'.size.trans h.size⟩

theorem of_onlyWiring (h : OnlyWiring c d) : KeepsQueues c d := by
  obtain ⟨_, _, _, _, _, rfl⟩ := h
  exact ⟨rfl, rfl⟩

/-- The interfaces that are deleted may be of either kind. -/
theorem tapNoSet {kind : IfKind} {tapName : VswitchConf → CharBuf} {name : CharBuf}
    (h : RibConf.tapNoSet tapName (SdPlane.ifDelete kind) name c rings = .ok (d, rings')) :
    KeepsQueues c d := by
  apply of_onlyWiring
  cases kind with
  | router => exact .tapNoSet .routerIfDelete h
  | capture => exact .tapNoSet .captureIfDelete h

end KeepsQueues

/-! ## Queues that are set -/

theorem QueuesFit.zero : QueuesFit .zero := by
  have hnone : queuesIn RibConf.zero.lcoreQconf RTE_MAX_LCORE = [] :=
    List.flatMap_eq_nil_iff.mpr fun _ _ => rfl
  refine ⟨Nat.zero_le _, fun _ _ => Nat.zero_le _, ?_, fun x hx => ?_⟩
  · rw [hnone]
    exact Nat.zero_le _
  · rw [hnone] at hx
    cases hx

namespace Made

variable {env : Env} {s : RibState} {qconf : Nat → LcoreQconf} {c : RibConf}

theorem queuesIn_eq (h : Made env s qconf c) (n : Nat) :
    queuesIn c.lcoreQconf n = queuesIn (queuesAfter env s.conf.lcoreQconf qconf) n := by
  apply queuesIn_congr
  intro l _
  apply LcoreQconf.entries_eq_iff.mpr
  unfold queuesAfter
  split
  · next hl => exact h.queues l hl
  · next hl =>
    rw [h.others l (Nat.le_of_not_lt hl)]
    exact ⟨rfl, fun _ _ => rfl⟩

theorem roomAfter (h : Made env s qconf c) (hroom : QueueRoom s.conf RTE_MAX_LCORE) :
    QueueRoom c RTE_MAX_LCORE := by
  intro l hl
  by_cases hl' : l < env.lcoreCount.toNat
  · rw [(h.queues l hl').1, withLeft]
    split
    · exact hroom l hl
    · exact h.room l hl'
  · rw [h.others l (Nat.le_of_not_lt hl')]
    exact hroom l hl

/-- The check of the handler's version comes to an end. -/
theorem exists_ribCheck (h : Made env s qconf c) (hs : QueuesFit s.conf)
    (hfits : QconfFits env s.conf.lcoreQconf qconf)
    (hsize : s.conf.vswitchSize.toNat ≤ MAX_VSWITCH) (rings : Rings) :
    ∃ result, SdPlane.ribCheck env c rings = .ok result := by
  have hlcores : c.lcoreSize.toNat ≤ RTE_MAX_LCORE := h.size.le.trans h.lcores
  have hroom := h.roomAfter hs.room
  have htotal := hfits.total
  rw [← h.queuesIn_eq] at htotal
  rcases hfits.ids with horder | hids
  · rw [← h.queuesIn_eq, ← h.size] at horder
    exact ⟨_, ribCheck_of_outOfOrder hlcores (fun l hl => hroom l (hl.trans_le hlcores))
      ((length_queuesIn_mono hlcores).trans htotal) horder env rings⟩
  · rw [← h.queuesIn_eq] at hids
    have hfit : QueuesFit c := ⟨hlcores, hroom, htotal, hids⟩
    rw [← h.vswitchSize] at hsize
    exact (hfit.checkable hsize).exists_ribCheck env rings

/-- If it has been passed, it fits. -/
theorem queuesFit (h : Made env s qconf c) (hfits : QconfFits env s.conf.lcoreQconf qconf)
    {rings rings' : Rings} {d : RibConf}
    (hcheck : SdPlane.ribCheck env c rings = .ok (some (d, rings'))) : QueuesFit d := by
  obtain ⟨-, hroom, hids, -⟩ := ribCheck_some hcheck
  have htotal := hfits.total
  rw [← h.queuesIn_eq] at htotal
  have hfit : QueuesFit c := ⟨h.size.le.trans h.lcores, hroom, htotal, hids⟩
  exact hfit.keep (.of_onlyWiring (.ribCheck hcheck))

end Made

/-! ## Messages -/

/-- A message that is not about queues keeps them, and a `PORT_STATUS` counts the lcores. -/
theorem Outcome.queues_cases {env : Env} {c d : RibConf} {rings rings' : Rings} {msg : ConfMsg}
    (h : Outcome env c rings msg d rings') :
    KeepsQueues c d
      ∨ d.lcoreQconf = c.lcoreQconf ∧ d.lcoreSize = env.lcoreCount.toUInt8
      ∨ ∃ q c', msg = .qconf q ∧ c.qconf env q = .ok c'
        ∧ SdPlane.ribCheck env c' rings = .ok (some (d, rings')) := by
  cases h with
  | portStatus h =>
    unfold updatePortStatus at h
    split at h
    · cases h
    · obtain rfl := Except.ok.inj h
      exact .inr (.inl ⟨rfl, rfl⟩)
  | qconf h check => exact .inr (.inr ⟨_, _, rfl, h, check⟩)
  | tables => exact .inl ⟨rfl, rfl⟩
  | addresses => exact .inl (.of_onlyWiring (.onRouterIf _ _))
  | txrxDesc h => exact .inl (.of_onlyWiring (.txrxDesc h))
  | txrxChecked h check => exact .inl (.of_onlyWiring (.trans (.txrxDesc h) (.ribCheck check)))
  | vswitchSet => exact .inl (.of_onlyWiring (.vswitchSet _))
  | vswitchNoSet h => exact .inl (.of_onlyWiring (.vswitchDelete h))
  | linkSet h => exact .inl (.of_onlyWiring (.vswitchPortSet h))
  | linkDeleted h => exact .inl (.of_onlyWiring (.vswitchLinkDelete h))
  | @ifSet _ f i _ _ _ _ _ check =>
    exact .inl (.of_onlyWiring ((OnlyWiring.setVswitch c i f).trans (.ribCheck check)))
  | ifNoSet h => exact .inl (.tapNoSet h)

/-- **A message leads to queues that fit**, if a `QCONF` asks for such queues. -/
theorem Outcome.queuesFit {env : Env} {s : RibState} {d : RibConf} {rings rings' : Rings}
    {msg : ConfMsg} (hs : QueuesFit s.conf) (hlcores : env.lcoreCount.toNat ≤ RTE_MAX_LCORE)
    (hqconf : ∀ q, msg = .qconf q → QconfFits env s.conf.lcoreQconf q)
    (h : Outcome env s.conf.next rings msg d rings') : QueuesFit d := by
  have hnext : QueuesFit s.conf.next := hs.keep ⟨rfl, rfl⟩
  rcases h.queues_cases with hkeeps | ⟨hlists, hsize⟩ | ⟨q, c', hmsg, hq, hcheck⟩
  · exact hnext.keep hkeeps
  · refine hnext.of_lists hlists ?_
    rw [hsize]
    exact (toUInt8_lcoreCount hlcores).le.trans hlcores
  · exact (made_of_ok hq).queuesFit (hqconf q hmsg) hcheck

end SdPlane

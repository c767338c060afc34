import Mathlib

/-!
# Tags of IEEE 802.1Q

A frame starts with two addresses of six bytes. A tag is the four bytes behind them, `81 00` and
the control information (`TCI`): three bits of priority, one of drop eligibility, and the vlan id.

`outer` reads the tag of a frame, `tag` puts one in and `untag` takes one out, and these are the
laws: `outer_tag` and `untag_tag` say what a tag that was put in is, and `tag_untag` that a frame
with a tag is one into which it was put. `payload` is the frame without its outer tag. There may
be another one behind it, and it is the outer tag then.
-/

set_option autoImplicit false

namespace Lib

/-- The control information of the outer tag. -/
def outer (frame : List UInt8) : Option UInt16 :=
  match frame.drop 12 with
  | t :: t' :: hi :: lo :: _ =>
    if t = 0x81 ∧ t' = 0x00 then some (UInt16.ofNat (hi.toNat * 256 + lo.toNat)) else none
  | _ => none

def tag (tci : UInt16) (frame : List UInt8) : List UInt8 :=
  frame.take 12 ++ [0x81, 0x00, UInt8.ofNat (tci.toNat / 256), UInt8.ofNat tci.toNat]
    ++ frame.drop 12

def untag (frame : List UInt8) : List UInt8 := frame.take 12 ++ frame.drop 16

/-- A frame without its outer tag. -/
def payload (frame : List UInt8) : List UInt8 :=
  if (outer frame).isSome then untag frame else frame

/-- The vlan id, and the bits in front of it. -/
def vid (tci : UInt16) : UInt16 := tci &&& 0x0fff
def pcpDei (tci : UInt16) : UInt16 := tci &&& 0xf000

/-- The vlan id is replaced. -/
def setVid (tci v : UInt16) : UInt16 := pcpDei tci ||| vid v

@[simp] theorem vid_setVid (tci v : UInt16) : vid (setVid tci v) = vid v := by
  apply UInt16.toNat_inj.mp
  simp only [vid, pcpDei, setVid, UInt16.toNat_and, UInt16.toNat_or, Nat.and_or_distrib_right,
    Nat.and_assoc]
  simp

@[simp] theorem pcpDei_setVid (tci v : UInt16) : pcpDei (setVid tci v) = pcpDei tci := by
  apply UInt16.toNat_inj.mp
  simp only [vid, pcpDei, setVid, UInt16.toNat_and, UInt16.toNat_or, Nat.and_or_distrib_right,
    Nat.and_assoc]
  simp

theorem vid_of_lt {v : UInt16} (h : v.toNat < 4096) : vid v = v := by
  apply UInt16.toNat_inj.mp
  rw [vid, UInt16.toNat_and]
  exact Nat.and_two_pow_sub_one_of_lt_two_pow (show v.toNat < 2 ^ 12 from h)

/-- The two bytes of a number are those that it was read from. -/
theorem bytes_of_be16 (hi lo : UInt8) :
    UInt8.ofNat ((UInt16.ofNat (hi.toNat * 256 + lo.toNat)).toNat / 256) = hi
      ∧ UInt8.ofNat (UInt16.ofNat (hi.toNat * 256 + lo.toNat)).toNat = lo := by
  have hhi := hi.toNat_lt
  have hlo := lo.toNat_lt
  have hnat : (UInt16.ofNat (hi.toNat * 256 + lo.toNat)).toNat = hi.toNat * 256 + lo.toNat :=
    UInt16.toNat_ofNat_of_lt' (show _ < 2 ^ 16 by omega)
  rw [hnat, show (hi.toNat * 256 + lo.toNat) / 256 = hi.toNat by omega]
  refine ⟨by simp, ?_⟩
  apply UInt8.toNat_inj.mp
  simp

section Frame

variable {frame : List UInt8} {tci : UInt16}

theorem length_take_twelve (h : 12 ≤ frame.length) : (frame.take 12).length = 12 := by simpa using h

@[simp] theorem length_tag : (tag tci frame).length = frame.length + 4 := by
  simp [tag]
  omega

/-- The addresses stay. -/
theorem twelve_le_length_payload (h : 12 ≤ frame.length) : 12 ≤ (payload frame).length := by
  unfold payload
  split
  · rw [untag, List.length_append, length_take_twelve h]
    exact Nat.le_add_right 12 _
  · exact h

theorem outer_tag (h : 12 ≤ frame.length) : outer (tag tci frame) = some tci := by
  have htci := tci.toNat_lt
  have hdrop : (tag tci frame).drop 12
      = [0x81, 0x00, UInt8.ofNat (tci.toNat / 256), UInt8.ofNat tci.toNat] ++ frame.drop 12 := by
    rw [tag, List.append_assoc, List.drop_left' (length_take_twelve h)]
  rw [outer, hdrop]
  simp only [List.cons_append, List.nil_append, and_self, if_true, Option.some.injEq]
  apply UInt16.toNat_inj.mp
  simp
  omega

theorem untag_tag (h : 12 ≤ frame.length) : untag (tag tci frame) = frame := by
  have hlength := length_take_twelve h
  have htake : (tag tci frame).take 12 = frame.take 12 := by
    rw [tag, List.append_assoc, List.take_left' hlength]
  have hdrop : (tag tci frame).drop 16 = frame.drop 12 := by
    rw [tag, List.drop_left' (by simp [hlength])]
  rw [untag, htake, hdrop, List.take_append_drop]

/-- **A frame with a tag is one into which the tag was put.** -/
theorem tag_untag (h : outer frame = some tci) : tag tci (untag frame) = frame := by
  unfold outer at h
  split at h
  · next t t' hi lo rest hdrop =>
    split at h
    · next htype =>
      obtain ⟨rfl, rfl⟩ := htype
      obtain rfl := Option.some.inj h
      have hlength : (frame.take 12).length = 12 := by
        have hcons := congrArg List.length hdrop
        simp only [List.length_drop, List.length_cons] at hcons
        exact length_take_twelve (by omega)
      have hrest : frame.drop 16 = rest := by
        have hmore : (frame.drop 12).drop 4 = rest := by rw [hdrop]; rfl
        rwa [List.drop_drop] at hmore
      obtain ⟨hhi, hlo⟩ := bytes_of_be16 hi lo
      have htake : (untag frame).take 12 = frame.take 12 := List.take_left' hlength
      have htail : (untag frame).drop 12 = rest := by rw [untag, List.drop_left' hlength, hrest]
      rw [tag, htake, htail, hhi, hlo]
      calc frame.take 12 ++ [0x81, 0x00, hi, lo] ++ rest
          = frame.take 12 ++ frame.drop 12 := by rw [hdrop, List.append_assoc]; rfl
        _ = frame := List.take_append_drop 12 frame
    · cases h
  · cases h

end Frame

end Lib

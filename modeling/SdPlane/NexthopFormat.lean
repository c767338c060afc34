import SdPlane.Routing
import SdPlane.Lib.Snprintf

/-!
# The text of a next hop (`nexthop_format`, `nexthop.c`)

`nexthop_format` prints an entry into a buffer of the caller's, for the log. An entry with one
address of its own, or with none, takes one call of `snprintf`, which keeps to the size it is
given. A list of members takes a call for each, and there `len` runs ahead of what is written
(`SdPlane/Lib/Snprintf.lean`): `nexthopFormat_within_iff` says for which lists that is safe.

The addresses are printed by `inet_ntop`, which is embedded as the C library has it. All that
the result rests on is that its texts are short.
-/

set_option autoImplicit false

namespace SdPlane

/-! ## `inet_ntop` -/

/-- Four bytes, dotted. -/
def inetNtop4 (src : Nat → Nat) : List Char :=
  Nat.toDigits 10 (src 0) ++ '.' :: Nat.toDigits 10 (src 1) ++ '.' :: Nat.toDigits 10 (src 2)
    ++ '.' :: Nat.toDigits 10 (src 3)

/-- The longer of two runs of zeros, the first of two equally long. -/
def longerRun : Option (Nat × Nat) → Nat × Nat → Option (Nat × Nat)
  | none, cur => some cur
  | some best, cur => if cur.2 > best.2 then some cur else some best

/-- The run of zero words that `::` stands for, as its start and its length. -/
def bestRun (words : Nat → Nat) : Option (Nat × Nat) :=
  let (cur, best) := (List.range 8).foldl (fun (cur, best) i =>
    if words i = 0 then
      match cur with
      | none => (some (i, 1), best)
      | some (base, len) => (some (base, len + 1), best)
    else
      match cur with
      | none => (none, best)
      | some run => (none, longerRun best run))
    ((none, none) : Option (Nat × Nat) × Option (Nat × Nat))
  let best := match cur with
    | none => best
    | some run => longerRun best run
  best.filter (2 ≤ ·.2)

/-- The words from the `i`-th on; `base` and `len` are the run that is left out. -/
def inetNtop6From (words : Nat → Nat) (base len : Nat) (tail : List Char) : List Nat → List Char
  | [] => []
  | i :: is =>
    if base ≤ i ∧ i < base + len then
      (if i = base then [':'] else []) ++ inetNtop6From words base len tail is
    else
      (if i ≠ 0 then [':'] else [])
        ++ if i = 6 ∧ base = 0 ∧ (len = 6 ∨ (len = 5 ∧ words 5 = 0xffff)) then tail
          else Nat.toDigits 16 (words i) ++ inetNtop6From words base len tail is

/-- Eight words in hex, the longest run of zeros left out, and an embedded IPv4 address
    dotted. -/
def inetNtop6 (src : Nat → Nat) : List Char :=
  let words i := src (2 * i) * 256 + src (2 * i + 1)
  let (base, len) := (bestRun words).getD (8, 0)
  inetNtop6From words base len (inetNtop4 fun i => src (12 + i)) (List.range 8)
    ++ if 0 < len ∧ base + len = 8 then [':'] else []

/-- `inet_ntop`: the text, or `none` where it fails. -/
def inetNtop (family : Int) (src : IpAddr) : Option (List Char) :=
  if family = AF_INET then some (inetNtop4 (byteAt src))
  else if family = AF_INET6 then some (inetNtop6 (byteAt src))
  else none

example : inetNtop AF_INET #v[10, 0, 255, 1, 0, 0, 0, 0, 0, 0, 0, 0, 0, 0, 0, 0]
    = some "10.0.255.1".toList := by decide

example : inetNtop AF_INET6 #v[0x20, 1, 0xd, 0xb8, 0, 0, 0, 0, 0, 0, 0, 0, 0, 0, 0, 1]
    = some "2001:db8::1".toList := by decide

/-! ## `nexthop_format` -/

/-- `inet_ntop (family, &gw, nh_str, ...)`; where it fails, `nh_str` stays what it was. -/
def showGw (nhStr : List Char) (info : NhInfo) : List Char :=
  (inetNtop info.family info.gw).getD nhStr

/-- The pieces that the loop over the members prints, for the members `is`. -/
def memberPieces (nh : InternalMsgNhEntry) : List Nat → List Char → List (List Char)
  | [], _ => []
  | i :: is, nhStr =>
    let m := nh.members i
    let sep := if i + 1 = nh.nhcnt then "" else ", "
    if m.kernelNhId ≠ 0 then
      ("nhid=".toList ++ Lib.fmtD m.kernelNhId ++ "(w=".toList ++ Lib.fmtU m.weight ++ ")".toList
          ++ sep.toList)
        :: memberPieces nh is nhStr
    else
      let nhStr := showGw nhStr m.info
      (nhStr ++ "(oif=".toList ++ Lib.fmtD m.info.oif ++ ",w=".toList ++ Lib.fmtU m.weight
          ++ ")".toList ++ sep.toList)
        :: memberPieces nh is nhStr

/-- The members of an entry with more than a single address. -/
def listPieces (nh : InternalMsgNhEntry) : List (List Char) :=
  memberPieces nh (List.range nh.nhcnt) []

/-- A single member with an address of its own. -/
def InternalMsgNhEntry.Inline (nh : InternalMsgNhEntry) : Prop :=
  nh.nhcnt = 1 ∧ (nh.members 0).kernelNhId = 0

instance (nh : InternalMsgNhEntry) : Decidable nh.Inline :=
  inferInstanceAs (Decidable (_ ∧ _))

/-- What `nexthop_format` prints, one piece for every call of `snprintf`. -/
def nexthopPieces (nh : InternalMsgNhEntry) : List (List Char) :=
  if nh.nhcnt = 0 then
    [if nh.kernelNhId ≠ 0 then "nhid=".toList ++ Lib.fmtD nh.kernelNhId else "(empty)".toList]
  else if nh.Inline then
    let info := (nh.members 0).info
    [showGw [] info ++ "(oif=".toList ++ Lib.fmtD info.oif ++ ")".toList]
  else "[".toList :: listPieces nh ++ ["]".toList]

/-- `nexthop_format`. -/
def nexthopFormat (nh : InternalMsgNhEntry) (buf : Lib.Buf) (bufSize : UInt64) : Lib.Buf :=
  Lib.Buf.format bufSize.toNat buf 0 (nexthopPieces nh)

/-! ### The lengths -/

theorem length_inetNtop4_le (src : Nat → Nat) (h : ∀ i, src i < 256) :
    (inetNtop4 src).length ≤ 15 := by
  have hbyte : ∀ i, (Nat.toDigits 10 (src i)).length ≤ 3 := fun i =>
    Lib.length_toDigits_le (by decide) (by decide) (Nat.lt_trans (h i) (by decide))
  have h0 := hbyte 0
  have h1 := hbyte 1
  have h2 := hbyte 2
  have h3 := hbyte 3
  simp only [inetNtop4, List.length_append, List.length_cons]
  omega

theorem length_inetNtop6From_le (words : Nat → Nat) (base len : Nat) {tail : List Char}
    (hwords : ∀ i, words i < 65536) (htail : tail.length ≤ 15) (is : List Nat) :
    (inetNtop6From words base len tail is).length ≤ 20 * is.length := by
  induction is with
  | nil => simp [inetNtop6From]
  | cons i is ih =>
    have hword : (Nat.toDigits 16 (words i)).length ≤ 4 :=
      Lib.length_toDigits_le (by decide) (by decide) (hwords i)
    have hcolon : ∀ p : Prop, [Decidable p] → (if p then [':'] else []).length ≤ 1 := by
      intro p _
      split <;> decide
    have hbase := hcolon (i = base)
    have hfirst := hcolon (i ≠ 0)
    rw [inetNtop6From, List.length_cons]
    by_cases hrun : base ≤ i ∧ i < base + len
    · rw [if_pos hrun, List.length_append]
      omega
    · rw [if_neg hrun, List.length_append]
      by_cases hv4 : i = 6 ∧ base = 0 ∧ (len = 6 ∨ (len = 5 ∧ words 5 = 0xffff))
      · rw [if_pos hv4]
        omega
      · rw [if_neg hv4, List.length_append]
        omega

theorem length_inetNtop_le {family : Int} {src : IpAddr} {text : List Char}
    (h : inetNtop family src = some text) : text.length ≤ 200 := by
  unfold inetNtop at h
  split at h
  · obtain rfl := Option.some.inj h
    have hlen := length_inetNtop4_le (byteAt src) (byteAt_lt src)
    omega
  · split at h
    · obtain rfl := Option.some.inj h
      have hwords : ∀ i, byteAt src (2 * i) * 256 + byteAt src (2 * i + 1) < 65536 := by
        intro i
        have hhi := byteAt_lt src (2 * i)
        have hlo := byteAt_lt src (2 * i + 1)
        omega
      have htail := length_inetNtop4_le (fun i => byteAt src (12 + i)) fun i => byteAt_lt src _
      have hlen := fun base len => length_inetNtop6From_le _ base len hwords htail (List.range 8)
      simp only [inetNtop6, List.length_append]
      have hfrom := hlen ((bestRun fun i => byteAt src (2 * i) * 256 + byteAt src (2 * i + 1)).getD
        (8, 0)).1 ((bestRun fun i => byteAt src (2 * i) * 256 + byteAt src (2 * i + 1)).getD
        (8, 0)).2
      rw [List.length_range] at hfrom
      split
      · simp only [List.length_singleton]
        omega
      · simp only [List.length_nil]
        omega
    · exact absurd h (by simp)

theorem length_showGw_le {nhStr : List Char} (info : NhInfo) (h : nhStr.length ≤ 200) :
    (showGw nhStr info).length ≤ 200 := by
  unfold showGw
  cases htext : inetNtop info.family info.gw with
  | none => exact h
  | some text => exact length_inetNtop_le htext

theorem length_nhidText_le {id weight sep : List Char} (hid : id.length ≤ 11)
    (hweight : weight.length ≤ 10) (hsep : sep.length ≤ 2) :
    ("nhid=".toList ++ id ++ "(w=".toList ++ weight ++ ")".toList ++ sep).length ≤ 300 := by
  have hnhid : "nhid=".toList.length = 5 := rfl
  have hw : "(w=".toList.length = 3 := rfl
  have hclose : ")".toList.length = 1 := rfl
  simp only [List.length_append, hnhid, hw, hclose]
  omega

theorem length_gwText_le {gw oif weight sep : List Char} (hgw : gw.length ≤ 200)
    (hoif : oif.length ≤ 11) (hweight : weight.length ≤ 10) (hsep : sep.length ≤ 2) :
    (gw ++ "(oif=".toList ++ oif ++ ",w=".toList ++ weight ++ ")".toList ++ sep).length ≤ 300 := by
  have hopen : "(oif=".toList.length = 5 := rfl
  have hw : ",w=".toList.length = 3 := rfl
  have hclose : ")".toList.length = 1 := rfl
  simp only [List.length_append, hopen, hw, hclose]
  omega

theorem length_memberPieces (nh : InternalMsgNhEntry) (is : List Nat) : ∀ {nhStr : List Char},
    nhStr.length ≤ 200 → ∀ text ∈ memberPieces nh is nhStr, text.length ≤ 300 := by
  induction is with
  | nil => intro nhStr _ text h; exact absurd h List.not_mem_nil
  | cons i is ih =>
    intro nhStr hstr text htext
    have hsep : (if i + 1 = nh.nhcnt then "" else ", ").toList.length ≤ 2 := by
      split <;> decide
    have hid := Lib.length_fmtD_le (nh.members i).kernelNhId
    have hoif := Lib.length_fmtD_le (nh.members i).info.oif
    have hweight := Lib.length_fmtU_le (nh.members i).weight
    have hgw := length_showGw_le (nh.members i).info hstr
    simp only [memberPieces] at htext
    split at htext
    · rcases List.mem_cons.mp htext with rfl | hrest
      · exact length_nhidText_le hid hweight hsep
      · exact ih hstr text hrest
    · rcases List.mem_cons.mp htext with rfl | hrest
      · exact length_gwText_le hgw hoif hweight hsep
      · exact ih hgw text hrest

/-- No piece is too long for an `int`. -/
theorem length_nexthopPieces (nh : InternalMsgNhEntry) :
    ∀ text ∈ nexthopPieces nh, text.length ≤ Lib.INT_MAX := by
  have hmax : 300 ≤ Lib.INT_MAX := by decide
  have hid := Lib.length_fmtD_le nh.kernelNhId
  have hoif := Lib.length_fmtD_le (nh.members 0).info.oif
  have hgw := @length_showGw_le [] (nh.members 0).info (Nat.zero_le _)
  have hnhid : "nhid=".toList.length = 5 := rfl
  have hopen : "(oif=".toList.length = 5 := rfl
  have hclose : ")".toList.length = 1 := rfl
  intro text htext
  refine le_trans ?_ hmax
  unfold nexthopPieces at htext
  split at htext
  · obtain rfl := List.mem_singleton.mp htext
    split
    · rw [List.length_append, hnhid]
      omega
    · decide
  · split at htext
    · obtain rfl := List.mem_singleton.mp htext
      simp only [List.length_append, hopen, hclose]
      omega
    · rcases List.mem_append.mp htext with hlist | hlast
      · rcases List.mem_cons.mp hlist with rfl | hmember
        · decide
        · exact length_memberPieces nh _ (Nat.zero_le _) text hmember
      · obtain rfl := List.mem_singleton.mp hlast
        decide

/-! ### The buffer -/

/-- The bracket and the members fit into `n` bytes, the terminator not counted. -/
def MembersFit (nh : InternalMsgNhEntry) (n : Nat) : Prop :=
  nh.nhcnt = 0 ∨ nh.Inline ∨ 1 + ((listPieces nh).map List.length).sum ≤ n

theorem room_nexthopPieces_iff (nh : InternalMsgNhEntry) (n : Nat) :
    Lib.Room n 0 (nexthopPieces nh) ↔ MembersFit nh n := by
  have hshort := length_nexthopPieces nh
  have hstart : (0 : Int) ≤ 0 ∧ (0 : Int) ≤ n := ⟨le_rfl, Int.natCast_nonneg n⟩
  unfold nexthopPieces at hshort ⊢
  by_cases hzero : nh.nhcnt = 0
  · rw [if_pos hzero]
    exact iff_of_true ⟨hstart, trivial⟩ (.inl hzero)
  · rw [if_neg hzero] at hshort ⊢
    by_cases hinline : nh.Inline
    · rw [if_pos hinline]
      exact iff_of_true ⟨hstart, trivial⟩ (.inr (.inl hinline))
    · rw [if_neg hinline] at hshort ⊢
      have hpieces : ("[".toList :: listPieces nh ++ ["]".toList]).dropLast
          = "[".toList :: listPieces nh := List.dropLast_concat
      have hbracket : "[".toList.length = 1 := rfl
      rw [Lib.room_iff (List.append_ne_nil_of_right_ne_nil _ (List.cons_ne_nil _ _)) hshort le_rfl,
        hpieces, List.map_cons, List.sum_cons,
        hbracket, MembersFit, or_iff_right hzero, or_iff_right hinline]
      omega

theorem nexthopFormat_room (nh : InternalMsgNhEntry) (mem : Int → Char) (n : UInt64) :
    (nexthopFormat nh ⟨mem, []⟩ n).Within n.toNat ↔ Lib.Room n.toNat 0 (nexthopPieces nh) := by
  have hmax : (n.toNat : Int) < Lib.SIZE := by
    have hlt := n.toNat_lt
    unfold Lib.SIZE
    omega
  exact Lib.Buf.format_within_iff le_rfl (by omega) (by omega) hmax _
    (.inr (length_nexthopPieces nh)) ⟨mem, []⟩ 0 (fun i h => absurd h List.not_mem_nil)
    (Int.add_nonneg (Int.natCast_nonneg _) (Int.natCast_nonneg _)) (.inl le_rfl)

theorem nexthopFormat_terminated {nh : InternalMsgNhEntry} {n : UInt64} (mem : Int → Char)
    (hn : 0 < n.toNat) (hroom : Lib.Room n.toNat 0 (nexthopPieces nh)) :
    (nexthopFormat nh ⟨mem, []⟩ n).Terminated n.toNat := by
  have hmax : (n.toNat : Int) < Lib.SIZE := by
    have hlt := n.toNat_lt
    unfold Lib.SIZE
    omega
  have hne : nexthopPieces nh ≠ [] := by
    unfold nexthopPieces
    split
    · exact List.cons_ne_nil _ _
    · split
      · exact List.cons_ne_nil _ _
      · exact List.append_ne_nil_of_right_ne_nil _ (List.cons_ne_nil _ _)
  exact Lib.Buf.format_terminated hmax _ _ _ hroom (.inr ⟨by omega, hne⟩)

/-- **`nexthop_format` stays in its buffer, and leaves a string there, exactly when the list of
    members fits.** -/
theorem nexthopFormat_within_iff (nh : InternalMsgNhEntry) (mem : Int → Char) (n : UInt64)
    (hn : 0 < n.toNat) :
    ((nexthopFormat nh ⟨mem, []⟩ n).Within n.toNat
        ∧ (nexthopFormat nh ⟨mem, []⟩ n).Terminated n.toNat)
      ↔ MembersFit nh n.toNat := by
  rw [← room_nexthopPieces_iff, ← nexthopFormat_room nh mem]
  refine and_iff_left_of_imp fun h => ?_
  exact nexthopFormat_terminated mem hn ((nexthopFormat_room nh mem n).mp h)

/-- An entry with the single address 0.0.0.0. -/
def inlineEntry : InternalMsgNhEntry where
  kernelNhId := 0
  nhcnt := 1
  members := fun _ => { InternalMsgNhMember.zero with info := { NhInfo.zero with family := AF_INET } }
  nhcnt_le := one_le_maxEcmpEntry

/-- A single address finds room even in a buffer of one byte. -/
theorem nexthopFormat_within_one :
    (nexthopFormat inlineEntry ⟨fun _ => 'x', []⟩ 1).Within 1
      ∧ (nexthopFormat inlineEntry ⟨fun _ => 'x', []⟩ 1).Terminated 1 :=
  (nexthopFormat_within_iff inlineEntry (fun _ => 'x') 1 (by decide)).mpr (.inr (.inl ⟨rfl, rfl⟩))

/-- As many members as there may be, with the longest ids and weights. -/
def longEntry : InternalMsgNhEntry where
  kernelNhId := 0
  nhcnt := MAX_ECMP_ENTRY
  members := fun _ =>
    { InternalMsgNhMember.zero with kernelNhId := 2147483647, weight := 4294967295 }
  nhcnt_le := le_rfl

example : (listPieces longEntry).head? = some "nhid=2147483647(w=4294967295), ".toList := by
  decide

/-- The text of this entry has 992 characters, and `rib_manager` has 512 bytes for it. -/
theorem long_entry_overruns :
    ¬ ∀ (nh : InternalMsgNhEntry) (mem : Int → Char) (n : UInt64), 0 < n.toNat →
      (nexthopFormat nh ⟨mem, []⟩ n).Within n.toNat
        ∧ (nexthopFormat nh ⟨mem, []⟩ n).Terminated n.toNat := by
  intro h
  have hwithin := (h longEntry (fun _ => 'x') 512 (by decide)).1
  rw [nexthopFormat_room, room_nexthopPieces_iff] at hwithin
  have hlong : ((listPieces longEntry).map List.length).sum = 990 := by decide +kernel
  rcases hwithin with hzero | hinline | hfits
  · exact absurd hzero (by decide)
  · exact absurd hinline (by decide)
  · rw [hlong] at hfits
    exact absurd hfits (by decide)

end SdPlane

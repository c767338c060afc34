import SdPlane.Lib.BitString
import SdPlane.Lib.Crash

/-!
# The Patricia tree in memory (`ptree.c`)

The nodes of a `struct ptree` lie in memory and hold pointers to their children and their parent.
A block of memory is named by the number of its allocation, so that a pointer to one that was freed
leads nowhere. The bytes of a key go on, as memory does, behind its end, with whatever is there: a
byte behind it is read where a key ends with a byte, and nothing may come of that.

What the loops do is for the modules that come after this one. Here it is said what is made of the
bits of a key.
-/

set_option autoImplicit false

namespace SdPlane

abbrev Addr := Nat

/-- `struct ptree_node`. -/
structure PtreeNode (D : Type) where
  key : Nat → UInt8
  keylen : Nat
  parent : Option Addr
  child : Bool → Option Addr
  data : Option D

/-- `struct ptree`, the memory that its nodes are in, and how many blocks there have been. -/
structure Ptree (D : Type) where
  top : Option Addr
  heap : Addr → Option (PtreeNode D)
  next : Addr

variable {D : Type}

namespace Ptree

/-- What a pointer points at. -/
def node (t : Ptree D) : Option Addr → Except Lib.Crash (PtreeNode D)
  | none => .error .nullPointer
  | some a =>
    match t.heap a with
    | none => .error .useAfterFree
    | some x => .ok x

def set (t : Ptree D) (a : Addr) (x : PtreeNode D) : Ptree D :=
  { t with heap := Function.update t.heap a (some x) }

/-- An assignment to a member of what a pointer points at. -/
def assign (t : Ptree D) (p : Option Addr) (f : PtreeNode D → PtreeNode D) :
    Except Lib.Crash (Ptree D) :=
  match p with
  | none => .error .nullPointer
  | some a =>
    match t.heap a with
    | none => .error .useAfterFree
    | some x => .ok (t.set a (f x))

/-- A new block. -/
def alloc (t : Ptree D) (x : PtreeNode D) : Ptree D := { t.set t.next x with next := t.next + 1 }

@[simp] theorem set_self (t : Ptree D) (a : Addr) (x : PtreeNode D) :
    (t.set a x).heap a = some x := Function.update_self ..

theorem set_of_ne (t : Ptree D) {a a' : Addr} (x : PtreeNode D) (h : a' ≠ a) :
    (t.set a x).heap a' = t.heap a' := Function.update_of_ne h ..

@[simp] theorem set_top (t : Ptree D) (a : Addr) (x : PtreeNode D) : (t.set a x).top = t.top := rfl

@[simp] theorem set_next (t : Ptree D) (a : Addr) (x : PtreeNode D) : (t.set a x).next = t.next := rfl

theorem assign_ok {t : Ptree D} {a : Addr} {x : PtreeNode D} (hx : t.heap a = some x)
    (f : PtreeNode D → PtreeNode D) : t.assign (some a) f = .ok (t.set a (f x)) := by
  simp [assign, hx]

end Ptree

/-! ## Keys -/

def mask : List UInt8 := [0x00, 0x80, 0xc0, 0xe0, 0xf0, 0xf8, 0xfc, 0xfe, 0xff]

def checkBit (key : Nat → UInt8) (keylen : Nat) : Bool :=
  (key (keylen / 8) >>> (7 - keylen % 8).toUInt8) &&& 1 = 1

def ptreeMatch (keyi keyj : Nat → UInt8) (keylen : Nat) : Bool :=
  (∀ i, i < keylen / 8 → keyi i = keyj i)
    ∧ (keyi (keylen / 8) ^^^ keyj (keylen / 8)) &&& mask.getD (keylen % 8) 0 = 0

/-- The first loop of `key_common_len`, over `more` bytes. -/
def commonBytes (keyi keyj : Nat → UInt8) : Nat → Nat → Nat
  | 0, nmatch => nmatch
  | more + 1, nmatch =>
    if keyi nmatch = keyj nmatch then commonBytes keyi keyj more (nmatch + 1) else nmatch

/-- The second loop of `key_common_len`, over `more` bits. -/
def commonBits (diff : UInt8) : Nat → UInt8 → Nat → Nat
  | 0, _, keylen => keylen
  | more + 1, bitmask, keylen =>
    if bitmask &&& diff = 0 then commonBits diff more (bitmask >>> 1) (keylen + 1) else keylen

def keyCommonLen (keyi : Nat → UInt8) (keyilen : Nat) (keyj : Nat → UInt8) (keyjlen : Nat) : Nat :=
  let minkeylen := min keyilen keyjlen
  let nmatch := commonBytes keyi keyj (minkeylen / 8) 0
  let keylen := nmatch * 8
  let diff := keyi nmatch ^^^ keyj nmatch
  commonBits diff (minkeylen - keylen) 0x80 keylen

/-! ## Nodes -/

/-- `mem` is the block that `malloc` finds, with what is in it. -/
def ptreeNodeCreate (mem : Option (Nat → UInt8)) (key : Nat → UInt8) (keylen : Nat) (t : Ptree D) :
    Except Lib.Crash (Option Addr × Ptree D) := do
  let len ← Lib.int (keylen + 7)
  match mem with
  | none => return (none, t)
  | some mem =>
    let copied := fun (i : Nat) => if (i : Int) < len / 8 then key i else mem i
    let filled :=
      if keylen % 8 ≠ 0 then
        Function.update copied (keylen / 8) (key (keylen / 8) &&& mask.getD (keylen % 8) 0)
      else copied
    let x := ⟨filled, keylen, none, fun _ => none, none⟩
    return (some t.next, t.alloc x)

/-- `XRTFREE`. -/
def ptreeNodeDelete (x : Addr) (t : Ptree D) : Ptree D :=
  { t with heap := Function.update t.heap x none }

def ptreeLink (v w : Option Addr) (t : Ptree D) : Except Lib.Crash (Ptree D) := do
  let wn ← t.node w
  let vn ← t.node v
  let bit := checkBit wn.key vn.keylen
  let t ← t.assign v fun x => { x with child := Function.update x.child bit w }
  t.assign w fun x => { x with parent := v }

def ptreeCommon (mem : Option (Nat → UInt8)) (keyi : Nat → UInt8) (keyilen : Nat)
    (keyj : Nat → UInt8) (keyjlen : Nat) (t : Ptree D) :
    Except Lib.Crash (Option Addr × Ptree D) :=
  ptreeNodeCreate mem keyi (keyCommonLen keyi keyilen keyj keyjlen) t

def ptreeCreate : Ptree D := ⟨none, fun _ => none, 0⟩

/-! ## Searches

The loops go down, to longer keys, and are over when the key is longer than the one that is looked
for. `more` is how many rounds there may still be. -/

def lookupLoop (key : Nat → UInt8) (keylen : Nat) (t : Ptree D) :
    Nat → Option Addr → Except Lib.Crash (Option Addr)
  | 0, _ => .error .diverges
  | _ + 1, none => .ok none
  | more + 1, some x => do
    let xn ← t.node (some x)
    if xn.keylen < keylen ∧ ptreeMatch xn.key key xn.keylen then
      lookupLoop key keylen t more (xn.child (checkBit key xn.keylen))
    else return some x

def ptreeLookup (key : Nat → UInt8) (keylen : Nat) (t : Ptree D) :
    Except Lib.Crash (Option Addr) := do
  match ← lookupLoop key keylen t (keylen + 2) t.top with
  | none => return none
  | some x =>
    let xn ← t.node (some x)
    return if xn.keylen = keylen ∧ ptreeMatch xn.key key xn.keylen then some x else none

def searchLoop (key : Nat → UInt8) (keylen : Nat) (t : Ptree D) :
    Nat → Option Addr → Option Addr → Except Lib.Crash (Option Addr)
  | 0, _, _ => .error .diverges
  | _ + 1, found, none => .ok found
  | more + 1, found, some x => do
    let xn ← t.node (some x)
    if xn.keylen ≤ keylen ∧ ptreeMatch xn.key key xn.keylen then
      let found := if xn.data.isSome then some x else found
      searchLoop key keylen t more found (xn.child (checkBit key xn.keylen))
    else return found

def ptreeSearch (key : Nat → UInt8) (keylen : Nat) (t : Ptree D) :
    Except Lib.Crash (Option Addr) :=
  searchLoop key keylen t (keylen + 2) none t.top

def ptreeSearchExact (key : Nat → UInt8) (keylen : Nat) (t : Ptree D) :
    Except Lib.Crash (Option Addr) := do
  match ← searchLoop key keylen t (keylen + 2) none t.top with
  | none => return none
  | some found =>
    let fn ← t.node (some found)
    return if fn.keylen = keylen then some found else none

/-! ## Changes -/

/-- The loop of `ptree_get`: it returns from the middle with a node that is there, or goes on
    with `u` and `x`. -/
def getLoop (key : Nat → UInt8) (keylen : Nat) (t : Ptree D) :
    Nat → Option Addr → Option Addr → Except Lib.Crash (Addr ⊕ (Option Addr × Option Addr))
  | 0, _, _ => .error .diverges
  | _ + 1, u, none => .ok (.inr (u, none))
  | more + 1, u, some x => do
    let xn ← t.node (some x)
    if xn.keylen ≤ keylen ∧ ptreeMatch xn.key key xn.keylen then
      if xn.keylen = keylen then return .inl x
      getLoop key keylen t more (some x) (xn.child (checkBit key xn.keylen))
    else return .inr (u, some x)

/-- The upper link of a new node: to `u`, or from the tree. -/
def linkUpper (u v : Option Addr) (t : Ptree D) : Except Lib.Crash (Ptree D) :=
  match u with
  | some _ => ptreeLink u v t
  | none => .ok { t with top := v }

/-- The node to add, below the branching node `x`. -/
def getOther (mem : Option (Nat → UInt8)) (key : Nat → UInt8) (keylen : Nat) (x : Addr)
    (t : Ptree D) : Except Lib.Crash (Option Addr × Ptree D) := do
  match ← ptreeNodeCreate mem key keylen t with
  | (none, t) => return (none, t)
  | (some v, t) =>
    let t ← ptreeLink (some x) (some v) t
    return (some v, t)

/-- What comes after the loop. `mem` and `mem'` are what `malloc` finds, the first time and the
    second. -/
def getInsert (mem mem' : Option (Nat → UInt8)) (key : Nat → UInt8) (keylen : Nat)
    (u x : Option Addr) (t : Ptree D) : Except Lib.Crash (Option Addr × Ptree D) :=
  match x with
  | none => do
    let (v, t) ← ptreeNodeCreate mem key keylen t
    let t ← linkUpper u v t
    return (v, t)
  | some w => do
    let wn ← t.node (some w)
    match ← ptreeCommon mem key keylen wn.key wn.keylen t with
    | (none, t) => return (none, t)
    | (some x, t) =>
      let t ← ptreeLink (some x) (some w) t
      let t ← linkUpper u (some x) t
      let xn ← t.node (some x)
      if xn.keylen = keylen then return (some x, t)
      getOther mem' key keylen x t

def ptreeGet (mem mem' : Option (Nat → UInt8)) (key : Nat → UInt8) (keylen : Nat) (t : Ptree D) :
    Except Lib.Crash (Option Addr × Ptree D) := do
  match ← getLoop key keylen t (keylen + 2) none t.top with
  | .inl x => return (some x, t)
  | .inr (u, x) => getInsert mem mem' key keylen u x t

def ptreeAdd (mem mem' : Option (Nat → UInt8)) (key : Nat → UInt8) (keylen : Nat)
    (data : Option D) (t : Ptree D) : Except Lib.Crash (Option Addr × Ptree D) := do
  match ← ptreeGet mem mem' key keylen t with
  | (none, t) => return (none, t)
  | (some x, t) =>
    let t ← t.assign (some x) fun x => { x with data }
    return (some x, t)

def ptreeRemove (v : Addr) (t : Ptree D) : Except Lib.Crash (Ptree D) := do
  let vn ← t.node (some v)
  Lib.assert vn.data.isNone
  if (vn.child false).isSome ∧ (vn.child true).isSome then return t
  if (vn.child false).isNone ∧ (vn.child true).isNone then
    let pn ← t.node vn.parent
    let side := if pn.child false = some v then false else true
    let t ← t.assign vn.parent fun x => { x with child := Function.update x.child side none }
    return ptreeNodeDelete v t
  let w := if (vn.child false).isSome then vn.child false else vn.child true
  let t ← ptreeLink vn.parent w t
  return ptreeNodeDelete v t

/-! ## Traversal -/

def ptreeHead (t : Ptree D) : Option Addr := t.top

/-- The loop of `ptree_next`, from `u` with `t->parent` above it: the last `t`. -/
def climb (s : Ptree D) : Nat → Option Addr → Option Addr → Except Lib.Crash (Option Addr)
  | 0, _, _ => .error .diverges
  | _ + 1, _, none => .ok none
  | more + 1, u, some t => do
    let tn ← s.node (some t)
    if tn.child true = u ∨ (tn.child true).isNone then climb s more (some t) tn.parent
    else return some t

def ptreeNext (v : Addr) (s : Ptree D) : Except Lib.Crash (Option Addr) := do
  let vn ← s.node (some v)
  if (vn.child false).isSome then return vn.child false
  if (vn.child true).isSome then return vn.child true
  match vn.parent with
  | none => return none
  | some u =>
    let un ← s.node (some u)
    if un.child false = some v ∧ (un.child true).isSome then return un.child true
    match ← climb s (un.keylen + 1) (some u) un.parent with
    | none => return none
    | some t =>
      let tn ← s.node (some t)
      Lib.assert (tn.child true).isSome
      return tn.child true

/-- The loop of `ptree_count`. -/
def countLoop (s : Ptree D) : Nat → Int → Option Addr → Except Lib.Crash Int
  | 0, _, _ => .error .diverges
  | _ + 1, count, none => .ok count
  | more + 1, count, some x => do
    let xn ← s.node (some x)
    let count ← (if xn.data.isSome then Lib.int (count + 1) else .ok count)
    let next ← ptreeNext x s
    countLoop s more count next

def ptreeCount (s : Ptree D) : Except Lib.Crash Int :=
  countLoop s (s.next + 1) 0 (ptreeHead s)

/-! ## What is made of the bits -/

theorem isMask_mask {k : Nat} (hk : k ≤ 8) : Lib.IsMask (mask.getD k 0) k := by
  have hall : ∀ k, k ≤ 8 → ∀ j, j < 8 →
      (mask.getD k 0).toBitVec.getLsbD j = decide (8 ≤ k + j) := by decide
  exact hall k hk

theorem checkBit_eq (key : Nat → UInt8) (i : Nat) : checkBit key i = Lib.bitAt key i := by
  rw [Bool.eq_iff_iff, checkBit, decide_eq_true_iff, Lib.shiftRight_and_one (by omega), Lib.bitAt]

theorem ptreeMatch_iff {keyi keyj : Nat → UInt8} {n : Nat} :
    ptreeMatch keyi keyj n ↔ Lib.bits keyi n = Lib.bits keyj n := by
  have hmask : Lib.IsMask (mask.getD (n % 8) 0) (n % 8) :=
    isMask_mask (Nat.mod_lt n (by decide)).le
  rw [Lib.bits_masked hmask, ptreeMatch, decide_eq_true_iff]

/-- The key of a node is what `key` begins with. -/
theorem match_iff_begins {key nodeKey : Nat → UInt8} {keylen n : Nat} :
    n ≤ keylen ∧ ptreeMatch nodeKey key n ↔ Lib.bits nodeKey n <+: Lib.bits key keylen := by
  rw [ptreeMatch_iff, Lib.bits_prefix_bits]

theorem commonBytes_spec (keyi keyj : Nat → UInt8) (more nmatch : Nat)
    (h : ∀ i, i < nmatch → keyi i = keyj i) :
    let n := commonBytes keyi keyj more nmatch
    n ≤ nmatch + more ∧ (∀ i, i < n → keyi i = keyj i)
      ∧ (n < nmatch + more → keyi n ≠ keyj n) := by
  induction more generalizing nmatch with
  | zero => exact ⟨le_rfl, h, fun hlt => absurd hlt (lt_irrefl _)⟩
  | succ more ih =>
    simp only [commonBytes]
    split
    · rename_i heq
      have hnext : ∀ i, i < nmatch + 1 → keyi i = keyj i := fun i hi => by
        rcases Nat.lt_succ_iff_lt_or_eq.mp hi with hlt | rfl
        · exact h i hlt
        · exact heq
      obtain ⟨hle, hall, hstop⟩ := ih (nmatch + 1) hnext
      exact ⟨by omega, hall, fun hlt => hstop (by omega)⟩
    · rename_i hne
      exact ⟨by omega, h, fun _ => hne⟩

/-- From bit `j` of byte `n` on. There is a bit to stop at, or the byte does not come to its end. -/
theorem commonBits_spec (keyi keyj : Nat → UInt8) (n more j : Nat) {bitmask : UInt8}
    (hmask : Lib.IsProbe bitmask j)
    (h : ∀ i, i < n * 8 + j → Lib.bitAt keyi i = Lib.bitAt keyj i)
    (hmore : keyi n ≠ keyj n ∨ j + more < 8) :
    let r := commonBits (keyi n ^^^ keyj n) more bitmask (n * 8 + j)
    r ≤ n * 8 + j + more ∧ (∀ i, i < r → Lib.bitAt keyi i = Lib.bitAt keyj i)
      ∧ (r < n * 8 + j + more → Lib.bitAt keyi r ≠ Lib.bitAt keyj r) := by
  induction more generalizing j bitmask with
  | zero => exact ⟨le_rfl, h, fun hlt => absurd hlt (lt_irrefl _)⟩
  | succ more ih =>
    have hj : j < 8 := by
      rcases hmore with hne | hlt
      · by_contra hge
        refine hne (Lib.bits_bytes.mp (Lib.bits_eq_iff.mpr fun i hi => h i ?_) n
          (Nat.lt_succ_self n))
        omega
      · omega
    have hprobe : bitmask &&& (keyi n ^^^ keyj n) = 0
        ↔ Lib.bitAt keyi (n * 8 + j) = Lib.bitAt keyj (n * 8 + j) := by
      have hdiv : (n * 8 + j) / 8 = n := by omega
      have hmod : (n * 8 + j) % 8 = j := by omega
      rw [Lib.probe_and_xor hmask hj, Lib.bitAt, Lib.bitAt, hdiv, hmod]
    simp only [commonBits]
    split
    · rename_i hsame
      have hnext : ∀ i, i < n * 8 + (j + 1) → Lib.bitAt keyi i = Lib.bitAt keyj i := fun i hi => by
        rcases Nat.lt_succ_iff_lt_or_eq.mp hi with hlt | rfl
        · exact h i hlt
        · exact hprobe.mp hsame
      obtain ⟨hle, hall, hstop⟩ := ih (j + 1) hmask.next hnext (hmore.imp_right fun hlt => by omega)
      rw [← Nat.add_assoc] at hle hall hstop
      exact ⟨by omega, hall, fun hlt => hstop (by omega)⟩
    · rename_i hdiff
      exact ⟨by omega, h, fun _ heq => hdiff (hprobe.mpr heq)⟩

/-- Both keys begin with as many bits, and then differ or one is at its end. -/
theorem keyCommonLen_spec (keyi : Nat → UInt8) (li : Nat) (keyj : Nat → UInt8) (lj : Nat) :
    let n := keyCommonLen keyi li keyj lj
    n ≤ min li lj ∧ Lib.bits keyi n = Lib.bits keyj n
      ∧ (n < min li lj → Lib.bitAt keyi n ≠ Lib.bitAt keyj n) := by
  obtain ⟨hle, hall, hstop⟩ := commonBytes_spec keyi keyj (min li lj / 8) 0 (by simp)
  simp only [keyCommonLen]
  generalize commonBytes keyi keyj (min li lj / 8) 0 = n at hle hall hstop
  have hprobe : Lib.IsProbe 0x80 0 := by
    have hbits : ∀ i, i < 8 → (0x80 : UInt8).toBitVec.getLsbD i = decide (i + 0 = 7) := by decide
    exact hbits
  have hstart : ∀ i, i < n * 8 + 0 → Lib.bitAt keyi i = Lib.bitAt keyj i :=
    Lib.bits_eq_iff.mp (Lib.bits_bytes.mpr hall)
  have hmore : keyi n ≠ keyj n ∨ 0 + (min li lj - n * 8) < 8 := by
    rcases Nat.lt_or_ge n (min li lj / 8) with hlt | hge
    · exact .inl (hstop (by omega))
    · exact .inr (by omega)
  obtain ⟨hle', hall', hstop'⟩ := commonBits_spec keyi keyj n (min li lj - n * 8) 0 hprobe hstart hmore
  have hend : n * 8 + 0 + (min li lj - n * 8) = min li lj := by omega
  rw [hend] at hle' hstop'
  exact ⟨hle', Lib.bits_eq_iff.mpr hall', hstop'⟩

end SdPlane

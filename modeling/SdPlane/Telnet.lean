import Mathlib

/-!
# Telnet negotiation in the shell (`shell_telnet.c`, `shell_input` of `shell.c`)

The shell takes its input byte by byte. What a byte does is looked up in the keymap that is
selected, a table of functions, and some of these functions select another keymap. The
telnet part is the three tables for the bytes after `IAC`, after `IAC DO` and its like, and
inside a subnegotiation; the other three are the line editor's.

What the line editor does with a line is not embedded here. An `Editor` is a type of lines,
the function that inserts a byte (`shell_input_char`), of which all that counts is that it
changes the line, and one function for all its other keys. `Keymap.func` says which keys
those are.

`char` is signed on some machines and unsigned on others, so `charSigned` is a parameter.
-/

set_option autoImplicit false

namespace SdPlane.Telnet

/-! `arpa/telnet.h` -/

abbrev IAC : UInt8 := 255
abbrev DONT : UInt8 := 254
abbrev DO : UInt8 := 253
abbrev WONT : UInt8 := 252
abbrev WILL : UInt8 := 251
abbrev SB : UInt8 := 250
abbrev SE : UInt8 := 240
abbrev TELOPT_NAWS : UInt8 := 31

/-- The keymaps of a shell that a telnet client is at. -/
inductive Keymap
  | normal
  | escape1
  | escape2
  | iac1
  | iac2
  | subnego
deriving DecidableEq

/-- The functions in the keymaps. The last two stand for all the functions of the line editor
    except for `shell_input_char`; `editNormal` also selects the normal keymap. -/
inductive KeyFunc
  | iacStart
  | telnetOpt
  | telnetCmd
  | subnego
  | sbStart
  | sbEnd
  | escape1
  | escape2
  | inputChar
  | edit
  | editNormal
deriving DecidableEq

/-- What `command_shell_create`, `shell_escape_keyfunc_init` and `shell_telnet_keyfunc_init`
    leave in the tables. -/
def Keymap.func : Keymap → UInt8 → KeyFunc
  | .normal, ch =>
    if ch = IAC then .iacStart
    else if ch = 0x1b then .escape1
    -- '?' lists the candidates
    else if 0x20 ≤ ch ∧ ch < 0x7f ∧ ch ≠ 0x3f then .inputChar
    else .edit
  | .escape1, ch => if ch = 0x5b then .escape2 else .editNormal
  | .escape2, _ => .editNormal
  | .iac1, ch =>
    if ch = SB then .sbStart
    else if ch = SE then .sbEnd
    else if ch = DO ∨ ch = WILL ∨ ch = DONT ∨ ch = WONT then .telnetCmd
    else .telnetOpt
  | .iac2, _ => .telnetOpt
  | .subnego, ch => if ch = IAC then .iacStart else .subnego

/-- The line editor: the lines with their cursor and whatever else goes with them. -/
structure Editor (L : Type) where
  empty : L
  inputChar : UInt8 → L → L
  edit : Keymap → UInt8 → L → L
  inputChar_ne : ∀ ch l, inputChar ch l ≠ l

/-- `struct shell`. `subnegoBuf` is `subnego_buf` up to `subnego_size`. -/
structure Shell (L : Type) where
  keymap : Keymap
  telnetCmd : UInt8
  telnetOpt : UInt8
  subnegoBuf : List UInt8
  wsRow : UInt16
  wsCol : UInt16
  line : L

/-- The value of a `char`. -/
def charVal (charSigned : Bool) (b : UInt8) : Int :=
  if charSigned ∧ 128 ≤ b then (b.toNat : Int) - 256 else b.toNat

/-- An `int` is stored as an `unsigned short`. -/
def toUShort (x : Int) : UInt16 := UInt16.ofNat (x % 65536).toNat

/-- `((u_short) hi << 8) + lo`, stored as an `unsigned short`. -/
def shortAt (charSigned : Bool) (hi lo : UInt8) : UInt16 :=
  toUShort ((toUShort (charVal charSigned hi)).toNat * 256 + charVal charSigned lo)

variable {L : Type} (ed : Editor L) (charSigned : Bool)

/-- `vty_shell_keyfunc_sb_end`; what it prints for the log is the matter of
    `SdPlane/Formatters.lean`. -/
def Shell.sbEnd (s : Shell L) : Shell L :=
  let s := { s with keymap := .normal }
  match s.subnegoBuf with
  | [option, w₁, w₀, h₁, h₀] =>
    if option = TELOPT_NAWS then
      { s with wsRow := shortAt charSigned h₁ h₀, wsCol := shortAt charSigned w₁ w₀ }
    else s
  | _ => s

/-- The functions, for the byte `ch` in `inputch`. -/
def KeyFunc.run (s : Shell L) (ch : UInt8) : KeyFunc → Shell L
  | .iacStart => { s with keymap := .iac1, telnetCmd := 0 }
  | .telnetOpt => { s with keymap := .normal, telnetOpt := ch }
  | .telnetCmd => { s with keymap := .iac2, telnetCmd := ch }
  | .subnego =>
    if s.subnegoBuf.length < 256 then { s with subnegoBuf := s.subnegoBuf ++ [ch] } else s
  | .sbStart => { s with keymap := .subnego, subnegoBuf := [] }
  | .sbEnd => s.sbEnd charSigned
  | .escape1 => { s with keymap := .escape1 }
  | .escape2 => { s with keymap := .escape2 }
  | .inputChar => { s with line := ed.inputChar ch s.line }
  | .edit => { s with line := ed.edit s.keymap ch s.line }
  | .editNormal => { s with keymap := .normal, line := ed.edit s.keymap ch s.line }

/-- `shell_input`. -/
def shellInput (s : Shell L) (ch : UInt8) : Shell L := (s.keymap.func ch).run ed charSigned s ch

/-- One byte after the other, as `shell_read` feeds them. -/
def feed (s : Shell L) (bs : List UInt8) : Shell L := bs.foldl (shellInput ed charSigned) s

theorem feed_cons (s : Shell L) (b : UInt8) (bs : List UInt8) :
    feed ed charSigned s (b :: bs) = feed ed charSigned (shellInput ed charSigned s b) bs := rfl

theorem feed_append (s : Shell L) (bs cs : List UInt8) :
    feed ed charSigned s (bs ++ cs) = feed ed charSigned (feed ed charSigned s bs) cs :=
  List.foldl_append

/-- In a subnegotiation everything but `IAC` is taken into the buffer, as long as there is
    room. -/
theorem feed_data (ds : List UInt8) : ∀ s : Shell L, s.keymap = .subnego → (∀ d ∈ ds, d ≠ IAC) →
    s.subnegoBuf.length + ds.length ≤ 256 →
    feed ed charSigned s ds = { s with subnegoBuf := s.subnegoBuf ++ ds } := by
  induction ds with
  | nil => intro s _ _ _; simp [feed]
  | cons d ds ih =>
    intro s hkeymap hplain hroom
    rw [List.length_cons] at hroom
    have hd : d ≠ IAC := hplain d List.mem_cons_self
    have hlt : s.subnegoBuf.length < 256 := by omega
    have hstep : shellInput ed charSigned s d = { s with subnegoBuf := s.subnegoBuf ++ [d] } := by
      simp [shellInput, hkeymap, Keymap.func, hd, KeyFunc.run, hlt]
    have hrest := ih { s with subnegoBuf := s.subnegoBuf ++ [d] } hkeymap
      (fun c hc => hplain c (List.mem_cons_of_mem _ hc))
      (by rw [List.length_append, List.length_singleton]; omega)
    rw [feed_cons, hstep, hrest]
    simp

@[simp] theorem sbEnd_keymap (s : Shell L) : (s.sbEnd charSigned).keymap = .normal := by
  unfold Shell.sbEnd
  dsimp only
  split
  · split <;> rfl
  · rfl

@[simp] theorem sbEnd_subnegoBuf (s : Shell L) :
    (s.sbEnd charSigned).subnegoBuf = s.subnegoBuf := by
  unfold Shell.sbEnd
  dsimp only
  split
  · split <;> rfl
  · rfl

/-- Only five bytes make a window size. -/
theorem sbEnd_winsize {s : Shell L} (h : s.subnegoBuf.length ≠ 5) :
    (s.sbEnd charSigned).wsRow = s.wsRow ∧ (s.sbEnd charSigned).wsCol = s.wsCol := by
  unfold Shell.sbEnd
  dsimp only
  split
  · next heq => exact absurd (by rw [heq]; rfl) h
  · exact ⟨rfl, rfl⟩

/-- The start of a negotiation. -/
theorem feed_start {s : Shell L} (h : s.keymap = .normal) : feed ed charSigned s [IAC, SB]
    = { s with keymap := .subnego, telnetCmd := 0, subnegoBuf := [] } := by
  simp [feed, shellInput, h, Keymap.func, KeyFunc.run]

/-! ## Window sizes -/

def hi (x : UInt16) : UInt8 := UInt8.ofNat (x.toNat / 256)

def lo (x : UInt16) : UInt8 := UInt8.ofNat x.toNat

/-- A data byte, as telnet sends it. -/
def doubled (b : UInt8) : List UInt8 := if b = IAC then [IAC, IAC] else [b]

/-- The bytes of a size, each doubled if need be. -/
def sizeBytes (width height : UInt16) : List UInt8 :=
  doubled (hi width) ++ doubled (lo width) ++ doubled (hi height) ++ doubled (lo height)

/-- `IAC SB NAWS w_hi w_lo h_hi h_lo IAC SE`. -/
def nawsStream (width height : UInt16) : List UInt8 :=
  [IAC, SB] ++ (TELOPT_NAWS :: sizeBytes width height) ++ [IAC, SE]

/-- The negotiation does what it is for, whatever shell it meets. -/
def Negotiates (width height : UInt16) : Prop :=
  ∀ s : Shell L, s.keymap = .normal →
    let t := feed ed charSigned s (nawsStream width height)
    t.wsRow = height ∧ t.wsCol = width ∧ t.line = s.line ∧ t.keymap = .normal

/-- No byte of the size is `IAC`, and where `char` is signed the low ones are below 128. -/
def PlainSize (width height : UInt16) : Prop :=
  (∀ b ∈ [hi width, lo width, hi height, lo height], b ≠ IAC)
    ∧ (charSigned = true → lo width < 128 ∧ lo height < 128)

/-- The two bytes of a number make up the number again, unless the low one is negative. -/
theorem shortAt_eq_iff (x : UInt16) :
    shortAt charSigned (hi x) (lo x) = x ↔ (charSigned = true → lo x < 128) := by
  have hx : x.toNat < 65536 := x.toNat_lt
  have hhi : (hi x).toNat = x.toNat / 256 := by
    rw [hi, UInt8.toNat_ofNat_of_lt' (by rw [show UInt8.size = 256 from rfl]; omega)]
  have hlo : (lo x).toNat = x.toNat % 256 := by simp [lo]
  have hlow : lo x < 128 ↔ x.toNat % 256 < 128 := by rw [UInt8.lt_iff_toNat_lt, hlo]; rfl
  have hbig : ∀ b : UInt8, 128 ≤ b ↔ 128 ≤ b.toNat := fun b => UInt8.le_iff_toNat_le
  have hval : ∀ z : Int, (toUShort z).toNat = (z % 65536).toNat := by
    intro z
    rw [toUShort, UInt16.toNat_ofNat_of_lt' (by rw [show UInt16.size = 65536 from rfl]; omega)]
  rw [← UInt16.toNat_inj, shortAt, hval, hval, hlow]
  simp only [charVal, hbig, hhi, hlo]
  cases charSigned with
  | false => simp; omega
  | true =>
    simp only [true_and, forall_const]
    split <;> split <;> omega

/-- How many bytes it takes at least until a window size is set. -/
def Shell.need (s : Shell L) : Nat :=
  match s.keymap with
  | .subnego => if s.subnegoBuf.length ≤ 5 then 7 - s.subnegoBuf.length else 9
  | .iac1 => if s.subnegoBuf.length = 5 then 1 else 8
  | .iac2 => if s.subnegoBuf.length = 5 then 3 else 10
  | _ => if s.subnegoBuf.length = 5 then 2 else 9

theorem need_shellInput (s : Shell L) (b : UInt8) :
    s.need ≤ (shellInput ed charSigned s b).need + 1
      ∧ (2 ≤ s.need → (shellInput ed charSigned s b).wsRow = s.wsRow
        ∧ (shellInput ed charSigned s b).wsCol = s.wsCol) := by
  obtain ⟨keymap, telnetCmd, telnetOpt, buf, wsRow, wsCol, line⟩ := s
  cases keymap with
  | normal =>
    simp only [shellInput, Keymap.func]
    by_cases hfive : buf.length = 5 <;> split_ifs <;> simp [KeyFunc.run, Shell.need, hfive]
  | escape1 =>
    simp only [shellInput, Keymap.func]
    split_ifs <;> simp [KeyFunc.run, Shell.need] <;> exact Nat.le_succ _
  | escape2 =>
    simp [shellInput, Keymap.func, KeyFunc.run, Shell.need]
    exact Nat.le_succ _
  | iac1 =>
    have hwinsize := @sbEnd_winsize L charSigned
      ⟨.iac1, telnetCmd, telnetOpt, buf, wsRow, wsCol, line⟩
    simp only [shellInput, Keymap.func]
    by_cases hfive : buf.length = 5
    · split_ifs <;> simp [KeyFunc.run, Shell.need, hfive]
    · split_ifs
      case pos h => simp [KeyFunc.run, Shell.need, hfive]
      all_goals simp [KeyFunc.run, Shell.need, hfive]
      exact hwinsize hfive
  | iac2 =>
    by_cases hfive : buf.length = 5 <;>
      simp [shellInput, Keymap.func, KeyFunc.run, Shell.need, hfive]
  | subnego =>
    simp only [shellInput, Keymap.func]
    split
    · by_cases hfive : buf.length = 5
      · simp [KeyFunc.run, Shell.need, hfive]
      · simp [KeyFunc.run, Shell.need, hfive]
        split <;> omega
    · simp only [KeyFunc.run]
      split
      · simp [Shell.need]
        split_ifs <;> omega
      · simp

/-- Too few bytes leave the window size alone. -/
theorem feed_winsize (bs : List UInt8) : ∀ s : Shell L, bs.length < s.need →
    (feed ed charSigned s bs).wsRow = s.wsRow ∧ (feed ed charSigned s bs).wsCol = s.wsCol := by
  induction bs with
  | nil => intro s _; exact ⟨rfl, rfl⟩
  | cons b bs ih =>
    intro s h
    rw [List.length_cons] at h
    obtain ⟨hneed, hkept⟩ := need_shellInput ed charSigned s b
    obtain ⟨hrow, hcol⟩ := hkept (by omega)
    obtain ⟨hrow', hcol'⟩ := ih (shellInput ed charSigned s b) (by omega)
    exact ⟨hrow'.trans hrow, hcol'.trans hcol⟩

/-- The end of a negotiation. -/
theorem feed_end {s : Shell L} (h : s.keymap = .subnego) :
    feed ed charSigned s [IAC, SE]
      = Shell.sbEnd charSigned { s with keymap := .iac1, telnetCmd := 0 } := by
  have hIAC : Keymap.subnego.func IAC = .iacStart := rfl
  have hSE : Keymap.iac1.func SE = .sbEnd := rfl
  simp [feed, shellInput, h, hIAC, hSE, KeyFunc.run]

/-- A doubled `IAC` ends a subnegotiation, its bytes are not taken. -/
theorem feed_doubled {s : Shell L} (h : s.keymap = .subnego) :
    feed ed charSigned s [IAC, IAC]
      = { s with keymap := .normal, telnetCmd := 0, telnetOpt := IAC } := by
  have hIAC : Keymap.subnego.func IAC = .iacStart := rfl
  have hIAC' : Keymap.iac1.func IAC = .telnetOpt := rfl
  simp [feed, shellInput, h, hIAC, hIAC', KeyFunc.run]

theorem doubled_length (b : UInt8) : (doubled b).length ≤ 2 := by
  unfold doubled
  split <;> simp

theorem doubled_plain {b : UInt8} (h : b ≠ IAC) : doubled b = [b] := if_neg h

theorem flatMap_doubled_length (bs : List UInt8) :
    (bs.flatMap doubled).length ≤ 2 * bs.length := by
  induction bs with
  | nil => simp
  | cons b bs ih =>
    have hb := doubled_length b
    rw [List.flatMap_cons, List.length_append, List.length_cons]
    omega

theorem flatMap_doubled_plain {bs : List UInt8} (h : ∀ b ∈ bs, b ≠ IAC) :
    bs.flatMap doubled = bs := by
  induction bs with
  | nil => rfl
  | cons b bs ih =>
    rw [List.flatMap_cons, doubled_plain (h b List.mem_cons_self),
      ih fun c hc => h c (List.mem_cons_of_mem _ hc)]
    rfl

theorem sizeBytes_eq (width height : UInt16) :
    sizeBytes width height = [hi width, lo width, hi height, lo height].flatMap doubled := by
  simp [sizeBytes]

/-- A negotiation up to some data without `IAC`. -/
theorem feed_naws {s : Shell L} (h : s.keymap = .normal) {ds : List UInt8}
    (hplain : ∀ d ∈ ds, d ≠ IAC) (hlen : ds.length ≤ 4) :
    feed ed charSigned s ([IAC, SB] ++ TELOPT_NAWS :: ds)
      = { s with keymap := .subnego, telnetCmd := 0, subnegoBuf := TELOPT_NAWS :: ds } := by
  rw [feed_append, feed_start ed charSigned h, feed_data]
  · rfl
  · rfl
  · intro d hd
    cases hd with
    | head => decide
    | tail _ hd => exact hplain d hd
  · simp only [List.length_nil, List.length_cons]
    omega

/-- Without an `IAC` among the data all of it arrives. -/
theorem feed_nawsStream {s : Shell L} (h : s.keymap = .normal) {width height : UInt16}
    (hplain : ∀ b ∈ [hi width, lo width, hi height, lo height], b ≠ IAC) :
    feed ed charSigned s (nawsStream width height)
      = { s with
          telnetCmd := 0
          subnegoBuf := [TELOPT_NAWS, hi width, lo width, hi height, lo height]
          wsRow := shortAt charSigned (hi height) (lo height)
          wsCol := shortAt charSigned (hi width) (lo width) } := by
  rw [nawsStream, sizeBytes_eq, flatMap_doubled_plain hplain, feed_append,
    feed_naws ed charSigned h hplain (by simp), feed_end ed charSigned rfl]
  simp [Shell.sbEnd, h]

/-- With one, the window size stays what it was. -/
theorem feed_nawsStream_doubled {s : Shell L} (h : s.keymap = .normal) {width height : UInt16}
    (hmem : IAC ∈ [hi width, lo width, hi height, lo height]) :
    (feed ed charSigned s (nawsStream width height)).wsRow = s.wsRow := by
  obtain ⟨ds, rest, heq, hds⟩ := List.eq_append_cons_of_mem hmem
  have hlen : ds.length + rest.length = 3 := by
    have hlen := congrArg List.length heq
    simp only [List.length_append, List.length_cons, List.length_nil] at hlen
    omega
  have hplain : ∀ d ∈ ds, d ≠ IAC := fun d hd hIAC => hds (hIAC ▸ hd)
  have hsplit : nawsStream width height = ([IAC, SB] ++ TELOPT_NAWS :: ds) ++ [IAC, IAC]
      ++ (rest.flatMap doubled ++ [IAC, SE]) := by
    rw [nawsStream, sizeBytes_eq, heq, List.flatMap_append, flatMap_doubled_plain hplain]
    simp [doubled]
  rw [hsplit, feed_append ed charSigned s, feed_append ed charSigned s, feed_naws ed charSigned h hplain (by omega),
    feed_doubled ed charSigned rfl]
  have hrest := flatMap_doubled_length rest
  refine (feed_winsize ed charSigned _ _ ?_).1
  have hfive : ds.length + 1 ≠ 5 := by omega
  simp only [Shell.need, List.length_append, List.length_cons, List.length_nil, hfive, if_false]
  omega

/-- A size arrives if and only if it is plain. -/
theorem negotiates_iff (width height : UInt16) :
    Negotiates ed charSigned width height ↔ PlainSize charSigned width height := by
  constructor
  · intro h
    have hplain : ∀ b ∈ [hi width, lo width, hi height, lo height], b ≠ IAC := by
      intro b hb hIAC
      -- a shell whose window has another height keeps it
      have hrow := (h ⟨.normal, 0, 0, [], height + 1, width, ed.empty⟩ rfl).1
      rw [feed_nawsStream_doubled ed charSigned rfl (hIAC ▸ hb)] at hrow
      simp at hrow
    obtain ⟨hrow, hcol, -, -⟩ := h ⟨.normal, 0, 0, [], height, width, ed.empty⟩ rfl
    rw [feed_nawsStream ed charSigned rfl hplain] at hrow hcol
    have hheight := (shortAt_eq_iff charSigned height).1 hrow
    have hwidth := (shortAt_eq_iff charSigned width).1 hcol
    exact ⟨hplain, fun hsigned => ⟨hwidth hsigned, hheight hsigned⟩⟩
  · intro ⟨hplain, hlow⟩ s hs
    rw [feed_nawsStream ed charSigned hs hplain]
    exact ⟨(shortAt_eq_iff charSigned height).2 fun hsigned => (hlow hsigned).2,
      (shortAt_eq_iff charSigned width).2 fun hsigned => (hlow hsigned).1, rfl, hs⟩

/-! ## Text in a subnegotiation -/

/-- Some byte of the stream gets into the line. -/
def Inserts (s : Shell L) : List UInt8 → Prop
  | [] => False
  | b :: bs => s.keymap.func b = .inputChar ∨ Inserts (shellInput ed charSigned s b) bs

/-- No `IAC SE` among the pairs that begin with `IAC`. -/
def NoEnd : List UInt8 → Prop
  | [] => True
  | b :: bs =>
    if b = IAC then
      match bs with
      | [] => True
      | x :: bs => x ≠ SE ∧ NoEnd bs
    else NoEnd bs

/-- Every byte that is left outside of a subnegotiation is one that the line editor does not
    insert. `IAC SB` goes in, `IAC` and any other byte goes out; a command takes one more
    byte with it, and an escape sequence is as long as it is. -/
def TextFree : Bool → List UInt8 → Prop
  | _, [] => True
  | inside, b :: bs =>
    if b = IAC then
      match bs with
      | [] => True
      | x :: bs =>
        if x = SB then TextFree true bs
        else if x = DO ∨ x = WILL ∨ x = DONT ∨ x = WONT then
          match bs with
          | [] => True
          | _ :: bs => TextFree false bs
        else TextFree false bs
    else if inside then TextFree true bs
    else if b = 0x1b then
      match bs with
      | [] => True
      | y :: bs =>
        if y = 0x5b then
          match bs with
          | [] => True
          | _ :: bs => TextFree false bs
        else TextFree false bs
    else ¬ (0x20 ≤ b ∧ b < 0x7f ∧ b ≠ 0x3f) ∧ TextFree false bs

/-- The keymap that a byte leads to, whatever else is in the shell. -/
def Keymap.next (keymap : Keymap) (ch : UInt8) : Keymap :=
  match keymap.func ch with
  | .iacStart => .iac1
  | .telnetOpt | .sbEnd | .editNormal => .normal
  | .telnetCmd => .iac2
  | .sbStart => .subnego
  | .escape1 => .escape1
  | .escape2 => .escape2
  | .subnego | .inputChar | .edit => keymap

/-- `Inserts` from a keymap alone. -/
def Keymap.Inserts : Keymap → List UInt8 → Prop
  | _, [] => False
  | keymap, b :: bs => keymap.func b = .inputChar ∨ (keymap.next b).Inserts bs

theorem shellInput_keymap (s : Shell L) (ch : UInt8) :
    (shellInput ed charSigned s ch).keymap = s.keymap.next ch := by
  unfold shellInput Keymap.next
  cases s.keymap.func ch <;> simp [KeyFunc.run]
  split <;> rfl

theorem inserts_iff (bs : List UInt8) : ∀ s : Shell L,
    Inserts ed charSigned s bs ↔ s.keymap.Inserts bs := by
  induction bs with
  | nil => intro s; rfl
  | cons b bs ih =>
    intro s
    rw [Inserts, Keymap.Inserts, ih, shellInput_keymap]

theorem inserts_IAC (inside : Bool) (bs : List UInt8) :
    (if inside then Keymap.subnego else .normal).Inserts (IAC :: bs) ↔ Keymap.iac1.Inserts bs := by
  cases inside <;> simp [Keymap.Inserts, Keymap.next, Keymap.func]

theorem inserts_iac1 (x : UInt8) (bs : List UInt8) : Keymap.iac1.Inserts (x :: bs) ↔
    (if x = SB then Keymap.subnego
      else if x = DO ∨ x = WILL ∨ x = DONT ∨ x = WONT then .iac2 else .normal).Inserts bs := by
  have hSE : ¬ (SE = DO ∨ SE = WILL ∨ SE = DONT ∨ SE = WONT) := by decide
  simp only [Keymap.Inserts, Keymap.next, Keymap.func]
  split_ifs <;> simp_all

theorem inserts_iac2 (x : UInt8) (bs : List UInt8) :
    Keymap.iac2.Inserts (x :: bs) ↔ Keymap.normal.Inserts bs := by
  simp [Keymap.Inserts, Keymap.next, Keymap.func]

theorem inserts_subnego {b : UInt8} (hb : b ≠ IAC) (bs : List UInt8) :
    Keymap.subnego.Inserts (b :: bs) ↔ Keymap.subnego.Inserts bs := by
  simp [Keymap.Inserts, Keymap.next, Keymap.func, hb]

theorem inserts_escape (bs : List UInt8) :
    Keymap.normal.Inserts (0x1b :: bs) ↔ Keymap.escape1.Inserts bs := by
  have hfunc : Keymap.normal.func 0x1b = .escape1 := rfl
  simp [Keymap.Inserts, Keymap.next, hfunc]

theorem inserts_escape1 (y : UInt8) (bs : List UInt8) : Keymap.escape1.Inserts (y :: bs)
    ↔ (if y = 0x5b then Keymap.escape2 else .normal).Inserts bs := by
  simp only [Keymap.Inserts, Keymap.next, Keymap.func]
  split <;> simp

theorem inserts_escape2 (z : UInt8) (bs : List UInt8) :
    Keymap.escape2.Inserts (z :: bs) ↔ Keymap.normal.Inserts bs := by
  simp [Keymap.Inserts, Keymap.next, Keymap.func]

theorem inserts_normal {b : UInt8} (hb : b ≠ IAC) (hescape : b ≠ 0x1b) (bs : List UInt8) :
    Keymap.normal.Inserts (b :: bs)
      ↔ (0x20 ≤ b ∧ b < 0x7f ∧ b ≠ 0x3f) ∨ Keymap.normal.Inserts bs := by
  simp only [Keymap.Inserts, Keymap.next, Keymap.func, hb, hescape, if_false]
  split <;> simp_all

/-- The part of a stream that the keymaps read as text is free of text. -/
theorem not_inserts_iff (inside : Bool) (bs : List UInt8) :
    ¬ (if inside then Keymap.subnego else .normal).Inserts bs ↔ TextFree inside bs := by
  fun_induction TextFree inside bs with
  | case1 => simp [Keymap.Inserts]
  | case2 =>
    rw [inserts_IAC]
    simp [Keymap.Inserts]
  | case3 inside bs ih =>
    rw [inserts_IAC, inserts_iac1]
    simpa using ih
  | case4 inside x hx hcmd =>
    rw [inserts_IAC, inserts_iac1, if_neg hx, if_pos hcmd]
    simp [Keymap.Inserts]
  | case5 inside x hx hcmd y bs ih =>
    rw [inserts_IAC, inserts_iac1, if_neg hx, if_pos hcmd, inserts_iac2]
    simpa using ih
  | case6 inside x bs hx hcmd ih =>
    rw [inserts_IAC, inserts_iac1, if_neg hx, if_neg hcmd]
    simpa using ih
  | case7 b bs hb ih =>
    rw [if_pos rfl, inserts_subnego hb]
    simpa using ih
  | case8 inside hinside hb =>
    rw [if_neg hinside, inserts_escape]
    simp [Keymap.Inserts]
  | case9 inside hinside hb =>
    rw [if_neg hinside, inserts_escape, inserts_escape1, if_pos rfl]
    simp [Keymap.Inserts]
  | case10 inside hinside z bs hb ih =>
    rw [if_neg hinside, inserts_escape, inserts_escape1, if_pos rfl, inserts_escape2]
    simpa using ih
  | case11 inside hinside y bs hy hb ih =>
    rw [if_neg hinside, inserts_escape, inserts_escape1, if_neg hy]
    simpa using ih
  | case12 inside b bs hb hinside hescape ih =>
    rw [if_neg hinside, inserts_normal hb hescape, not_or]
    exact and_congr_right fun _ => by simpa using ih

/-- A window size arrives if and only if it is plain, and a stream inside a subnegotiation
    leaves nothing in the line if and only if there is no text after an `IAC` that leads out
    of it. -/
theorem telnet_iff :
    (∀ width height, Negotiates ed charSigned width height ↔ PlainSize charSigned width height)
      ∧ ∀ bs, NoEnd bs → ∀ s : Shell L, s.keymap = .subnego →
        (¬ Inserts ed charSigned s bs ↔ TextFree true bs) := by
  constructor
  · exact negotiates_iff ed charSigned
  · intro bs _ s hs
    rw [inserts_iff, hs]
    exact not_inserts_iff true bs

/-- A line editor with a cursor that stays at the end. -/
def typed : Editor (List UInt8) where
  empty := []
  inputChar ch l := l ++ [ch]
  edit _ _ l := l
  inputChar_ne ch l h := by simpa using congrArg List.length h

/-- The usual 80 by 24 arrives. -/
theorem telnet_plain : Negotiates typed true 80 24
    ∧ ¬ Inserts typed true ⟨.subnego, 0, 0, [], 0, 0, []⟩ [TELOPT_NAWS, 0, 80, 0, 24] := by
  obtain ⟨hsize, htext⟩ := telnet_iff typed true
  refine ⟨(hsize 80 24).2 ?_, (htext _ ?_ _ rfl).2 ?_⟩
  · simp [PlainSize, hi, lo]
    decide
  · simp [NoEnd, TELOPT_NAWS, IAC]
  · simp [TextFree, TELOPT_NAWS, IAC]

/-- A width of 200 arrives as 65480 where `char` is signed, one of 255 not at all, and after a
    doubled `IAC` the rest of the data is typed into the line. -/
theorem wide_window_lost : ¬ Negotiates typed true 200 24 ∧ ¬ Negotiates typed true 255 24
    ∧ NoEnd [TELOPT_NAWS, 0, IAC, IAC, 0, 97]
    ∧ Inserts typed true ⟨.subnego, 0, 0, [], 0, 0, []⟩ [TELOPT_NAWS, 0, IAC, IAC, 0, 97] := by
  rw [negotiates_iff, negotiates_iff, inserts_iff]
  refine ⟨?_, ?_, ?_, ?_⟩
  · intro ⟨_, hlow⟩
    exact absurd (hlow rfl).1 (by decide)
  · intro ⟨hplain, _⟩
    exact hplain (lo 255) (by simp) rfl
  · simp [NoEnd, TELOPT_NAWS, IAC, SE]
  -- the last byte meets the normal keymap
  · exact .inr (.inr (.inr (.inr (.inr (.inl rfl)))))

end SdPlane.Telnet

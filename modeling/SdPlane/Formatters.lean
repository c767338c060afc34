import SdPlane.CommandLine
import SdPlane.Lib.Snprintf

/-!
# The texts that the shell puts together piece by piece

`vty_shell_keyfunc_sb_end` (`shell_telnet.c`) prints a subnegotiation for the log,
`command_argv_parse` (`command.c`) the words of a command line, and `command_config_add` an
argument vector for the configuration. All three have a buffer of a fixed size and add what
`snprintf` answers to their position (`SdPlane/Lib/Snprintf.lean`). What they print is up to
who types, and each is safe exactly as long as all but its last piece fit.
-/

set_option autoImplicit false

namespace SdPlane

/-! ## The pieces -/

/-- What `vty_shell_keyfunc_sb_end` prints. -/
def sbEndTexts (subnegoBuf : List UInt8) : List Str :=
  ("len: ".toList ++ Lib.fmtD subnegoBuf.length ++ " [".toList)
    :: subnegoBuf.map (fun b => ' ' :: Lib.fmtHhx b) ++ ["]".toList]

/-- `subnego_str`; its `end` is the last of the 64 bytes. -/
def sbEndFormat (subnegoBuf : List UInt8) (subnegoStr : Lib.Buf) : Lib.Buf :=
  Lib.Buf.format 63 subnegoStr 0 (sbEndTexts subnegoBuf)

/-- What `command_argv_parse` prints. -/
def argvTexts (line : Str) : List Str :=
  (commandArgvParse line).map fun word => " \"".toList ++ word ++ "\"".toList

def argvFormat (line : Str) (strBuf : Lib.Buf) : Lib.Buf :=
  Lib.Buf.format 1024 strBuf 0 (argvTexts line)

/-- What `command_config_add` prints. -/
def configTexts (arg : Str) (args : List Str) : List Str :=
  ("  ".toList ++ arg) :: args.map (' ' :: ·)

def configFormat (arg : Str) (args : List Str) (configLine : Lib.Buf) : Lib.Buf :=
  Lib.Buf.format 128 configLine 0 (configTexts arg args)

example : sbEndTexts [31, 0, 80] = ["len: 3 [".toList, " 0x1f".toList, " 0".toList,
    " 0x50".toList, "]".toList] := by decide

/-! ## Their lengths -/

theorem length_header (count : Str) :
    ("len: ".toList ++ count ++ " [".toList).length = 7 + count.length := by
  have hlen : "len: ".toList.length = 5 := rfl
  have hopen : " [".toList.length = 2 := rfl
  rw [List.length_append, List.length_append, hlen, hopen]
  omega

theorem length_sbEndTexts (subnegoBuf : List UInt8) :
    ∀ text ∈ sbEndTexts subnegoBuf, text.length ≤ Lib.INT_MAX := by
  have hmax : 18 ≤ Lib.INT_MAX := by decide
  intro text htext
  refine le_trans ?_ hmax
  rcases List.mem_append.mp htext with htext | hlast
  · rcases List.mem_cons.mp htext with rfl | hbyte
    · have hcount := Lib.length_fmtD_le subnegoBuf.length
      rw [length_header]
      omega
    · obtain ⟨b, -, rfl⟩ := List.mem_map.mp hbyte
      have hb := Lib.length_fmtHhx_le b
      rw [List.length_cons]
      omega
  · obtain rfl := List.mem_singleton.mp hlast
    decide

/-- The characters of a subnegotiation's text before the closing bracket. -/
def sbEndLength (subnegoBuf : List UInt8) : Nat :=
  7 + (Lib.fmtD subnegoBuf.length).length
    + (subnegoBuf.map fun b => 1 + (Lib.fmtHhx b).length).sum

theorem room_sbEndTexts_iff (subnegoBuf : List UInt8) :
    Lib.Room 63 0 (sbEndTexts subnegoBuf) ↔ sbEndLength subnegoBuf ≤ 63 := by
  have hbytes : (subnegoBuf.map (fun b => ' ' :: Lib.fmtHhx b)).map List.length
      = subnegoBuf.map fun b => 1 + (Lib.fmtHhx b).length := by
    simp [Function.comp_def, Nat.add_comm]
  have hne : sbEndTexts subnegoBuf ≠ [] :=
    List.append_ne_nil_of_right_ne_nil _ (List.cons_ne_nil _ _)
  rw [Lib.room_iff hne (length_sbEndTexts subnegoBuf) le_rfl, sbEndTexts,
    List.dropLast_concat, List.map_cons, hbytes, List.sum_cons, length_header,
    sbEndLength]
  omega

/-- Each word but the last counts, with a space and two quotes. -/
theorem room_argvTexts_iff {line : Str} (hshort : ∀ text ∈ argvTexts line, text.length ≤ Lib.INT_MAX) :
    Lib.Room 1024 0 (argvTexts line)
      ↔ ((commandArgvParse line).dropLast.map fun word => word.length + 3).sum ≤ 1024 := by
  have hwords : argvTexts line ≠ [] := by simp [argvTexts, commandArgvParse, words_ne_nil]
  have hlength : List.length ∘ (fun word : Str => " \"".toList ++ word ++ "\"".toList)
      = fun word => word.length + 3 := by
    funext word
    simp
  rw [Lib.room_iff hwords hshort le_rfl, argvTexts, ← List.map_dropLast, List.map_map, hlength]
  omega

/-! ## The buffers -/

/-- A buffer of the given size, with anything in it. -/
def Stays (format : Lib.Buf → Lib.Buf) (size : Int) : Prop :=
  ∀ mem, (format ⟨mem, []⟩).Within size

theorem stays_iff {limit size : Int} (hle : limit ≤ size) (hsize : size ≤ limit + 1)
    (hlimit : 0 ≤ limit) (hmax : limit + 1 < Lib.SIZE) (texts : List Str) :
    Stays (Lib.Buf.format limit · 0 texts) size ↔ Lib.Room limit 0 texts := by
  have hbuf : ∀ mem, (Lib.Buf.format limit ⟨mem, []⟩ 0 texts).Within size
      ↔ Lib.Room limit 0 texts := fun mem =>
    Lib.Buf.format_within_iff hle hsize hlimit (by omega) texts (.inl hmax) ⟨mem, []⟩ 0
      (fun i h => absurd h List.not_mem_nil) (Int.add_nonneg hlimit (Int.natCast_nonneg _))
      (.inl le_rfl)
  exact ⟨fun h => (hbuf fun _ => 'x').mp (h _), fun h mem => (hbuf mem).mpr h⟩

/-- **When the formatters stay in their buffers.** -/
theorem formatters_stay_iff (subnegoBuf : List UInt8) (line arg : Str) (args : List Str) :
    (subnegoBuf.length ≤ 256 → (Stays (sbEndFormat subnegoBuf) 64 ↔ sbEndLength subnegoBuf ≤ 63))
      ∧ (Stays (argvFormat line) 1024 ↔ Lib.Room 1024 0 (argvTexts line))
      ∧ (Stays (configFormat arg args) 128 ↔ Lib.Room 128 0 (configTexts arg args)) := by
  refine ⟨fun _ => ?_, ?_, ?_⟩
  · rw [← room_sbEndTexts_iff]
    exact stays_iff (by decide) (by decide) (by decide) (by decide) _
  · exact stays_iff le_rfl (by decide) (by decide) (by decide) _
  · exact stays_iff le_rfl (by decide) (by decide) (by decide) _

/-- A window size, and a command line of ordinary length, are printed within bounds. -/
theorem formatters_stay_short : Stays (sbEndFormat [31, 0, 80, 0, 24]) 64
    ∧ Stays (argvFormat "show ip route".toList) 1024
    ∧ Stays (configFormat "set".toList ["port".toList, "0".toList]) 128 := by
  have h := formatters_stay_iff [31, 0, 80, 0, 24] "show ip route".toList "set".toList
    ["port".toList, "0".toList]
  exact ⟨(h.1 (by decide)).2 (by decide), h.2.1.2 (by decide), h.2.2.2 (by decide)⟩

/-- Eleven letters in a subnegotiation are too many, as are 260 words of one letter, and a word
    of 127 letters with another one behind it. -/
theorem formatters_overrun : ¬ Stays (sbEndFormat (List.replicate 11 65)) 64
    ∧ ¬ Stays (argvFormat (List.replicate 260 ['a', ' ']).flatten) 1024
    ∧ ¬ Stays (configFormat (List.replicate 127 'a') ["b".toList]) 128 := by
  have hsbEnd : ¬ Lib.Room 63 0 (sbEndTexts (List.replicate 11 65)) := by decide
  have hargv : ¬ Lib.Room 1024 0 (argvTexts (List.replicate 260 ['a', ' ']).flatten) := by
    decide +kernel
  have hconfig : ¬ Lib.Room 128 0 (configTexts (List.replicate 127 'a') ["b".toList]) := by
    decide +kernel
  refine ⟨fun h => hsbEnd ?_, fun h => hargv ?_, fun h => hconfig ?_⟩
  · exact (stays_iff (by decide) (by decide) (by decide) (by decide) _).1 h
  · exact (stays_iff le_rfl (by decide) (by decide) (by decide) _).1 h
  · exact (stays_iff le_rfl (by decide) (by decide) (by decide) _).1 h

end SdPlane

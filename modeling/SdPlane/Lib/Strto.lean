import Mathlib

/-!
# Numbers and addresses from text

`strtol` and `strtoul` of the C library, on a machine whose `long` has 64 bits: space is
skipped, there may be a sign, and with base 0 the number itself says by `0x` or `0` what its
base is. Both answer the value and what is left of the text; without a digit that is all of
it. `inet_pton` is here for IPv4.
-/

set_option autoImplicit false

namespace Lib

def ULONG_MAX : Nat := 2 ^ 64 - 1

def LONG_MAX : Int := 2 ^ 63 - 1

def LONG_MIN : Int := -2 ^ 63

def isSpace (c : Char) : Bool := c = ' ' || ('\t' ≤ c && c ≤ '\r')

/-- What a character counts as a digit, 36 and above for none. -/
def digit (c : Char) : Nat :=
  if '0' ≤ c ∧ c ≤ '9' then c.toNat - '0'.toNat
  else if 'a' ≤ c ∧ c ≤ 'z' then c.toNat - 'a'.toNat + 10
  else if 'A' ≤ c ∧ c ≤ 'Z' then c.toNat - 'A'.toNat + 10
  else 36

def skipSign : List Char → Bool × List Char
  | '-' :: cs => (true, cs)
  | '+' :: cs => (false, cs)
  | cs => (false, cs)

/-- The base, and the text behind its prefix. A `0x` without a digit is a zero. -/
def skipBase (base : Nat) : List Char → Nat × List Char
  | '0' :: x :: d :: cs =>
    if (base = 0 ∨ base = 16) ∧ (x = 'x' ∨ x = 'X') ∧ digit d < 16 then (16, d :: cs)
    else (if base = 0 then 8 else base, '0' :: x :: d :: cs)
  | '0' :: cs => (if base = 0 then 8 else base, '0' :: cs)
  | cs => (if base = 0 then 10 else base, cs)

def readDigits (base : Nat) (cs : List Char) : Nat := cs.foldl (fun n c => n * base + digit c) 0

/-- Whether there is a minus, the digits' value, and the rest of the text. -/
def strto (text : List Char) (base : Nat) : Bool × Nat × List Char :=
  let (negative, cs) := skipSign (text.dropWhile isSpace)
  let (base, cs) := skipBase base cs
  let digits := cs.takeWhile (digit · < base)
  if digits = [] then (false, 0, text)
  else (negative, readDigits base digits, cs.drop digits.length)

/-- `strtoul`: a minus turns the number into its complement. -/
def strtoul (text : List Char) (base : Nat) : Nat × List Char :=
  let (negative, n, rest) := strto text base
  if n > ULONG_MAX then (ULONG_MAX, rest)
  else if negative then ((ULONG_MAX + 1 - n) % (ULONG_MAX + 1), rest)
  else (n, rest)

/-- `strtol`. -/
def strtol (text : List Char) (base : Nat) : Int × List Char :=
  let (negative, n, rest) := strto text base
  let x : Int := if negative then -n else n
  (max LONG_MIN (min LONG_MAX x), rest)

example : strtoul "0x1fz".toList 0 = (31, "z".toList) := by decide

example : strtol " -017".toList 0 = (-15, []) := by decide

/-- `inet_pton (AF_INET, ...)`, as far as whether it accepts the text: four numbers up to 255
    without leading zeros. `octets` of them have begun, and the last, if there is a digit of
    it yet, is `cur`. -/
def inetPton4From : Nat → Option Nat → List Char → Bool
  | octets, _, [] => octets = 4
  | octets, cur, c :: cs =>
    if '0' ≤ c ∧ c ≤ '9' then
      match cur with
      | some n =>
        if n = 0 ∨ n * 10 + digit c > 255 then false
        else inetPton4From octets (some (n * 10 + digit c)) cs
      | none => if octets = 4 then false else inetPton4From (octets + 1) (some (digit c)) cs
    else if c = '.' ∧ cur ≠ none then
      if octets = 4 then false else inetPton4From octets none cs
    else false

def inetPton4 (text : List Char) : Bool := inetPton4From 0 none text

example : inetPton4 "10.0.255.1".toList := by decide

end Lib

import Mathlib.Algebra.Ring.Nat
import Mathlib.Data.List.Basic
import Mathlib.Tactic.Common

/-!
# `Proto.Bytes` — byte strings and the `ByteSliceExt` helpers

Slices, `Vec<u8>` and byte literals of the source are all lists of bytes here. The helpers are those of
`xibalba-proto/src/bytes.rs`, under the source's names; every parser of the protocol layer is built on
them.
-/

namespace Xibalba

/-- A byte string. -/
abbrev Bytes := List UInt8

/-- The bytes of an ASCII literal, the source's `b"…"`. -/
def ascii (s : String) : Bytes := s.toList.map fun c => UInt8.ofNat c.toNat

/-! ## Byte classes of the standard library -/

/-- `u8::is_ascii_lowercase`. -/
def isAsciiLowercase (b : UInt8) : Bool := 0x61 ≤ b && b ≤ 0x7a

/-- `u8::is_ascii_alphabetic`. -/
def isAsciiAlphabetic (b : UInt8) : Bool := (0x41 ≤ b && b ≤ 0x5a) || isAsciiLowercase b

/-- `u8::is_ascii_digit`. -/
def isAsciiDigit (b : UInt8) : Bool := 0x30 ≤ b && b ≤ 0x39

/-- `u8::is_ascii_alphanumeric`. -/
def isAsciiAlphanumeric (b : UInt8) : Bool := isAsciiAlphabetic b || isAsciiDigit b

/-- `u8::is_ascii_hexdigit`. -/
def isAsciiHexdigit (b : UInt8) : Bool :=
  isAsciiDigit b || (0x41 ≤ b && b ≤ 0x46) || (0x61 ≤ b && b ≤ 0x66)

/-- `u8::to_ascii_lowercase`. -/
def toAsciiLowercase (b : UInt8) : UInt8 := if 0x41 ≤ b && b ≤ 0x5a then b ||| 0x20 else b

/-- SP or HTAB, the bytes `trim_ows` strips. -/
def isOws (b : UInt8) : Bool := b == 0x20 || b == 0x09

namespace Bytes

/-- Two bytes that are equal, or the two cases of one letter: the closure of `ascii_eq_ignore_case`.
    Setting bit `0x20` maps a letter to lower case, and the lower-case test keeps that trick from
    identifying two bytes that are not letters. -/
def byteEqIgnoreCase (x y : UInt8) : Bool :=
  x == y || ((x ||| 0x20) == (y ||| 0x20) && isAsciiLowercase (x ||| 0x20))

/-- Case-insensitive ASCII equality. -/
def asciiEqIgnoreCase (xs ys : Bytes) : Bool :=
  xs.length == ys.length && (xs.zip ys).all fun p => byteEqIgnoreCase p.1 p.2

@[simp] theorem asciiEqIgnoreCase_cons (x y : UInt8) (xs ys : Bytes) :
    asciiEqIgnoreCase (x :: xs) (y :: ys) = (byteEqIgnoreCase x y && asciiEqIgnoreCase xs ys) := by
  simp only [asciiEqIgnoreCase, List.length_cons, List.zip_cons_cons, List.all_cons]
  cases byteEqIgnoreCase x y <;> simp

theorem asciiEqIgnoreCase_refl (xs : Bytes) : asciiEqIgnoreCase xs xs = true := by
  induction xs with
  | nil => rfl
  | cons x xs ih => simp [ih, byteEqIgnoreCase]

/-- Trim optional whitespace (SP, HTAB) from both ends. -/
def trimOws (xs : Bytes) : Bytes := ((xs.dropWhile isOws).reverse.dropWhile isOws).reverse

/-- The digit loop of `parse_u64`: `checked_mul(10)` and `checked_add` fail past `u64::MAX`. -/
def parseDigits (acc : Nat) : Bytes → Option Nat
  | [] => some acc
  | b :: rest =>
    -- `b.wrapping_sub(b'0')`
    let digit := (b - 0x30).toNat
    if digit > 9 then none
    else if acc * 10 + digit < 2 ^ 64 then parseDigits (acc * 10 + digit) rest
    else none

/-- Parse a `u64` from ASCII digits, skipping surrounding OWS. -/
def parseU64 (xs : Bytes) : Option Nat :=
  let bytes := trimOws xs
  if bytes.isEmpty then none else parseDigits 0 bytes

/-- Whether a comma-separated header value contains `token`, case-insensitively. -/
def containsTokenIgnoreCase (xs token : Bytes) : Bool :=
  (xs.splitOnP (· == 0x2c)).any fun part => asciiEqIgnoreCase (trimOws part) token

/-- `windows(n).position(|w| w == needle)` for a needle of `n > 0` bytes. -/
def findWindow (needle : Bytes) : Bytes → Option Nat
  | [] => none
  | b :: rest =>
    if needle.isPrefixOf (b :: rest) then some 0 else (findWindow needle rest).map (· + 1)

/-- The offset of the first occurrence of `needle`. -/
def findSubsequence (xs needle : Bytes) : Option Nat :=
  if needle.isEmpty then some 0 else findWindow needle xs

/-- The offset of the first CRLF. -/
def findCrlf (xs : Bytes) : Option Nat := findSubsequence xs [0x0d, 0x0a]

end Bytes

end Xibalba

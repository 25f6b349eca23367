import Mathlib.Data.Rat.Defs

/-!
# Conversions to JavaScript's `BigInt`

A number converts if it is an integer, a text if it is an integer literal with
white space around it: decimal with an optional sign, or hexadecimal, octal or
binary without one. White space alone is zero.
-/
namespace ContentPublishing.BigInt

def ofNumber (q : ℚ) : Option ℤ := if q.den = 1 then some q.num else none

/-- White space and line terminators. -/
def isSpace (c : Char) : Bool :=
  c.toNat ∈ [0x09, 0x0a, 0x0b, 0x0c, 0x0d, 0x20, 0xa0, 0x1680, 0x2028, 0x2029, 0x202f, 0x205f,
    0x3000, 0xfeff] || (0x2000 ≤ c.toNat && c.toNat ≤ 0x200a)

def digitValue (c : Char) : Option ℕ :=
  if '0' ≤ c ∧ c ≤ '9' then some (c.toNat - '0'.toNat)
  else if 'a' ≤ c ∧ c ≤ 'f' then some (c.toNat - 'a'.toNat + 10)
  else if 'A' ≤ c ∧ c ≤ 'F' then some (c.toNat - 'A'.toNat + 10)
  else none

/-- Reads digits of a base, most significant first, after the value `n`. -/
def readDigits (base : ℕ) : ℕ → List Char → Option ℕ
  | n, [] => some n
  | n, c :: cs => do
      let d ← digitValue c
      if d < base then readDigits base (n * base + d) cs else none

/-- At least one digit. -/
def ofDigits (base : ℕ) (cs : List Char) : Option ℤ :=
  if cs.isEmpty then none else (readDigits base 0 cs).map Int.ofNat

def trim (cs : List Char) : List Char :=
  ((cs.dropWhile isSpace).reverse.dropWhile isSpace).reverse

def ofText (text : String) : Option ℤ :=
  match trim text.toList with
  | [] => some 0
  | '0' :: 'x' :: cs | '0' :: 'X' :: cs => ofDigits 16 cs
  | '0' :: 'o' :: cs | '0' :: 'O' :: cs => ofDigits 8 cs
  | '0' :: 'b' :: cs | '0' :: 'B' :: cs => ofDigits 2 cs
  | '-' :: cs => (ofDigits 10 cs).map (- ·)
  | '+' :: cs => ofDigits 10 cs
  | cs => ofDigits 10 cs

end ContentPublishing.BigInt

import AndroidResources.Text.Basic

/-!
# Numbers in text

* `Text.decimalDigit?`, `Text.hexDigit?` : the values of digits;
* `Text.readDigits` : the number that digits spell, or the first character that is no digit;
* `Numeral` : a decimal number as it is written, `Numeral.fitsDouble` its range.
-/

namespace AndroidResources

namespace Text

def hexDigit? (c : Char) : Option Nat :=
  if '0' ≤ c ∧ c ≤ '9' then some (c.toNat - '0'.toNat)
  else if 'a' ≤ c ∧ c ≤ 'f' then some (c.toNat - 'a'.toNat + 10)
  else if 'A' ≤ c ∧ c ≤ 'F' then some (c.toNat - 'A'.toNat + 10)
  else none

def decimalDigit? (c : Char) : Option Nat :=
  if '0' ≤ c ∧ c ≤ '9' then some (c.toNat - '0'.toNat) else none

/-- The number that digits spell in a base, behind digits of the given value; or the first
character that is no digit. -/
def readDigits (base : Nat) (digit? : Char → Option Nat) : Nat → Text → Except Char Nat
  | value, [] => .ok value
  | value, c :: rest =>
    match digit? c with
    | some d => readDigits base digit? (base * value + d) rest
    | none => .error c

def hexNumber? (digits : Text) : Option Nat :=
  (readDigits 16 hexDigit? 0 digits).toOption

/-- The number that decimal digits spell; characters that are no digits do not count. -/
def decimalNumber (digits : Text) : Nat :=
  (digits.filterMap decimalDigit?).foldl (fun n d => 10 * n + d) 0

def charOfNumber? (n : Nat) : Option Char :=
  if n.isValidChar then some (Char.ofNat n) else none

end Text

/-- The absolute value of a number as it is written. -/
structure Numeral where
  /-- The digits on both sides of the point. -/
  digits : Text
  /-- The exponent for these digits. -/
  exponent : Int

namespace Numeral

/-- The least number that is rounded to infinity in double precision. -/
def doubleLimit : Nat := Nat.pow 2 1024 - Nat.pow 2 970

def fitsDouble (n : Numeral) : Bool :=
  let significant := n.digits.dropWhile (· == '0')
  let magnitude : Int := significant.length + n.exponent
  if significant = [] ∨ magnitude < 309 then true
  else if 309 < magnitude then false
  else
    match n.exponent with
    | .ofNat e => Text.decimalNumber significant * Nat.pow 10 e < doubleLimit
    | .negSucc e => Text.decimalNumber significant < doubleLimit * Nat.pow 10 (e + 1)

end Numeral

end AndroidResources

import AndroidResources.Text.Digits

/-!
# Numbers and times of TOML

A number or a point in time is one word of letters, digits and a few signs. Its value does not
matter, but it has to be well-formed and in range.

* `Toml.isInteger`, `Toml.isFloat` : numbers;
* `Toml.isDate`, `Toml.isTime`, `Toml.isDateTime` : points in time.
-/

namespace AndroidResources.Toml

/-! ## Numbers -/

/-- Digits with single underscores between them, and what follows. -/
def digitRun (isDigit : Char → Bool) : Text → Text × Text
  | [] => ([], [])
  | '_' :: c :: rest =>
    if isDigit c then
      let (digits, rest) := digitRun isDigit rest
      (c :: digits, rest)
    else ([], '_' :: c :: rest)
  | c :: rest =>
    if isDigit c then
      let (digits, rest) := digitRun isDigit rest
      (c :: digits, rest)
    else ([], c :: rest)

def digits? (isDigit : Char → Bool) (s : Text) : Option (Text × Text) :=
  match s with
  | c :: _ => if isDigit c then some (digitRun isDigit s) else none
  | [] => none

def splitSign : Text → Bool × Text
  | '-' :: rest => (true, rest)
  | '+' :: rest => (false, rest)
  | s => (false, s)

/-- A decimal number in front of a point; a zero in front stands alone. -/
def wholePart? (s : Text) : Option (Text × Text) :=
  match s with
  | '0' :: rest => some ("0", rest)
  | s => digits? Char.isDigit s

/-- The least number that is too great for an integer. -/
def integerLimit : Nat := Nat.pow 2 63

def bases : List (Char × Nat) := [('x', 16), ('o', 8), ('b', 2)]

def isDigitIn (base : Nat) (c : Char) : Bool :=
  (Text.hexDigit? c).any (· < base)

def isMarkedInteger (word : Text) : Bool :=
  match word with
  | '0' :: mark :: digits =>
    match bases.lookup mark with
    | some base =>
      match digits? (isDigitIn base) digits with
      | some (digits, []) =>
        match Text.readDigits base Text.hexDigit? 0 digits with
        | .ok n => n < integerLimit
        | .error _ => false
      | _ => false
    | none => false
  | _ => false

def isDecimalInteger (word : Text) : Bool :=
  let (negative, digits) := splitSign word
  match wholePart? digits with
  | some (digits, []) =>
    let n := Text.decimalNumber digits
    n < integerLimit || (negative && n == integerLimit)
  | _ => false

def isInteger (word : Text) : Bool :=
  isMarkedInteger word || isDecimalInteger word

def fraction? : Text → Option (Text × Text)
  | '.' :: rest => digits? Char.isDigit rest
  | s => some ([], s)

/-- The exponent at the end of a number, zero where there is none. -/
def exponent? : Text → Option Int
  | [] => some 0
  | c :: rest =>
    if c = 'e' ∨ c = 'E' then
      let (negative, digits) := splitSign rest
      match digits? Char.isDigit digits with
      | some (digits, []) =>
        let n : Int := Text.decimalNumber digits
        some (if negative then -n else n)
      | _ => none
    else none

/-- The number that a word with a point or an exponent spells, without its sign. -/
def numeral? (word : Text) : Option Numeral := do
  let (whole, rest) ← wholePart? (splitSign word).2
  if rest = [] then none
  let (behind, rest) ← fraction? rest
  let exponent ← exponent? rest
  return ⟨whole ++ behind, exponent - behind.length⟩

/-- The word is a number with a point or an exponent. Only a negative one may be out of range. -/
def isFloat (word : Text) : Bool :=
  let (negative, unsigned) := splitSign word
  if unsigned = "inf" ∨ unsigned = "nan" then true
  else (numeral? word).any fun n => negative || n.fitsDouble

/-! ## Points in time -/

/-- A number of so many digits within bounds, and what follows. -/
def fixedNumber? (width least greatest : Nat) (s : Text) : Option (Nat × Text) :=
  let digits := s.take width
  let n := Text.decimalNumber digits
  if digits.length = width ∧ digits.all Char.isDigit ∧ least ≤ n ∧ n ≤ greatest then
    some (n, s.drop width)
  else none

def behind? (c : Char) : Text → Option Text
  | d :: rest => if d = c then some rest else none
  | [] => none

def daysOf (year month : Nat) : Nat :=
  if month = 2 then
    if year % 4 = 0 ∧ (year % 100 ≠ 0 ∨ year % 400 = 0) then 29 else 28
  else if month ∈ [4, 6, 9, 11] then 30
  else 31

def behindDate? (s : Text) : Option Text := do
  let (year, s) ← fixedNumber? 4 0 9999 s
  let (month, s) ← fixedNumber? 2 1 12 (← behind? '-' s)
  let (_, s) ← fixedNumber? 2 1 (daysOf year month) (← behind? '-' s)
  return s

def behindMinutes? (s : Text) : Option Text := do
  let (_, s) ← fixedNumber? 2 0 23 s
  let (_, s) ← fixedNumber? 2 0 59 (← behind? ':' s)
  return s

/-- The text behind a time; the last second of a minute may be the sixty-first. -/
def behindTime? (s : Text) : Option Text := do
  let s ← behindMinutes? s
  let (_, s) ← fixedNumber? 2 0 60 (← behind? ':' s)
  match s with
  | '.' :: c :: rest => if c.isDigit then return rest.dropWhile Char.isDigit else none
  | s => return s

/-- The text is an offset from universal time, or there is none. -/
def isOffset (s : Text) : Bool :=
  match s with
  | [] => true
  | c :: rest =>
    if c = 'z' ∨ c = 'Z' then rest = []
    else if c = '+' ∨ c = '-' then behindMinutes? rest = some []
    else false

def isDate (word : Text) : Bool :=
  behindDate? word = some []

def isTime (word : Text) : Bool :=
  behindTime? word = some []

def isOffsetTime (word : Text) : Bool :=
  (behindTime? word).any isOffset

def isDateTime (word : Text) : Bool :=
  match behindDate? word with
  | some (c :: rest) => (c == 'T' || c == 't') && isOffsetTime rest
  | _ => false

end AndroidResources.Toml

import AndroidResources.ClassInfo.Fault
import AndroidResources.Text.Digits

/-!
# Scanning JSON

Strict JSON is read from left to right and the first problem decides. Every function here takes the
text that is still to be read and gives back what remains.

* `readString` : the characters of a string, escapes resolved;
* `Number.read` : numbers;
* `skipValue` : any value, checked for its grammar alone;
* `nextKey`, `nextElement` : the way through an object and an array;
* `wrongKind` : what is wrong where a value of another kind is needed.
-/

namespace AndroidResources.ClassInfo

def isSpace (c : Char) : Bool :=
  c == ' ' || c == '\t' || c == '\n' || c == '\r'

def toToken (s : Text) : Text :=
  s.dropWhile isSpace

/-- The fault of a text that should go on in another way. -/
def unexpected : Text → Fault
  | [] => .incomplete
  | _ :: _ => .malformed

/-! ## Strings -/

/-- Four hexadecimal digits; fewer than four bytes are an early end, whatever they are. -/
def codeUnit (s : Text) : Except Fault (Nat × Text) :=
  if Text.utf8Size s < 4 then .error .incomplete
  else
    match Text.hexNumber? (s.take 4) with
    | some n => .ok (n, s.drop 4)
    | none => .error .malformed

def isHighHalf (n : Nat) : Bool :=
  0xd800 ≤ n && n ≤ 0xdbff

def isLowHalf (n : Nat) : Bool :=
  0xdc00 ≤ n && n ≤ 0xdfff

/-- The character of an escape by number. Numbers that stand for half a character come in pairs. -/
def numberedChar (s : Text) : Except Fault (Char × Text) := do
  let (n, rest) ← codeUnit s
  if isLowHalf n then throw .malformed
  else if isHighHalf n then
    match rest with
    | '\\' :: 'u' :: rest => do
      let (m, rest) ← codeUnit rest
      if isLowHalf m then
        return (Char.ofNat (0x10000 + (n - 0xd800) * 0x400 + (m - 0xdc00)), rest)
      else throw .malformed
    | [] => throw .incomplete
    | ['\\'] => throw .incomplete
    | _ => throw .malformed
  else return (Char.ofNat n, rest)

def letterEscapes : List (Char × Char) :=
  [('"', '"'), ('\\', '\\'), ('/', '/'), ('b', '\x08'), ('f', '\x0c'), ('n', '\n'), ('r', '\r'),
    ('t', '\t')]

/-- What becomes of a string. -/
inductive StringUse
  | kept
  /-- Passed over: halves of pairs may stand alone. -/
  | passedOver
  deriving DecidableEq, Repr

def escapedChar (use : StringUse) : Text → Except Fault (Char × Text)
  | [] => .error .incomplete
  | 'u' :: rest =>
    match use with
    | .kept => numberedChar rest
    | .passedOver => (codeUnit rest).map fun (_, rest) => ('?', rest)
  | c :: rest =>
    match letterEscapes.lookup c with
    | some char => .ok (char, rest)
    | none => .error .malformed

/-- The next character of a string; none at the closing quote. -/
def stringItem (use : StringUse) : Text → Except Fault (Option Char × Text)
  | [] => .error .incomplete
  | '"' :: rest => .ok (none, rest)
  | '\\' :: rest => (escapedChar use rest).map fun (c, rest) => (some c, rest)
  | c :: rest => if c < ' ' then .error .malformed else .ok (some c, rest)

def stringItems (use : StringUse) : Nat → Text → Except Fault (Text × Text)
  | 0, _ => .error .incomplete
  | bound + 1, s => do
    match ← stringItem use s with
    | (none, rest) => return ([], rest)
    | (some c, rest) =>
      let (cs, rest) ← stringItems use bound rest
      return (c :: cs, rest)

def readString (use : StringUse) (s : Text) : Except Fault (Text × Text) :=
  stringItems use (s.length + 1) s

/-! ## Numbers -/

namespace Number

def digits1 (s : Text) : Except Fault (Text × Text) :=
  match s.takeWhile Char.isDigit with
  | [] => .error (unexpected s)
  | digits => .ok (digits, s.dropWhile Char.isDigit)

/-- The digits in front of the point: a zero stands alone. -/
def wholePart (s : Text) : Except Fault (Text × Text) := do
  let (digits, rest) ← digits1 s
  if digits.head? = some '0' ∧ digits.length ≠ 1 then throw .malformed else return (digits, rest)

def fraction : Text → Except Fault (Text × Text)
  | '.' :: rest => digits1 rest
  | s => .ok ([], s)

def sign : Text → Bool × Text
  | '-' :: rest => (true, rest)
  | '+' :: rest => (false, rest)
  | s => (false, s)

/-- The exponent, zero where none is written. -/
def exponentPart : Text → Except Fault (Int × Text)
  | c :: rest =>
    if c = 'e' ∨ c = 'E' then do
      let (negative, rest) := sign rest
      let (digits, rest) ← digits1 rest
      let n : Int := Text.decimalNumber digits
      return (if negative then -n else n, rest)
    else .ok (0, c :: rest)
  | [] => .ok (0, [])

def read (s : Text) : Except Fault (Numeral × Text) := do
  let (whole, rest) ← wholePart s
  let (behind, rest) ← fraction rest
  let (exponent, rest) ← exponentPart rest
  return (⟨whole ++ behind, exponent - behind.length⟩, rest)

end Number

/-! ## Values that are passed over -/

def restOfWord : Text → Text → Except Fault Text
  | [], s => .ok s
  | _ :: _, [] => .error .incomplete
  | c :: word, d :: rest => if c = d then restOfWord word rest else .error .malformed

/-- What follows one of the three words, if the text starts with the first letter of one. -/
def restBehindWord? (s : Text) : Option (Except Fault Text) :=
  match s with
  | 'n' :: rest => some (restOfWord "ull" rest)
  | 't' :: rest => some (restOfWord "rue" rest)
  | 'f' :: rest => some (restOfWord "alse" rest)
  | _ => none

def unsigned : Text → Text
  | '-' :: rest => rest
  | s => s

/-- A value without parts, passed over. Here a number that is cut short counts as malformed. -/
def skipScalar (s : Text) : Except Fault Text :=
  match restBehindWord? s with
  | some result => result
  | none =>
    match s with
    | '"' :: rest => (readString .passedOver rest).map (·.2)
    | c :: _ =>
      if c = '-' ∨ c.isDigit then
        match Number.read (unsigned s) with
        | .ok (_, rest) => .ok rest
        | .error _ => .error .malformed
      else .error .malformed
    | [] => .error .incomplete

def colon (s : Text) : Except Fault Text :=
  match toToken s with
  | ':' :: rest => .ok rest
  | s => .error (unexpected s)

mutual

def skipValue : Nat → Text → Except Fault Text
  | 0, _ => .error .malformed
  | size + 1, s =>
    match toToken s with
    | '\x7b' :: rest =>
      match toToken rest with
      | '\x7d' :: rest => .ok rest
      | rest => skipMembers size rest
    | '[' :: rest =>
      match toToken rest with
      | ']' :: rest => .ok rest
      | [] => .error .incomplete
      | rest => skipElements size rest
    | s => skipScalar s

def skipMembers : Nat → Text → Except Fault Text
  | 0, _ => .error .malformed
  | size + 1, s =>
    match toToken s with
    | '"' :: rest => do
      let (_, rest) ← readString .passedOver rest
      let rest ← colon rest
      let rest ← skipValue size rest
      match toToken rest with
      | ',' :: rest => skipMembers size rest
      | '\x7d' :: rest => .ok rest
      | rest => .error (unexpected rest)
    | s => .error (unexpected s)

def skipElements : Nat → Text → Except Fault Text
  | 0, _ => .error .malformed
  | size + 1, s => do
    let rest ← skipValue size s
    match toToken rest with
    | ',' :: rest => skipElements size rest
    | ']' :: rest => .ok rest
    | rest => .error (unexpected rest)

end

def skip (s : Text) : Except Fault Text :=
  skipValue (2 * s.length + 2) s

/-! ## Objects and arrays -/

/-- The next key of an object; none at its end. -/
def nextKey (isFirst : Bool) (s : Text) : Except Fault (Option Text × Text) :=
  let key : Text → Except Fault (Option Text × Text)
    | '"' :: rest => (readString .kept rest).map fun (key, rest) => (some key, rest)
    | s => .error (unexpected s)
  match toToken s with
  | '\x7d' :: rest => .ok (none, rest)
  | ',' :: rest => if isFirst then .error .malformed else key (toToken rest)
  | s => if isFirst then key s else .error (unexpected s)

/-- The members of an object, read behind its opening brace. What is done with a member depends on
its key, and starts at the colon behind the key. -/
def readMembers (member : σ → Text → Text → Except Fault (σ × Text)) :
    Nat → Bool → σ → Text → Except Fault (σ × Text)
  | 0, _, _, _ => .error .malformed
  | size + 1, isFirst, state, s => do
    match ← nextKey isFirst s with
    | (none, rest) => return (state, rest)
    | (some key, rest) =>
      let (state, rest) ← member state key rest
      readMembers member size false state rest

def readObject (member : σ → Text → Text → Except Fault (σ × Text)) (start : σ) (s : Text) :
    Except Fault (σ × Text) :=
  readMembers member (s.length + 1) true start s

/-- There is a next element of an array, whose text is given, or the array ends. -/
def nextElement (isFirst : Bool) (s : Text) : Except Fault (Bool × Text) :=
  match toToken s with
  | ']' :: rest => .ok (false, ']' :: rest)
  | ',' :: rest =>
    if isFirst then .ok (true, ',' :: rest)
    else
      match toToken rest with
      | [] => .error .incomplete
      | ']' :: _ => .error .malformed
      | rest => .ok (true, rest)
  | [] => .error .incomplete
  | s => if isFirst then .ok (true, s) else .error .malformed

def endOfArray (s : Text) : Except Fault Text :=
  match toToken s with
  | ']' :: rest => .ok rest
  | s => .error (unexpected s)

/-- What is wrong with a value where one of another kind is needed: it is unsuitable if it starts
well. -/
def wrongKind (s : Text) : Fault :=
  match s with
  | [] => .incomplete
  | '[' :: _ => .unsuitable
  | '\x7b' :: _ => .unsuitable
  | '"' :: rest =>
    match readString .kept rest with
    | .ok _ => .unsuitable
    | .error fault => fault
  | c :: _ =>
    match restBehindWord? s with
    | some (.ok _) => .unsuitable
    | some (.error fault) => fault
    | none =>
      if c = '-' ∨ c.isDigit then
        match Number.read (unsigned s) with
        | .ok (n, _) => if n.fitsDouble then .unsuitable else .malformed
        | .error fault => fault
      else .malformed

end AndroidResources.ClassInfo

import AndroidResources.Text.Digits
import AndroidResources.Xml.Fault

/-!
# Entities in attribute values

* `Xml.predefined` : the five names that stand for a character;
* `Xml.decodeEntity` : the character between an ampersand and its semicolon;
* `Xml.unescape` : a value with every entity replaced by its character.
-/

namespace AndroidResources.Xml

/-- The five names that stand for a character. -/
def predefined : List (Text × Char) :=
  [("lt", '<'), ("gt", '>'), ("amp", '&'), ("apos", '\''), ("quot", '"')]

/-- The character whose code is the first byte of another one. -/
def firstByte (c : Char) : Char :=
  Char.ofNat (((String.utf8EncodeChar c).head?.map UInt8.toNat).getD 0)

/-- The code that a numeric entity spells behind its `#`. -/
def readCode (digits : Text) : Except EntityFault Nat :=
  match digits with
  | 'x' :: hex =>
    if 6 < Text.utf8Size hex then .error .hexTooLong
    else (Text.readDigits 16 Text.hexDigit? 0 hex).mapError fun c => .badHexDigit (firstByte c)
  | decimal =>
    if 7 < Text.utf8Size decimal then .error .decimalTooLong
    else
      (Text.readDigits 10 Text.decimalDigit? 0 decimal).mapError fun c =>
        .badDecimalDigit (firstByte c)

/-- The character of an entity that stands between the offsets `start` of its ampersand and `stop`
of its semicolon. -/
def decodeEntity (start stop : Nat) (name : Text) : Except EntityFault Char :=
  match name with
  | '#' :: digits => do
    let code ← readCode digits
    if code = 0 then .error (.nullCharacter start stop)
    else if code.isValidChar then .ok (Char.ofNat code)
    else .error (.noCharacter code)
  | _ =>
    match predefined.lookup name with
    | some c => .ok c
    | none => .error (.unrecognized (start + 1) stop name)

theorem length_lt_of_dropWhile {p : Char → Bool} {s rest : Text} {c : Char}
    (h : s.dropWhile p = c :: rest) : rest.length < s.length := by
  have := (List.dropWhile_suffix p (l := s)).length_le
  rw [h] at this
  exact this

/-- The part of a value of `total` bytes that remains, with every entity replaced. -/
def unescapeFrom (total : Nat) (s : Text) : Except EntityFault Text :=
  match _hs : Text.splitFirst? '&' s with
  | none => .ok s
  | some (before, rest) =>
    let start := total - Text.utf8Size rest - 1
    match _hrest : rest.dropWhile fun c => c != '&' && c != ';' with
    | ';' :: after => do
      let name := rest.takeWhile fun c => c != '&' && c != ';'
      let c ← decodeEntity start (total - Text.utf8Size after - 1) name
      let others ← unescapeFrom total after
      return before ++ c :: others
    | _ => .error (.unterminated start total)
  termination_by s.length
  decreasing_by
    have hlt := length_lt_of_dropWhile _hrest
    have hs := congrArg List.length (Text.eq_append_of_splitFirst? _hs).1
    simp only [List.length_append, List.length_cons] at hs
    omega

/-- The value with every entity replaced by its character, or the first one that stands for
none. -/
def unescape (value : Text) : Except EntityFault Text :=
  unescapeFrom (Text.utf8Size value) value

end AndroidResources.Xml

import AndroidResources.Text.Quoted

/-!
# What can be wrong with a document

* `Xml.AttributeFault` : an attribute list that cannot be read on;
* `Xml.EntityFault` : an entity that stands for no character;
* `Xml.Fault` : these two, and markup that does not end or does not match;
* `Xml.Fault.message` : the wording.

Positions are byte offsets: in the tag behind `<` for attributes, in the value for entities.
-/

namespace AndroidResources.Xml

/-- An attribute list that cannot be read on. -/
inductive AttributeFault
  /-- A name is not followed by an equals sign. -/
  | noEquals (position : Nat)
  | duplicated (position previous : Nat)
  /-- The tag ends behind an equals sign. -/
  | noValue (position : Nat)
  | unquoted (position : Nat)
  | unclosed (position : Nat) (quote : Char)
  deriving DecidableEq, Repr

inductive EntityFault
  /-- No semicolon ends the entity. -/
  | unterminated (start stop : Nat)
  /-- The name is none of the five predefined ones. -/
  | unrecognized (start stop : Nat) (name : Text)
  | nullCharacter (start stop : Nat)
  | hexTooLong
  | badHexDigit (digit : Char)
  | decimalTooLong
  | badDecimalDigit (digit : Char)
  | noCharacter (code : Nat)
  deriving DecidableEq, Repr

/-- The kinds of markup that the input can end in the middle of. -/
inductive Construct
  | bang
  | cdata
  | comment
  | doctype
  | declaration
  deriving DecidableEq, Repr

inductive Fault
  /-- The markup is not closed, or closed without having been opened properly. -/
  | unexpectedEnd (construct : Construct)
  /-- The character, given by its first byte, starts no markup behind `<!`. -/
  | unknownMarkup (symbol : Char)
  | emptyDoctype
  /-- An end tag that does not belong to the innermost open element. -/
  | mismatchedEnd (expected found : Text)
  | badAttribute (fault : AttributeFault)
  | badEntity (fault : EntityFault)
  deriving DecidableEq, Repr

def Construct.label : Construct → Text
  | bang => "Bang"
  | cdata => "CData"
  | comment => "Comment"
  | doctype => "DOCTYPE"
  | declaration => "XmlDecl"

def AttributeFault.message : AttributeFault → Text
  | noEquals position =>
    at_ position "attribute key must be directly followed by `=` or space"
  | duplicated position previous =>
    at_ position ("duplicated attribute, previous declaration at position " ++ Text.ofNat previous)
  | noValue position => at_ position "`=` must be followed by an attribute value"
  | unquoted position => at_ position "attribute value must be enclosed in `\"` or `'`"
  | unclosed position quote =>
    at_ position ("missing closing quote `" ++ [quote] ++ "` in attribute value")
where
  at_ (position : Nat) (remark : Text) : Text :=
    "position " ++ Text.ofNat position ++ ": " ++ remark

def EntityFault.message : EntityFault → Text
  | unterminated start stop => within start stop "Cannot find ';' after '&'"
  | unrecognized start stop name =>
    within start stop ("Unrecognized escape symbol: " ++ Text.quoted name)
  | nullCharacter start stop => within start stop "Null character entity not allowed"
  | hexTooLong => "Cannot convert hexadecimal to utf8"
  | badHexDigit digit => "'" ++ [digit] ++ "' is not a valid hexadecimal character"
  | decimalTooLong => "Cannot convert decimal to utf8"
  | badDecimalDigit digit => "'" ++ [digit] ++ "' is not a valid decimal character"
  | noCharacter code => "'" ++ Text.ofNat code ++ "' is not a valid codepoint"
where
  within (start stop : Nat) (remark : Text) : Text :=
    "Error while escaping character at range " ++ Text.ofNat start ++ ".." ++ Text.ofNat stop ++
      ": " ++ remark

def Fault.message : Fault → Text
  | unexpectedEnd construct => "Unexpected EOF during reading " ++ construct.label
  | unknownMarkup symbol =>
    "Only Comment (`--`), CDATA (`[CDATA[`) and DOCTYPE (`DOCTYPE`) nodes can start with a '!', " ++
      "but symbol `" ++ [symbol] ++ "` found"
  | emptyDoctype => "DOCTYPE declaration must not be empty"
  | mismatchedEnd expected found =>
    "Expecting </" ++ expected ++ "> found </" ++ found ++ ">"
  | badAttribute fault => "error while parsing attribute: " ++ fault.message
  | badEntity fault => fault.message

end AndroidResources.Xml

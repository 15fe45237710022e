import AndroidResources.Text.Quoted.Table

/-!
# Quoted text

* `Text.isHidden` : the character is spelled by number;
* `Text.quoteChar` : one character between double quotes;
* `Text.quoted` : a text between double quotes, as error messages show it.
-/

namespace AndroidResources.Text

/-- The character is spelled by its number. -/
def isHidden (c : Char) : Bool :=
  hiddenRanges.any fun range => range.1 ≤ c.toNat && c.toNat ≤ range.2

/-- A character between double quotes: a backslash form, its number, or itself. -/
def quoteChar (c : Char) : Text :=
  if c = '"' then "\\\""
  else if c = '\\' then "\\\\"
  else if c = '\n' then "\\n"
  else if c = '\r' then "\\r"
  else if c = '\t' then "\\t"
  else if c = '\x00' then "\\0"
  else if isHidden c then "\\u\x7b" ++ Nat.toDigits 16 c.toNat ++ "\x7d"
  else [c]

def quoted (s : Text) : Text :=
  "\"" ++ s.flatMap quoteChar ++ "\""

end AndroidResources.Text

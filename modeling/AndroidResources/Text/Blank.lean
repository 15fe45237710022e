import AndroidResources.Text.Basic

/-!
# Blank characters

* `Text.isBlank` : the Unicode property `White_Space`;
* `Text.trim` : a text without the blanks at its two ends;
* `Text.compact` : a text without any blank.
-/

namespace AndroidResources.Text

/-- The ranges of the Unicode property `White_Space`. -/
def blankRanges : List (Nat × Nat) :=
  [(0x9, 0xd), (0x20, 0x20), (0x85, 0x85), (0xa0, 0xa0), (0x1680, 0x1680), (0x2000, 0x200a),
    (0x2028, 0x2029), (0x202f, 0x202f), (0x205f, 0x205f), (0x3000, 0x3000)]

def isBlank (c : Char) : Bool :=
  blankRanges.any fun range => range.1 ≤ c.toNat && c.toNat ≤ range.2

def trimEnd (s : Text) : Text :=
  (s.reverse.dropWhile isBlank).reverse

def trim (s : Text) : Text :=
  trimEnd (s.dropWhile isBlank)

def compact (s : Text) : Text :=
  s.filter fun c => !isBlank c

def allBlank (s : Text) : Bool :=
  s.all isBlank

end AndroidResources.Text

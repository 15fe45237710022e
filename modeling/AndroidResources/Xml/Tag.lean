import AndroidResources.Xml.Entity

/-!
# Tags and their attributes

* `Xml.Attribute` : name and raw value;
* `Xml.Tag` : a tag by its name, its attributes up to the first fault, and that fault;
* `Xml.Tag.ofContent` : the tag whose text between the angle brackets is given;
* `Xml.Tag.raw?` : the raw value of an attribute, found without looking behind it;
* `Xml.Tag.values` : all attributes with their entities replaced.
-/

namespace AndroidResources.Xml

/-- An attribute as written: nothing in its value is replaced. -/
structure Attribute where
  name : Text
  value : Text
  deriving DecidableEq, Repr

/-- A tag by its name and attributes. Where the attribute list is faulty, the attributes are those
before the fault. -/
structure Tag where
  name : Text
  attributes : List Attribute
  fault? : Option AttributeFault
  deriving DecidableEq, Repr

def isSpace (c : Char) : Bool :=
  c == ' ' || c == '\t' || c == '\r' || c == '\n'

def skipSpace (s : Text) : Text :=
  s.dropWhile isSpace

inductive NextAttribute
  | done
  | fault (fault : AttributeFault)
  /-- An attribute, the offset of its name and what follows it. -/
  | found (a : Attribute) (position : Nat) (rest : Text)

/-- The value behind the equals sign of the attribute `name`. Offsets count from the start of a
tag of `total` bytes. -/
def readValue (total : Nat) (name : Text) (position : Nat) (s : Text) : NextAttribute :=
  match skipSpace s with
  | [] => .fault (.noValue total)
  | quote :: rest =>
    if quote = '"' ∨ quote = '\'' then
      match Text.splitFirst? quote rest with
      | some (value, after) => .found ⟨name, value⟩ position after
      | none => .fault (.unclosed total quote)
    else .fault (.unquoted (total - Text.utf8Size (quote :: rest)))

/-- The first attribute of a text. A name starts with any character; it ends before the next
equals sign or white space. The names in `seen` were already used, at their offsets. -/
def nextAttribute (total : Nat) (seen : List (Text × Nat)) (s : Text) : NextAttribute :=
  match skipSpace s with
  | [] => .done
  | c :: rest =>
    let position := total - Text.utf8Size (c :: rest)
    let name := c :: rest.takeWhile fun c => c != '=' && !isSpace c
    match skipSpace (rest.dropWhile fun c => c != '=' && !isSpace c) with
    | '=' :: after =>
      match seen.lookup name with
      | some previous => .fault (.duplicated position previous)
      | none => readValue total name position after
    | other => .fault (.noEquals (total - Text.utf8Size other))

theorem length_dropWhile_le (p : Char → Bool) (s : Text) : (s.dropWhile p).length ≤ s.length :=
  (List.dropWhile_suffix p).length_le

theorem length_lt_of_readValue {total position offset : Nat} {name s rest : Text} {a : Attribute}
    (h : readValue total name position s = .found a offset rest) : rest.length < s.length := by
  have hle := length_dropWhile_le isSpace s
  rw [readValue] at h
  split at h
  · cases h
  · next quote tail htail =>
    rw [skipSpace] at htail
    rw [htail, List.length_cons] at hle
    split at h
    · split at h
      · next value after hsplit =>
        have := congrArg List.length (Text.eq_append_of_splitFirst? hsplit).1
        simp only [List.length_append, List.length_cons] at this
        cases h
        omega
      · cases h
    · cases h

theorem length_lt_of_nextAttribute {total offset : Nat} {seen : List (Text × Nat)} {s rest : Text}
    {a : Attribute} (h : nextAttribute total seen s = .found a offset rest) :
    rest.length < s.length := by
  have hs := length_dropWhile_le isSpace s
  rw [nextAttribute] at h
  split at h
  · cases h
  · next c tail htail =>
    rw [skipSpace] at htail
    rw [htail, List.length_cons] at hs
    have hname := length_dropWhile_le (fun c => c != '=' && !isSpace c) tail
    have hspace := length_dropWhile_le isSpace (tail.dropWhile fun c => c != '=' && !isSpace c)
    dsimp only at h
    split at h
    · next after hafter =>
      rw [skipSpace] at hafter
      rw [hafter, List.length_cons] at hspace
      split at h
      · cases h
      · have := length_lt_of_readValue h
        omega
    · cases h

def readAttributes (total : Nat) (seen : List (Text × Nat)) (s : Text) :
    List Attribute × Option AttributeFault :=
  match _h : nextAttribute total seen s with
  | .done => ([], none)
  | .fault fault => ([], some fault)
  | .found a position rest =>
    let others := readAttributes total (seen ++ [(a.name, position)]) rest
    (a :: others.1, others.2)
  termination_by s.length
  decreasing_by exact length_lt_of_nextAttribute _h

namespace Tag

/-- The tag whose text between the angle brackets is given, without the slash that marks an empty
element. The name is what stands before the first white space. -/
def ofContent (content : Text) : Tag :=
  let parsed := readAttributes (Text.utf8Size content) [] (content.dropWhile fun c => !isSpace c)
  ⟨content.takeWhile fun c => !isSpace c, parsed.1, parsed.2⟩

/-- The raw value of an attribute. A fault behind it goes unseen, a fault before it does not. -/
def raw? (tag : Tag) (name : Text) : Except AttributeFault (Option Text) :=
  match tag.attributes.find? (·.name = name), tag.fault? with
  | some a, _ => .ok (some a.value)
  | none, some fault => .error fault
  | none, none => .ok none

/-- All attributes with their entities replaced; the first fault in their order decides. -/
def values (tag : Tag) : Except Fault (List (Text × Text)) := do
  let pairs ← tag.attributes.mapM fun a =>
    match unescape a.value with
    | .ok value => .ok (a.name, value)
    | .error fault => .error (.badEntity fault)
  match tag.fault? with
  | some fault => .error (.badAttribute fault)
  | none => .ok pairs

end Tag

end AndroidResources.Xml

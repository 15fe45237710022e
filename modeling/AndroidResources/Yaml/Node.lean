import AndroidResources.Yaml.Token

/-!
# Documents of YAML

* `Yaml.Node` : scalars, lists and maps;
* `Yaml.Node.block?`, `Yaml.Node.flow?` : the node that a sequence of tokens starts with;
* `Yaml.document?` : the one document of a text; nothing at all is an empty scalar.
-/

namespace AndroidResources.Yaml

inductive Node
  | scalar (text : Text) (plain : Bool)
  | list (items : List Node)
  | map (entries : List (Node × Node))

namespace Node

/-- What stands where nothing is written. -/
def nothing : Node := .scalar [] true

/-- The value that a reader finds; nothing where one of the given tokens stands. -/
def unlessAt (stops : List Token) (read : List Token → Option (Node × List Token))
    (tokens : List Token) : Option (Node × List Token) :=
  match tokens with
  | [] => none
  | token :: _ => if token ∈ stops then some (nothing, tokens) else read tokens

def valueOf (stops : List Token) (read : List Token → Option (Node × List Token)) :
    List Token → Option (Node × List Token)
  | .value :: rest => unlessAt stops read rest
  | tokens => some (nothing, tokens)

/-- The tokens in front of an entry of a bracket: a comma, unless it is the first. -/
def nextInFlow? (isFirst : Bool) (stop : Token) : List Token → Option (List Token)
  | .flowEntry :: rest => if isFirst then some (.flowEntry :: rest) else some rest
  | token :: rest => if isFirst ∨ token = stop then some (token :: rest) else none
  | [] => none

mutual

/-- A node where blocks may begin. Where a key or its value stands, a list need not be indented. -/
def block? (unindented : Bool) : Nat → List Token → Option (Node × List Token)
  | 0, _ => none
  | bound + 1, tokens =>
    match tokens with
    | .blockSequenceStart :: rest => do
      let (items, rest) ← blockItems? bound rest
      return (.list items, rest)
    | .blockMappingStart :: rest => do
      let (entries, rest) ← blockEntries? bound rest
      return (.map entries, rest)
    | .blockEntry :: _ =>
      if unindented then do
        let (items, rest) ← unindentedItems? bound tokens
        return (.list items, rest)
      else none
    | _ => flow? bound tokens

def blockItems? : Nat → List Token → Option (List Node × List Token)
  | 0, _ => none
  | bound + 1, tokens =>
    match tokens with
    | .blockEntry :: rest => do
      let (item, rest) ← unlessAt [.blockEntry, .blockEnd] (block? false bound) rest
      let (items, rest) ← blockItems? bound rest
      return (item :: items, rest)
    | .blockEnd :: rest => some ([], rest)
    | _ => none

def unindentedItems? : Nat → List Token → Option (List Node × List Token)
  | 0, _ => none
  | bound + 1, tokens =>
    match tokens with
    | .blockEntry :: rest => do
      let (item, rest) ←
        unlessAt [.blockEntry, .key, .value, .blockEnd] (block? false bound) rest
      let (items, rest) ← unindentedItems? bound rest
      return (item :: items, rest)
    | _ => some ([], tokens)

def blockEntries? : Nat → List Token → Option (List (Node × Node) × List Token)
  | 0, _ => none
  | bound + 1, tokens =>
    match tokens with
    | .key :: rest => do
      let stops : List Token := [.key, .value, .blockEnd]
      let (key, rest) ← unlessAt stops (block? true bound) rest
      let (value, rest) ← valueOf stops (block? true bound) rest
      let (entries, rest) ← blockEntries? bound rest
      return ((key, value) :: entries, rest)
    | .blockEnd :: rest => some ([], rest)
    | _ => none

def flow? : Nat → List Token → Option (Node × List Token)
  | 0, _ => none
  | bound + 1, tokens =>
    match tokens with
    | .scalar text plain :: rest => some (.scalar text plain, rest)
    | .flowSequenceStart :: rest => do
      let (items, rest) ← flowItems? true bound rest
      return (.list items, rest)
    | .flowMappingStart :: rest => do
      let (entries, rest) ← flowEntries? true bound rest
      return (.map entries, rest)
    | _ => none

/-- The items of a bracket, up to its end. A key makes an item a map of its own. -/
def flowItems? (isFirst : Bool) : Nat → List Token → Option (List Node × List Token)
  | 0, _ => none
  | bound + 1, tokens => do
    match ← nextInFlow? isFirst .flowSequenceEnd tokens with
    | .flowSequenceEnd :: rest => return ([], rest)
    | .key :: rest =>
      let (key, rest) ← unlessAt [.value, .flowEntry, .flowSequenceEnd] (flow? bound) rest
      let (value, rest) ← valueOf [.flowEntry, .flowSequenceEnd] (flow? bound) rest
      let (items, rest) ← flowItems? false bound rest
      return (.map [(key, value)] :: items, rest)
    | tokens =>
      let (item, rest) ← flow? bound tokens
      let (items, rest) ← flowItems? false bound rest
      return (item :: items, rest)

/-- The entries of a bracket, up to its end. A key may come without mark and value. -/
def flowEntries? (isFirst : Bool) : Nat → List Token → Option (List (Node × Node) × List Token)
  | 0, _ => none
  | bound + 1, tokens => do
    match ← nextInFlow? isFirst .flowMappingEnd tokens with
    | .flowMappingEnd :: rest => return ([], rest)
    | .key :: rest =>
      let (key, rest) ← unlessAt [.value, .flowEntry, .flowMappingEnd] (flow? bound) rest
      let (value, rest) ← valueOf [.flowEntry, .flowMappingEnd] (flow? bound) rest
      let (entries, rest) ← flowEntries? false bound rest
      return ((key, value) :: entries, rest)
    | tokens =>
      let (key, rest) ← flow? bound tokens
      let (entries, rest) ← flowEntries? false bound rest
      return ((key, nothing) :: entries, rest)

end

def root? (tokens : List Token) : Option (Node × List Token) :=
  match tokens with
  | [] => some (nothing, [])
  | .documentStart :: _ => some (nothing, tokens)
  | .documentEnd :: _ => some (nothing, tokens)
  | _ => block? false (3 * tokens.length + 3) tokens

end Node

def endsStream (tokens : List Token) : Bool :=
  tokens.all (· == .documentEnd)

def document? (s : Text) : Option Node := do
  let tokens ← tokens? s
  let (node, rest) ←
    match tokens with
    | .documentStart :: rest => Node.root? rest
    | .documentEnd :: _ => none
    | _ => Node.root? tokens
  if endsStream rest then return node else none

end AndroidResources.Yaml

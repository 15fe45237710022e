import AndroidResources.Text.Basic

/-!
# Paths

A path is a text whose segments are separated by slashes. It is kept as written: two spellings of
one place are different paths with equal `components`.

* `Path.segments` : the texts between the slashes;
* `Path.components` : root, leading dot, double dots and names, what the spelling means;
* `Path.join`, `Path.parent?`, `Path.fileName?`, `Path.extension?`, `Path.stripBase?`.
-/

namespace AndroidResources

/-- A path as written. -/
structure Path where
  text : Text
  deriving DecidableEq, Repr, Inhabited

instance : Coe String Path := ⟨fun s => ⟨s.toList⟩⟩

namespace Path

/-- One step of a path. A dot counts only in front. -/
inductive Component
  | root
  | current
  | parent
  | normal (name : Text)
  deriving DecidableEq, Repr

def Component.text : Component → Text
  | root => "/"
  | current => "."
  | parent => ".."
  | normal name => name

/-- The texts between the slashes. -/
def segments (p : Path) : List Text :=
  p.text.splitOn '/'

def isAbsolute (p : Path) : Bool :=
  p.text.head? == some '/'

/-- The path ends with a slash: it asks for a directory. -/
def endsInSlash (p : Path) : Bool :=
  p.text.getLast? == some '/'

/-- A segment that means nothing behind the first one: an empty one or a dot. -/
def isIdle (segment : Text) : Bool :=
  segment == [] || segment == "."

/-- The step that a segment behind the first one stands for. -/
def component? (segment : Text) : Option Component :=
  if isIdle segment then none
  else if segment = ".." then some .parent
  else some (.normal segment)

def components (p : Path) : List Component :=
  match p.segments with
  | [] => []
  | first :: rest =>
    let lead : List Component :=
      if p.isAbsolute then [.root] else if first = "." then [.current] else
        (component? first).toList
    lead ++ rest.filterMap component?

/-- The second path read from the first. An absolute second path stands alone. -/
def join (p q : Path) : Path :=
  if q.isAbsolute then q
  else if p.text = [] ∨ p.endsInSlash then ⟨p.text ++ q.text⟩
  else ⟨p.text ++ '/' :: q.text⟩

/-- The shortest spelling of a sequence of steps. -/
def ofComponents (steps : List Component) : Path :=
  steps.foldl (fun p step => p.join ⟨step.text⟩) ⟨[]⟩

def ofNames (names : List Text) : Path :=
  ⟨List.intercalate "/" names⟩

/-- The path without its last step and without what is idle before that step. The root and the
empty path have none. -/
def parent? (p : Path) : Option Path :=
  match p.segments with
  | [] => none
  | first :: rest =>
    match rest.reverse.dropWhile isIdle with
    | _ :: before =>
      match (before.dropWhile isIdle).reverse with
      | [] => some ⟨if first = [] then "/" else first⟩
      | kept => some ⟨List.intercalate "/" (first :: kept)⟩
    | [] => if first = [] then none else some ⟨[]⟩

/-- The last step, if it is a name. -/
def fileName? (p : Path) : Option Text :=
  match p.components.getLast? with
  | some (.normal name) => some name
  | _ => none

/-- What follows the last dot of the file name, if something precedes that dot. -/
def extension? (p : Path) : Option Text :=
  match p.fileName?.bind (Text.splitLast? '.') with
  | some (stem, extension) => if stem = [] then none else some extension
  | none => none

/-- The steps that remain behind those of `base`, if the path starts with them. -/
def stripBase? (base p : Path) : Option (List Component) :=
  List.isPrefixOf? base.components p.components

end Path

end AndroidResources

import AndroidResources.Text.Basic

/-!
# Java types

* `Primitive` : the primitive types and `void`, by keyword;
* `ClassName` : a class by its full name, split at the last dot;
* `JavaType` : primitive types, classes, arrays and generic applications;
* `JavaType.render` : the source spelling, e.g. `java.util.Map<java.lang.String, int[]>`.
-/

namespace AndroidResources

/-- The primitive types, with `void`. -/
inductive Primitive
  | void
  | boolean
  | byte
  | short
  | int
  | long
  | char
  | float
  | double
  deriving DecidableEq, Repr

namespace Primitive

def all : List Primitive :=
  [void, boolean, byte, short, int, long, char, float, double]

def keyword : Primitive → Text
  | void => "void"
  | boolean => "boolean"
  | byte => "byte"
  | short => "short"
  | int => "int"
  | long => "long"
  | char => "char"
  | float => "float"
  | double => "double"

def ofKeyword? (word : Text) : Option Primitive :=
  all.find? (·.keyword = word)

theorem ofKeyword?_keyword (p : Primitive) : ofKeyword? p.keyword = some p := by
  cases p <;> decide

theorem keyword_of_ofKeyword? {word : Text} {p : Primitive} (h : ofKeyword? word = some p) :
    p.keyword = word := by
  simpa using List.find?_some h

end Primitive

/-- A class by its full name, e.g. `java.util.List`; nothing is known of whether it exists. -/
structure ClassName where
  fullName : Text
  deriving DecidableEq, Repr, Inhabited

namespace ClassName

/-- The class of a package; the empty package adds no dot. -/
def inPackage (package simpleName : Text) : ClassName :=
  ⟨if package = [] then simpleName else package ++ "." ++ simpleName⟩

def lastSegment (name : Text) : Text :=
  ((Text.splitLast? '.' name).map (·.2)).getD name

def simpleName (c : ClassName) : Text :=
  lastSegment c.fullName

/-- The package, empty for a name without a dot. -/
def package (c : ClassName) : Text :=
  ((Text.splitLast? '.' c.fullName).map (·.1)).getD []

end ClassName

/-- A type as generated code spells it. -/
inductive JavaType
  | primitive (kind : Primitive)
  | classRef (name : ClassName)
  | array (component : JavaType)
  | generic (raw : ClassName) (arguments : List JavaType)
  deriving Repr, Inhabited

namespace JavaType

mutual

/-- Equality of types is decided along their structure. -/
def decEq : (s t : JavaType) → Decidable (s = t)
  | .primitive p, .primitive q => decidable_of_iff (p = q) (by simp)
  | .classRef c, .classRef d => decidable_of_iff (c = d) (by simp)
  | .array s, .array t =>
    match decEq s t with
    | isTrue h => isTrue (h ▸ rfl)
    | isFalse h => isFalse fun e => h (array.inj e)
  | .generic c ss, .generic d ts =>
    match decEqList ss ts with
    | isTrue h => decidable_of_iff (c = d) (by simp [h])
    | isFalse h => isFalse fun e => h (generic.inj e).2
  | .primitive _, .classRef _ => isFalse nofun
  | .primitive _, .array _ => isFalse nofun
  | .primitive _, .generic _ _ => isFalse nofun
  | .classRef _, .primitive _ => isFalse nofun
  | .classRef _, .array _ => isFalse nofun
  | .classRef _, .generic _ _ => isFalse nofun
  | .array _, .primitive _ => isFalse nofun
  | .array _, .classRef _ => isFalse nofun
  | .array _, .generic _ _ => isFalse nofun
  | .generic _ _, .primitive _ => isFalse nofun
  | .generic _ _, .classRef _ => isFalse nofun
  | .generic _ _, .array _ => isFalse nofun

def decEqList : (ss ts : List JavaType) → Decidable (ss = ts)
  | [], [] => isTrue rfl
  | s :: ss, t :: ts =>
    match decEq s t, decEqList ss ts with
    | isTrue h, isTrue h' => isTrue (h ▸ h' ▸ rfl)
    | isFalse h, _ => isFalse fun e => h (List.cons.inj e).1
    | _, isFalse h => isFalse fun e => h (List.cons.inj e).2
  | [], _ :: _ => isFalse nofun
  | _ :: _, [] => isFalse nofun

end

instance : DecidableEq JavaType := decEq

def ofClass (name : Text) : JavaType :=
  .classRef ⟨name⟩

def isPrimitive : JavaType → Bool
  | .primitive _ => true
  | _ => false

/-- The class behind the type: that of a class reference or of a generic application. -/
def rawClass? : JavaType → Option ClassName
  | .classRef c => some c
  | .generic c _ => some c
  | .primitive _ => none
  | .array _ => none

mutual

def render : JavaType → Text
  | .primitive kind => kind.keyword
  | .classRef c => c.fullName
  | .array component => component.render ++ "[]"
  | .generic raw arguments => raw.fullName ++ "<" ++ renderArguments arguments ++ ">"

def renderArguments : List JavaType → Text
  | [] => []
  | [t] => t.render
  | t :: rest => t.render ++ ", " ++ renderArguments rest

end

end JavaType

end AndroidResources

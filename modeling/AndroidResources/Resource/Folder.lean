import AndroidResources.Path

/-!
# Resource folders

* `ResourceFolder` : the kinds of folder below a resource directory;
* `ResourceFolder.ofDirectory?`, `ResourceFolder.ofFile?` : the kind of a directory name, without
  its qualifiers, and of the directory that a file lies in;
* `isLayoutFile` : the file is taken for a layout.
-/

namespace AndroidResources

inductive ResourceFolder
  | values
  | layout
  | drawable
  | mipmap
  | menu
  | xml
  | raw
  | anim
  | animator
  | color
  | font
  | navigation
  | transition
  | interpolator
  deriving DecidableEq, Repr

namespace ResourceFolder

def all : List ResourceFolder :=
  [values, layout, drawable, mipmap, menu, xml, raw, anim, animator, color, font, navigation,
    transition, interpolator]

/-- The name of the folder, which is also the type of the symbols its files declare. -/
def name : ResourceFolder → Text
  | values => "values"
  | layout => "layout"
  | drawable => "drawable"
  | mipmap => "mipmap"
  | menu => "menu"
  | xml => "xml"
  | raw => "raw"
  | anim => "anim"
  | animator => "animator"
  | color => "color"
  | font => "font"
  | navigation => "navigation"
  | transition => "transition"
  | interpolator => "interpolator"

def mayDeclareIds : ResourceFolder → Bool
  | layout | menu | xml | navigation | drawable | transition => true
  | _ => false

/-- The kind that a directory name such as `values-night-v21` stands for. -/
def ofDirectory? (directory : Text) : Option ResourceFolder :=
  all.find? (·.name = directory.takeWhile (· ≠ '-'))

def ofFile? (file : Path) : Option ResourceFolder :=
  file.parent?.bind Path.fileName? |>.bind ofDirectory?

end ResourceFolder

/-- The file is taken for a layout: its path, with backslashes read as slashes, holds a segment
that starts with `layout` behind a slash, and it ends in `.xml`. -/
def isLayoutFile (file : Path) : Bool :=
  let text := Text.replace '\\' '/' file.text
  Text.holds "/layout" text && List.isSuffixOf ".xml".toList text

end AndroidResources

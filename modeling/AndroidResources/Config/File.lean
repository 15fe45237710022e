import AndroidResources.Config.Toml
import AndroidResources.Config.Yaml
import AndroidResources.FileSystem.Operation

/-!
# Configuration files

* `ConfigError` : a file cannot be read, or its content is no configuration;
* `Config.load` : the configuration in a file, whose extension tells the format;
* `Config.find` : the configuration of a directory, from the first of the default files that is
  there.
-/

namespace AndroidResources

inductive ConfigFormat
  | yaml
  | toml
  | unknown
  deriving DecidableEq, Repr

/-- Why there is no configuration. -/
inductive ConfigError
  | unreadable (file : Path)
  | malformed (format : ConfigFormat)
  deriving DecidableEq, Repr

def ConfigError.message : ConfigError → Text
  | unreadable file => "Failed to read config file: " ++ file.text
  | malformed .yaml => "Failed to parse YAML config"
  | malformed .toml => "Failed to parse TOML config"
  | malformed .unknown => "Failed to parse config file"

/-- The format that the extension of a file stands for. -/
def ConfigFormat.ofFile (file : Path) : ConfigFormat :=
  match file.extension? with
  | some extension =>
    if extension = "yml" ∨ extension = "yaml" then yaml
    else if extension = "toml" then toml
    else unknown
  | none => unknown

/-- The configuration that a text in a format describes. Where the format is not known, YAML is
tried before TOML. -/
def ConfigFormat.read? (format : ConfigFormat) (s : Text) : Option Config :=
  match format with
  | yaml => Config.ofYaml? s
  | toml => Config.ofToml? s
  | unknown => (Config.ofYaml? s).or (Config.ofToml? s)

namespace Config

def load (fs : FileSystem) (file : Path) : Except ConfigError Config :=
  match fs.readText file with
  | .error _ => .error (.unreadable file)
  | .ok contents =>
    let format := ConfigFormat.ofFile file
    match format.read? contents with
    | some config => .ok config
    | none => .error (.malformed format)

/-- The names of the files that are looked for, the first choice in front. -/
def defaultFiles : List Path :=
  [".aapt-lite.yml", ".aapt-lite.yaml", ".aapt-lite.toml", "aapt-lite.toml"]

def find (fs : FileSystem) (dir : Path) : Except ConfigError Config :=
  match (defaultFiles.map dir.join).find? fs.pathExists with
  | some file => load fs file
  | none => .ok {}

end Config

end AndroidResources

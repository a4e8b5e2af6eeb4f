import CodeAtlas.Config
import CodeAtlas.FileSystem.Resolve
import CodeAtlas.Toml.Printer
import CodeAtlas.Toml.Reader

namespace CodeAtlas

namespace Toml

/-- The fields of a record that may be left out; of an array, the last ones. A date has no field. -/
def optionalFields? (names : List String) : Toml → Option (List (Option Toml))
  | table _ entries => some (names.map fun name => lookup name entries)
  | datetime _ => some (names.map fun _ => none)
  | array items => some ((List.range names.length).map fun i => items[i]?)
  | tables items => some ((List.range names.length).map fun i => items[i]?)
  | _ => none

def text? : Toml → Option String
  | text s => some s
  | _ => none

def count? : Toml → Option Nat
  | integer (.ofNat n) => some n
  | _ => none

def flag? : Toml → Option Bool
  | boolean b => some b
  | _ => none

def isHollow : Toml → Bool
  | table _ entries => entries.isEmpty
  | array items => items.isEmpty
  | tables items => items.isEmpty
  | _ => false

def variant? : Toml → Option String
  | text s => some s
  | table origin ((key, value) :: rest) =>
    if isHollow value && (rest.isEmpty || !origin.isInline) then some key else none
  | _ => none

def settings : SettingReader Toml where
  fields? := optionalFields?
  text? := text?
  optionalText? := fun value => value.text?.map some
  count? := count?
  flag? := flag?
  variant? := variant?

end Toml

namespace Config

def ofToml? (document : String) : Option Config :=
  (Toml.read? document).bind fun entries => Toml.settings.config? (.table .header entries)

def load (fs : FileSystem) (path : Path) : Except Failure Config :=
  match fs.readText path with
  | .error fault => .error (.io fault)
  | .ok document =>
    match ofToml? document with
    | none => .error (.configParse "no configuration in TOML")
    | some config =>
      match config.validate with
      | .error failure => .error failure
      | .ok () => .ok config

def loadOrDefault (fs : FileSystem) (path : Path) : Config := (load fs path).toOption.getD {}

/-- The sections of a configuration. None if a setting has no form in TOML: a path that is no text, or a
number that is too large. -/
def sections? (config : Config) : Option (List Toml.Section) := do
  let directory ← config.directory.toText?
  if Toml.maxInteger < max config.maxDepth config.treeDepth then none
  return [
    ⟨"project", (config.projectName.map fun name => ("name", .text name)).toList⟩,
    ⟨"walk", [("max_depth", .count config.maxDepth)]⟩,
    ⟨"diagrams", [("enabled", .flag config.diagrams), ("tree_depth", .count config.treeDepth)]⟩,
    ⟨"output", [("format", .text config.format.word), ("directory", .text directory)]⟩,
    ⟨"repository",
      [("temp_prefix", .text config.tempPrefix), ("keep_clone", .flag config.keepClone)]⟩]

def toToml? (config : Config) : Option String := config.sections?.map Toml.write

end Config
end CodeAtlas

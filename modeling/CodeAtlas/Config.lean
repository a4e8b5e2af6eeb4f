import CodeAtlas.Failure

namespace CodeAtlas

inductive OutputFormat where
  | markdown
  | json
  deriving DecidableEq, Inhabited

namespace OutputFormat

def word : OutputFormat → String
  | markdown => "markdown"
  | json => "json"

def ofWord? (word : String) : Option OutputFormat :=
  if word = "markdown" then some markdown else if word = "json" then some json else none

def fileName : OutputFormat → String
  | markdown => "README.md"
  | json => "analysis.json"

end OutputFormat

structure Config where
  /-- The title of the document; without one, it is called after the source. -/
  projectName : Option String := none
  maxDepth : Nat := 10
  diagrams : Bool := true
  treeDepth : Nat := 3
  format : OutputFormat := .markdown
  directory : Path := .ofString "./codesketch-docs"
  tempPrefix : String := "codesketch_"
  keepClone : Bool := false
  deriving DecidableEq

structure Overrides where
  directory : Option Path := none
  format : Option String := none
  maxDepth : Option Nat := none
  treeDepth : Option Nat := none
  noDiagrams : Bool := false
  keepClone : Bool := false
  deriving DecidableEq

namespace Config

def depthLimit : Nat := 100

/-- The configuration with the settings of the command line in place of its own. A word that is no
format stands for the usual one. -/
def override (config : Config) (overrides : Overrides) : Config :=
  { config with
    directory := overrides.directory.getD config.directory
    format :=
      match overrides.format with
      | some word => (OutputFormat.ofWord? word).getD .markdown
      | none => config.format
    maxDepth := overrides.maxDepth.getD config.maxDepth
    treeDepth := overrides.treeDepth.getD config.treeDepth
    diagrams := config.diagrams && !overrides.noDiagrams
    keepClone := config.keepClone || overrides.keepClone }

def invalidity? (config : Config) : Option String :=
  if config.maxDepth = 0 then some "max_depth must be at least 1"
  else if depthLimit < config.maxDepth then some "max_depth cannot exceed 100"
  else if config.treeDepth = 0 then some "diagram tree_depth must be at least 1"
  else if config.tempPrefix.toList.contains '/' then
    some "temp_prefix must not contain a path separator"
  else none

def validate (config : Config) : Except Failure Unit :=
  match config.invalidity? with
  | some reason => .error (.configValidation reason)
  | none => .ok ()

end Config

structure SettingReader (α : Type) where
  fields? : List String → α → Option (List (Option α))
  text? : α → Option String
  optionalText? : α → Option (Option String)
  count? : α → Option Nat
  flag? : α → Option Bool
  variant? : α → Option String

def Config.sectionNames : List String := ["project", "walk", "diagrams", "output", "repository"]

namespace SettingReader

variable {α : Type}

def record? (reader : SettingReader α) (names : List String) : Option α → Option (List (Option α))
  | none => some (names.map fun _ => none)
  | some value => reader.fields? names value

def setting? {β : Type} (read? : α → Option β) (default : β) : Option α → Option β
  | none => some default
  | some value => read? value

def config? (reader : SettingReader α) (value : α) : Option Config := do
  let default : Config := {}
  let [project, walk, diagrams, output, repository] ←
    reader.fields? Config.sectionNames value | none
  let [name] ← reader.record? ["name"] project | none
  let [maxDepth] ← reader.record? ["max_depth"] walk | none
  let [enabled, treeDepth] ← reader.record? ["enabled", "tree_depth"] diagrams | none
  let [format, directory] ← reader.record? ["format", "directory"] output | none
  let [tempPrefix, keepClone] ← reader.record? ["temp_prefix", "keep_clone"] repository | none
  return {
    projectName := ← setting? reader.optionalText? default.projectName name
    maxDepth := ← setting? reader.count? default.maxDepth maxDepth
    diagrams := ← setting? reader.flag? default.diagrams enabled
    treeDepth := ← setting? reader.count? default.treeDepth treeDepth
    format := ←
      setting? (fun value => (reader.variant? value).bind OutputFormat.ofWord?) default.format format
    directory := ←
      setting? (fun value => (reader.text? value).map Path.ofString) default.directory directory
    tempPrefix := ← setting? reader.text? default.tempPrefix tempPrefix
    keepClone := ← setting? reader.flag? default.keepClone keepClone }

end SettingReader
end CodeAtlas

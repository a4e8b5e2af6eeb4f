import CodeAtlas.CommandLine.Request
import CodeAtlas.Config.Toml
import CodeAtlas.Document
import CodeAtlas.Repository.Fetch
import CodeAtlas.Survey.Json
import CodeAtlas.Survey.Walk

namespace CodeAtlas

structure Surroundings where
  client : Repository.GitClient
  temporary : Path

structure Outcome (α : Type) where
  fs : FileSystem
  printed : List String
  warnings : List String
  result : Except Failure α

namespace Outcome

def of {α : Type} (fs : FileSystem) (result : Except Failure α) : Outcome α := ⟨fs, [], [], result⟩

def after {α : Type} (printed : List String) (outcome : Outcome α) : Outcome α :=
  { outcome with printed := printed ++ outcome.printed }

end Outcome

/-! ## Sources -/

inductive Source where
  | folder (path : Path)
  | remote (url : String)
  deriving DecidableEq

namespace Source

def resolve (fs : FileSystem) (text : String) : Except Failure Source :=
  if Repository.isAddress text then .ok (.remote text)
  else if Text.contains [':', '/', '/'] text.toList then .error (.invalidUrl text)
  else if fs.isDirectory (.ofString text) then .ok (.folder (.ofString text))
  else .error (.pathNotFound (.ofString text))

def untitled : String := "Project"

def title (fs : FileSystem) : Source → String
  | remote url => Repository.name url
  | folder path =>
    match fs.canonical path with
    | .ok place => (place.getLast?.map Bytes.display).getD untitled
    | .error _ => untitled

end Source

namespace Run

/-! ## The document step -/

def summary (survey : Survey) : List String :=
  "Analyzing codebase..."
    :: ("Analysis complete: " ++ toString survey.totalFiles ++ " files, "
      ++ toString survey.totalClasses ++ " classes, " ++ toString survey.totalFunctions ++ " functions")
    :: (if survey.errorCount = 0 then []
      else ["Files with parse errors: " ++ toString survey.errorCount])

def content (config : Config) (fs : FileSystem) (source : Source) (survey : Survey) :
    Except Failure String :=
  match config.format with
  | .markdown =>
    let title := config.projectName.getD (source.title fs)
    .ok (Document.render survey (fs.readme? survey.root) (.ofConfig title config))
  | .json =>
    match survey.toJson? with
    | some text => .ok text
    | none => .error (.json "path contains invalid UTF-8 characters")

def outputPath (config : Config) : Path :=
  config.directory.join (.ofString config.format.fileName)

def document (config : Config) (fs : FileSystem) (source : Source) (root : Path) : Outcome Unit :=
  let survey := fs.survey root config.maxDepth
  let told := summary survey
  match fs.createDirectories config.directory with
  | (fs, .error fault) => ⟨fs, told, [], .error (.io fault)⟩
  | (fs, .ok ()) =>
    match content config fs source survey with
    | .error failure => ⟨fs, told, [], .error failure⟩
    | .ok text =>
      match fs.writeBytes (outputPath config) (Bytes.ofString text) with
      | .error fault => ⟨fs, told, [], .error (.io fault)⟩
      | .ok fs => ⟨fs, told ++ ["Written to: " ++ (outputPath config).display], [], .ok ()⟩

/-! ## The whole run -/

def configPath : Path := .ofString "codesketch.toml"

def loaded (fs : FileSystem) (request : AnalyzeRequest) : Except Failure Config :=
  match request.config with
  | some path => Config.load fs path
  | none => .ok (Config.loadOrDefault fs configPath)

def configure (fs : FileSystem) (request : AnalyzeRequest) : Except Failure Config := do
  let config := (← loaded fs request).override request.overrides
  config.validate
  return config

def release (config : Config) (root : Path) (outcome : Outcome Unit) : Outcome Unit :=
  if config.keepClone then
    { outcome with printed := outcome.printed ++ ["Clone kept at: " ++ root.display] }
  else
    match Repository.cleanup outcome.fs root with
    | (fs, .ok ()) => { outcome with fs }
    | (fs, .error failure) =>
      { outcome with fs, warnings := outcome.warnings ++ ["Warning: " ++ failure.message] }

def analyzeSource (surroundings : Surroundings) (config : Config) (fs : FileSystem) :
    Source → Outcome Unit
  | .folder path => document config fs (.folder path) path
  | .remote url =>
    let fetched :=
      Repository.fetch surroundings.client surroundings.temporary config.tempPrefix fs url none
    Outcome.after ["Cloning " ++ url ++ "..."]
      (match fetched.result with
      | .error failure => .of fetched.fs (.error failure)
      | .ok root => release config root (document config fetched.fs (.remote url) root))

def analyze (surroundings : Surroundings) (fs : FileSystem) (request : AnalyzeRequest) : Outcome Unit :=
  match configure fs request with
  | .error failure => .of fs (.error failure)
  | .ok config =>
    match Source.resolve fs request.source with
    | .error failure => .of fs (.error failure)
    | .ok source => analyzeSource surroundings config fs source

def versionLine : String := "codesketch 0.1.0"

def command (surroundings : Surroundings) (fs : FileSystem) : Command → Outcome Unit
  | .analyze request => analyze surroundings fs request
  | .version => ⟨fs, [versionLine], [], .ok ()⟩

end Run
end CodeAtlas

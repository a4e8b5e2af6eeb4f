import CodeAtlas.CommandLine.Report
import CodeAtlas.Proofs.Config.Toml

/-!
# The configuration of a run

A file holds a configuration inside the bounds, or it has a defect. A run that is told to use a file with
a defect fails with it and does nothing. A defect of the usual file makes no difference to the run from one
in which that file is absent. What is merged is checked again, so no configuration outside the bounds
reaches the analysis (`ofArguments_configured`).
-/

namespace CodeAtlas

namespace Config

/-! ## Files -/

structure Bounded (config : Config) : Prop where
  someDepth : 1 ≤ config.maxDepth
  depth : config.maxDepth ≤ 100
  someTree : 1 ≤ config.treeDepth
  temporary : '/' ∉ config.tempPrefix.toList

theorem validate_eq_ok {config : Config} : config.validate = .ok () ↔ config.Bounded := by
  rw [validate_eq_ok_iff, ← Nat.one_le_iff_ne_zero, ← Nat.one_le_iff_ne_zero]
  constructor
  · rintro ⟨someDepth, depth, someTree, temporary⟩
    exact ⟨someDepth, depth, someTree, temporary⟩
  · intro bounded
    exact ⟨bounded.someDepth, bounded.depth, bounded.someTree, bounded.temporary⟩

/-- What is wrong with a file, and the failure that comes of it. -/
inductive Defect (fs : FileSystem) (path : Path) : Failure → Prop where
  | unreadable {fault : Fault} (fails : fs.readBytes path = .error fault) : Defect fs path (.io fault)
  | notText {content : Bytes} (read : fs.readBytes path = .ok content)
      (undecodable : content.decode? = none) : Defect fs path (.io .notText)
  | misshapen {document : String} (read : fs.readText path = .ok document)
      (shapeless : ofToml? document = none) :
      Defect fs path (.configParse "no configuration in TOML")
  | unbounded {document : String} {config : Config} {reason : String}
      (read : fs.readText path = .ok document) (parsed : ofToml? document = some config)
      (invalid : config.invalidity? = some reason) : Defect fs path (.configValidation reason)

structure Holds (fs : FileSystem) (path : Path) (config : Config) : Prop where
  document : ∃ document, fs.readText path = .ok document ∧ ofToml? document = some config
  bounded : config.Bounded

variable {fs : FileSystem} {path : Path} {config : Config} {failure : Failure}

theorem holds_or_defect (fs : FileSystem) (path : Path) :
    (∃ config, Holds fs path config) ∨ ∃ failure, Defect fs path failure := by
  cases bytes : fs.readBytes path with
  | error fault => exact .inr ⟨_, .unreadable bytes⟩
  | ok content =>
      cases decoded : content.decode? with
      | none => exact .inr ⟨_, .notText bytes decoded⟩
      | some document =>
          have read : fs.readText path = .ok document := by simp only [FileSystem.readText, bytes, decoded]
          cases parsed : ofToml? document with
          | none => exact .inr ⟨_, .misshapen read parsed⟩
          | some config =>
              cases invalid : config.invalidity? with
              | none =>
                  have checked : config.validate = .ok () := by rw [validate, invalid]
                  exact .inl ⟨config, ⟨document, read, parsed⟩, validate_eq_ok.mp checked⟩
              | some reason => exact .inr ⟨_, .unbounded read parsed invalid⟩

theorem load_of_holds (holds : Holds fs path config) : load fs path = .ok config := by
  obtain ⟨⟨document, read, parsed⟩, bounded⟩ := holds
  rw [load, read]
  simp only [parsed, validate_eq_ok.mpr bounded]

theorem load_of_defect (defect : Defect fs path failure) : load fs path = .error failure := by
  unfold load
  cases defect with
  | unreadable fails => simp only [FileSystem.readText, fails]
  | notText read undecodable => simp only [FileSystem.readText, read, undecodable]
  | misshapen read shapeless => simp only [read, shapeless]
  | unbounded read parsed invalid => simp only [read, parsed, validate, invalid]

end Config

namespace Run

variable {fs : FileSystem} {request : AnalyzeRequest} {base config : Config} {failure : Failure}

/-! ## Merging -/

/-- The configuration that a command line is merged over. -/
inductive Base (fs : FileSystem) (request : AnalyzeRequest) : Config → Prop where
  | loaded {config : Config} (holds : Config.Holds fs (request.config.getD configPath) config) :
      Base fs request config
  | default {failure : Failure} (unnamed : request.config = none)
      (defect : Config.Defect fs configPath failure) : Base fs request {}

theorem loaded_of_defect (unnamed : request.config = none)
    (defect : Config.Defect fs configPath failure) : loaded fs request = .ok {} := by
  simp [loaded, unnamed, Config.loadOrDefault, Config.load_of_defect defect, Except.toOption]

theorem loaded_of_named {path : Path} (named : request.config = some path)
    (defect : Config.Defect fs path failure) : loaded fs request = .error failure := by
  simp only [loaded, named, Config.load_of_defect defect]

theorem loaded_of_holds (holds : Config.Holds fs (request.config.getD configPath) config) :
    loaded fs request = .ok config := by
  have loads := Config.load_of_holds holds
  unfold loaded
  cases named : request.config with
  | none =>
      rw [named, Option.getD_none] at loads
      simp [Config.loadOrDefault, loads, Except.toOption]
  | some path =>
      rw [named] at loads
      exact loads

theorem loaded_eq_ok : loaded fs request = .ok base ↔ Base fs request base := by
  constructor
  · intro loads
    rcases Config.holds_or_defect fs (request.config.getD configPath) with
      ⟨config, holds⟩ | ⟨failure, defect⟩
    · rw [loaded_of_holds holds, Except.ok.injEq] at loads
      exact loads ▸ .loaded holds
    · cases named : request.config with
      | none =>
          rw [named] at defect
          rw [loaded_of_defect named defect, Except.ok.injEq] at loads
          exact loads ▸ .default named defect
      | some path =>
          rw [named] at defect
          rw [loaded_of_named named defect] at loads
          cases loads
  · rintro (holds | ⟨unnamed, defect⟩)
    · exact loaded_of_holds holds
    · exact loaded_of_defect unnamed defect

/-- Each setting is the one of the command line, or else the one of the configuration below. -/
structure Merges (request : AnalyzeRequest) (base config : Config) : Prop where
  projectName : config.projectName = base.projectName
  maxDepth : config.maxDepth = request.depth.getD base.maxDepth
  diagrams : config.diagrams = if request.noDiagrams then false else base.diagrams
  treeDepth : config.treeDepth = request.diagramDepth.getD base.treeDepth
  format : config.format = request.format.getD base.format
  directory : config.directory = request.output.getD base.directory
  tempPrefix : config.tempPrefix = base.tempPrefix
  keepClone : config.keepClone = if request.keepClone then true else base.keepClone

theorem merges_override (request : AnalyzeRequest) (base : Config) :
    Merges request base (base.override request.overrides) where
  projectName := rfl
  maxDepth := rfl
  diagrams := by
    show (base.diagrams && !request.noDiagrams) = _
    cases request.noDiagrams <;> simp
  treeDepth := rfl
  format := by
    simp only [Config.override, AnalyzeRequest.overrides]
    cases request.format with
    | none => rfl
    | some format => simp [OutputFormat.ofWord?_word]
  directory := rfl
  tempPrefix := rfl
  keepClone := by
    show (base.keepClone || request.keepClone) = _
    cases request.keepClone <;> simp

theorem Merges.unique {other : Config} (merges : Merges request base config)
    (also : Merges request base other) : config = other := by
  cases config
  cases other
  obtain ⟨rfl, rfl, rfl, rfl, rfl, rfl, rfl, rfl⟩ := merges
  obtain ⟨rfl, rfl, rfl, rfl, rfl, rfl, rfl, rfl⟩ := also
  rfl

/-! ## Checking -/

theorem configure_of_loaded (loads : loaded fs request = .ok base) : configure fs request =
    ((base.override request.overrides).validate).map fun _ => base.override request.overrides := by
  rw [configure, loads]
  simp only [bind, Except.bind]
  cases (base.override request.overrides).validate <;> rfl

theorem configure_eq_ok_iff : configure fs request = .ok config ↔
    (∃ base, Base fs request base ∧ Merges request base config) ∧ config.Bounded := by
  constructor
  · intro configured
    cases loads : loaded fs request with
    | error failure => simp [configure, loads, bind, Except.bind] at configured
    | ok base =>
        rw [configure_of_loaded loads] at configured
        cases checked : (base.override request.overrides).validate with
        | error failure => simp [checked, Except.map] at configured
        | ok done =>
            simp only [checked, Except.map, Except.ok.injEq] at configured
            subst configured
            exact ⟨⟨base, loaded_eq_ok.mp loads, merges_override request base⟩,
              Config.validate_eq_ok.mp checked⟩
  · rintro ⟨⟨base, based, merges⟩, bounded⟩
    have same := merges.unique (merges_override request base)
    subst same
    rw [configure_of_loaded (loaded_eq_ok.mpr based), Config.validate_eq_ok.mpr bounded]
    rfl

/-! ## Running -/

def proceed (surroundings : Surroundings) (fs : FileSystem) (text : String) (config : Config) :
    Outcome Unit :=
  match Source.resolve fs text with
  | .error failure => .of fs (.error failure)
  | .ok source => analyzeSource surroundings config fs source

def runOver (surroundings : Surroundings) (fs : FileSystem) (request : AnalyzeRequest)
    (base : Config) : Outcome Unit :=
  let config := base.override request.overrides
  match config.validate with
  | .error failure => .of fs (.error failure)
  | .ok () => proceed surroundings fs request.source config

theorem analyze_of_loaded (surroundings : Surroundings) (loads : loaded fs request = .ok base) :
    analyze surroundings fs request = runOver surroundings fs request base := by
  rw [analyze, runOver, configure_of_loaded loads]
  cases (base.override request.overrides).validate <;> rfl

theorem analyze_of_defect (surroundings : Surroundings) {path : Path}
    (named : request.config = some path) (defect : Config.Defect fs path failure) :
    analyze surroundings fs request = .of fs (.error failure) := by
  rw [analyze, configure, loaded_of_named named defect]
  rfl

end Run

def Report.refused (fs : FileSystem) (failure : Failure) : Report := ⟨fs, [], [], .failed failure⟩

/-- A defect of the file that a run is told to use ends it. A defect of the usual file counts as its
absence. The configuration that a run goes on with is the command line merged over the loaded file, or over
the default one, and it is inside the bounds. -/
theorem Report.ofArguments_configured {surroundings : Surroundings} {fs : FileSystem}
    {arguments : List Bytes} {request : AnalyzeRequest}
    (read : CommandLine.read arguments = .ok (.analyze request)) :
    let report := Report.ofArguments surroundings fs arguments
    (∀ path ∈ request.config, ∀ failure, Config.Defect fs path failure → report = .refused fs failure) ∧
      (request.config = none → ∀ failure, Config.Defect fs Run.configPath failure →
        report = .ofOutcome (Run.runOver surroundings fs request {}) ∧
          ∀ other : FileSystem, other.readBytes Run.configPath = .error .notFound →
            Run.configure fs request = Run.configure other request) ∧
      (∀ failure, Run.configure fs request = .error failure → report = .refused fs failure) ∧
      ∀ config, Run.configure fs request = .ok config →
        (∃ base, Run.Base fs request base ∧ Run.Merges request base config) ∧ config.Bounded ∧
          report = .ofOutcome (Run.proceed surroundings fs request.source config) := by
  intro report
  have ran : report = .ofOutcome (Run.analyze surroundings fs request) := by
    simp only [report, ofArguments, read, Run.command]
  refine ⟨fun path named failure defect => ?_, fun unnamed failure defect => ⟨?_, fun other absent => ?_⟩,
    fun failure failed => ?_, fun config configured => ?_⟩
  · rw [ran, Run.analyze_of_defect surroundings named defect]
    rfl
  · rw [ran, Run.analyze_of_loaded surroundings (Run.loaded_of_defect unnamed defect)]
  · have loads := Run.loaded_of_defect unnamed defect
    have also : Run.loaded other request = .ok {} := Run.loaded_of_defect unnamed (.unreadable absent)
    rw [Run.configure_of_loaded loads, Run.configure_of_loaded also]
  · rw [ran, Run.analyze, failed]
    rfl
  · obtain ⟨based, bounded⟩ := Run.configure_eq_ok_iff.mp configured
    refine ⟨based, bounded, ?_⟩
    rw [ran, Run.analyze, configured]
    rfl

def flawedFiles : FileSystem where
  entries := [(Bytes.ofString "work", .directory
    [(Run.configPath.bytes, .file [0xFF]),
      (Bytes.ofString "deep.toml", .file (Bytes.ofString "[walk]\nmax_depth = 101\n"))])]
  workingDirectory := [Bytes.ofString "work"]

theorem Report.ofArguments_configured_flawed :
    let surroundings : Surroundings := ⟨fun _ _ fs => (fs, .ok ()), .ofString "/tmp"⟩
    let deep := ["analyze", ".", "--config", "deep.toml"].map Bytes.ofString
    let usual := ["analyze", ".", "--depth", "7"].map Bytes.ofString
    let config : Config := { maxDepth := 7 }
    Report.ofArguments surroundings flawedFiles deep =
        .refused flawedFiles (.configValidation "max_depth cannot exceed 100") ∧
      config.Bounded ∧ Report.ofArguments surroundings flawedFiles usual =
        .ofOutcome (Run.proceed surroundings flawedFiles "." config) := by
  intro surroundings deep usual config
  have deepRead : CommandLine.read deep =
      .ok (.analyze { source := ".", config := some (.ofString "deep.toml") }) := by decide +kernel
  have usualRead : CommandLine.read usual = .ok (.analyze { source := ".", depth := some 7 }) := by
    decide +kernel
  have text : flawedFiles.readText (.ofString "deep.toml") = .ok "[walk]\nmax_depth = 101\n" := by
    decide +kernel
  have parsed : Config.ofToml? "[walk]\nmax_depth = 101\n" = some { maxDepth := 101 } := by
    decide +kernel
  have configured : Run.configure flawedFiles { source := ".", depth := some 7 } = .ok config := by
    decide +kernel
  refine ⟨(Report.ofArguments_configured deepRead).1 _ rfl _ (.unbounded text parsed rfl), ?_⟩
  exact ((Report.ofArguments_configured usualRead).2.2.2 config configured).2

end CodeAtlas

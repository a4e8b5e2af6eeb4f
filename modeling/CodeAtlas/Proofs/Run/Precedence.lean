import CodeAtlas.Proofs.Repository.Variant
import CodeAtlas.Proofs.Run.Local

namespace CodeAtlas

open FileSystem Repository

variable {fs other : FileSystem} {place : Place}

structure Outcome.AlikeAt (place : Place) (first second : Outcome Unit) : Prop where
  fs : Variant place first.fs second.fs
  printed : second.printed = first.printed
  warnings : second.warnings = first.warnings
  result : second.result = first.result

theorem Outcome.AlikeAt.after {first second : Outcome Unit} (alike : first.AlikeAt place second)
    (lines : List String) : (first.after lines).AlikeAt place (second.after lines) :=
  ⟨alike.fs, congrArg (lines ++ ·) alike.printed, alike.warnings, alike.result⟩

namespace Run

variable {config : Config} {root : Path}

/-! ## The document step in variants -/

/-- Nothing that the document step reads leads to this place. -/
structure PassesBy (config : Config) (fs : FileSystem) (root : Path) (place : Place) : Prop where
  sources : ∀ path ∈ (fs.files root).filter Path.isSource, fs.canonical path ≠ .ok place
  readmes : ∀ name ∈ readmeNames,
    (furnished config fs).canonical (root.join (.ofString name)) ≠ .ok place

theorem survey_variant (variant : Variant place fs other) (passes : PassesBy config fs root place)
    (levels : Nat) : other.survey root levels = fs.survey root levels :=
  variant.shape.survey variant.formed variant.otherFormed
    (fun path among source => variant.readText (passes.sources path (List.mem_filter.mpr ⟨among, source⟩)))
    levels

theorem title_variant (variant : Variant place fs other) (source : Source) :
    source.title other = source.title fs := by
  cases source with
  | folder path => rw [Source.title, Source.title, variant.shape.canonical]
  | remote url => rfl

theorem furnished_variant (variant : Variant place fs other) (config : Config) :
    Variant place (furnished config fs) (furnished config other) :=
  (variant.createDirectories config.directory).2

theorem content_variant (variant : Variant place fs other) (passes : PassesBy config fs root place)
    (source : Source) (levels : Nat) :
    content config (furnished config other) source (fs.survey root levels) =
      content config (furnished config fs) source (fs.survey root levels) := by
  have grown := furnished_variant variant config
  have readme : (furnished config other).readme? root = (furnished config fs).readme? root :=
    readme?_congr fun name among => congrArg Except.toOption (grown.readText (passes.readmes name among))
  have same : (fs.survey root levels).root = root := rfl
  rw [content, content, title_variant grown, same, readme]

theorem document_variant (variant : Variant place fs other) (passes : PassesBy config fs root place)
    (source : Source) :
    (document config fs source root).AlikeAt place (document config other source root) := by
  -- The two go the same way at every step, for each step sees the same and ends alike.
  have grown := furnished_variant variant config
  have told := content_variant variant passes source config.maxDepth
  have made := (variant.createDirectories config.directory).1
  unfold document
  rw [survey_variant variant passes]
  simp only [furnished] at grown told
  generalize fs.createDirectories config.directory = here,
    other.createDirectories config.directory = there at *
  obtain ⟨filled, result⟩ := here
  obtain ⟨refilled, result'⟩ := there
  have same : result' = result := made
  subst same
  cases result' with
  | error fault => exact ⟨grown, rfl, rfl, rfl⟩
  | ok done =>
      simp only at grown told ⊢
      rw [told]
      cases content config filled source (fs.survey root config.maxDepth) with
      | error failure => exact ⟨grown, rfl, rfl, rfl⟩
      | ok text =>
          simp only
          have written := grown.writeBytes (outputPath config) (Bytes.ofString text)
          generalize filled.writeBytes (outputPath config) (Bytes.ofString text) = first,
            refilled.writeBytes (outputPath config) (Bytes.ofString text) = second at written
          cases written with
          | failed fault => exact ⟨grown, rfl, rfl, rfl⟩
          | made final => exact ⟨final, rfl, rfl, rfl⟩

/-! ## The run in variants -/

theorem tenanted_document {base : FileSystem} {path : Path} {above : Place} {name : Name}
    (tenanted : Tenanted base fs path above name)
    (directory : fs.node? (above ++ [name]) = some .directory) (config : Config) (source : Source)
    (root : Path) : Tenanted base (document config fs source root).fs path above name := by
  have fills := document_fills config tenanted.formed source root
  exact ⟨tenanted.site, tenanted.keeps.trans fills.keeps, fills.formed,
    .inr (fills.keeps.directory _ directory), fills.unlocked tenanted.unlocked⟩

theorem release_variant {outcome also : Outcome Unit} {base base' : FileSystem} {path : Path}
    {above : Place} {name : Name} (alike : outcome.AlikeAt place also)
    (tenanted : Tenanted base outcome.fs path above name)
    (tenanted' : Tenanted base' also.fs path above name) (config : Config) :
    (release config path outcome).AlikeAt place (release config path also) := by
  unfold release
  split
  · exact ⟨alike.fs, by rw [alike.printed], alike.warnings, alike.result⟩
  · obtain ⟨made, remade, cleans, cleans', clean⟩ := cleanup_variant alike.fs tenanted tenanted'
    rw [cleans, cleans']
    exact ⟨clean, alike.printed, alike.warnings, alike.result⟩

inductive Heedless (surroundings : Surroundings) (config : Config) (fs : FileSystem) (place : Place) :
    Source → Prop where
  | folder {path : Path} (passes : PassesBy config fs path place) :
      Heedless surroundings config fs place (.folder path)
  | remote {url : String} (confined : surroundings.client.Confined)
      (overlooks : surroundings.client.Overlooks place)
      (passes : ∀ root, (fetchFor surroundings config fs url).result = .ok root →
        PassesBy config (fetchFor surroundings config fs url).fs root place) :
      Heedless surroundings config fs place (.remote url)

variable {surroundings : Surroundings}

theorem analyzeSource_variant (variant : Variant place fs other) {source : Source}
    (heedless : Heedless surroundings config fs place source) :
    (analyzeSource surroundings config fs source).AlikeAt place
      (analyzeSource surroundings config other source) := by
  cases heedless with
  | folder passes => exact document_variant variant passes _
  | @remote url confined overlooks passes =>
      have fetched := fetch_variant confined overlooks variant surroundings.temporary config.tempPrefix url
      simp only [fetchFor] at passes
      simp only [analyzeSource]
      generalize fetch surroundings.client surroundings.temporary config.tempPrefix fs url none = here,
        fetch surroundings.client surroundings.temporary config.tempPrefix other url none = there at *
      cases fetched with
      | failed grown destination failure => exact ⟨grown, rfl, rfl, rfl⟩
      | cloned grown tenanted also directory =>
          have alike := document_variant grown (passes _ rfl) (.remote url)
          have stays := grown.shape.directory_iff.mpr directory
          have released := release_variant alike (tenanted_document tenanted directory config _ _)
            (tenanted_document also stays config _ _) config
          exact released.after _

theorem resolve_variant (variant : Variant place fs other) (text : String) :
    Source.resolve other text = Source.resolve fs text := by
  rw [Source.resolve, Source.resolve, variant.shape.isDirectory]

theorem proceed_variant (variant : Variant place fs other) {text : String}
    (heedless : ∀ source, Source.resolve fs text = .ok source →
      Heedless surroundings config fs place source) :
    (proceed surroundings fs text config).AlikeAt place (proceed surroundings other text config) := by
  rw [proceed, proceed, resolve_variant variant]
  cases resolved : Source.resolve fs text with
  | error failure => exact ⟨variant, rfl, rfl, rfl⟩
  | ok source => exact analyzeSource_variant variant (heedless source resolved)

end Run

/-! ## Settings of the command line -/

def AnalyzeRequest.gives (request : AnalyzeRequest) : Config.Setting → Bool
  | .projectName | .tempPrefix => false
  | .maxDepth => request.depth.isSome
  | .diagrams => request.noDiagrams
  | .treeDepth => request.diagramDepth.isSome
  | .format => request.format.isSome
  | .directory => request.output.isSome
  | .keepClone => request.keepClone

theorem Config.override_congr {request : AnalyzeRequest} {own base : Config}
    (same : base.reset request.gives = own.reset request.gives) :
    base.override request.overrides = own.override request.overrides := by
  simp only [reset, AnalyzeRequest.gives, Config.mk.injEq] at same
  obtain ⟨name, depth, diagrams, treeDepth, format, directory, tempPrefix, keepClone⟩ := same
  simp only [override, AnalyzeRequest.overrides, Config.mk.injEq]
  refine ⟨name, ?_, ?_, ?_, ?_, ?_, tempPrefix, ?_⟩
  · cases own : request.depth <;> simp_all
  · cases own : request.noDiagrams <;> simp_all
  · cases own : request.diagramDepth <;> simp_all
  · cases own : request.format <;> simp_all
  · cases own : request.output <;> simp_all
  · cases own : request.keepClone <;> simp_all

/-! ## The whole run -/

structure Report.AlikeAt (place : Place) (first second : Report) : Prop where
  fs : Variant place first.fs second.fs
  printed : second.printed = first.printed
  warnings : second.warnings = first.warnings
  verdict : second.verdict = first.verdict

theorem Outcome.AlikeAt.report {first second : Outcome Unit} (alike : first.AlikeAt place second) :
    (Report.ofOutcome first).AlikeAt place (Report.ofOutcome second) := by
  refine ⟨alike.fs, alike.printed, alike.warnings, ?_⟩
  simp only [Report.ofOutcome, alike.result]

/-- A request that differs in its file alone, and a file that differs in no more than the request gives. -/
structure Run.Concurs (request : AnalyzeRequest) (own : Config) (other : FileSystem)
    (second : AnalyzeRequest) (base : Config) : Prop where
  others : second = { request with config := second.config }
  holds : Config.Holds other (second.config.getD Run.configPath) base
  settings : base.reset request.gives = own.reset request.gives

namespace Run

variable {surroundings : Surroundings} {request second : AnalyzeRequest} {own base : Config}

theorem runOver_variant (variant : Variant place fs other)
    (heedless : ∀ source, Source.resolve fs request.source = .ok source →
      Heedless surroundings (own.override request.overrides) fs place source) :
    (runOver surroundings fs request own).AlikeAt place (runOver surroundings other request own) := by
  rw [runOver, runOver]
  cases (own.override request.overrides).validate with
  | error failure => exact ⟨variant, rfl, rfl, rfl⟩
  | ok done => exact proceed_variant variant heedless

variable (concurs : Concurs request own other second base)

include concurs

theorem Concurs.loads : loaded other second = .ok base := loaded_of_holds concurs.holds

theorem Concurs.override_eq : base.override second.overrides = own.override request.overrides := by
  have same : second.overrides = request.overrides := by
    rw [concurs.others]
    rfl
  rw [same]
  exact Config.override_congr concurs.settings

theorem Concurs.analyze_eq :
    analyze surroundings other second = runOver surroundings other request own := by
  have source : second.source = request.source := by rw [concurs.others]
  rw [analyze_of_loaded surroundings concurs.loads, runOver, runOver, concurs.override_eq, source]

end Run

/-- A run uses the configuration of the file with the command line merged over it, if the file is inside
the bounds and what is merged is. If the file is not, a run that is told to use it fails, and any other
goes on without it. A second run that differs in what the command line gives anyway is the same. -/
theorem Report.ofArguments_precedence {surroundings : Surroundings} {fs : FileSystem}
    {arguments : List Bytes} {request : AnalyzeRequest}
    (read : CommandLine.read arguments = .ok (.analyze request)) {document : String} {own : Config}
    (text : fs.readText (request.config.getD Run.configPath) = .ok document)
    (parsed : Config.ofToml? document = some own) :
    let merged := own.override request.overrides
    let report := Report.ofArguments surroundings fs arguments
    (own.Bounded → merged.Bounded →
        report = .ofOutcome (Run.proceed surroundings fs request.source merged)) ∧
      (∀ reason, own.invalidity? = some reason →
        (∀ path ∈ request.config, report = .refused fs (.configValidation reason)) ∧
          (request.config = none → report = .ofOutcome (Run.runOver surroundings fs request {}))) ∧
      (own.Bounded → ∀ other again second base, CommandLine.read again = .ok (.analyze second) →
        Run.Concurs request own other second base →
          let repeated := Report.ofArguments surroundings other again
          Run.configure other second = Run.configure fs request ∧ (other = fs → repeated = report) ∧
            ∀ place, Variant place fs other →
              (∀ source, Source.resolve fs request.source = .ok source →
                Run.Heedless surroundings merged fs place source) →
              report.AlikeAt place repeated) := by
  intro merged report
  have ran : report = .ofOutcome (Run.analyze surroundings fs request) := by
    simp only [report, ofArguments, read, Run.command]
  have loads : own.Bounded → Run.loaded fs request = .ok own := fun bounded =>
    Run.loaded_of_holds ⟨⟨document, text, parsed⟩, bounded⟩
  refine ⟨fun bounded valid => ?_, fun reason invalid => ⟨fun path named => ?_, fun unnamed => ?_⟩,
    fun bounded other again second base readAgain concurs => ?_⟩
  · have checked : (own.override request.overrides).validate = .ok () := Config.validate_eq_ok.mpr valid
    rw [ran, Run.analyze_of_loaded surroundings (loads bounded), Run.runOver]
    simp only [checked]
    rfl
  · rw [Option.mem_def.mp named] at text
    have defect : Config.Defect fs path _ := .unbounded text parsed invalid
    rw [ran, Run.analyze_of_defect surroundings named defect]
    rfl
  · rw [unnamed] at text
    have loads := Run.loaded_of_defect unnamed (.unbounded text parsed invalid)
    rw [ran, Run.analyze_of_loaded surroundings loads]
  · intro repeated
    have reran : repeated = .ofOutcome (Run.analyze surroundings other second) := by
      simp only [repeated, ofArguments, readAgain, Run.command]
    rw [concurs.analyze_eq] at reran
    rw [Run.analyze_of_loaded surroundings (loads bounded)] at ran
    refine ⟨?_, fun equal => ?_, fun place variant heedless => ?_⟩
    · rw [Run.configure_of_loaded (loads bounded), Run.configure_of_loaded concurs.loads, concurs.override_eq]
    · rw [reran, ran, equal]
    · rw [reran, ran]
      exact (Run.runOver_variant variant heedless).report

def configuredHost (text : String) : FileSystem where
  entries := [(Bytes.ofString "tmp", .directory []),
    (Bytes.ofString "work", .directory [(Run.configPath.bytes, .file (Bytes.ofString text))])]
  workingDirectory := [Bytes.ofString "work"]

theorem Report.ofArguments_precedence_rewritten :
    let fs := configuredHost "[walk]\nmax_depth = 4\n"
    let other := configuredHost "[walk]\nmax_depth = 9\n"
    let place := [Bytes.ofString "work", Run.configPath.bytes]
    let here := ["analyze", ".", "--depth", "5"].map Bytes.ofString
    let there := ["analyze", hostUrl, "--depth", "5"].map Bytes.ofString
    Report.ofArguments hostSurroundings fs here =
        .ofOutcome (Run.proceed hostSurroundings fs "." { maxDepth := 5 }) ∧
      (Report.ofArguments hostSurroundings fs here).AlikeAt place
        (Report.ofArguments hostSurroundings other here) ∧
      (Report.ofArguments hostSurroundings fs there).AlikeAt place
        (Report.ofArguments hostSurroundings other there) := by
  intro fs other place here there
  have readHere : CommandLine.read here = .ok (.analyze { source := ".", depth := some 5 }) := by
    decide +kernel
  have readThere : CommandLine.read there = .ok (.analyze { source := hostUrl, depth := some 5 }) := by
    decide +kernel
  have text : fs.readText Run.configPath = .ok "[walk]\nmax_depth = 4\n" := by decide +kernel
  have parsed : Config.ofToml? "[walk]\nmax_depth = 4\n" = some { maxDepth := 4 } := by decide +kernel
  have bounded : Config.Bounded { maxDepth := 4 } := Config.validate_eq_ok.mp rfl
  have holds : Config.Holds other Run.configPath { maxDepth := 9 } :=
    ⟨⟨"[walk]\nmax_depth = 9\n", by decide +kernel, by decide +kernel⟩, Config.validate_eq_ok.mp rfl⟩
  have variant : Variant place fs other := by
    have formed : fs.WellFormed := by decide +kernel
    have held : fs.readBytes Run.configPath = .ok (Bytes.ofString "[walk]\nmax_depth = 4\n") := by
      decide +kernel
    have written : fs.writeBytes Run.configPath (Bytes.ofString "[walk]\nmax_depth = 9\n") = .ok other := rfl
    have leads : other.canonical Run.configPath = .ok place := by decide +kernel
    obtain ⟨own, writes⟩ := writeBytes_eq_ok formed written
    obtain ⟨reached, found⟩ := readBytes_eq_ok_iff.mp held
    obtain rfl : place = own := Except.ok.inj (leads.symm.trans writes.leads)
    exact writes.variant formed found
  obtain ⟨uses, -, agrees⟩ := Report.ofArguments_precedence readHere text parsed
  obtain ⟨-, -, agreesThere⟩ := Report.ofArguments_precedence readThere text parsed
  refine ⟨uses bounded (Config.validate_eq_ok.mp rfl), ?_, ?_⟩
  · refine (agrees bounded other here _ _ readHere ⟨rfl, holds, rfl⟩).2.2 place variant fun source own => ?_
    have resolved : Source.resolve fs "." = .ok (.folder (.ofString ".")) := by decide +kernel
    obtain rfl : .folder (.ofString ".") = source := Except.ok.inj (resolved.symm.trans own)
    exact .folder ⟨by decide +kernel, by decide +kernel⟩
  · refine (agreesThere bounded other there _ _ readThere ⟨rfl, holds, rfl⟩).2.2 place variant
      fun source own => ?_
    have resolved : Source.resolve fs hostUrl = .ok (.remote hostUrl) := by decide +kernel
    obtain rfl : .remote hostUrl = source := Except.ok.inj (resolved.symm.trans own)
    have regular : IsEntryName (Bytes.ofString "setup.py") := by decide
    have formed : (Entry.file (Bytes.ofString "def setup(): pass")).WellFormed := trivial
    refine .remote (GitClient.confined_ofEntry regular formed (Entry.unlocked_file _) _)
      (GitClient.overlooks_ofEntry regular formed _ place) fun root fetched => ?_
    have result : (Run.fetchFor hostSurroundings { maxDepth := 5 } fs hostUrl).result =
        .ok (.ofString "/tmp/codesketch_065535") := by decide +kernel
    obtain rfl : .ofString "/tmp/codesketch_065535" = root := Except.ok.inj (result.symm.trans fetched)
    exact ⟨by decide +kernel, by decide +kernel⟩

theorem Report.ofArguments_unmended :
    let fs := configuredHost "[walk]\nmax_depth = 0\n"
    let arguments := ["analyze", ".", "--config", "codesketch.toml", "--depth", "5"].map Bytes.ofString
    let request : AnalyzeRequest := { source := ".", depth := some 5, config := some Run.configPath }
    let own : Config := { maxDepth := 0 }
    let merged := own.override request.overrides
    CommandLine.read arguments = .ok (.analyze request) ∧
      fs.readText Run.configPath = .ok "[walk]\nmax_depth = 0\n" ∧
      Config.ofToml? "[walk]\nmax_depth = 0\n" = some own ∧ merged.validate = .ok () ∧
      (Report.ofArguments hostSurroundings fs arguments).verdict =
        .failed (.configValidation "max_depth must be at least 1") ∧
      (Report.ofOutcome (Run.proceed hostSurroundings fs "." merged)).verdict = .done := by
  decide +kernel

end CodeAtlas

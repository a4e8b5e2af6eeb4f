import CodeAtlas.Proofs.Run.Clone
import CodeAtlas.Proofs.Survey.Unchanged

/-!
# Runs on a directory

A run on a directory either writes the document of what stood there before, or it fails and leaves every
file as it was (`ofArguments_local`). All that is new besides are directories along the output. Only the
README is looked for once these are made, which tells where a link leads through them
(`document_dangling`).
-/

namespace CodeAtlas

open FileSystem Repository

namespace Run

def documentOf (config : Config) (fs : FileSystem) (root : Path) (readme : Option String) :
    Option String :=
  let survey := fs.survey root config.maxDepth
  match config.format with
  | .markdown =>
    let title := config.projectName.getD ((Source.folder root).title fs)
    some (Document.render survey readme (.ofConfig title config))
  | .json => survey.toJson?

def prepare (fs : FileSystem) (request : AnalyzeRequest) : Except Failure (Config × Source) := do
  let config ← configure fs request
  let source ← Source.resolve fs request.source
  return (config, source)

variable {fs : FileSystem} {config : Config} {root : Path}

theorem analyze_eq (surroundings : Surroundings) (fs : FileSystem) (request : AnalyzeRequest) :
    analyze surroundings fs request =
      match prepare fs request with
      | .error failure => .of fs (.error failure)
      | .ok (config, source) => analyzeSource surroundings config fs source := by
  unfold analyze prepare
  cases configure fs request with
  | error failure => rfl
  | ok config =>
      simp only [bind, Except.bind]
      cases Source.resolve fs request.source <;> rfl

theorem resolve_eq_ok {text : String} {source : Source} (localText : isAddress text = false)
    (resolved : Source.resolve fs text = .ok source) :
    source = .folder (.ofString text) ∧ fs.isDirectory (.ofString text) = true := by
  unfold Source.resolve at resolved
  rw [localText] at resolved
  simp only [Bool.false_eq_true, if_false] at resolved
  split at resolved
  · cases resolved
  split at resolved
  · rename_i directory
    cases resolved
    exact ⟨rfl, directory⟩
  · cases resolved

theorem prepare_eq_ok {request : AnalyzeRequest} {source : Source}
    (localSource : isAddress request.source = false)
    (prepared : prepare fs request = .ok (config, source)) :
    configure fs request = .ok config ∧ source = .folder (.ofString request.source) ∧
      fs.isDirectory (.ofString request.source) = true := by
  unfold prepare at prepared
  cases configured : configure fs request with
  | error failure => simp [configured, bind, Except.bind] at prepared
  | ok own =>
      cases resolved : Source.resolve fs request.source with
      | error failure => simp [configured, resolved, bind, Except.bind] at prepared
      | ok named =>
          simp only [configured, resolved, bind, Except.bind, pure, Except.pure, Except.ok.injEq,
            Prod.mk.injEq] at prepared
          obtain ⟨rfl, rfl⟩ := prepared
          exact ⟨rfl, resolve_eq_ok localSource resolved⟩

section Request

variable {surroundings : Surroundings} {arguments : List Bytes} {request : AnalyzeRequest}
  (read : CommandLine.read arguments = .ok (.analyze request))

include read

theorem ofArguments_unprepared {failure : Failure} (failed : prepare fs request = .error failure) :
    Report.ofArguments surroundings fs arguments = .ofOutcome (.of fs (.error failure)) := by
  simp only [Report.ofArguments, read, command, analyze_eq, failed]

theorem ofArguments_prepared {source : Source} (localSource : isAddress request.source = false)
    (prepared : prepare fs request = .ok (config, source)) :
    Report.ofArguments surroundings fs arguments =
      .ofOutcome (document config fs (.folder (.ofString request.source)) (.ofString request.source)) := by
  obtain ⟨-, rfl, -⟩ := prepare_eq_ok localSource prepared
  simp only [Report.ofArguments, read, command, analyze_eq, prepared, analyzeSource]

end Request

/-! ## The document step on a directory -/

theorem title_keep {other : FileSystem} (keeps : Keeps fs other)
    (directory : fs.isDirectory root = true) :
    (Source.folder root).title other = (Source.folder root).title fs := by
  obtain ⟨place, entry, found, kind⟩ := isDirectory_eq_true_iff.mp directory
  obtain ⟨others, stays, -⟩ := find_node_keep keeps found kind
  rw [Source.title, Source.title, canonical, canonical, found, stays]
  rfl

theorem content_keep {other : FileSystem} (keeps : Keeps fs other)
    (directory : fs.isDirectory root = true) {text : String}
    (content : content config other (.folder root) (fs.survey root config.maxDepth) = .ok text) :
    documentOf config fs root (other.readme? root) = some text := by
  unfold Run.content at content
  unfold documentOf
  rw [title_keep keeps directory] at content
  cases format : config.format with
  | markdown =>
      rw [format] at content
      exact congrArg some (Except.ok.inj content)
  | json =>
      rw [format] at content
      simp only at content ⊢
      split at content
      · rename_i written
        rw [written]
        exact congrArg some (Except.ok.inj content)
      · cases content

theorem readme?_furnished (formed : fs.WellFormed) (directory : fs.isDirectory root = true)
    (steady : ∀ name ∈ readmeNames, ¬ fs.Dangles (root.join (.ofString name))) :
    (furnished config fs).readme? root = fs.readme? root := by
  obtain ⟨place, entry, found, kind⟩ := isDirectory_eq_true_iff.mp directory
  exact readme?_congr fun name among => (furnished_grows config formed).readText_entry formed found kind
    (isEntryName_readme name among) (steady name among)

/-- What a run on a directory leaves, by how it ends. -/
structure Delivers (config : Config) (fs : FileSystem) (root : Path) (report : Report) : Prop where
  fills : Fills config fs report.fs
  written : report.verdict.status = 0 → ∃ text,
    documentOf config fs root ((furnished config fs).readme? root) = some text ∧
      report.fs.readBytes (outputPath config) = .ok (Bytes.ofString text)
  refused : report.verdict.status ≠ 0 → Grows config.directory.ancestors fs report.fs ∧
    ∀ path content, fs.readBytes path = .ok content → report.fs.readBytes path = .ok content
  readme : (∀ name ∈ readmeNames, ¬ fs.Dangles (root.join (.ofString name))) →
    (furnished config fs).readme? root = fs.readme? root

theorem delivers_document (formed : fs.WellFormed) (directory : fs.isDirectory root = true) :
    Delivers config fs root (.ofOutcome (document config fs (.folder root) root)) := by
  have grows := furnished_grows config formed
  have fills := document_fills config formed (.folder root) root
  have ends := document_ends config fs (.folder root) root
  generalize document config fs (.folder root) root = outcome at fills ends ⊢
  cases ends with
  | @failed outcome failure stays result =>
      refine ⟨fills, fun done => ?_, fun _ => ?_, readme?_furnished formed directory⟩
      · rw [Report.status_eq_zero, result] at done
        cases done
      · rw [Report.fs_ofOutcome, stays]
        exact ⟨grows, fun path content => grows.readBytes⟩
  | @written text final made told wrote =>
      obtain ⟨place, writes⟩ := writeBytes_eq_ok grows.formed wrote
      refine ⟨fills, fun _ => ⟨text, content_keep grows.keeps directory told, writes.readBytes⟩,
        fun failed => ?_, readme?_furnished formed directory⟩
      exact absurd ((Report.status_eq_zero _).mpr rfl) failed

theorem Delivers.readText {report : Report} (delivers : Delivers config fs root report)
    (done : report.verdict.status = 0) :
    (report.fs.readText (outputPath config)).toOption =
      documentOf config fs root ((furnished config fs).readme? root) := by
  obtain ⟨text, told, holds⟩ := delivers.written done
  rw [told, FileSystem.readText, holds]
  simp only [Bytes.decode?_ofString]
  rfl

end Run

/-- A run that is given up before its source is resolved changes nothing. Any other run on a directory
writes the document of what stood there before, or fails and makes no more than directories. -/
theorem Report.ofArguments_local {surroundings : Surroundings} {fs : FileSystem}
    (formed : fs.WellFormed) {arguments : List Bytes} {request : AnalyzeRequest}
    (read : CommandLine.read arguments = .ok (.analyze request))
    (localSource : isAddress request.source = false) :
    let report := Report.ofArguments surroundings fs arguments
    (∀ failure, Run.prepare fs request = .error failure →
        report.fs = fs ∧ report.verdict = .failed failure) ∧
      ∀ config source, Run.prepare fs request = .ok (config, source) →
        Run.Delivers config fs (.ofString request.source) report := by
  intro report
  constructor
  · intro failure failed
    have gives : report = _ := Run.ofArguments_unprepared read failed
    rw [gives]
    exact ⟨rfl, rfl⟩
  · intro config source prepared
    obtain ⟨-, -, directory⟩ := Run.prepare_eq_ok localSource prepared
    have gives : report = _ := Run.ofArguments_prepared read localSource prepared
    rw [gives]
    exact Run.delivers_document formed directory

def linkedReadme (target : String) : FileSystem where
  entries := [(Bytes.ofString "work", .directory
    [(Bytes.ofString "notes.txt", .file (Bytes.ofString "Notes")),
      (Bytes.ofString "README.md", .symlink (.ofString target))])]
  workingDirectory := [Bytes.ofString "work"]

theorem Report.ofArguments_local_linked :
    let fs := linkedReadme "notes.txt"
    let report := Report.ofArguments hostSurroundings fs (["analyze", "."].map Bytes.ofString)
    report.verdict.status = 0 ∧ ∃ text,
      Run.documentOf {} fs (.ofString ".") (some "Notes") = some text ∧
        report.fs.readBytes (Run.outputPath {}) = .ok (Bytes.ofString text) := by
  have formed : (linkedReadme "notes.txt").WellFormed := by decide +kernel
  have read : CommandLine.read (["analyze", "."].map Bytes.ofString) =
      .ok (.analyze { source := "." }) := rfl
  have prepared : Run.prepare (linkedReadme "notes.txt") { source := "." } =
      .ok ({}, .folder (.ofString ".")) := rfl
  have ends : Run.Delivers {} (linkedReadme "notes.txt") (.ofString ".")
      (Report.ofArguments hostSurroundings (linkedReadme "notes.txt")
        (["analyze", "."].map Bytes.ofString)) :=
    (Report.ofArguments_local formed read rfl).2 {} _ prepared
  have done : (Report.ofArguments hostSurroundings (linkedReadme "notes.txt")
      (["analyze", "."].map Bytes.ofString)).verdict.status = 0 := by
    decide
  have readme : (Run.furnished {} (linkedReadme "notes.txt")).readme? (.ofString ".") = some "Notes" :=
    (ends.readme (by decide)).trans (by decide)
  obtain ⟨text, told, holds⟩ := ends.written done
  rw [readme] at told
  exact ⟨done, text, told, holds⟩

/-- The README of this directory leads nowhere until the directory of the output is made. -/
theorem Run.document_dangling :
    let fs := linkedReadme "codesketch-docs/../notes.txt"
    let report := Report.ofArguments hostSurroundings fs (["analyze", "."].map Bytes.ofString)
    report.verdict = .done ∧ fs.readme? (.ofString ".") = none ∧
      (report.fs.readText (Run.outputPath {})).toOption =
        Run.documentOf {} fs (.ofString ".") (some "Notes") ∧
      (report.fs.readText (Run.outputPath {})).toOption ≠ Run.documentOf {} fs (.ofString ".") none := by
  intro fs report
  have formed : fs.WellFormed := by decide +kernel
  have read : CommandLine.read (["analyze", "."].map Bytes.ofString) =
      .ok (.analyze { source := "." }) := rfl
  have prepared : Run.prepare (linkedReadme "codesketch-docs/../notes.txt") { source := "." } =
      .ok ({}, .folder (.ofString ".")) := rfl
  have ends : Run.Delivers {} fs (.ofString ".") report := by
    have gives : report = _ := Run.ofArguments_prepared read rfl prepared
    rw [gives]
    exact Run.delivers_document formed (by decide)
  have done : report.verdict = .done := by decide
  have readme : (Run.furnished {} fs).readme? (.ofString ".") = some "Notes" := by decide
  have written := ends.readText (by rw [done]; rfl)
  rw [readme] at written
  refine ⟨done, by decide, written, ?_⟩
  rw [written]
  intro same
  have chars := congrArg (Option.map String.toList) same
  simp only [Run.documentOf, Document.render, Option.map_some, Text.toList_unlines] at chars
  revert chars
  decide +kernel

end CodeAtlas

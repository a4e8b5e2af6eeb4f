import CodeAtlas.Proofs.FileSystem.Repeat
import CodeAtlas.Proofs.Run.Local

/-!
# Runs that are repeated

A second run on a directory finds what the first one wrote. It changes no file but the output again, and
it gives the same report if it does not see that output (`ofArguments_again`): where the output stands
apart from the directory, or where one was there before and no README and no source leads to it. So only
the second run can differ from the first (`ofArguments_differ`), unless the output is read.
-/

namespace CodeAtlas

open FileSystem Repository

namespace Run

variable {config : Config} {fs final : FileSystem} {root : Path} {text : String}

/-! ## What a run sees -/

def readPaths (fs : FileSystem) (root : Path) : List Path :=
  readmeNames.map (fun name => root.join (.ofString name)) ++ (fs.files root).filter Path.isSource

def Unread (config : Config) (fs : FileSystem) (root : Path) : Prop :=
  ∀ path ∈ readPaths fs root, fs.canonical path ≠ fs.canonical (outputPath config)

/-- What a run leaves shows in none of what the next one reads. -/
inductive Unseen (config : Config) (fs final : FileSystem) (root : Path) : Prop where
  | replaced {old : Bytes}
      (directory : config.directory.isEmpty = true ∨ fs.isDirectory config.directory = true)
      (file : fs.readBytes (outputPath config) = .ok old) (unread : Unread config fs root)
  | apart {place : Place} (leads : fs.canonical root = .ok place) (apart : Apart fs final place)

/-! ## The document step again -/

structure Wrote (config : Config) (fs final : FileSystem) (root : Path) (text : String) : Prop where
  formed : fs.WellFormed
  directory : fs.isDirectory root = true
  made : fs.createDirectories config.directory = (furnished config fs, .ok ())
  told : content config (furnished config fs) (.folder root) (fs.survey root config.maxDepth) = .ok text
  wrote : (furnished config fs).writeBytes (outputPath config) (Bytes.ofString text) = .ok final

namespace Wrote

variable (wrote : Wrote config fs final root text)

include wrote

theorem grows : Grows config.directory.ancestors fs (furnished config fs) :=
  furnished_grows config wrote.formed

theorem writes : ∃ place,
    Writes (furnished config fs) final (outputPath config) (Bytes.ofString text) place :=
  writeBytes_eq_ok wrote.grows.formed wrote.wrote

theorem fills : Fills config fs final := by
  obtain ⟨place, writes⟩ := wrote.writes
  exact .of_writes wrote.grows writes

theorem onward : Keeps (furnished config fs) final := by
  obtain ⟨place, writes⟩ := wrote.writes
  exact writes.agrees.keeps writes.leaf

theorem readBytes : final.readBytes (outputPath config) = .ok (Bytes.ofString text) := by
  obtain ⟨place, writes⟩ := wrote.writes
  exact writes.readBytes

theorem outputDirectory :
    config.directory.isEmpty = true ∨ final.isDirectory config.directory = true :=
  (isDirectory_of_createDirectories wrote.formed wrote.made).imp_right (isDirectory_keep wrote.onward)

theorem createDirectories : final.createDirectories config.directory = (final, .ok ()) :=
  createDirectories_of_isDirectory wrote.fills.formed wrote.outputDirectory

theorem furnished_again : furnished config final = final := by
  rw [furnished, wrote.createDirectories]

theorem document_again
    (survey : final.survey root config.maxDepth = fs.survey root config.maxDepth)
    (readme : final.readme? root = (furnished config fs).readme? root) :
    document config final (.folder root) root = document config fs (.folder root) root := by
  have title := (title_keep wrote.fills.keeps wrote.directory).trans
    (title_keep wrote.grows.keeps wrote.directory).symm
  have told : content config final (.folder root) (fs.survey root config.maxDepth) = .ok text := by
    have root_eq : (fs.survey root config.maxDepth).root = root := rfl
    rw [← wrote.told, content, content, title, root_eq, readme]
  have again := writeBytes_of_readBytes wrote.readBytes
  simp only [document, survey, wrote.createDirectories, wrote.made, told, wrote.told, again,
    wrote.wrote]

/-! ## Surveys again -/

theorem document_replaced {old : Bytes}
    (directory : config.directory.isEmpty = true ∨ fs.isDirectory config.directory = true)
    (file : fs.readBytes (outputPath config) = .ok old) (unread : Unread config fs root) :
    document config final (.folder root) root = document config fs (.folder root) root := by
  have same : furnished config fs = fs := by
    rw [furnished, createDirectories_of_isDirectory wrote.formed directory]
  obtain ⟨place, writes⟩ := wrote.writes
  obtain ⟨reached, found⟩ := readBytes_eq_ok_iff.mp file
  rw [same] at writes
  have shape := writes.sameShape found
  have output : fs.canonical (outputPath config) = .ok place := by
    rw [canonical, found, writes.place_eq found]
    rfl
  have reads : ∀ path ∈ readPaths fs root, final.readText path = fs.readText path := by
    intro path member
    exact shape.readText (fun _ => writes.elsewhere) (output ▸ unread path member)
  simp only [readPaths, List.forall_mem_append, List.forall_mem_map, List.mem_filter, and_imp] at reads
  refine wrote.document_again (shape.survey wrote.formed writes.formed reads.2 _) ?_
  rw [same]
  exact readme?_congr fun name among => congrArg Except.toOption (reads.1 name among)

theorem document_apart {place : Place} (leads : fs.canonical root = .ok place)
    (apart : Apart fs final place) :
    document config final (.folder root) root = document config fs (.folder root) root := by
  obtain ⟨reached, entry, found, kind⟩ := isDirectory_eq_true_iff.mp wrote.directory
  have here : reached = place := by
    rw [canonical, found] at leads
    exact Except.ok.inj leads
  subst here
  obtain ⟨moved, stays, -, node⟩ := find_node_keep wrote.fills.keeps found kind
  obtain ⟨between, middle, -, middleNode⟩ := find_node_keep wrote.grows.keeps found kind
  -- A directory that was made on the way would be there in the end.
  have furnishedApart : Apart fs (furnished config fs) reached := by
    intro below shown
    obtain ⟨node, noLink⟩ := apart below shown
    refine ⟨?_, noLink⟩
    rcases wrote.grows.node (reached ++ below) with same | ⟨free, directory, -⟩
    · exact same
    · rw [wrote.onward.directory _ directory, free] at node
      cases node
  have link : final.isLink root = fs.isLink root := by
    rcases find_of_isLink found with ⟨link, spot, target, own⟩ | ⟨link, own⟩
    · have symlink := wrote.fills.keeps.symlink _ _ (node?_of_get? (find_eq_ok_iff.mp own).2)
      have arrives := find_keep wrote.fills.keeps own (node?_eq_symlink.mp symlink) (by simp)
      rw [link, isLink, arrives]
    · obtain ⟨_, arrives, still, -⟩ := find_node_keep wrote.fills.keeps own kind
      rw [link, isLink_eq_false arrives still]
  have survey := apart.survey wrote.formed wrote.fills.formed found kind stays node link config.maxDepth
  refine wrote.document_again survey ?_
  rw [apart.readme? wrote.formed wrote.fills.formed found kind stays node,
    furnishedApart.readme? wrote.formed wrote.grows.formed found kind middle middleNode]

theorem document_unseen (unseen : Unseen config fs final root) :
    document config final (.folder root) root = document config fs (.folder root) root := by
  cases unseen with
  | replaced directory file unread => exact wrote.document_replaced directory file unread
  | apart leads apart => exact wrote.document_apart leads apart

theorem document_elsewhere {place : Place} (apart : final.canonical (outputPath config) ≠ .ok place) :
    (document config final (.folder root) root).fs.node? place = final.node? place := by
  have ends := document_ends config final (.folder root) root
  generalize document config final (.folder root) root = outcome at ends ⊢
  cases ends with
  | failed stays result => rw [stays, wrote.furnished_again]
  | written made told again =>
      rw [wrote.furnished_again] at again
      obtain ⟨output, writes⟩ := writeBytes_eq_ok wrote.fills.formed again
      obtain ⟨reached, found⟩ := readBytes_eq_ok_iff.mp wrote.readBytes
      refine writes.elsewhere fun same => apart ?_
      rw [same, writes.place_eq found, canonical, found]
      rfl

theorem document_markdown (format : config.format = .markdown) :
    (document config final (.folder root) root).result = .ok () := by
  obtain ⟨place, found⟩ := readBytes_eq_ok_iff.mp wrote.readBytes
  obtain ⟨resolved, here⟩ := find_eq_ok_iff.mp found
  simp only [document, wrote.createDirectories, content, format, writeBytes, resolved, here]

end Wrote

/-! ## The whole run again -/

/-- What the second and the third of equal runs on a directory do. -/
structure Recurs (config : Config) (request : AnalyzeRequest) (fs : FileSystem)
    (first second third : Report) : Prop where
  elsewhere : ∀ place, first.fs.canonical (outputPath config) ≠ .ok place →
    second.fs.node? place = first.fs.node? place
  markdown : config.format = .markdown → second.verdict = .done
  unseen : Unseen config fs first.fs (.ofString request.source) → second = first
  unread : second.verdict = .done → loaded second.fs request = loaded fs request →
    Unread config first.fs (.ofString request.source) → third = second

section Request

variable {surroundings : Surroundings} {arguments : List Bytes} {request : AnalyzeRequest}
  {source : Source} (localSource : isAddress request.source = false)
  (prepared : prepare fs request = .ok (config, source))

include localSource prepared

theorem prepare_again {other : FileSystem} (keeps : Keeps fs other)
    (loads : loaded other request = loaded fs request) :
    prepare other request = .ok (config, source) := by
  obtain ⟨configured, -, directory⟩ := prepare_eq_ok localSource prepared
  have still := isDirectory_keep keeps directory
  have same : Source.resolve other request.source = Source.resolve fs request.source := by
    rw [Source.resolve, Source.resolve, directory, still]
  rw [← prepared, prepare, prepare, configure, configure, loads, same]

variable (read : CommandLine.read arguments = .ok (.analyze request))

include read

theorem wrote_of_done (formed : fs.WellFormed)
    (done : (Report.ofArguments surroundings fs arguments).verdict = .done) :
    ∃ text, Wrote config fs (Report.ofArguments surroundings fs arguments).fs
      (.ofString request.source) text := by
  obtain ⟨-, -, directory⟩ := prepare_eq_ok localSource prepared
  rw [ofArguments_prepared read localSource prepared] at done ⊢
  have succeeds := (Report.status_eq_zero _).mp (congrArg Verdict.status done)
  have ends := document_ends config fs (.folder (.ofString request.source)) (.ofString request.source)
  generalize document config fs _ _ = outcome at ends succeeds ⊢
  cases ends with
  | failed stays result =>
      rw [result] at succeeds
      cases succeeds
  | @written text final made told wrote => exact ⟨text, formed, directory, made, told, wrote⟩

end Request

end Run

/-- A run on a directory that is done again changes nothing but the output, and with Markdown it succeeds.
Its report is the same if the output is not seen. The output is new to no run but the second, so a third
one gives the report of the second, unless what it reads is the output. -/
theorem Report.ofArguments_again {surroundings : Surroundings} {fs : FileSystem}
    (formed : fs.WellFormed) {arguments : List Bytes} {request : AnalyzeRequest}
    (read : CommandLine.read arguments = .ok (.analyze request))
    (localSource : isAddress request.source = false) {config : Config} {source : Source}
    (prepared : Run.prepare fs request = .ok (config, source)) :
    let first := Report.ofArguments surroundings fs arguments
    let second := Report.ofArguments surroundings first.fs arguments
    let third := Report.ofArguments surroundings second.fs arguments
    first.verdict = .done → Run.loaded first.fs request = Run.loaded fs request →
      Run.Recurs config request fs first second third := by
  intro first second third done loads
  have first_eq : first = _ := Run.ofArguments_prepared read localSource prepared
  obtain ⟨text, wrote⟩ := Run.wrote_of_done localSource prepared read formed done
  have again := Run.prepare_again localSource prepared wrote.fills.keeps loads
  have second_eq : second = _ := Run.ofArguments_prepared read localSource again
  refine ⟨fun place apart => ?_, fun format => ?_, fun unseen => ?_, fun doneAgain loadsAgain unread => ?_⟩
  · rw [second_eq]
    exact wrote.document_elsewhere apart
  · rw [second_eq, Report.ofOutcome, wrote.document_markdown format]
  · have same := congrArg Report.ofOutcome (wrote.document_unseen unseen)
    exact second_eq.trans (same.trans first_eq.symm)
  · obtain ⟨later, wroteAgain⟩ :=
      Run.wrote_of_done localSource again read wrote.fills.formed doneAgain
    have still := Run.prepare_again localSource again wroteAgain.fills.keeps (loadsAgain.trans loads.symm)
    have third_eq : third = _ := Run.ofArguments_prepared read localSource still
    have same := wroteAgain.document_replaced wrote.outputDirectory wrote.readBytes unread
    exact third_eq.trans ((congrArg Report.ofOutcome same).trans second_eq.symm)

def oneSource (others : List (Name × Entry)) : FileSystem where
  entries := [(Bytes.ofString "work", .directory
    ((Bytes.ofString "main.py", .file (Bytes.ofString "def f(): pass\n")) :: others))]
  workingDirectory := [Bytes.ofString "work"]

theorem Report.ofArguments_again_replaced :
    let fs := oneSource [(Bytes.ofString "codesketch-docs", .directory
      [(Bytes.ofString "README.md", .file [])])]
    let first := Report.ofArguments hostSurroundings fs (["analyze", "."].map Bytes.ofString)
    let second := Report.ofArguments hostSurroundings first.fs (["analyze", "."].map Bytes.ofString)
    first.verdict = .done ∧ second = first := by
  intro fs first second
  have formed : fs.WellFormed := by decide +kernel
  have read : CommandLine.read (["analyze", "."].map Bytes.ofString) =
      .ok (.analyze { source := "." }) := rfl
  have prepared : Run.prepare fs { source := "." } = .ok ({}, .folder (.ofString ".")) := by
    decide +kernel
  have done : first.verdict = .done := by decide +kernel
  have loads : Run.loaded first.fs { source := "." } = Run.loaded fs { source := "." } := by
    decide +kernel
  have recurs : Run.Recurs {} { source := "." } fs first second _ :=
    Report.ofArguments_again formed read rfl prepared done loads
  have file : fs.readBytes (Run.outputPath {}) = .ok [] := by decide +kernel
  have unread : Run.Unread {} fs (.ofString ".") := by
    unfold Run.Unread
    decide +kernel
  exact ⟨done, recurs.unseen (.replaced (.inr (by decide +kernel)) file unread)⟩

theorem Report.ofArguments_differ :
    let fs := oneSource []
    let first := Report.ofArguments hostSurroundings fs (["analyze", "."].map Bytes.ofString)
    let second := Report.ofArguments hostSurroundings first.fs (["analyze", "."].map Bytes.ofString)
    first.verdict = .done ∧ second.verdict = .done ∧
      second.fs.readBytes (Run.outputPath {}) ≠ first.fs.readBytes (Run.outputPath {}) := by
  decide +kernel

end CodeAtlas

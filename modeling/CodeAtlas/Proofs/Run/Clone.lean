import CodeAtlas.Proofs.Repository.Fetch
import CodeAtlas.Proofs.Run.Configuration

namespace CodeAtlas

open FileSystem Repository

namespace Run

/-! ## The document step -/

/-- A place that the output of a run fills: a directory on the way to the file, or the file itself. -/
inductive FilledByOutput (config : Config) (fs written : FileSystem) (place : Place) : Prop where
  | directory {path : Path} (free : fs.node? place = none)
      (made : written.node? place = some .directory) (among : path ∈ config.directory.ancestors)
      (leads : written.canonical path = .ok place)
  | file {content : Bytes} (leaf : fs.IsLeaf place)
      (made : written.node? place = some (.file content))
      (leads : written.canonical (outputPath config) = .ok place)

structure Fills (config : Config) (fs written : FileSystem) : Prop where
  formed : written.WellFormed
  keeps : Keeps fs written
  node : ∀ place, written.node? place = fs.node? place ∨ FilledByOutput config fs written place

variable {config : Config} {fs : FileSystem}

theorem Fills.of_grows {grown : FileSystem} (grows : Grows config.directory.ancestors fs grown) :
    Fills config fs grown := by
  refine ⟨grows.formed, grows.keeps, fun place => (grows.node place).imp_right ?_⟩
  rintro ⟨free, made, path, among, leads⟩
  exact .directory free made among leads

theorem IsLeaf.of_grows {paths : List Path} {grown : FileSystem} {place : Place}
    (grows : Grows paths fs grown) (leaf : grown.IsLeaf place) : fs.IsLeaf place := by
  rcases grows.node place with same | ⟨free, _⟩
  · rcases leaf with free | ⟨content, file⟩
    · exact .inl (same ▸ free)
    · exact .inr ⟨content, same ▸ file⟩
  · exact .inl free

theorem Fills.of_writes {grown made : FileSystem} {content : Bytes} {target : Place}
    (grows : Grows config.directory.ancestors fs grown)
    (writes : Writes grown made (outputPath config) content target) : Fills config fs made := by
  have keeps := writes.agrees.keeps writes.leaf
  refine ⟨writes.formed, grows.keeps.trans keeps, fun place => ?_⟩
  by_cases here : place = target
  · subst here
    exact .inr (.file (IsLeaf.of_grows grows writes.leaf) writes.node writes.leads)
  · rw [writes.elsewhere here]
    refine (grows.node place).imp_right ?_
    rintro ⟨free, made_directory, path, among, leads⟩
    exact .directory free (keeps.directory place made_directory) among
      (canonical_keep keeps leads made_directory)

theorem Fills.unlocked {written : FileSystem} {place : Place} (fills : Fills config fs written)
    (unlocked : fs.Unlocked place) : written.Unlocked place := by
  intro rest entries locked
  rcases fills.node (place ++ rest) with same | filled
  · exact unlocked rest entries (same ▸ locked)
  · cases filled with
    | directory free made among leads =>
        rw [made] at locked
        cases locked
    | file leaf made leads =>
        rw [made] at locked
        cases locked

def furnished (config : Config) (fs : FileSystem) : FileSystem :=
  (fs.createDirectories config.directory).1

theorem furnished_grows (config : Config) (formed : fs.WellFormed) :
    Grows config.directory.ancestors fs (furnished config fs) :=
  createDirectories_grows config.directory formed

inductive Ends (config : Config) (fs : FileSystem) (source : Source) (root : Path) :
    Outcome Unit → Prop
  | failed {outcome : Outcome Unit} {failure : Failure} (stays : outcome.fs = furnished config fs)
      (result : outcome.result = .error failure) : Ends config fs source root outcome
  | written {text : String} {final : FileSystem}
      (made : fs.createDirectories config.directory = (furnished config fs, .ok ()))
      (told : content config (furnished config fs) source (fs.survey root config.maxDepth) = .ok text)
      (wrote : (furnished config fs).writeBytes (outputPath config) (Bytes.ofString text) = .ok final) :
      Ends config fs source root ⟨final, summary (fs.survey root config.maxDepth) ++
        ["Written to: " ++ (outputPath config).display], [], .ok ()⟩

theorem document_ends (config : Config) (fs : FileSystem) (source : Source) (root : Path) :
    Ends config fs source root (document config fs source root) := by
  have same : (fs.createDirectories config.directory).1 = furnished config fs := rfl
  unfold document
  cases made : fs.createDirectories config.directory with
  | mk grown result =>
      rw [made] at same
      subst same
      cases result with
      | error fault => exact .failed rfl rfl
      | ok done =>
          simp only
          cases told : content config (furnished config fs) source (fs.survey root config.maxDepth) with
          | error failure => exact .failed rfl rfl
          | ok text =>
              simp only
              cases wrote : (furnished config fs).writeBytes (outputPath config) (Bytes.ofString text) with
              | error fault => exact .failed rfl rfl
              | ok final => exact .written made told wrote

theorem document_fills (config : Config) (formed : fs.WellFormed) (source : Source) (root : Path) :
    Fills config fs (document config fs source root).fs := by
  have grows := furnished_grows config formed
  have ends := document_ends config fs source root
  generalize document config fs source root = outcome at ends ⊢
  cases ends with
  | failed stays result => exact stays ▸ .of_grows grows
  | written made told wrote =>
      obtain ⟨target, writes⟩ := writeBytes_eq_ok grows.formed wrote
      exact .of_writes grows writes

/-! ## The clone after the document step -/

def documented (config : Config) (url : String) (fetched : Fetched) : Option (Outcome Unit) :=
  match fetched.result with
  | .ok root => some (document config fetched.fs (.remote url) root)
  | .error _ => none

theorem FilledByOutput.of_agrees {base written : FileSystem} {place other : Place}
    (agrees : AgreesOutside place base fs) (outside : ¬ place <+: other)
    (filled : FilledByOutput config fs written other) : FilledByOutput config base written other := by
  have same := agrees.node other outside
  cases filled with
  | directory free made among leads => exact .directory (same ▸ free) made among leads
  | @file content leaf made leads =>
      refine .file ?_ made leads
      rwa [IsLeaf, ← same]

/-- What a run leaves of the clone, and what it leaves elsewhere. -/
structure Settles (config : Config) (base : FileSystem) (step : Option (Outcome Unit)) (kept : Bool)
    (clone : Path) (place : Place) (final : FileSystem) : Prop where
  workingDirectory : final.workingDirectory = base.workingDirectory
  clone_exists : final.hasEntry clone = true ↔ kept = true
  clone_node : final.node? place = if kept then some .directory else none
  elsewhere : ∀ other, ¬ place <+: other → final.node? other = base.node? other ∨
    ∃ outcome ∈ step, final.node? other = outcome.fs.node? other ∧
      FilledByOutput config base outcome.fs other

variable {base : FileSystem} {path : Path} {above : Place} {name : Name}

theorem settles_of_failed {fetched : Fetched} (site : Site base path above name)
    (agrees : AgreesOutside (above ++ [name]) base fetched.fs)
    (gone : fetched.fs.node? (above ++ [name]) = none) (config : Config) :
    Settles config base none false path (above ++ [name]) fetched.fs where
  workingDirectory := agrees.workingDirectory
  clone_exists := by simp [site.hasEntry_eq_false (agrees.keeps (.inl site.free)) gone]
  clone_node := gone
  elsewhere other outside := .inl (agrees.node other outside)

theorem release_result (config : Config) (root : Path) (outcome : Outcome Unit) :
    (release config root outcome).result = outcome.result := by
  unfold release
  split
  · rfl
  · split <;> rfl

theorem release_keeps {outcome : Outcome Unit} (kept : config.keepClone = true) (root : Path) :
    (release config root outcome).fs = outcome.fs := by
  rw [release, if_pos kept]

theorem release_cleans {outcome : Outcome Unit} {root : Path} {made : FileSystem}
    (kept : config.keepClone = false) (cleans : cleanup outcome.fs root = (made, .ok ())) :
    (release config root outcome).fs = made := by
  simp [release, kept, cleans]

theorem settles_release {fetched : Fetched} (config : Config) (url : String)
    (site : Site base path above name) (agrees : AgreesOutside (above ++ [name]) base fetched.fs)
    (formed : fetched.fs.WellFormed) (unlocked : fetched.fs.Unlocked (above ++ [name]))
    (directory : fetched.fs.node? (above ++ [name]) = some .directory) :
    Settles config base (some (document config fetched.fs (.remote url) path)) config.keepClone path
      (above ++ [name])
      (release config path (document config fetched.fs (.remote url) path)).fs := by
  have fills := document_fills config formed (.remote url) path
  generalize document config fetched.fs (.remote url) path = outcome at fills ⊢
  have keeps := (agrees.keeps (.inl site.free)).trans fills.keeps
  -- The output cannot take the place of the clone, for directories stay.
  have still := fills.keeps.directory _ directory
  have elsewhere : ∀ other, ¬ above ++ [name] <+: other →
      outcome.fs.node? other = base.node? other ∨ FilledByOutput config base outcome.fs other := by
    intro other outside
    rw [← agrees.node other outside]
    exact (fills.node other).imp_right (·.of_agrees agrees outside)
  cases kept : config.keepClone with
  | true =>
      rw [release_keeps kept]
      refine ⟨keeps.workingDirectory, ?_, still, fun other outside => ?_⟩
      · simp [site.hasEntry_eq_true keeps still]
      · exact (elsewhere other outside).imp_right fun filled => ⟨outcome, rfl, rfl, filled⟩
  | false =>
      obtain ⟨made, cleans, apart, gone, _⟩ :=
        cleanup_site site keeps fills.formed (.inr still) (fills.unlocked unlocked)
      have made_keeps := keeps.outside site.free apart
      rw [release_cleans kept cleans]
      refine ⟨made_keeps.workingDirectory, ?_, gone, fun other outside => ?_⟩
      · simp [site.hasEntry_eq_false made_keeps gone]
      · have same := apart.node other outside
        rw [same]
        exact (elsewhere other outside).imp_right fun filled => ⟨outcome, rfl, rfl, filled⟩

/-! ## The whole run -/

def fetchFor (surroundings : Surroundings) (config : Config) (fs : FileSystem) (url : String) :
    Fetched :=
  Repository.fetch surroundings.client surroundings.temporary config.tempPrefix fs url none

theorem analyzeSource_failed {surroundings : Surroundings} {url : String} {failure : Failure}
    (failed : (fetchFor surroundings config fs url).result = .error failure) :
    (analyzeSource surroundings config fs (.remote url)).fs = (fetchFor surroundings config fs url).fs ∧
      (analyzeSource surroundings config fs (.remote url)).result = .error failure := by
  rw [fetchFor] at failed ⊢
  simp [analyzeSource, failed, Outcome.after, Outcome.of]

theorem analyzeSource_fetched {surroundings : Surroundings} {url : String} {root : Path}
    (succeeded : (fetchFor surroundings config fs url).result = .ok root) :
    let outcome := document config (fetchFor surroundings config fs url).fs (.remote url) root
    (analyzeSource surroundings config fs (.remote url)).fs = (release config root outcome).fs ∧
      (analyzeSource surroundings config fs (.remote url)).result = outcome.result := by
  rw [fetchFor] at succeeded ⊢
  simp [analyzeSource, succeeded, Outcome.after, release_result]

end Run

theorem Report.fs_ofOutcome (outcome : Outcome Unit) :
    (Report.ofOutcome outcome).fs = outcome.fs := rfl

theorem Report.status_eq_zero (outcome : Outcome Unit) :
    (Report.ofOutcome outcome).verdict.status = 0 ↔ outcome.result = .ok () := by
  cases result : outcome.result with
  | error failure => simp [Report.ofOutcome, result, Verdict.status]
  | ok done => simp [Report.ofOutcome, result, Verdict.status]

theorem Report.ofArguments_remote {surroundings : Surroundings} {fs : FileSystem}
    {arguments : List Bytes} {request : AnalyzeRequest} {loaded : Config}
    (read : CommandLine.read arguments = .ok (.analyze request))
    (address : isAddress request.source = true) (loads : Run.loaded fs request = .ok loaded)
    (valid : (loaded.override request.overrides).validate = .ok ()) :
    Report.ofArguments surroundings fs arguments =
      Report.ofOutcome (Run.analyzeSource surroundings (loaded.override request.overrides) fs
        (.remote request.source)) := by
  simp [Report.ofArguments, read, Run.command, Run.analyze_of_loaded surroundings loads, Run.runOver, valid,
    Run.proceed, Source.resolve, address]

/-- A run on a remote repository ends well if and only if it fetched the repository and wrote the document.
It leaves the temporary clone if and only if it fetched it and was to keep it, and nothing else is changed
but the output. -/
theorem Report.ofArguments_clone {surroundings : Surroundings}
    (confined : surroundings.client.Confined) {fs : FileSystem} (formed : fs.WellFormed)
    {arguments : List Bytes} {request : AnalyzeRequest}
    (read : CommandLine.read arguments = .ok (.analyze request))
    (address : isAddress request.source = true) {loaded : Config}
    (loads : Run.loaded fs request = .ok loaded)
    (valid : (loaded.override request.overrides).validate = .ok ()) :
    let config := loaded.override request.overrides
    let fetched := Run.fetchFor surroundings config fs request.source
    let step := Run.documented config request.source fetched
    let report := Report.ofArguments surroundings fs arguments
    (report.verdict.status = 0 ↔ ∃ outcome ∈ step, outcome.result = .ok ()) ∧
      (fetched.destination = none → step = none ∧ report.fs = fs) ∧
      ∀ clone ∈ fetched.destination, ∃ place, fs.hasEntry clone = false ∧ fs.node? place = none ∧
        Run.Settles config fs step (step.isSome && (loaded.keepClone || request.keepClone)) clone
          place report.fs := by
  intro config fetched step report
  have whole : report = _ := Report.ofArguments_remote read address loads valid
  have fetching := fetch_temporary confined formed surroundings.temporary config.tempPrefix address
  rw [whole, Report.status_eq_zero]
  rcases fetching with ⟨failure, failed⟩ | ⟨path, above, name, held⟩
  · have failed : fetched = ⟨fs, none, .error failure⟩ := failed
    have result : fetched.result = .error failure := by rw [failed]
    have no_step : step = none := by simp only [step, Run.documented, result]
    obtain ⟨same, ends⟩ := Run.analyzeSource_failed result
    refine ⟨?_, ?_, ?_⟩
    · rw [ends, no_step]
      simp
    · intro _
      refine ⟨no_step, ?_⟩
      exact same.trans (congrArg Fetched.fs failed)
    · rw [failed]
      nofun
  · obtain ⟨destination, site, agrees, after_formed, unlocked, result⟩ :
        Held fs fetched path above name := held
    have taken : fetched.destination ≠ none := by
      rw [destination]
      simp
    have absent := site.hasEntry_eq_false (.refl fs) site.free
    have kept : config.keepClone = (loaded.keepClone || request.keepClone) := rfl
    rcases result with ⟨result, directory⟩ | ⟨⟨failure, result⟩, gone⟩
    · have some_step : step = some (Run.document config fetched.fs (.remote request.source) path) := by
        simp only [step, Run.documented, result]
      have settles := Run.settles_release config request.source site agrees after_formed unlocked directory
      obtain ⟨same, ends⟩ := Run.analyzeSource_fetched result
      refine ⟨?_, fun none => absurd none taken, ?_⟩
      · rw [ends, some_step]
        simp [fetched]
      · rw [destination]
        rintro clone ⟨⟩
        refine ⟨above ++ [name], absent, site.free, ?_⟩
        rw [some_step, Option.isSome_some, Bool.true_and, ← kept, Report.fs_ofOutcome]
        exact same ▸ settles
    · have no_step : step = none := by simp only [step, Run.documented, result]
      obtain ⟨same, ends⟩ := Run.analyzeSource_failed result
      have settles := Run.settles_of_failed site agrees gone config
      refine ⟨?_, fun none => absurd none taken, ?_⟩
      · rw [ends, no_step]
        simp
      · rw [destination]
        rintro clone ⟨⟩
        refine ⟨above ++ [name], absent, site.free, ?_⟩
        rw [no_step, Report.fs_ofOutcome]
        exact same ▸ settles

def hostSystem : FileSystem where
  entries := [(Bytes.ofString "tmp", .directory []), (Bytes.ofString "work", .directory [])]
  workingDirectory := [Bytes.ofString "work"]

def hostSurroundings : Surroundings where
  client := .ofEntry (Bytes.ofString "setup.py") (.file (Bytes.ofString "def setup(): pass")) (.ok ())
  temporary := .ofString "/tmp"

def hostUrl : String := "https://github.com/owner/repo"

theorem Report.ofArguments_clone_kept :
    let config : Config := { keepClone := true }
    let clone := Path.ofString "/tmp/codesketch_065535"
    let report := Report.ofArguments hostSurroundings hostSystem
      (["analyze", "--keep-clone", hostUrl].map Bytes.ofString)
    report.fs.hasEntry clone = true ∧ ∃ place, Run.Settles config hostSystem
      (Run.documented config hostUrl (Run.fetchFor hostSurroundings config hostSystem hostUrl)) true
      clone place report.fs := by
  have confined : hostSurroundings.client.Confined := by
    refine GitClient.confined_ofEntry (by decide) ?_ (Entry.unlocked_file _) _
    exact trivial
  have formed : hostSystem.WellFormed := by decide +kernel
  have read : CommandLine.read (["analyze", "--keep-clone", hostUrl].map Bytes.ofString) =
      .ok (.analyze { source := hostUrl, keepClone := true }) := rfl
  have life := Report.ofArguments_clone confined formed read rfl rfl rfl
  obtain ⟨place, _, _, settles⟩ := life.2.2 (.ofString "/tmp/codesketch_065535") rfl
  exact ⟨settles.clone_exists.mpr rfl, place, settles⟩

end CodeAtlas

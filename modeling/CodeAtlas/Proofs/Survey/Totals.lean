import CodeAtlas.Proofs.Survey.Unchanged
import Mathlib.Algebra.GroupWithZero.Nat

/-!
# Totals, and failures that stay in their file

The totals of a survey are those of its records (`survey_totals`), and a record has one error and nothing
else if its file cannot be read (`outline_failed`). Where no link stands below the root, at most one
path of the walk leads to a file (`files_pairwise`), so that writing the file revises at most one record
(`survey_revised`).
-/

namespace CodeAtlas

/-! ## Sums -/

theorem foldl_add {α : Type} (size : α → Nat) (items : List α) (start : Nat) :
    items.foldl (fun total item => total + size item) start = start + (items.map size).sum := by
  induction items generalizing start with
  | nil => rfl
  | cons item rest ih => rw [List.foldl_cons, ih, List.map_cons, List.sum_cons, Nat.add_assoc]

/-- The totals are sums over the records, and they count the declarations of one record after the
other. -/
structure Survey.AddsUp (survey : Survey) : Prop where
  functions : survey.totalFunctions = (survey.sources.map (·.functions.length)).sum
  classes : survey.totalClasses = (survey.sources.map (·.classes.length)).sum
  allFunctions : survey.allFunctions = (survey.sources.map (·.functions)).flatten ∧
    survey.totalFunctions = survey.allFunctions.length
  allClasses : survey.allClasses = (survey.sources.map (·.classes)).flatten ∧
    survey.totalClasses = survey.allClasses.length

namespace FileSystem

theorem survey_totals (fs : FileSystem) (root : Path) (levels : Nat) :
    (fs.survey root levels).AddsUp := by
  have functions : (fs.survey root levels).totalFunctions =
      ((fs.survey root levels).sources.map (·.functions.length)).sum :=
    (foldl_add (fun source : FileOutline => source.functions.length) _ 0).trans (Nat.zero_add _)
  have classes : (fs.survey root levels).totalClasses =
      ((fs.survey root levels).sources.map (·.classes.length)).sum :=
    (foldl_add (fun source : FileOutline => source.classes.length) _ 0).trans (Nat.zero_add _)
  refine ⟨functions, classes, ⟨List.flatMap_def, ?_⟩, ⟨List.flatMap_def, ?_⟩⟩
  · rw [functions, Survey.allFunctions, List.length_flatMap]
  · rw [classes, Survey.allClasses, List.length_flatMap]

variable {fs : FileSystem} {path : Path}

/-! ## Files that cannot be read -/

def isReadable (fs : FileSystem) (path : Path) : Bool :=
  match fs.find true path with
  | .ok (_, .file content) => (Bytes.decode? content).isSome
  | _ => false

end FileSystem

namespace FileOutline

structure Failed (file : FileOutline) : Prop where
  single : file.errors.length = 1
  functions : file.functions = []
  classes : file.classes = []
  imports : file.imports = []

def ofContent (path : Path) (content : Bytes) : FileOutline :=
  match Bytes.decode? content with
  | some text => ofSource path text
  | none => { blank path with errors := [(Failure.io .notText).message] }

theorem Failed.hasErrors {file : FileOutline} (failed : file.Failed) : file.hasErrors = true := by
  rw [FileOutline.hasErrors, Bool.not_eq_true', List.isEmpty_eq_false_iff]
  intro none
  have single := failed.single
  rw [none] at single
  cases single

theorem failed_blank (path : Path) (reason : String) : { blank path with errors := [reason] }.Failed :=
  ⟨rfl, rfl, rfl, rfl⟩

end FileOutline

namespace FileSystem

variable {fs other : FileSystem} {root path : Path} {place : Place}

theorem outline_of_readBytes {content : Bytes} (read : fs.readBytes path = .ok content) :
    fs.outline path = .ofContent path content := by
  cases decoded : content.decode? with
  | none => simp only [outline, readText, read, FileOutline.ofContent, decoded]
  | some text => simp only [outline, readText, read, FileOutline.ofContent, decoded]

theorem outline_failed (fs : FileSystem) (path : Path) :
    (fs.isReadable path = true ∧ (fs.outline path).hasErrors = false) ∨
      (fs.isReadable path = false ∧ (fs.outline path).Failed) := by
  cases read : fs.readBytes path with
  | error fault =>
      refine .inr ⟨?_, ?_⟩
      · unfold isReadable
        split
        · rename_i place content found
          rw [readBytes_eq_ok_iff.mpr ⟨place, found⟩] at read
          cases read
        · rfl
      · rw [outline, readText, read]
        exact FileOutline.failed_blank _ _
  | ok content =>
      obtain ⟨place, found⟩ := readBytes_eq_ok_iff.mp read
      rw [outline_of_readBytes read]
      cases decoded : content.decode? with
      | none =>
          simp only [isReadable, found, FileOutline.ofContent, decoded]
          exact .inr ⟨rfl, FileOutline.failed_blank _ _⟩
      | some text =>
          simp only [isReadable, found, FileOutline.ofContent, decoded]
          exact .inl ⟨rfl, by rw [FileOutline.hasErrors, Python.errors_ofSource]; rfl⟩

theorem hasErrors_outline (fs : FileSystem) (path : Path) :
    (fs.outline path).hasErrors = !fs.isReadable path := by
  rcases outline_failed fs path with ⟨readable, clean⟩ | ⟨closed, failed⟩
  · rw [readable, clean]
    rfl
  · rw [closed, failed.hasErrors]
    rfl

theorem mem_sources {levels : Nat} {file : FileOutline}
    (member : file ∈ (fs.survey root levels).sources) :
    file.path ∈ (fs.files root).filter Path.isSource ∧ file = fs.outline file.path := by
  obtain ⟨path, among, rfl⟩ := List.mem_map.mp member
  rw [path_outline]
  exact ⟨among, rfl⟩

/-! ## Paths of the walk -/

def LinkFreeBelow (fs : FileSystem) (root : Path) : Prop :=
  ∀ place, fs.canonical root = .ok place → ∀ below target,
    fs.node? (place ++ below) ≠ some (.symlink target)

theorem canonical_eq_ok_iff :
    fs.canonical path = .ok place ↔ ∃ entry, fs.find true path = .ok (place, entry) := by
  rw [canonical]
  cases fs.find true path with
  | error fault => simp [Except.map]
  | ok arrival =>
      obtain ⟨reached, entry⟩ := arrival
      simp [Except.map]

theorem files_of_not_opened
    (shut : ¬ ∃ place entries, fs.find true root = .ok (place, .directory entries)) :
    fs.files root = [] ∨ fs.files root = [root] ∧ fs.hasEntry root = true := by
  have noDirectory : ∀ mode place entries, fs.find mode root ≠ .ok (place, .directory entries) :=
    fun mode place entries found => shut ⟨place, entries, find_directory found⟩
  rw [files, hasEntry]
  cases own : fs.find false root with
  | error fault => exact .inl rfl
  | ok arrival =>
      obtain ⟨place, entry⟩ := arrival
      cases entry with
      | directory entries => exact absurd own (noDirectory _ _ _)
      | file content =>
          rw [find_file own]
          exact .inr ⟨rfl, rfl⟩
      | locked entries => exact .inl rfl
      | symlink target =>
          cases here : fs.find true root with
          | error fault => exact .inl rfl
          | ok arrival =>
              obtain ⟨reached, entry⟩ := arrival
              cases entry with
              | directory entries => exact absurd here (noDirectory _ _ _)
              | file content => exact .inr ⟨rfl, rfl⟩
              | symlink target => exact .inr ⟨rfl, rfl⟩
              | locked entries => exact .inr ⟨rfl, rfl⟩

section Directory

variable {entries : List (Name × Entry)} (formed : fs.WellFormed) (linkFree : fs.LinkFreeBelow root)
  (found : fs.find true root = .ok (place, .directory entries))

include formed linkFree found

theorem find_listed {below : Place} (listed : below ∈ Entry.listedPlaces root entries)
    (short : (root.descend below).bytes.length ≤ maxPathLength) :
    ∃ content, fs.find true (root.descend below) = .ok (place ++ below, .file content) := by
  have here := (find_eq_ok_iff.mp found).2
  have leads : fs.canonical root = .ok place := canonical_eq_ok_iff.mpr ⟨_, found⟩
  obtain ⟨entry, reached, leaf, -⟩ :=
    (Entry.mem_listedPlaces (formed.get? here) (leads_of_find found).1.nonempty below).mp listed
  have stands := get?_below here below
  rw [reached] at stands
  cases entry with
  | directory inner => cases leaf
  | locked inner => cases leaf
  | symlink target => exact absurd (node?_of_get? stands) (linkFree place leads below target)
  | file content => exact ⟨content, find_descend formed found reached (by simp) short⟩

end Directory

theorem files_pairwise (formed : fs.WellFormed) (linkFree : fs.LinkFreeBelow root) {content : Bytes}
    (file : fs.get? place = some (.file content)) :
    (fs.files root).Pairwise fun p q => ¬ (fs.canonical p = .ok place ∧ fs.canonical q = .ok place) := by
  by_cases opens : ∃ above entries, fs.find true root = .ok (above, .directory entries)
  · obtain ⟨above, entries, found⟩ := opens
    have here := (find_eq_ok_iff.mp found).2
    have spot : ∀ below ∈ Entry.listedPlaces root entries,
        fs.canonical (root.descend below) = .ok place → place = above ++ below := by
      intro below listed leads
      obtain ⟨entry, reached⟩ := canonical_eq_ok_iff.mp leads
      have short := (usable_of_resolve (find_eq_ok_iff.mp reached).1).short
      obtain ⟨own, opened⟩ := find_listed formed linkFree found listed short
      rw [opened] at reached
      exact (Prod.mk.inj (Except.ok.inj reached)).1.symm
    rw [files_eq formed found, List.pairwise_append]
    refine ⟨?_, ?_, fun p own q _ both => ?_⟩
    · split
      · exact List.pairwise_singleton _ _
      · exact .nil
    · rw [List.pairwise_map]
      refine (Entry.listedPlaces_pairwise root (formed.get? here)).imp_of_mem ?_
      intro first second among later before both
      have same := (spot first among both.1).symm.trans (spot second later both.2)
      rw [List.append_cancel_left_eq] at same
      exact Entry.not_comesBefore_self first (same ▸ before)
    · -- The root leads to a directory.
      have rooted : p = root := by
        split at own
        · exact List.mem_singleton.mp own
        · cases own
      obtain ⟨entry, reached⟩ := canonical_eq_ok_iff.mp both.1
      rw [rooted, found] at reached
      cases reached
      rw [file] at here
      cases here
  · rcases files_of_not_opened opens with none | ⟨single, -⟩
    · rw [none]
      exact .nil
    · rw [single]
      exact List.pairwise_singleton _ _

theorem sources_split (formed : fs.WellFormed) (linkFree : fs.LinkFreeBelow root) {content : Bytes}
    (file : fs.get? place = some (.file content))
    (member : path ∈ (fs.files root).filter Path.isSource) (leads : fs.canonical path = .ok place) :
    ∃ front back, (fs.files root).filter Path.isSource = front ++ path :: back ∧
      ∀ other ∈ front ++ back, fs.canonical other ≠ .ok place := by
  have alone := (files_pairwise formed linkFree file).filter Path.isSource
  obtain ⟨front, back, split⟩ := List.append_of_mem member
  refine ⟨front, back, split, ?_⟩
  rw [split, List.pairwise_append, List.pairwise_cons] at alone
  obtain ⟨-, ⟨later, -⟩, across⟩ := alone
  rw [List.forall_mem_append]
  exact ⟨fun other among there => across other among path List.mem_cons_self ⟨there, leads⟩,
    fun other among there => later other among ⟨leads, there⟩⟩

theorem hasEntry_of_mem_files (formed : fs.WellFormed) (linkFree : fs.LinkFreeBelow root)
    (member : path ∈ fs.files root) (short : path.bytes.length ≤ maxPathLength) :
    fs.hasEntry path = true := by
  by_cases opens : ∃ above entries, fs.find true root = .ok (above, .directory entries)
  · obtain ⟨above, entries, found⟩ := opens
    rw [files_eq formed found, List.mem_append] at member
    rcases member with own | listed
    · have rooted : path = root := by
        split at own
        · exact List.mem_singleton.mp own
        · cases own
      exact rooted ▸ hasEntry_eq_true_iff.mpr ⟨above, _, found⟩
    · obtain ⟨below, among, rfl⟩ := List.mem_map.mp listed
      obtain ⟨content, opened⟩ := find_listed formed linkFree found among short
      exact hasEntry_eq_true_iff.mpr ⟨_, _, opened⟩
  · rcases files_of_not_opened opens with none | ⟨single, present⟩
    · rw [none] at member
      cases member
    · rw [single, List.mem_singleton] at member
      rw [member, present]

theorem not_symlink_of_find {target : Path} (formed : fs.WellFormed) :
    fs.find true path ≠ .ok (place, .symlink target) := by
  intro found
  obtain ⟨resolved, here⟩ := find_eq_ok_iff.mp found
  obtain ⟨usable, used, last, rest, enough, leads, stops⟩ := leads_of_resolve resolved
  cases stops with
  | arrived =>
      have directory := leads.directory (formed.start path)
      rw [node?_of_get? here] at directory
      cases directory
  | file step file =>
      rw [file] at here
      cases here
  | locked step locked empty =>
      rw [locked] at here
      cases here
  | link step link followed => cases followed

theorem usable_of_writeBytes {content : Bytes} (written : fs.writeBytes path content = .ok other) :
    Usable path := by
  cases resolved : fs.resolve true path with
  | error fault =>
      rw [writeBytes, resolved] at written
      cases written
  | ok arrival => exact usable_of_resolve resolved

theorem find_of_writeBytes (formed : fs.WellFormed) (present : fs.hasEntry path = true) {content : Bytes}
    (written : fs.writeBytes path content = .ok other) :
    ∃ place old, fs.find true path = .ok (place, .file old) := by
  obtain ⟨place, entry, found⟩ := hasEntry_eq_true_iff.mp present
  obtain ⟨resolved, here⟩ := find_eq_ok_iff.mp found
  cases entry with
  | file old => exact ⟨place, old, found⟩
  | directory entries =>
      rw [writeBytes, resolved] at written
      simp only [here] at written
      cases written
  | locked entries =>
      rw [writeBytes, resolved] at written
      simp only [here] at written
      cases written
  | symlink target => exact absurd found (not_symlink_of_find formed)

/-! ## Two surveys -/

structure Revises (before after : Survey) (file record : FileOutline) : Prop where
  fileTree : after.fileTree = before.fileTree
  totalFiles : after.totalFiles = before.totalFiles
  sources : ∃ front back, before.sources = front ++ file :: back ∧
    after.sources = front ++ record :: back ∧ ∀ other ∈ front ++ back, other.path ≠ file.path
  totalFunctions : after.totalFunctions + file.functions.length =
    before.totalFunctions + record.functions.length
  totalClasses : after.totalClasses + file.classes.length = before.totalClasses + record.classes.length
  errorCount : after.errorCount + [file].countP (·.hasErrors) =
    before.errorCount + [record].countP (·.hasErrors)

section Writing

variable {away : Path} {content old : Bytes} (formed : fs.WellFormed)
  (opened : fs.find true away = .ok (place, .file old)) (written : fs.writeBytes away content = .ok other)

include formed opened written

theorem writes_of_opened : Writes fs other away content place := by
  obtain ⟨spot, writes⟩ := writeBytes_eq_ok formed written
  exact writes.place_eq opened ▸ writes

theorem outline_apart (apart : fs.canonical path ≠ .ok place) : other.outline path = fs.outline path := by
  have writes := writes_of_opened formed opened written
  rw [outline, outline, (writes.sameShape opened).readText (fun _ => writes.elsewhere) apart]

theorem outline_there (leads : fs.canonical path = .ok place) :
    other.outline path = .ofContent path content := by
  have writes := writes_of_opened formed opened written
  obtain ⟨entry, found⟩ := canonical_eq_ok_iff.mp leads
  rcases (writes.sameShape opened).find path with ⟨fault, here, -⟩ | ⟨reached, _, stays, here, there, -⟩
  · rw [found] at here
    cases here
  · rw [found] at here
    cases here
    have stands := (find_eq_ok_iff.mp there).2
    rw [node?_eq_file.mp writes.node, Option.some.injEq] at stands
    exact outline_of_readBytes (readBytes_eq_ok_iff.mpr ⟨_, stands ▸ there⟩)

theorem survey_revised {root : Path} (linkFree : fs.LinkFreeBelow root) {levels : Nat} {file : FileOutline}
    (member : file ∈ (fs.survey root levels).sources) (leads : fs.canonical file.path = .ok place) :
    Revises (fs.survey root levels) (other.survey root levels) file (.ofContent file.path content) := by
  have writes := writes_of_opened formed opened written
  have shape := writes.sameShape opened
  have files := shape.files formed writes.formed root
  obtain ⟨among, own⟩ := mem_sources member
  obtain ⟨front, back, split, apart⟩ :=
    sources_split formed linkFree (find_eq_ok_iff.mp opened).2 among leads
  have same : ∀ paths : List Path, (∀ path ∈ paths, fs.canonical path ≠ .ok place) →
      paths.map other.outline = paths.map fs.outline := fun paths apart =>
    List.map_congr_left fun path member => outline_apart formed opened written (apart path member)
  rw [List.forall_mem_append] at apart
  have before : (fs.survey root levels).sources =
      front.map fs.outline ++ file :: back.map fs.outline := by
    rw [own]
    exact (congrArg (List.map fs.outline) split).trans (by simp)
  have after : (other.survey root levels).sources =
      front.map fs.outline ++ .ofContent file.path content :: back.map fs.outline := by
    have sources : (other.survey root levels).sources =
        ((other.files root).filter Path.isSource).map other.outline := rfl
    rw [sources, files, split, List.map_append, List.map_cons, same front apart.1, same back apart.2,
      outline_there formed opened written leads]
  refine ⟨shape.tree formed writes.formed root levels, congrArg List.length files,
    ⟨_, _, before, after, fun record among same => ?_⟩, ?_, ?_, ?_⟩
  · rw [← List.map_append] at among
    obtain ⟨path, inside, rfl⟩ := List.mem_map.mp among
    rw [path_outline] at same
    exact List.forall_mem_append.mpr apart path inside (same ▸ leads)
  · rw [(survey_totals other root levels).functions, (survey_totals fs root levels).functions,
      before, after]
    simp only [List.map_append, List.map_cons, List.sum_append, List.sum_cons]
    omega
  · rw [(survey_totals other root levels).classes, (survey_totals fs root levels).classes,
      before, after]
    simp only [List.map_append, List.map_cons, List.sum_append, List.sum_cons]
    omega
  · simp only [Survey.errorCount, Survey.failed, ← List.countP_eq_length_filter, before, after,
      List.countP_append, List.countP_cons, List.countP_nil]
    omega

theorem survey_unrevised {root : Path} {levels : Nat}
    (apart : ∀ file ∈ (fs.survey root levels).sources, fs.canonical file.path ≠ .ok place) :
    other.survey root levels = fs.survey root levels := by
  have writes := writes_of_opened formed opened written
  have shape := writes.sameShape opened
  refine shape.survey formed writes.formed (fun path listed source => ?_) levels
  have away := apart (fs.outline path) (List.mem_map_of_mem (List.mem_filter.mpr ⟨listed, source⟩))
  rw [path_outline] at away
  exact shape.readText (fun _ => writes.elsewhere) away

end Writing

/-- The totals of a survey are those of its records. A record tells of a failure if its file is not
readable, and of nothing else then. Where no link stands below the root, writing such a file changes no
other record, and it adds to the totals what the file then holds. Writing a file to which no record leads
changes nothing. -/
theorem survey_failures (fs : FileSystem) (root : Path) (levels : Nat) :
    let survey := fs.survey root levels
    survey.AddsUp ∧
      (∀ file ∈ survey.sources, (file.hasErrors = true ↔ fs.isReadable file.path = false) ∧
        (file.hasErrors = true → file.Failed)) ∧
      survey.errorCount = survey.sources.countP (fun file => !fs.isReadable file.path) ∧
      (fs.WellFormed → fs.LinkFreeBelow root → ∀ file ∈ survey.sources, file.hasErrors = true →
        ∀ content other, fs.writeBytes file.path content = .ok other →
          let record := FileOutline.ofContent file.path content
          let revised := other.survey root levels
          Revises survey revised file record ∧
            revised.totalFunctions = survey.totalFunctions + record.functions.length ∧
            revised.totalClasses = survey.totalClasses + record.classes.length) ∧
      (fs.WellFormed → ∀ away place old content other, fs.find true away = .ok (place, .file old) →
        fs.writeBytes away content = .ok other →
          (∀ file ∈ survey.sources, fs.canonical file.path ≠ .ok place) →
            other.survey root levels = survey) := by
  intro survey
  have errors : ∀ file ∈ survey.sources, file.hasErrors = !fs.isReadable file.path := by
    intro file member
    obtain ⟨-, own⟩ := mem_sources member
    rw [own, hasErrors_outline, path_outline]
  have fails : ∀ file ∈ survey.sources, file.hasErrors = true → file.Failed := by
    intro file member failed
    obtain ⟨-, own⟩ := mem_sources member
    rw [own] at failed ⊢
    exact (outline_failed fs file.path).elim (fun clean => by simp [clean.2] at failed) (·.2)
  refine ⟨survey_totals fs root levels, fun file member => ⟨?_, fails file member⟩, ?_, ?_, ?_⟩
  · rw [errors file member, Bool.not_eq_true']
  · rw [Survey.errorCount, Survey.failed, ← List.countP_eq_length_filter]
    exact List.countP_congr fun file member => by rw [errors file member]
  · intro formed linkFree file member failed content other written record revised
    obtain ⟨among, -⟩ := mem_sources member
    have short := (usable_of_writeBytes written).short
    have present := hasEntry_of_mem_files formed linkFree (List.mem_filter.mp among).1 short
    obtain ⟨place, old, opened⟩ := find_of_writeBytes formed present written
    have leads := canonical_eq_ok_iff.mpr ⟨_, opened⟩
    have revises := survey_revised formed opened written linkFree member leads
    have functions := revises.totalFunctions
    have classes := revises.totalClasses
    rw [(fails file member failed).functions] at functions
    rw [(fails file member failed).classes] at classes
    exact ⟨revises, functions, classes⟩
  · exact fun formed away place old content other opened written apart =>
      survey_unrevised formed opened written apart

theorem linkFreeBelow_of_linkFree (formed : fs.WellFormed) (linkFree : fs.top.LinkFree) (root : Path) :
    fs.LinkFreeBelow root := by
  intro place _ below target link
  have member := (Entry.mem_descendants_iff fs.top formed.top).mpr (node?_eq_symlink.mp link)
  exact linkFree _ member target rfl

def pairedSources (content : Bytes) : FileSystem where
  entries := [(Bytes.ofString "p", .directory [(Bytes.ofString "a.py", .file content),
    (Bytes.ofString "b.py", .file (Bytes.ofString "def g(): pass\n"))])]
  workingDirectory := []

theorem survey_failures_repaired :
    let survey := (pairedSources [0xFF]).survey (.ofString "p") 3
    let content := Bytes.ofString "def f(): pass\nclass A: pass\n"
    survey.errorCount = 1 ∧ survey.totalFunctions = 1 ∧ ∃ file ∈ survey.sources, ∃ other,
      (pairedSources [0xFF]).writeBytes (.ofString "p/a.py") content = .ok other ∧
        Revises survey (other.survey (.ofString "p") 3) file (.ofContent file.path content) ∧
        (other.survey (.ofString "p") 3).totalFunctions = 2 ∧
        (other.survey (.ofString "p") 3).totalClasses = 1 := by
  intro survey content
  have formed : (pairedSources [0xFF]).WellFormed := by decide +kernel
  have linkFree : (pairedSources [0xFF]).LinkFreeBelow (.ofString "p") := by
    refine linkFreeBelow_of_linkFree formed ?_ _
    simp [Entry.LinkFree, Entry.descendants, Entry.descendantsIn, FileSystem.top, pairedSources]
  have member : (pairedSources [0xFF]).outline (.ofString "p/a.py") ∈ survey.sources := by decide +kernel
  have written : (pairedSources [0xFF]).writeBytes (.ofString "p/a.py") content =
      .ok (pairedSources content) := rfl
  obtain ⟨-, -, count, revised, -⟩ := survey_failures (pairedSources [0xFF]) (.ofString "p") 3
  obtain ⟨revises, functions, classes⟩ :=
    revised formed linkFree _ member (by decide +kernel) content _ (by exact written)
  refine ⟨count.trans (by decide +kernel), by decide +kernel, _, member, _, written, revises, ?_, ?_⟩
  · exact functions.trans (by decide +kernel)
  · exact classes.trans (by decide +kernel)

end FileSystem
end CodeAtlas

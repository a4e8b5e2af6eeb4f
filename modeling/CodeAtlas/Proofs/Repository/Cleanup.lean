import CodeAtlas.Proofs.FileSystem.Removal
import CodeAtlas.Proofs.Survey.Walk
import CodeAtlas.Repository.Fetch

/-!
# Removing a working copy

Whether there is something to remove is asked with links followed, and what is removed is found without
following a link at the end. So a link that leads somewhere is removed itself, one that leads nowhere
stays, and a directory goes with all that is below it, but with nothing that a link in it leads to
(`cleanup_ends`). A directory that holds a locked one goes in part.
-/

namespace CodeAtlas.Repository

open FileSystem

variable {fs made : FileSystem} {path : Path} {place : Place}

/-- The place is that of the path, whose last link is not followed, or it is below a directory there. -/
def Covers (fs : FileSystem) (path : Path) (place : Place) : Prop :=
  ∃ own entry, fs.find false path = .ok (own, entry) ∧
    (place = own ∨ entry.isDirectory = true ∧ own <+: place)

/-- The path leads nowhere, a directory at its end is gone with all that was below, and no other place is
changed. A directory that the way itself passes through is left empty. -/
structure Cleaned (fs made : FileSystem) (path : Path) : Prop where
  missing : made.hasEntry path = false
  workingDirectory : made.workingDirectory = fs.workingDirectory
  unchanged : ∀ place, ¬ Covers fs path place → made.node? place = fs.node? place
  emptied : ∀ own entries, fs.find false path = .ok (own, .directory entries) →
    (made.node? own = none ∨ fs.PassesThrough path own) ∧
      ∀ name rest, made.node? (own ++ name :: rest) = none
  again : cleanup made path = (made, .ok ())

/-! ## The ways of a removal -/

theorem cleanup_missing (missing : fs.hasEntry path = false) : cleanup fs path = (fs, .ok ()) := by
  rw [cleanup, missing, if_neg Bool.false_ne_true]

theorem cleanup_removed (present : fs.hasEntry path = true)
    (removed : fs.removeAll path = (made, .ok ())) :
    cleanup fs path = (made, .ok ()) := by
  rw [cleanup, present, if_pos rfl, removed]

theorem cleaned_missing (missing : fs.hasEntry path = false) : Cleaned fs fs path := by
  refine ⟨missing, rfl, fun _ _ => rfl, fun own entries found => ?_, cleanup_missing missing⟩
  rw [hasEntry, find_directory found] at missing
  cases missing

theorem Cleaned.of_removes {entry : Entry} (removes : Removes fs made path place)
    (found : fs.find false path = .ok (place, entry))
    (itself : entry.isDirectory = true → made.node? place = none ∨ fs.PassesThrough path place)
    (alone : entry.isDirectory = false →
      ∀ elsewhere, elsewhere ≠ place → made.node? elsewhere = fs.node? elsewhere) :
    Cleaned fs made path := by
  have missing : made.hasEntry path = false := by
    rw [hasEntry, removes.missing true]
    rfl
  refine ⟨missing, removes.agrees.workingDirectory, fun elsewhere apart => ?_,
    fun own entries stood => ?_, cleanup_missing missing⟩
  · cases directory : entry.isDirectory with
    | true =>
        have outside : ¬ place <+: elsewhere := fun inside =>
          apart ⟨place, entry, found, .inr ⟨directory, inside⟩⟩
        exact removes.agrees.node elsewhere outside
    | false => exact alone directory elsewhere fun same => apart ⟨place, entry, found, .inl same⟩
  · rw [found, Except.ok.injEq, Prod.mk.injEq] at stood
    obtain ⟨rfl, rfl⟩ := stood
    exact ⟨itself rfl, removes.below⟩

theorem cleanup_link {target : Path} (formed : fs.WellFormed) (fits : fs.NamesFit)
    (bare : EndsWithBareName path) (found : fs.find false path = .ok (place, .symlink target))
    (present : fs.hasEntry path = true) :
    ∃ made, cleanup fs path = (made, .ok ()) ∧ Cleaned fs made path := by
  obtain ⟨above, name, rfl, names⟩ := names_of_find formed bare found
  obtain ⟨removed, removes⟩ := removeAll_link formed fits names found
  refine ⟨_, cleanup_removed present removed, .of_removes removes found nofun fun _ elsewhere apart => ?_⟩
  by_cases inside : above ++ [name] <+: elsewhere
  · obtain ⟨rest, rfl⟩ := inside
    cases rest with
    | nil => exact absurd (List.append_nil _) apart
    | cons next rest =>
        rw [removes.below]
        cases stood : fs.node? (above ++ [name] ++ next :: rest) with
        | none => rfl
        | some node =>
            have directory := node?_above (stood ▸ Option.some_ne_none node)
            rw [node?_of_get? (find_eq_ok_iff.mp found).2] at directory
            cases directory
  · exact removes.agrees.node elsewhere inside

theorem cleanup_directory {entries : List (Name × Entry)} (formed : fs.WellFormed) (fits : fs.NamesFit)
    (bare : EndsWithBareName path) (found : fs.find false path = .ok (place, .directory entries))
    (nothing : Entry.remainsIn entries = []) :
    ∃ made, cleanup fs path = (made, .ok ()) ∧ Cleaned fs made path := by
  have present := hasEntry_eq_true_iff.mpr ⟨place, _, find_directory found⟩
  obtain ⟨above, name, rfl, names⟩ := names_of_find formed bare found
  obtain ⟨made, removed, removes, itself⟩ := removeAll_directory formed fits names bare found nothing
  refine ⟨made, cleanup_removed present removed, .of_removes removes found (fun _ => itself) ?_⟩
  intro leaf
  cases leaf

inductive CleanupEnds (fs : FileSystem) (path : Path) : FileSystem × Except Failure Unit → Prop where
  | cleaned {made : FileSystem} (cleaned : Cleaned fs made path) : CleanupEnds fs path (made, .ok ())
  | file {own : Place} {content : Bytes} (found : fs.find false path = .ok (own, .file content)) :
      CleanupEnds fs path (fs, .error (.cleanup path .notADirectory))
  | denied {made : FileSystem} (locked : ¬ fs.MayRemove path)
      (unchanged : ∀ place, ¬ Covers fs path place → made.node? place = fs.node? place) :
      CleanupEnds fs path (made, .error (.cleanup path .permissionDenied))

theorem cleanup_ends (formed : fs.WellFormed) (fits : fs.NamesFit) (bare : EndsWithBareName path) :
    CleanupEnds fs path (cleanup fs path) := by
  cases present : fs.hasEntry path with
  | false =>
      rw [cleanup_missing present]
      exact .cleaned (cleaned_missing present)
  | true =>
      obtain ⟨own, entry, found⟩ := find_false_of_hasEntry present
      have here := (find_eq_ok_iff.mp found).2
      cases entry with
      | symlink target =>
          obtain ⟨made, removed, cleaned⟩ := cleanup_link formed fits bare found present
          rw [removed]
          exact .cleaned cleaned
      | file content =>
          rw [cleanup, present, if_pos rfl, removeAll, found]
          exact .file found
      | locked entries =>
          rw [cleanup, present, if_pos rfl, removeAll, found]
          refine .denied (fun removable => ?_) fun _ _ => rfl
          refine removable own _ found [] entries ?_
          rw [List.append_nil]
          exact node?_eq_locked.mpr here
      | directory entries =>
          by_cases nothing : Entry.remainsIn entries = []
          · obtain ⟨made, removed, cleaned⟩ := cleanup_directory formed fits bare found nothing
            rw [removed]
            exact .cleaned cleaned
          · obtain ⟨above, name, rfl, names⟩ := names_of_find formed bare found
            rw [cleanup, present, if_pos rfl, removeAll, found]
            simp only [List.isEmpty_iff, nothing, if_false]
            refine .denied (fun removable => ?_) fun elsewhere apart => ?_
            · exact nothing ((removable _ _ found).remainsIn_eq_nil formed here)
            · refine (agreesOutside_altered formed _ name names.directory).node elsewhere fun inside => ?_
              exact apart ⟨_, _, found, .inr ⟨rfl, inside⟩⟩

/-- A removal that succeeds leaves nothing at its path and everything elsewhere. One that fails leaves
everything elsewhere; if no permission is missing, it was asked to remove a file and leaves that too. -/
theorem cleanup_effect (formed : fs.WellFormed) (fits : fs.NamesFit) (bare : EndsWithBareName path) :
    (∀ made, cleanup fs path = (made, .ok ()) → Cleaned fs made path) ∧
      (∀ made failure, cleanup fs path = (made, .error failure) →
        (∃ fault, failure = .cleanup path fault) ∧
          ∀ place, ¬ Covers fs path place → made.node? place = fs.node? place) ∧
      (fs.MayRemove path →
        (∀ made failure, cleanup fs path = (made, .error failure) →
          made = fs ∧ failure = .cleanup path .notADirectory) ∧
        ((∃ made failure, cleanup fs path = (made, .error failure)) ↔
          ∃ own content, fs.find false path = .ok (own, .file content))) := by
  have file : (∃ own content, fs.find false path = .ok (own, .file content)) →
      cleanup fs path = (fs, .error (.cleanup path .notADirectory)) := by
    rintro ⟨own, content, found⟩
    have present := hasEntry_eq_true_iff.mpr ⟨own, _, find_file found⟩
    rw [cleanup, present, if_pos rfl, removeAll, found]
  have ends := cleanup_ends formed fits bare
  generalize cleanup fs path = outcome at ends file ⊢
  cases ends with
  | @cleaned made cleaned =>
      refine ⟨?_, ?_, fun _ => ⟨?_, ?_, fun own => ?_⟩⟩
      · rintro other ⟨⟩
        exact cleaned
      · rintro other failure ⟨⟩
      · rintro other failure ⟨⟩
      · rintro ⟨other, failure, ⟨⟩⟩
      · cases file own
  | @file own content found =>
      refine ⟨?_, ?_, fun _ => ⟨?_, fun _ => ⟨own, content, found⟩, fun _ => ⟨_, _, rfl⟩⟩⟩
      · rintro other ⟨⟩
      · rintro other failure ⟨⟩
        exact ⟨⟨_, rfl⟩, fun _ _ => rfl⟩
      · rintro other failure ⟨⟩
        exact ⟨rfl, rfl⟩
  | @denied made locked unchanged =>
      refine ⟨?_, ?_, fun removable => absurd removable locked⟩
      · rintro other ⟨⟩
      · rintro other failure ⟨⟩
        exact ⟨⟨_, rfl⟩, unchanged⟩

def linkedDirectories : FileSystem where
  entries := [(Bytes.ofString "clone", .directory
      [(Bytes.ofString "src", .directory [(Bytes.ofString "a.py", .file [])]),
        (Bytes.ofString "out", .symlink (.ofString "../kept"))]),
    (Bytes.ofString "kept", .directory [(Bytes.ofString "notes", .file (Bytes.ofString "Notes"))]),
    (Bytes.ofString "latest", .symlink (.ofString "clone"))]
  workingDirectory := []

theorem namesFit_of_descendants (formed : fs.WellFormed)
    (short : ∀ item ∈ fs.top.descendants, ∀ name ∈ item.1, name.length ≤ maxNameLength) :
    fs.NamesFit := by
  intro place name present
  rw [Ne, node?_eq_none] at present
  obtain ⟨entry, found⟩ := Option.ne_none_iff_exists'.mp present
  have member := (Entry.mem_descendants_iff fs.top formed.top).mpr found
  exact short _ member name (by simp)

theorem cleanup_effect_detour :
    let path := Path.ofString "clone/src/../../clone"
    ∃ made, cleanup linkedDirectories path = (made, .ok ()) ∧ Cleaned linkedDirectories made path ∧
      made.readText (.ofString "kept/notes") = .ok "Notes" ∧ made.list (.ofString "latest") = .ok [] := by
  have formed : linkedDirectories.WellFormed := by decide +kernel
  have fits : linkedDirectories.NamesFit := namesFit_of_descendants formed (by decide)
  have bare : EndsWithBareName (.ofString "clone/src/../../clone") := ⟨_, rfl, by decide, by decide⟩
  exact ⟨_, rfl, (cleanup_effect formed fits bare).1 _ rfl, rfl, rfl⟩

end CodeAtlas.Repository

import CodeAtlas.Proofs.FileSystem.Shape

namespace CodeAtlas.FileSystem

/-- Two file systems that differ at most in what the file at a place holds. -/
structure Variant (place : Place) (fs other : FileSystem) : Prop where
  formed : fs.WellFormed
  otherFormed : other.WellFormed
  shape : SameShape fs other
  elsewhere : ∀ there, there ≠ place → other.node? there = fs.node? there

variable {fs other : FileSystem}

theorem SameShape.directory_iff (shape : SameShape fs other) {place : Place} :
    other.node? place = some .directory ↔ fs.node? place = some .directory := by
  have alike := shape.alike place
  rw [node?_eq_directory, node?_eq_directory]
  generalize fs.get? place = here, other.get? place = there at alike
  cases alike <;> simp

theorem SameShape.canonical (shape : SameShape fs other) (path : Path) :
    other.canonical path = fs.canonical path := by
  rw [FileSystem.canonical, FileSystem.canonical]
  rcases shape.find path with ⟨fault, here, there⟩ | ⟨place, _, _, here, there, -⟩
  · rw [here, there]
  · rw [here, there]
    rfl

namespace Variant

variable {place : Place}

theorem readText (variant : Variant place fs other) {path : Path}
    (apart : fs.canonical path ≠ .ok place) : other.readText path = fs.readText path :=
  variant.shape.readText variant.elsewhere apart

/-! ## New entries -/

theorem node?_put (variant : Variant place fs other) {above : Place}
    (directory : fs.node? above = some .directory) (name : Name) (entry : Entry) (there : Place) :
    (other.put (above ++ [name]) entry).node? there = (fs.put (above ++ [name]) entry).node? there ∨
      (fs.put (above ++ [name]) entry).node? there = fs.node? there ∧
        (other.put (above ++ [name]) entry).node? there = other.node? there := by
  have also := variant.shape.directory_iff.mpr directory
  rw [put_eq_altered, put_eq_altered]
  -- The new entry is the same in both, with all that is below it.
  by_cases inside : above ++ [name] <+: there
  · obtain ⟨rest, rfl⟩ := inside
    left
    have here := get?_altered variant.formed (some entry) name directory rest
    have stays := get?_altered variant.otherFormed (some entry) name also rest
    rw [List.append_assoc, List.singleton_append, node?, Entry.node?, node?, Entry.node?]
    exact congrArg (Option.map Entry.node) (stays.trans here.symm)
  · right
    exact ⟨(agreesOutside_altered variant.formed _ name directory).node there inside,
      (agreesOutside_altered variant.otherFormed _ name also).node there inside⟩

theorem put (variant : Variant place fs other) {above : Place} {name : Name} {entry : Entry}
    (directory : fs.node? above = some .directory) (regular : IsEntryName name)
    (entryFormed : entry.WellFormed) (no_directory : fs.node? (above ++ [name]) ≠ some .directory) :
    Variant place (fs.put (above ++ [name]) entry) (other.put (above ++ [name]) entry) := by
  have made : ∀ own, some entry = some own → own.WellFormed := by
    rintro own ⟨⟩
    exact entryFormed
  have also := mt variant.shape.directory_iff.mp no_directory
  refine ⟨?_, ?_, ⟨?_, fun there => ?_⟩, fun there apart => ?_⟩
  · exact variant.formed.altered _ directory regular made
      (apart_of_no_directory variant.formed no_directory)
  · exact variant.otherFormed.altered _ (variant.shape.directory_iff.mpr directory) regular made
      (apart_of_no_directory variant.otherFormed also)
  · rw [put_eq_altered, put_eq_altered, workingDirectory_altered, workingDirectory_altered]
    exact variant.shape.workingDirectory
  · rcases variant.node?_put directory name entry there with same | ⟨here, stays⟩
    · rw [same]
    · rw [here, stays]
      exact variant.shape.node there
  · rcases variant.node?_put directory name entry there with same | ⟨here, stays⟩
    · exact same
    · rw [here, stays]
      exact variant.elsewhere there apart

inductive EndAlike (place : Place) : Except Fault FileSystem → Except Fault FileSystem → Prop where
  | failed (fault : Fault) : EndAlike place (.error fault) (.error fault)
  | made {made remade : FileSystem} (variant : Variant place made remade) :
      EndAlike place (.ok made) (.ok remade)

theorem create (variant : Variant place fs other) (path : Path) {entry : Entry}
    (entryFormed : entry.WellFormed) : EndAlike place (fs.create path entry) (other.create path entry) := by
  rw [FileSystem.create, FileSystem.create, variant.shape.resolve]
  split
  · exact .failed _
  cases resolved : fs.resolve false (withoutLastSlash path) with
  | error fault => exact .failed _
  | ok arrival =>
      cases arrival with
      | found reached => exact .failed _
      | vacant above name withSlash =>
          obtain ⟨-, regular, directory, free, -⟩ := leads_of_vacant variant.formed resolved
          simp only
          split
          · exact .failed _
          · exact .made (variant.put directory regular entryFormed (by simp [free]))

theorem createDirectory (variant : Variant place fs other) (path : Path) :
    EndAlike place (fs.createDirectory path) (other.createDirectory path) :=
  variant.create path trivial

theorem createAlong (variant : Variant place fs other) (paths : List Path) :
    (other.createAlong paths).2 = (fs.createAlong paths).2 ∧
      Variant place (fs.createAlong paths).1 (other.createAlong paths).1 := by
  induction paths with
  | nil => exact ⟨rfl, variant⟩
  | cons path shorter ih =>
      have first := variant.createDirectory path
      unfold FileSystem.createAlong
      split
      · exact ⟨rfl, variant⟩
      generalize fs.createDirectory path = here, other.createDirectory path = there at first
      cases first with
      | made grown => exact ⟨rfl, grown⟩
      | failed fault =>
          cases fault with
          | notFound =>
              obtain ⟨same, grown⟩ := ih
              generalize fs.createAlong shorter = before, other.createAlong shorter = after at same grown
              obtain ⟨middle, result⟩ := before
              obtain ⟨remade, also⟩ := after
              have same : also = result := same
              subst same
              cases also with
              | error fault => exact ⟨rfl, grown⟩
              | ok done =>
                  have again := grown.createDirectory path
                  simp only at again ⊢
                  generalize middle.createDirectory path = here, remade.createDirectory path = there at again
                  cases again with
                  | made last => exact ⟨rfl, last⟩
                  | failed fault => exact ⟨by simp only [grown.shape.isDirectory], grown⟩
          | _ => exact ⟨by simp only [variant.shape.isDirectory], variant⟩

theorem createDirectories (variant : Variant place fs other) (path : Path) :
    (other.createDirectories path).2 = (fs.createDirectories path).2 ∧
      Variant place (fs.createDirectories path).1 (other.createDirectories path).1 :=
  variant.createAlong _

/-! ## Files -/

theorem writeBytes (variant : Variant place fs other) (path : Path) (content : Bytes) :
    EndAlike place (fs.writeBytes path content) (other.writeBytes path content) := by
  rw [FileSystem.writeBytes, FileSystem.writeBytes, variant.shape.resolve]
  cases resolved : fs.resolve true path with
  | error fault => exact .failed _
  | ok arrival =>
      cases arrival with
      | vacant above name withSlash =>
          obtain ⟨-, regular, directory, free, -⟩ := leads_of_vacant variant.formed resolved
          simp only
          split
          · exact .failed _
          split
          · exact .failed _
          · exact .made (variant.put directory regular trivial (by simp [free]))
      | found reached =>
          have alike := variant.shape.alike reached
          simp only
          rcases stands_of_found variant.formed resolved with
            ⟨entry, found, kind⟩ | ⟨above, name, old, stands⟩
          · rw [found] at alike ⊢
            generalize other.get? reached = there at alike
            cases alike with
            | directory entries others => exact .failed _
            | locked entries => exact .failed _
            | file content changed => cases kind
            | symlink target => cases kind
          · obtain ⟨rfl, -, used, -, regular, leads, found⟩ := stands
            have directory := leads.directory (variant.formed.start path)
            have file : fs.node? (above ++ [name]) ≠ some .directory := by
              rw [node?_eq_file.mpr found]
              simp
            have made : Variant place (fs.put (above ++ [name]) (.file content)) _ :=
              variant.put directory regular trivial file
            rw [found] at alike ⊢
            generalize other.get? (above ++ [name]) = there at alike
            cases alike
            exact .made made

/-! ## Removal -/

theorem removed (variant : Variant place fs other) {own : Place} {made remade : FileSystem}
    (agrees : AgreesOutside own fs made) (also : AgreesOutside own other remade)
    (gone : made.node? own = none) (away : remade.node? own = none) (formed : made.WellFormed)
    (otherFormed : remade.WellFormed) : Variant place made remade := by
  refine ⟨formed, otherFormed, ⟨?_, fun there => ?_⟩, fun there apart => ?_⟩
  · rw [agrees.workingDirectory, also.workingDirectory, variant.shape.workingDirectory]
  · by_cases inside : own <+: there
    · rw [node?_eq_none_inside gone inside, node?_eq_none_inside away inside]
    · rw [agrees.node there inside, also.node there inside]
      exact variant.shape.node there
  · by_cases inside : own <+: there
    · rw [node?_eq_none_inside gone inside, node?_eq_none_inside away inside]
    · rw [agrees.node there inside, also.node there inside]
      exact variant.elsewhere there apart

end Variant

theorem Writes.variant {path : Path} {content old : Bytes} {place reached : Place}
    (writes : Writes fs other path content place) (formed : fs.WellFormed)
    (found : fs.find true path = .ok (reached, .file old)) : Variant place fs other :=
  ⟨formed, writes.formed, writes.sameShape found, fun _ => writes.elsewhere⟩

end CodeAtlas.FileSystem

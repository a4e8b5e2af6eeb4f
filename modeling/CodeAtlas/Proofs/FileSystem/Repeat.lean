import CodeAtlas.Proofs.FileSystem.Reading

namespace CodeAtlas

namespace Entry

theorem alterIn_of_lookup {name : Name} {entries : List (Name × Entry)} {child : Entry}
    {f : Option Entry → Option Entry} (looked : lookup name entries = some child)
    (same : f (some child) = some child) : alterIn name f entries = entries := by
  induction entries with
  | nil => cases looked
  | cons first rest ih =>
      obtain ⟨own, entry⟩ := first
      unfold lookup at looked
      unfold alterIn
      split
      · rename_i here
        rw [if_pos here] at looked
        cases looked
        rw [same]
        rfl
      · rename_i apart
        rw [if_neg apart] at looked
        rw [ih looked]

theorem alter_of_get? {entry below : Entry} {place : Place} (found : entry.get? place = some below) :
    alter (fun _ => some below) place entry = entry := by
  induction place generalizing entry with
  | nil => cases entry <;> rfl
  | cons name rest ih =>
      obtain ⟨entries, child, rfl, looked, onward⟩ := get?_cons_eq_some_iff.mp found
      cases rest with
      | nil =>
          cases onward
          rw [alter, alterIn_of_lookup looked rfl]
      | cons next rest =>
          rw [alter, alterIn_of_lookup looked]
          rw [Option.map_some, ih onward]

end Entry

namespace FileSystem

variable {fs : FileSystem} {path : Path} {place : Place}

theorem put_of_get? {entry : Entry} (found : fs.get? place = some entry) :
    fs.put place entry = fs := by
  have whole : fs.top.alter (fun _ => some entry) place = .directory fs.entries :=
    Entry.alter_of_get? found
  rw [put, whole]

theorem writeBytes_of_readBytes {content : Bytes} (read : fs.readBytes path = .ok content) :
    fs.writeBytes path content = .ok fs := by
  obtain ⟨place, found⟩ := readBytes_eq_ok_iff.mp read
  obtain ⟨resolved, here⟩ := find_eq_ok_iff.mp found
  simp only [writeBytes, resolved, here, put_of_get? here]

/-! ## Directories that are there -/

theorem Leads.follow_front {used links : Nat} {place last : Place} {pieces back : List Name}
    (leads : Leads fs true used place (pieces ++ back) last []) (enough : used ≤ links)
    (directory : fs.node? place = some .directory) :
    ∃ reached, fs.follow false links place pieces = .ok (.found reached) ∧ fs.get? reached ≠ none := by
  obtain ⟨first, second, middle, rfl, front, onward⟩ := leads.split rfl rfl
  obtain ⟨entries, found⟩ := node?_eq_directory.mp (front.directory directory)
  refine front.ends (Nat.le_of_add_right_le enough) fun links => ⟨middle, follow_nil links middle, ?_⟩
  simp [found]

theorem follow_front {pieces slashes : List Name} {entry : Entry} (formed : fs.WellFormed)
    (found : fs.find true path = .ok (place, entry)) (kind : entry.isDirectory = true)
    (whole : path.pieces = pieces ++ slashes) (empty : ∀ piece ∈ slashes, piece = []) :
    ∃ reached, fs.follow false maxLinks (fs.start path) pieces = .ok (.found reached) := by
  obtain ⟨resolved, here⟩ := find_eq_ok_iff.mp found
  obtain ⟨usable, used, last, rest, enough, leads, stops⟩ := leads_of_resolve resolved
  cases stops with
  | arrived =>
      rw [whole] at leads
      obtain ⟨reached, follows, -⟩ := leads.follow_front enough (formed.start path)
      exact ⟨reached, follows⟩
  | locked step locked blank =>
      obtain ⟨own, among, front⟩ := leads.front whole rfl step empty
      obtain ⟨reached, follows, -⟩ := front.ends enough fun links =>
        ⟨_, follow_locked step locked (fun piece member => blank piece (among member)) links, by
          simp [locked]⟩
      exact ⟨reached, follows⟩
  | file step file =>
      rw [here, Option.some.injEq] at file
      rw [file] at kind
      cases kind
  | link step link mode => cases mode

theorem createDirectory_of_isDirectory (formed : fs.WellFormed) (directory : fs.isDirectory path = true) :
    fs.createDirectory path = .error .alreadyExists := by
  obtain ⟨place, entry, found, kind⟩ := isDirectory_eq_true_iff.mp directory
  have usable := usable_of_resolve (find_eq_ok_iff.mp found).1
  obtain ⟨_, n, bytes⟩ := Path.bytes_withoutLastSlash usable.nonempty
  have pieces : path.pieces = (withoutLastSlash path).pieces ++ List.replicate n [] := by
    have whole := Path.pieces_append_slashes (withoutLastSlash path).bytes n
    rwa [← bytes] at whole
  obtain ⟨reached, follows⟩ := follow_front formed found kind pieces
    fun piece slash => List.eq_of_mem_replicate slash
  have resolved : fs.resolve false (withoutLastSlash path) = .ok (.found reached) := by
    rw [resolve_of_usable (usable_withoutLastSlash usable), start_withoutLastSlash usable.nonempty,
      follows]
  have short := usable.short
  rw [createDirectory, create, if_neg (by simp [usable.no_nul]; omega), resolved]

theorem ancestors_eq (path : Path) : ∃ shorter, path.ancestors = path :: shorter := by
  unfold Path.ancestors
  cases path.pieces.length with
  | zero => exact ⟨[], rfl⟩
  | succ n =>
      unfold Path.ancestors.go
      cases path.parent? with
      | none => exact ⟨_, rfl⟩
      | some parent => exact ⟨_, rfl⟩

theorem createDirectories_of_isDirectory (formed : fs.WellFormed)
    (there : path.isEmpty = true ∨ fs.isDirectory path = true) :
    fs.createDirectories path = (fs, .ok ()) := by
  obtain ⟨shorter, all⟩ := ancestors_eq path
  rw [createDirectories, all, createAlong]
  split
  · rfl
  · rename_i nonempty
    have directory := there.resolve_left nonempty
    simp [createDirectory_of_isDirectory formed directory, directory]

theorem isDirectory_of_createDirectory {made : FileSystem} (formed : fs.WellFormed)
    (created : fs.createDirectory path = .ok made) : made.isDirectory path = true := by
  obtain ⟨above, name, lodges⟩ := createDirectory_eq_ok formed created
  have keeps := lodges.agrees.keeps (.inl lodges.free)
  exact isDirectory_eq_true_iff.mpr ⟨_, _, (lodges.names.keep keeps).find_eq true lodges.empty rfl, rfl⟩

theorem isDirectory_of_createDirectories {grown : FileSystem} (formed : fs.WellFormed)
    (made : fs.createDirectories path = (grown, .ok ())) :
    path.isEmpty = true ∨ grown.isDirectory path = true := by
  obtain ⟨shorter, all⟩ := ancestors_eq path
  have along := createAlong_grows shorter formed
  rw [createDirectories, all, createAlong] at made
  split at made
  · rename_i blank
    exact .inl blank
  right
  split at made
  · rename_i created
    cases made
    exact isDirectory_of_createDirectory formed created
  · split at made
    · cases made
    · rename_i middle before
      rw [before] at along
      split at made
      · rename_i again
        cases made
        exact isDirectory_of_createDirectory along.formed again
      · split at made
        · rename_i directory
          cases made
          exact directory
        · cases made
  · split at made
    · rename_i directory
      cases made
      exact directory
    · cases made

end FileSystem
end CodeAtlas

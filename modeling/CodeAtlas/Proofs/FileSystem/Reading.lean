import CodeAtlas.Proofs.FileSystem.Write

namespace CodeAtlas.FileSystem

variable {fs other : FileSystem} {mode : Bool} {path : Path} {place : Place}

theorem find_keep {entry stays : Entry} (keeps : Keeps fs other)
    (found : fs.find mode path = .ok (place, entry)) (here : other.get? place = some stays)
    (file : ∀ content, entry = .file content → ∃ content, stays = .file content) :
    other.find mode path = .ok (place, stays) := by
  obtain ⟨resolved, there⟩ := find_eq_ok_iff.mp found
  obtain ⟨usable, used, last, rest, enough, leads, stops⟩ := leads_of_resolve resolved
  refine find_eq_ok_iff.mpr ⟨?_, here⟩
  rw [resolve_of_usable usable, start_keep keeps, (leads.keep keeps).follow enough]
  cases stops with
  | arrived => exact follow_nil _ _
  | file step content =>
      rw [content, Option.some.injEq] at there
      obtain ⟨now, rfl⟩ := file _ there.symm
      exact follow_file step here _
  | locked step locked empty =>
      exact follow_locked step (node?_eq_locked.mp (keeps.locked _ _ (node?_eq_locked.mpr locked))) empty _
  | link step link notFollowed =>
      subst notFollowed
      exact follow_last step (node?_eq_symlink.mp (keeps.symlink _ _ (node?_eq_symlink.mpr link))) _

theorem readBytes_eq_ok_iff {content : Bytes} :
    fs.readBytes path = .ok content ↔ ∃ place, fs.find true path = .ok (place, .file content) := by
  unfold readBytes
  cases fs.find true path with
  | error fault => simp
  | ok arrival =>
      obtain ⟨place, entry⟩ := arrival
      cases entry <;> simp

theorem readText_congr {away : Path}
    (same : ∀ content, other.readBytes away = .ok content ↔ fs.readBytes path = .ok content) :
    (other.readText away).toOption = (fs.readText path).toOption := by
  unfold readText
  cases here : fs.readBytes path with
  | ok content => rw [(same content).mpr here]
  | error fault =>
      cases there : other.readBytes away with
      | error fault => rfl
      | ok content =>
          rw [(same content).mp there] at here
          cases here

theorem node?_of_get? {entry : Entry} (found : fs.get? place = some entry) :
    fs.node? place = some entry.node :=
  congrArg (Option.map Entry.node) found

theorem find_false_of_hasEntry (present : fs.hasEntry path = true) :
    ∃ place entry, fs.find false path = .ok (place, entry) := by
  obtain ⟨place, entry, found⟩ := hasEntry_eq_true_iff.mp present
  obtain ⟨resolved, here⟩ := find_eq_ok_iff.mp found
  obtain ⟨usable, used, last, rest, enough, leads, stops⟩ := leads_of_resolve resolved
  have finds : ∀ links, ∃ reached, fs.follow false links last rest = .ok (.found reached) ∧
      fs.get? reached ≠ none := by
    intro links
    cases stops with
    | arrived => exact ⟨_, follow_nil _ _, by simp [here]⟩
    | file step file => exact ⟨_, follow_file step file _, by simp [here]⟩
    | locked step locked empty => exact ⟨_, follow_locked step locked empty _, by simp [here]⟩
    | link step link mode => cases mode
  obtain ⟨reached, arrives, stands⟩ := leads.ends enough finds
  obtain ⟨own, stands⟩ := Option.ne_none_iff_exists'.mp stands
  refine ⟨reached, own, find_eq_ok_iff.mpr ⟨?_, stands⟩⟩
  rw [resolve_of_usable usable, arrives]

theorem not_isFile_keep {entry : Entry} (keeps : Keeps fs other)
    (found : fs.find mode path = .ok (place, entry)) (noFile : ∀ content, entry ≠ .file content) :
    ∃ stays, other.find mode path = .ok (place, stays) ∧ ∀ content, stays ≠ .file content := by
  have node := node?_of_get? (find_eq_ok_iff.mp found).2
  have vacuous : ∀ {stays : Entry} content, entry = .file content → ∃ content, stays = .file content :=
    fun content same => absurd same (noFile content)
  cases entry with
  | file content => exact absurd rfl (noFile content)
  | directory entries =>
      obtain ⟨others, here⟩ := node?_eq_directory.mp (keeps.directory _ node)
      exact ⟨_, find_keep keeps found here vacuous, by simp⟩
  | symlink target =>
      have here := node?_eq_symlink.mp (keeps.symlink _ _ node)
      exact ⟨_, find_keep keeps found here vacuous, by simp⟩
  | locked entries =>
      have here := node?_eq_locked.mp (keeps.locked _ _ node)
      exact ⟨_, find_keep keeps found here vacuous, by simp⟩

theorem isDirectory_eq_true_iff : fs.isDirectory path = true ↔
    ∃ place entry, fs.find true path = .ok (place, entry) ∧ entry.isDirectory = true := by
  unfold isDirectory
  cases fs.find true path with
  | error fault => simp
  | ok arrival =>
      constructor
      · intro kind
        exact ⟨arrival.1, arrival.2, rfl, kind⟩
      · rintro ⟨place, entry, found, kind⟩
        cases found
        exact kind

theorem find_directory_keep {entries : List (Name × Entry)} (keeps : Keeps fs other)
    (found : fs.find mode path = .ok (place, .directory entries)) :
    ∃ others, other.find mode path = .ok (place, .directory others) := by
  have node := node?_of_get? (find_eq_ok_iff.mp found).2
  obtain ⟨others, here⟩ := node?_eq_directory.mp (keeps.directory _ node)
  exact ⟨others, find_keep keeps found here (by simp)⟩

theorem find_locked_keep {entries : List (Name × Entry)} (keeps : Keeps fs other)
    (found : fs.find mode path = .ok (place, .locked entries)) :
    other.find mode path = .ok (place, .locked entries) := by
  have node := node?_of_get? (find_eq_ok_iff.mp found).2
  exact find_keep keeps found (node?_eq_locked.mp (keeps.locked _ _ node)) (by simp)

theorem find_node_keep {entry : Entry} (keeps : Keeps fs other)
    (found : fs.find mode path = .ok (place, entry)) (directory : entry.isDirectory = true) :
    ∃ stays, other.find mode path = .ok (place, stays) ∧ stays.isDirectory = true ∧
      stays.node = entry.node := by
  cases entry with
  | directory entries =>
      obtain ⟨others, stays⟩ := find_directory_keep keeps found
      exact ⟨_, stays, rfl, rfl⟩
  | locked entries => exact ⟨_, find_locked_keep keeps found, rfl, rfl⟩
  | file content => cases directory
  | symlink target => cases directory

theorem isDirectory_keep (keeps : Keeps fs other) (directory : fs.isDirectory path = true) :
    other.isDirectory path = true := by
  obtain ⟨place, entry, found, kind⟩ := isDirectory_eq_true_iff.mp directory
  obtain ⟨stays, arrives, still, -⟩ := find_node_keep keeps found kind
  exact isDirectory_eq_true_iff.mpr ⟨place, stays, arrives, still⟩

theorem Writes.readBytes {content : Bytes} (writes : Writes fs other path content place) :
    other.readBytes path = .ok content := by
  have leads := writes.leads
  have node := writes.node
  unfold canonical at leads
  cases found : other.find true path with
  | error fault => simp [found, Except.map] at leads
  | ok arrival =>
      obtain ⟨reached, entry⟩ := arrival
      simp only [found, Except.map, Except.ok.injEq] at leads
      subst leads
      have here := (find_eq_ok_iff.mp found).2
      rw [node?_eq_file.mp node, Option.some.injEq] at here
      exact readBytes_eq_ok_iff.mpr ⟨_, by rw [found, here]⟩

/-! ## Entries of a directory -/

section Entry

variable {entries : List (Name × Entry)} {name : Name}
  (found : fs.find mode path = .ok (place, .directory entries)) (regular : IsEntryName name)
  (noLink : ∀ target, fs.node? (place ++ [name]) ≠ some (.symlink target))

include found regular noLink

theorem find_entry_iff {reached : Place} {entry : Entry} :
    fs.find true (path.entry name) = .ok (reached, entry) ↔
      (path.entry name).bytes.length ≤ maxPathLength ∧ reached = place ++ [name] ∧
        fs.get? (place ++ [name]) = some entry := by
  obtain ⟨used, enough, leads⟩ := leads_entry found regular true
  constructor
  · intro arrives
    obtain ⟨resolved, here⟩ := find_eq_ok_iff.mp arrives
    have usable := usable_of_resolve resolved
    rw [resolve_of_usable usable, leads.follow enough] at resolved
    have ends : reached = place ++ [name] := by
      cases stands : fs.get? (place ++ [name]) with
      | none => simp [follow_vacant regular.isStep stands] at resolved
      | some other =>
          cases other with
          | file content =>
              rw [follow_file regular.isStep stands] at resolved
              cases resolved
              rfl
          | directory inner =>
              rw [follow_down regular.isStep stands, follow_nil] at resolved
              cases resolved
              rfl
          | locked inner =>
              rw [follow_locked regular.isStep stands (List.forall_mem_nil _)] at resolved
              cases resolved
              rfl
          | symlink target => exact absurd (node?_eq_symlink.mpr stands) (noLink target)
    exact ⟨usable.short, ends, ends ▸ here⟩
  · rintro ⟨short, rfl, here⟩
    refine find_below found regular here short ?_ true
    rintro target rfl
    exact noLink target (node?_eq_symlink.mpr here)

theorem isDirectory_entry_iff : fs.isDirectory (path.entry name) = true ↔
    (path.entry name).bytes.length ≤ maxPathLength ∧
      ∃ node, fs.node? (place ++ [name]) = some node ∧ node.isDirectory = true := by
  rw [isDirectory_eq_true_iff]
  simp only [find_entry_iff found regular noLink]
  constructor
  · rintro ⟨_, entry, ⟨short, -, here⟩, kind⟩
    exact ⟨short, entry.node, node?_of_get? here, entry.isDirectory_node.trans kind⟩
  · rintro ⟨short, node, stands, kind⟩
    obtain ⟨entry, here, rfl⟩ := Option.map_eq_some_iff.mp stands
    exact ⟨_, entry, ⟨short, rfl, here⟩, entry.isDirectory_node.symm.trans kind⟩

theorem readBytes_entry_iff {content : Bytes} : fs.readBytes (path.entry name) = .ok content ↔
    (path.entry name).bytes.length ≤ maxPathLength ∧
      fs.node? (place ++ [name]) = some (.file content) := by
  rw [readBytes_eq_ok_iff]
  simp only [find_entry_iff found regular noLink]
  constructor
  · rintro ⟨_, short, -, here⟩
    exact ⟨short, node?_of_get? here⟩
  · rintro ⟨short, here⟩
    exact ⟨_, short, rfl, node?_eq_file.mp here⟩

end Entry

theorem readBytes_entry_locked {entries : List (Name × Entry)} {name : Name} (formed : fs.WellFormed)
    (found : fs.find true path = .ok (place, .locked entries)) (regular : IsEntryName name)
    (content : Bytes) : fs.readBytes (path.entry name) ≠ .ok content := by
  intro read
  obtain ⟨reached, arrives⟩ := readBytes_eq_ok_iff.mp read
  obtain ⟨resolved, here⟩ := find_eq_ok_iff.mp found
  obtain ⟨usable, used, last, rest, enough, leads, stops⟩ := leads_of_resolve resolved
  cases stops with
  | arrived =>
      obtain ⟨others, directory⟩ := node?_eq_directory.mp (leads.directory (formed.start path))
      rw [here] at directory
      cases directory
  | file step file =>
      rw [here] at file
      cases file
  | link step link mode => cases mode
  | @locked piece _ _ step locked blank =>
      obtain ⟨first, body, slashes, before, empty, after⟩ := Path.pieces_entry regular usable.nonempty
      obtain ⟨own, -, front⟩ := leads.front (before.trans List.cons_append.symm) rfl step empty
      have onward := front.extend true [name] fun _ => .inl rfl
      have refused : fs.advance true last (piece :: own ++ [name]) = .refused .permissionDenied := by
        refine (advance_locked step locked).trans (if_neg ?_)
        simp [regular.nonempty]
      have followed := onward.follow enough
      rw [(follow_advance fs true _ last _).2.1 _ refused] at followed
      have opened := (find_eq_ok_iff.mp arrives).1
      rw [resolve_of_usable (usable_of_resolve opened), after, start,
        Path.isAbsolute_entry regular usable.nonempty, ← start, ← List.cons_append, followed] at opened
      cases opened

/-! ## New directories -/

def isLink (fs : FileSystem) (path : Path) : Bool :=
  match fs.find false path with
  | .ok (_, .symlink _) => true
  | _ => false

theorem isLink_eq_false {entry : Entry} (found : fs.find false path = .ok (place, entry))
    (directory : entry.isDirectory = true) : fs.isLink path = false := by
  rw [isLink, found]
  cases entry with
  | symlink target => cases directory
  | _ => rfl

def Dangles (fs : FileSystem) (path : Path) : Prop := fs.isLink path = true ∧ fs.hasEntry path = false

instance (fs : FileSystem) (path : Path) : Decidable (fs.Dangles path) :=
  inferInstanceAs (Decidable (_ ∧ _))

theorem isLink_entry {root : Path} {entries : List (Name × Entry)} {name : Name} {target : Path}
    (found : fs.find mode root = .ok (place, .directory entries)) (regular : IsEntryName name)
    (usable : Usable (root.entry name)) (link : fs.node? (place ++ [name]) = some (.symlink target)) :
    fs.isLink (root.entry name) = true := by
  have here := node?_eq_symlink.mp link
  obtain ⟨used, enough, leads⟩ := leads_entry found regular false
  have ends : fs.find false (root.entry name) = .ok (place ++ [name], .symlink target) := by
    refine find_eq_ok_iff.mpr ⟨?_, here⟩
    rw [resolve_of_usable usable, leads.follow enough]
    exact follow_last regular.isStep here _
  rw [isLink, ends]

section Grows

variable {paths : List Path} (grows : Grows paths fs other)

include grows

theorem Grows.node_eq {node : Node} (found : fs.node? place = some node) :
    other.node? place = some node := by
  rcases grows.node place with same | ⟨free, -⟩
  · rw [same, found]
  · rw [free] at found
    cases found

theorem Grows.node_of {node : Node} (found : other.node? place = some node) (old : node ≠ .directory) :
    fs.node? place = some node := by
  rcases grows.node place with same | ⟨-, directory, -⟩
  · rw [← same, found]
  · rw [found, Option.some.injEq] at directory
    exact absurd directory old

theorem Grows.readBytes {content : Bytes} (read : fs.readBytes path = .ok content) :
    other.readBytes path = .ok content := by
  obtain ⟨place, found⟩ := readBytes_eq_ok_iff.mp read
  have node := grows.node_eq (node?_of_get? (find_eq_ok_iff.mp found).2)
  refine readBytes_eq_ok_iff.mpr ⟨place, ?_⟩
  exact find_keep grows.keeps found (node?_eq_file.mp node) (by simp)

theorem Grows.readText_entry {root : Path} {entry : Entry} {name : Name} (formed : fs.WellFormed)
    (found : fs.find true root = .ok (place, entry)) (directory : entry.isDirectory = true)
    (regular : IsEntryName name) (steady : ¬ fs.Dangles (root.entry name)) :
    (other.readText (root.entry name)).toOption = (fs.readText (root.entry name)).toOption := by
  cases entry with
  | file content => cases directory
  | symlink target => cases directory
  | locked entries =>
      refine readText_congr fun content => ?_
      have stays := find_locked_keep grows.keeps found
      exact iff_of_false (readBytes_entry_locked grows.formed stays regular content)
        (readBytes_entry_locked formed found regular content)
  | directory entries =>
  refine readText_congr fun content => ⟨fun read => ?_, grows.readBytes⟩
  obtain ⟨_, now⟩ := readBytes_eq_ok_iff.mp read
  cases present : fs.find true (root.entry name) with
  | ok arrival =>
      obtain ⟨reached, entry⟩ := arrival
      by_cases file : ∃ own, entry = .file own
      · obtain ⟨own, rfl⟩ := file
        have holds := readBytes_eq_ok_iff.mpr ⟨reached, present⟩
        rw [grows.readBytes holds] at read
        exact read ▸ holds
      · obtain ⟨stays, opened, noFile⟩ := not_isFile_keep grows.keeps present (not_exists.mp file)
        rw [opened, Except.ok.injEq, Prod.mk.injEq] at now
        exact absurd now.2 (noFile content)
  | error fault =>
      have missing : fs.hasEntry (root.entry name) = false := by
        rw [hasEntry, present]
        rfl
      have usable := usable_of_resolve (find_eq_ok_iff.mp now).1
      have noLink : ∀ target, fs.node? (place ++ [name]) ≠ some (.symlink target) := by
        intro target link
        exact steady ⟨isLink_entry found regular usable link, missing⟩
      -- What stands there in the end is no link either, so it is a file, and it is not new.
      obtain ⟨others, stays⟩ := find_directory_keep grows.keeps found
      have unlinked : ∀ target, other.node? (place ++ [name]) ≠ some (.symlink target) := by
        intro target link
        exact noLink target (grows.node_of link (by simp))
      obtain ⟨short, file⟩ := (readBytes_entry_iff stays regular unlinked).mp read
      exact (readBytes_entry_iff found regular noLink).mpr ⟨short, grows.node_of file (by simp)⟩

end Grows

end CodeAtlas.FileSystem

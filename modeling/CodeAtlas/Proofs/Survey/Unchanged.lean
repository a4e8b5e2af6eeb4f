import CodeAtlas.Proofs.FileSystem.Repeat
import CodeAtlas.Proofs.FileSystem.Shape
import CodeAtlas.Proofs.Survey.Relocation
import CodeAtlas.Proofs.Tree.Levels
import Mathlib.Data.List.Lex

namespace CodeAtlas

namespace FileSystem

variable {fs other : FileSystem}

/-! ## Entries -/

theorem get?_below {place : Place} {entry : Entry} (found : fs.get? place = some entry) (below : Place) :
    fs.get? (place ++ below) = entry.get? below := by
  rw [get?] at found ⊢
  rw [Entry.get?_append, found, Option.bind_some]

theorem lookup_eq_get? {place : Place} {entries : List (Name × Entry)}
    (found : fs.get? place = some (.directory entries)) (name : Name) :
    Entry.lookup name entries = fs.get? (place ++ [name]) := by
  rw [get?_below found, Entry.get?]
  cases Entry.lookup name entries <;> rfl

theorem filter_sortedNames {entries others : List (Name × Entry)} (formed : Entry.WellFormedIn entries)
    (otherFormed : Entry.WellFormedIn others) {p : Name → Bool}
    (same : ∀ name, p name = true → (Entry.lookup name others = none ↔ Entry.lookup name entries = none)) :
    (Entry.sortedNames others).filter p = (Entry.sortedNames entries).filter p := by
  refine List.Pairwise.eq_of_mem_iff
    ((Entry.sortedNames_pairwise otherFormed).sublist List.filter_sublist)
    ((Entry.sortedNames_pairwise formed).sublist List.filter_sublist) fun name => ?_
  rw [List.mem_filter, List.mem_filter, Entry.mem_sortedNames, Entry.mem_sortedNames]
  exact and_congr_left fun shown => not_congr (same name shown)

/-! ## The files -/

variable {root : Path} {place : Place} {entries others : List (Name × Entry)}

theorem find_of_isLink {entry : Entry} (found : fs.find true root = .ok (place, entry)) :
    (fs.isLink root = true ∧ ∃ reached target, fs.find false root = .ok (reached, .symlink target)) ∨
      (fs.isLink root = false ∧ fs.find false root = .ok (place, entry)) := by
  have present := hasEntry_eq_true_iff.mpr ⟨place, _, found⟩
  obtain ⟨reached, own, arrives⟩ := find_false_of_hasEntry present
  rw [isLink, arrives]
  split
  · rename_i target same
    cases same
    exact .inl ⟨rfl, reached, target, rfl⟩
  · rename_i noLink
    have followed := find_followed arrives fun target same => noLink reached target (by rw [same])
    rw [found, Except.ok.injEq] at followed
    exact .inr ⟨rfl, congrArg Except.ok followed.symm⟩

theorem files_eq (formed : fs.WellFormed) (found : fs.find true root = .ok (place, .directory entries)) :
    fs.files root = (if fs.isLink root then [root] else []) ++
      (Entry.listedPlaces root entries).map root.descend := by
  rcases find_of_isLink found with ⟨link, reached, target, here⟩ | ⟨link, here⟩
  · obtain ⟨usable, -⟩ := leads_of_find found
    have entriesFormed : Entry.WellFormedIn entries := formed.get? (find_eq_ok_iff.mp found).2
    have walked : (Entry.directory entries).sorted.files root [] =
        (Entry.listedPlaces root entries).map root.descend := by
      rw [Entry.listedPlaces, List.map_map, Entry.sorted, Entry.files,
        if_neg (Nat.not_lt.mpr usable.short)]
      exact Entry.filesIn_eq_filter _ (Entry.WellFormedIn.sortedEntries entries entriesFormed)
        usable.nonempty usable.short
    simp only [files, here, found, link, walked, if_true, List.singleton_append]
  · simp only [link, Bool.false_eq_true, if_false, List.nil_append, files_eq_listedPlaces formed here]

theorem files_eq_locked (found : fs.find true root = .ok (place, .locked entries)) :
    fs.files root = if fs.isLink root then [root] else [] := by
  rcases find_of_isLink found with ⟨link, reached, target, here⟩ | ⟨link, here⟩
  · simp only [files, here, found, link, if_true]
  · simp only [link, Bool.false_eq_true, if_false, files_locked here]

theorem isDirectory_shape (entry : Entry) : entry.shape.isDirectory = entry.isDirectory := by
  cases entry <;> rfl

theorem mem_listedPlaces_iff (formed : Entry.WellFormedIn entries) (nonempty : root.bytes ≠ [])
    {below : Place} : below ∈ Entry.listedPlaces root entries ↔
      (Path.ofNames below).isIgnored = false ∧
        (root.descend below.dropLast).bytes.length ≤ maxPathLength ∧
        ∃ node, ((Entry.directory entries).get? below).map Entry.shape = some node ∧
          node.isDirectory = false := by
  have whole : (Entry.directory entries).WellFormed := formed
  have seen : ∀ entry, (Entry.directory entries).get? below = some entry →
      (root.descend below).relativeTo root = .ofNames below := fun entry found =>
    Path.relativeTo_descend (whole.isEntryName found) nonempty
  rw [Entry.mem_listedPlaces formed nonempty]
  constructor
  · rintro ⟨entry, found, leaf, shown, opens⟩
    rw [seen entry found] at shown
    exact ⟨shown, opens, entry.shape, by rw [found]; rfl, (isDirectory_shape entry).trans leaf⟩
  · rintro ⟨shown, opens, node, stands, leaf⟩
    obtain ⟨entry, found, rfl⟩ := Option.map_eq_some_iff.mp stands
    rw [← seen entry found] at shown
    exact ⟨entry, found, (isDirectory_shape entry).symm.trans leaf, shown, opens⟩

theorem listedPlaces_congr (formed : Entry.WellFormedIn entries)
    (otherFormed : Entry.WellFormedIn others) (nonempty : root.bytes ≠ [])
    (same : ∀ below, (Path.ofNames below).isIgnored = false →
      ((Entry.directory others).get? below).map Entry.shape =
        ((Entry.directory entries).get? below).map Entry.shape) :
    Entry.listedPlaces root others = Entry.listedPlaces root entries := by
  have before := Entry.listedPlaces_pairwise root formed
  have after := Entry.listedPlaces_pairwise root otherFormed
  unfold Entry.ComesBefore at before after
  refine List.Pairwise.eq_of_mem_iff after before fun below => ?_
  rw [mem_listedPlaces_iff formed nonempty, mem_listedPlaces_iff otherFormed nonempty]
  refine and_congr_right fun shown => ?_
  rw [same below shown]

/-- A survey is the same if the files that it finds are, and what it reads in the sources. -/
theorem survey_congr (files : other.files root = fs.files root) {levels : Nat}
    (tree : other.tree root levels = fs.tree root levels)
    (reads : ∀ path ∈ fs.files root, path.isSource = true → other.readText path = fs.readText path) :
    other.survey root levels = fs.survey root levels := by
  have sources : ((fs.files root).filter Path.isSource).map other.outline =
      ((fs.files root).filter Path.isSource).map fs.outline := by
    apply List.map_congr_left
    intro path member
    obtain ⟨among, source⟩ := List.mem_filter.mp member
    rw [outline, outline, reads path among source]
  rw [survey, survey, files, sources, tree]

/-! ## Nothing new -/

section SameShape

variable (formed : fs.WellFormed) (otherFormed : other.WellFormed) (shape : SameShape fs other)

include formed otherFormed shape

theorem SameShape.visible (above : List Name) (path : Path) :
    other.visible above path = fs.visible above path := by
  rw [FileSystem.visible, FileSystem.visible]
  rcases shape.find path with ⟨fault, here, there⟩ | ⟨place, _, _, here, there, alike⟩
  · rw [here, there]
  · rw [here, there]
    have found := (find_eq_ok_iff.mp here).2
    have stays := (find_eq_ok_iff.mp there).2
    cases alike with
    | file content changed => rfl
    | symlink target => rfl
    | locked entries => rfl
    | directory entries others =>
        refine filter_sortedNames (formed.get? found) (otherFormed.get? stays) fun name _ => ?_
        rw [lookup_eq_get? found, lookup_eq_get? stays]
        have same := shape.alike (place ++ [name])
        generalize fs.get? (place ++ [name]) = before, other.get? (place ++ [name]) = after at same
        cases same <;> simp

theorem SameShape.tree (root : Path) (levels : Nat) : other.tree root levels = fs.tree root levels := by
  refine treeBelow_congr (P := fun _ _ => True) (fun above path _ => ?_) levels trivial
  exact ⟨shape.visible formed otherFormed above path, fun name _ => ⟨shape.isDirectory, fun _ => trivial⟩⟩

theorem SameShape.files (root : Path) : other.files root = fs.files root := by
  by_cases opens : ∃ place entries, fs.find true root = .ok (place, .directory entries)
  · obtain ⟨place, entries, found⟩ := opens
    obtain ⟨others, stays⟩ : ∃ others, other.find true root = .ok (place, .directory others) := by
      rcases shape.find root with ⟨fault, here, -⟩ | ⟨reached, _, _, here, there, alike⟩
      · rw [found] at here
        cases here
      · rw [found] at here
        cases here
        cases alike
        exact ⟨_, there⟩
    have here := (find_eq_ok_iff.mp found).2
    have there := (find_eq_ok_iff.mp stays).2
    have places : Entry.listedPlaces root others = Entry.listedPlaces root entries := by
      refine listedPlaces_congr (formed.get? here) (otherFormed.get? there)
        (leads_of_find found).1.nonempty fun below _ => ?_
      rw [← get?_below here, ← get?_below there]
      exact shape.get? _
    rw [files_eq formed found, files_eq otherFormed stays, shape.isLink, places]
  · have shut : ∀ mode place entries, fs.find mode root ≠ .ok (place, .directory entries) :=
      fun mode place entries found => opens ⟨place, entries, find_directory found⟩
    rw [FileSystem.files, FileSystem.files]
    rcases shape.find root with ⟨_, own, stays⟩ | ⟨_, _, _, own, stays, alike⟩
    · rw [own, stays]
    · rw [own, stays]
      cases alike with
      | directory entries others => exact absurd own (shut _ _ _)
      | file content changed => rfl
      | locked entries => rfl
      | symlink target =>
          rcases shape.find root with ⟨_, here, there⟩ | ⟨_, _, _, here, there, alike⟩
          · rw [here, there]
          · rw [here, there]
            cases alike with
            | directory entries others => exact absurd here (shut _ _ _)
            | file content changed => rfl
            | symlink target => rfl
            | locked entries => rfl

theorem SameShape.survey {root : Path}
    (reads : ∀ path ∈ fs.files root, path.isSource = true → other.readText path = fs.readText path)
    (levels : Nat) : other.survey root levels = fs.survey root levels :=
  survey_congr (shape.files formed otherFormed root) (shape.tree formed otherFormed root levels) reads

end SameShape

/-! ## Changes that do not show -/

/-- Below a directory, nothing is a link and nothing changes, but for what is ignored there. -/
def Apart (fs other : FileSystem) (place : Place) : Prop :=
  ∀ below, (Path.ofNames below).isIgnored = false →
    other.node? (place ++ below) = fs.node? (place ++ below) ∧
      ∀ target, fs.node? (place ++ below) ≠ some (.symlink target)

section Apart

variable (formed : fs.WellFormed) (otherFormed : other.WellFormed) {root : Path} {place : Place}
  {entries others : List (Name × Entry)}
  (found : fs.find true root = .ok (place, .directory entries))
  (stays : other.find true root = .ok (place, .directory others)) (apart : Apart fs other place)

include formed otherFormed found stays apart

theorem Apart.tree (levels : Nat) : other.tree root levels = fs.tree root levels := by
  -- The trees go down together, into directories that stand at one place in both, or stop at locked ones.
  refine treeBelow_congr (P := fun above path => ∃ entry stays,
    fs.find true path = .ok (place ++ above, entry) ∧ other.find true path = .ok (place ++ above, stays) ∧
      entry.isDirectory = true ∧ stays.node = entry.node) ?_ levels
    ⟨.directory entries, .directory others, by rwa [List.append_nil], by rwa [List.append_nil], rfl, rfl⟩
  rintro above path ⟨entry, moved, found, stays, kind, node⟩
  cases entry with
  | file content => cases kind
  | symlink target => cases kind
  | locked inner =>
      cases moved <;> cases node
      have shut : other.visible above path = [] ∧ fs.visible above path = [] := by
        rw [FileSystem.visible, FileSystem.visible, found, stays]
        exact ⟨rfl, rfl⟩
      rw [shut.1, shut.2]
      exact ⟨rfl, List.forall_mem_nil _⟩
  | directory entries =>
  cases moved <;> cases node
  rename_i others
  have here := (find_eq_ok_iff.mp found).2
  have there := (find_eq_ok_iff.mp stays).2
  have same : ∀ name, (!(Path.ofNames (above ++ [name])).isIgnored) = true →
      (Entry.lookup name others = none ↔ Entry.lookup name entries = none) := by
    intro name shown
    obtain ⟨node, -⟩ := apart (above ++ [name]) (by simpa using shown)
    rw [← List.append_assoc] at node
    rw [lookup_eq_get? here, lookup_eq_get? there, ← node?_eq_none, ← node?_eq_none, node]
  rw [visible_of_find found, visible_of_find stays]
  refine ⟨filter_sortedNames (formed.get? here) (otherFormed.get? there) same, fun name member => ?_⟩
  obtain ⟨listed, shown⟩ := List.mem_filter.mp member
  obtain ⟨node, noLink⟩ := apart (above ++ [name]) (by simpa using shown)
  rw [← List.append_assoc] at node noLink
  obtain ⟨child, looked⟩ := Option.ne_none_iff_exists'.mp (Entry.mem_sortedNames.mp listed)
  have regular : IsEntryName name :=
    (Entry.WellFormedIn.of_mem (formed.get? here) (Entry.lookup_mem looked)).1
  have before := isDirectory_entry_iff found regular noLink
  have after := isDirectory_entry_iff stays regular (node ▸ noLink)
  refine ⟨?_, fun directory => ?_⟩
  · rw [Bool.eq_iff_iff, before, after, node]
  · obtain ⟨short, own, stands, kind⟩ := before.mp directory
    obtain ⟨inner, below, rfl⟩ := Option.map_eq_some_iff.mp stands
    obtain ⟨moved, further, same⟩ := Option.map_eq_some_iff.mp (node.trans stands)
    rw [← List.append_assoc]
    exact ⟨inner, moved, (find_entry_iff found regular noLink).mpr ⟨short, rfl, below⟩,
      (find_entry_iff stays regular (node ▸ noLink)).mpr ⟨short, rfl, further⟩,
      inner.isDirectory_node.symm.trans kind, same⟩

theorem Apart.listedPlaces : Entry.listedPlaces root others = Entry.listedPlaces root entries := by
  have here := (find_eq_ok_iff.mp found).2
  have there := (find_eq_ok_iff.mp stays).2
  refine listedPlaces_congr (formed.get? here) (otherFormed.get? there)
    (leads_of_find found).1.nonempty fun below shown => ?_
  have node := (apart below shown).1
  rw [node?, node?, Entry.node?, Entry.node?] at node
  have blank := congrArg (Option.map Node.blank) node
  rw [Option.map_map, Option.map_map] at blank
  rw [← get?_below here, ← get?_below there]
  exact blank

theorem Apart.readText (path : Path) (listed : path ∈ fs.files root) :
    other.readText path = fs.readText path := by
  have here := (find_eq_ok_iff.mp found).2
  have entriesFormed : Entry.WellFormedIn entries := formed.get? here
  rw [files_eq formed found, List.mem_append] at listed
  rcases listed with own | listed
  · have same : path = root := by
      split at own
      · exact List.mem_singleton.mp own
      · cases own
    rw [same, FileSystem.readText, FileSystem.readText, readBytes, readBytes, found, stays]
  · obtain ⟨below, among, rfl⟩ := List.mem_map.mp listed
    have nonempty := (leads_of_find found).1.nonempty
    obtain ⟨shown, -, node, stands, leaf⟩ := (mem_listedPlaces_iff entriesFormed nonempty).mp among
    obtain ⟨entry, reached, rfl⟩ := Option.map_eq_some_iff.mp stands
    obtain ⟨same, noLink⟩ := apart below shown
    have before := get?_below here below
    rw [reached] at before
    cases entry with
    | directory inner => cases leaf
    | locked inner => cases leaf
    | symlink target => exact absurd (node?_eq_symlink.mpr before) (noLink target)
    | file content =>
        have after : (Entry.directory others).get? below = some (.file content) := by
          rw [← get?_below (find_eq_ok_iff.mp stays).2]
          exact node?_eq_file.mp (same.trans (node?_of_get? before))
        rw [readText_descend formed found reached, readText_descend otherFormed stays after]

theorem Apart.survey_directory (link : other.isLink root = fs.isLink root) (levels : Nat) :
    other.survey root levels = fs.survey root levels := by
  refine survey_congr ?_ (apart.tree formed otherFormed found stays levels) fun path listed _ =>
    apart.readText formed otherFormed found stays path listed
  rw [files_eq formed found, files_eq otherFormed stays, link,
    apart.listedPlaces formed otherFormed found stays]

end Apart

theorem survey_locked (found : fs.find true root = .ok (place, .locked entries))
    (stays : other.find true root = .ok (place, .locked entries))
    (link : other.isLink root = fs.isLink root) (levels : Nat) :
    other.survey root levels = fs.survey root levels := by
  have files := files_eq_locked found
  refine survey_congr ?_ ?_ fun path listed _ => ?_
  · rw [files, files_eq_locked stays, link]
  · rw [tree_locked found, tree_locked stays]
  · have same : path = root := by
      rw [files] at listed
      split at listed
      · exact List.mem_singleton.mp listed
      · cases listed
    rw [same, readText, readText, readBytes, readBytes, found, stays]

theorem Apart.survey {entry moved : Entry} (formed : fs.WellFormed) (otherFormed : other.WellFormed)
    (found : fs.find true root = .ok (place, entry)) (directory : entry.isDirectory = true)
    (stays : other.find true root = .ok (place, moved)) (node : moved.node = entry.node)
    (apart : Apart fs other place) (link : other.isLink root = fs.isLink root) (levels : Nat) :
    other.survey root levels = fs.survey root levels := by
  cases entry with
  | directory entries =>
      cases moved <;> cases node
      exact apart.survey_directory formed otherFormed found stays link levels
  | locked entries =>
      cases moved <;> cases node
      exact survey_locked found stays link levels
  | file content => cases directory
  | symlink target => cases directory

/-! ## READMEs -/

theorem readme?_congr {root : Path}
    (each : ∀ name ∈ readmeNames, (other.readText (root.join (.ofString name))).toOption =
      (fs.readText (root.join (.ofString name))).toOption) :
    other.readme? root = fs.readme? root := by
  unfold readme?
  revert each
  generalize readmeNames = names
  intro each
  induction names with
  | nil => rfl
  | cons name rest ih =>
      rw [List.forall_mem_cons] at each
      rw [List.findSome?_cons, List.findSome?_cons, each.1, ih each.2]

theorem isEntryName_readme : ∀ name ∈ readmeNames, IsEntryName (Bytes.ofString name) := by
  decide

theorem readme?_locked (formed : fs.WellFormed) (found : fs.find true root = .ok (place, .locked entries)) :
    fs.readme? root = none := by
  rw [FileSystem.readme?, List.findSome?_eq_none_iff]
  intro name among
  have regular := isEntryName_readme name among
  have shut := readBytes_entry_locked formed found regular
  change (fs.readText (root.entry (Bytes.ofString name))).toOption = none
  rw [readText]
  cases read : fs.readBytes (root.entry (Bytes.ofString name)) with
  | ok content => exact absurd read (shut content)
  | error fault => rfl

theorem Apart.readme? {root : Path} {place : Place} {entry moved : Entry} (formed : fs.WellFormed)
    (otherFormed : other.WellFormed) (found : fs.find true root = .ok (place, entry))
    (directory : entry.isDirectory = true)
    (stays : other.find true root = .ok (place, moved)) (node : moved.node = entry.node)
    (apart : Apart fs other place) :
    other.readme? root = fs.readme? root := by
  cases entry with
  | file content => cases directory
  | symlink target => cases directory
  | locked entries =>
      cases moved <;> cases node
      rw [readme?_locked formed found, readme?_locked otherFormed stays]
  | directory entries =>
  cases moved <;> cases node
  have plain : ∀ name ∈ readmeNames, hasIgnoreToken (Text.lowercase name.toList) = false := by decide
  have shown : ∀ name ∈ readmeNames, (Path.ofNames [Bytes.ofString name]).isIgnored = false :=
    fun name among => (Path.isIgnored_ofString name).trans (plain name among)
  refine readme?_congr fun name among => readText_congr fun content => ?_
  have regular := isEntryName_readme name among
  obtain ⟨node, noLink⟩ := apart [Bytes.ofString name] (shown name among)
  have after : other.readBytes (root.entry (Bytes.ofString name)) = .ok content ↔ _ :=
    readBytes_entry_iff stays regular (node ▸ noLink)
  rw [node] at after
  exact after.trans (readBytes_entry_iff found regular noLink).symm

end FileSystem
end CodeAtlas

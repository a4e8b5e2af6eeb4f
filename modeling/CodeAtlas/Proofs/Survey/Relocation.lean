import CodeAtlas.Proofs.Survey.Relative
import CodeAtlas.Proofs.Survey.Walk

/-!
# Surveys of the same contents at two places

Two directories without links that hold the same are surveyed alike, wherever they stand and however
their paths are spelled (`survey_relocated`). The paths below them may differ in length, so the two have
to agree on which of them are too long.
-/

namespace CodeAtlas

namespace Path

variable {p : Path} {names : List Name}

theorem no_nul_descend (regular : ∀ name ∈ names, IsEntryName name) (nonempty : p.bytes ≠ [])
    (clean : (0 : UInt8) ∉ p.bytes) : (0 : UInt8) ∉ (p.descend names).bytes := by
  induction names generalizing p with
  | nil => exact clean
  | cons name rest ih =>
      rw [List.forall_mem_cons] at regular
      exact ih regular.2 (entry_ne_nil regular.1 nonempty) (no_nul_entry regular.1 nonempty clean)

end Path

namespace FileSystem

variable {fs : FileSystem} {followLast : Bool} {root : Path} {place : Place}
  {entries : List (Name × Entry)}

/-! ## Reading below a directory -/

theorem find_descend (formed : fs.WellFormed)
    (found : fs.find followLast root = .ok (place, .directory entries)) {below : Place} {child : Entry}
    (reached : (Entry.directory entries).get? below = some child)
    (linkFree : ∀ target, child ≠ .symlink target)
    (short : (root.descend below).bytes.length ≤ maxPathLength) :
    fs.find true (root.descend below) = .ok (place ++ below, child) := by
  induction below generalizing followLast root place entries with
  | nil =>
      rw [Entry.get?, Option.some.injEq] at reached
      subst reached
      rw [List.append_nil]
      exact find_directory found
  | cons name rest ih =>
      have nonempty := (leads_of_find found).1.nonempty
      have entriesFormed : Entry.WellFormedIn entries := formed.get? (find_eq_ok_iff.mp found).2
      obtain ⟨next, looked, onward⟩ := Option.bind_eq_some_iff.mp reached
      obtain ⟨regular, -, nextFormed⟩ := entriesFormed.of_mem (Entry.lookup_mem looked)
      have names := nextFormed.isEntryName onward
      have nextShort : (root.entry name).bytes.length ≤ maxPathLength :=
        Nat.le_trans (Path.length_descend_le names (Path.entry_ne_nil regular nonempty)) short
      cases rest with
      | nil =>
          rw [Entry.get?, Option.some.injEq] at onward
          subst onward
          exact find_entry found regular looked linkFree nextShort true
      | cons second others =>
          obtain ⟨inner, -, rfl, -, -⟩ := Entry.get?_cons_eq_some_iff.mp onward
          have opened := find_entry found regular looked (by simp) nextShort true
          have last := ih opened onward short
          rwa [List.append_assoc] at last

theorem readText_of_long {path : Path} (nonempty : path.bytes ≠ []) (clean : (0 : UInt8) ∉ path.bytes)
    (long : maxPathLength < path.bytes.length) : fs.readText path = .error .nameTooLong := by
  have refused : fs.resolve true path = .error .nameTooLong := by
    rw [resolve, if_neg, if_neg, if_pos long]
    · simpa using clean
    · simpa [Path.isEmpty] using nonempty
  rw [readText, readBytes, find, refused]

theorem readText_descend (formed : fs.WellFormed)
    (found : fs.find followLast root = .ok (place, .directory entries)) {below : Place}
    {content : Bytes} (reached : (Entry.directory entries).get? below = some (.file content)) :
    fs.readText (root.descend below) =
      if (root.descend below).bytes.length ≤ maxPathLength then
        match content.decode? with
        | some text => .ok text
        | none => .error .notText
      else .error .nameTooLong := by
  obtain ⟨usable, -⟩ := leads_of_find found
  have whole : (Entry.directory entries).WellFormed := formed.get? (find_eq_ok_iff.mp found).2
  have regular := whole.isEntryName reached
  split
  · rename_i short
    have bytes : fs.readBytes (root.descend below) = .ok content := by
      simp only [readBytes, find_descend formed found reached (by simp) short]
    cases decoded : content.decode? with
    | none => simp only [readText, bytes, decoded]
    | some text => simp only [readText, bytes, decoded]
  · rename_i long
    exact readText_of_long (Path.descend_ne_nil regular usable.nonempty)
      (Path.no_nul_descend regular usable.nonempty usable.no_nul) (Nat.not_le.mp long)

theorem outline_of_readText {other : FileSystem} {path away : Path}
    (same : fs.readText path = other.readText away) (seen : Path) :
    { fs.outline path with path := seen } = { other.outline away with path := seen } := by
  unfold outline
  rw [same]
  cases other.readText away with
  | ok source => simp only [Python.ofSource_eq]
  | error fault => rfl

end FileSystem

/-! ## The tree seen from its root -/

namespace Entry

/-- The nodes for the entries of a directory, with their paths seen from the root of the tree. A
directory that does not open is shown as a file. -/
def nodes (opens : Place → Bool) : (levels : Nat) → (above : List Name) → Entry → List TreeNode
  | levels + 1, above, directory entries =>
    entries.filterMap fun (name, child) =>
      let names := above ++ [name]
      if (Path.ofNames names).isIgnored then none
      else if child.isDirectory && opens names then
        some ⟨Bytes.display name, .ofNames names, .directory, nodes opens levels names child⟩
      else some ⟨Bytes.display name, .ofNames names, .file, []⟩
  | _, _, _ => []

theorem nodes_congr {opens others : Place → Bool} (levels : Nat) (above : List Name) {entry : Entry}
    (formed : entry.WellFormed)
    (agree : ∀ place inner, entry.get? place = some inner → inner.isDirectory = true →
      (Path.ofNames (above ++ place)).isIgnored = false →
        opens (above ++ place) = others (above ++ place)) :
    nodes opens levels above entry = nodes others levels above entry := by
  induction levels generalizing above entry with
  | zero => rfl
  | succ levels ih =>
      cases entry with
      | directory entries =>
          rw [nodes, nodes]
          apply List.filterMap_congr
          rintro ⟨name, child⟩ member
          obtain ⟨regular, looked, childFormed⟩ := WellFormedIn.of_mem formed member
          by_cases hidden : (Path.ofNames (above ++ [name])).isIgnored = true
          · simp only [hidden, if_true]
          have below : ∀ place inner, child.get? place = some inner → inner.isDirectory = true →
              (Path.ofNames (above ++ [name] ++ place)).isIgnored = false →
                opens (above ++ [name] ++ place) = others (above ++ [name] ++ place) := by
            intro place inner found kind shown
            rw [List.append_assoc] at shown ⊢
            refine agree (name :: place) inner ?_ kind shown
            rw [get?, looked]
            exact found
          simp only [ih (above ++ [name]) childFormed below]
          cases kind : child.isDirectory with
          | true =>
              have opened := below [] child rfl kind
              simp only [List.append_nil] at opened
              rw [opened (Bool.not_eq_true _ ▸ hidden)]
          | false => rfl
      | file content => rfl
      | symlink target => rfl
      | locked entries => rfl

end Entry

namespace FileSystem

variable {fs : FileSystem} {root : Path} {place : Place} {entries : List (Name × Entry)}

def opensBelow (root : Path) (below : Place) : Bool :=
  decide ((root.descend below).bytes.length ≤ maxPathLength)

theorem stripAll?_treeBelow (formed : fs.WellFormed) (nonempty : root.bytes ≠ []) (levels : Nat)
    {above : List Name} (regular : ∀ name ∈ above, IsEntryName name)
    (found : fs.find true (root.descend above) = .ok (place, .directory entries))
    (linkFree : (Entry.directory entries).LinkFree) :
    TreeNode.stripAll? root (fs.treeBelow levels above (root.descend above)) =
      some (Entry.nodes (opensBelow root) levels above (Entry.directory entries).sorted) := by
  induction levels generalizing above place entries with
  | zero => rfl
  | succ levels ih =>
      have entriesFormed : Entry.WellFormedIn entries := formed.get? (find_eq_ok_iff.mp found).2
      rw [treeBelow, list, found, Entry.sorted, Entry.nodes, Entry.sortedEntries_eq,
        List.filterMap_map]
      apply TreeNode.stripAll?_filterMap
      rintro ⟨name, child⟩ member
      rw [mem_sortByName] at member
      obtain ⟨ownRegular, looked, -⟩ := entriesFormed.of_mem member
      have names : ∀ other ∈ above ++ [name], IsEntryName other := by
        rw [List.forall_mem_append]
        exact ⟨regular, List.forall_mem_singleton.mpr ownRegular⟩
      have seen := Path.strip?_descend names nonempty
      have path := Path.descend_concat root above name
      by_cases hidden : (Path.ofNames (above ++ [name])).isIgnored = true
      · simp [hidden]
      rw [Bool.not_eq_true] at hidden
      have asFile : ((some ⟨Bytes.display name, root.descend (above ++ [name]), .file, []⟩ :
            Option TreeNode).map (TreeNode.strip? root)) =
          some (some ⟨Bytes.display name, .ofNames (above ++ [name]), .file, []⟩) := by
        rw [Option.map_some, Option.some.injEq, TreeNode.strip?_eq_some_iff]
        exact ⟨rfl, rfl, seen, rfl⟩
      have noLink := linkFree.of_mem member _ (Entry.mem_descendants_self _)
      have kind : fs.isDirectory (root.descend (above ++ [name])) =
          (child.isDirectory && opensBelow root (above ++ [name])) := by
        rw [opensBelow, path]
        exact isDirectory_entry found ownRegular looked noLink
      simp only [Function.comp, hidden, Bool.false_eq_true, if_false, ← path, Entry.isDirectory_sorted,
        kind]
      by_cases opens : (child.isDirectory && opensBelow root (above ++ [name])) = true
      · obtain ⟨directory, short⟩ := Bool.and_eq_true_iff.mp opens
        cases child with
        | directory inner =>
            have below := find_entry found ownRegular looked noLink (path ▸ of_decide_eq_true short) true
            simp only [opens, if_true, Option.map_some, Option.some.injEq, TreeNode.strip?_eq_some_iff]
            exact ⟨trivial, trivial, seen, ih names (path ▸ below) (linkFree.of_mem member)⟩
        | locked inner =>
            have below := find_entry found ownRegular looked noLink (path ▸ of_decide_eq_true short) true
            rw [← path] at below
            have closed := treeBelow_locked below levels (above ++ [name])
            simp only [opens, closed, if_true, Option.map_some, Option.some.injEq,
              TreeNode.strip?_eq_some_iff]
            exact ⟨trivial, trivial, seen, by cases levels <;> rfl⟩
        | file content => cases directory
        | symlink target => cases directory
      · simp only [opens]
        exact asFile

theorem strip?_survey {levels : Nat} {nodes : List TreeNode} {sources : List FileOutline}
    (tree : TreeNode.stripAll? root (fs.tree root levels) = some nodes)
    (outlines : (fs.survey root levels).sources.mapM (FileOutline.strip? root) = some sources) :
    (fs.survey root levels).strip? = some
      { root := ⟨[]⟩
        fileTree := nodes
        sources
        totalFiles := (fs.survey root levels).totalFiles
        totalFunctions := sources.foldl (fun total source => total + source.functions.length) 0
        totalClasses := sources.foldl (fun total source => total + source.classes.length) 0 } := by
  rw [Survey.strip?_eq_some_iff]
  obtain rfl := FileOutline.map_relativeTo_of_strip? outlines
  exact ⟨rfl, tree, outlines, rfl, List.foldl_map, List.foldl_map⟩

end FileSystem

/-! ## The same contents -/

namespace Entry

/-- Every directory and every source below an entry that is not ignored has a path that can be looked up
from both roots or from neither. -/
def SameReach (root other : Path) (entry : Entry) : Prop :=
  ∀ item ∈ entry.descendants, (item.2.isDirectory || item.1.getLast?.any isSourceName) = true →
    (Path.ofNames item.1).isIgnored = false →
      ((root.descend item.1).bytes.length ≤ maxPathLength ↔
        (other.descend item.1).bytes.length ≤ maxPathLength)

theorem linkFree_of_node? {entry other : Entry} (formed : entry.WellFormed)
    (otherFormed : other.WellFormed) (same : ∀ place, entry.node? place = other.node? place)
    (linkFree : entry.LinkFree) : other.LinkFree := by
  rintro ⟨place, below⟩ member target rfl
  have found := (mem_descendants_iff other otherFormed).mp member
  have node : entry.node? place = some (.symlink target) := by
    rw [same, node?, found]
    rfl
  obtain ⟨link, reached, shape⟩ := Option.map_eq_some_iff.mp node
  have inside := (mem_descendants_iff entry formed).mpr reached
  cases link with
  | symlink other => exact linkFree _ inside other rfl
  | file content => cases shape
  | directory entries => cases shape
  | locked entries => cases shape

section SameContents

variable {root other : Path} {entries others : List (Name × Entry)} (formed : WellFormedIn entries)
  (otherFormed : WellFormedIn others)
  (same : ∀ place, (directory entries).node? place = (directory others).node? place)
  (reach : (directory entries).SameReach root other)

include formed otherFormed same reach

omit otherFormed same in
theorem opensBelow_of_sameReach {place : Place} {inner : Entry}
    (found : (directory entries).sorted.get? place = some inner) (kind : inner.isDirectory = true)
    (shown : (Path.ofNames place).isIgnored = false) :
    FileSystem.opensBelow root place = FileSystem.opensBelow other place := by
  have whole : (directory entries).WellFormed := formed
  rw [get?_sorted whole, Option.map_eq_some_iff] at found
  obtain ⟨below, reached, rfl⟩ := found
  rw [isDirectory_sorted] at kind
  have inside := (mem_descendants_iff (directory entries) whole).mpr reached
  have agree := reach (place, below) inside (by rw [kind, Bool.true_or]) shown
  exact decide_eq_decide.mpr agree

theorem nodes_of_sameReach (levels : Nat) :
    nodes (FileSystem.opensBelow root) levels [] (directory entries).sorted =
      nodes (FileSystem.opensBelow other) levels [] (directory others).sorted := by
  rw [← sorted_eq_of_node? (directory entries) (directory others) formed otherFormed same]
  apply nodes_congr levels [] (WellFormed.sorted (directory entries) formed)
  intro place inner found kind shown
  exact opensBelow_of_sameReach formed reach found kind shown

theorem listedPlaces_of_sameReach : listedPlaces root entries = listedPlaces other others := by
  have ordered : sortedEntries entries = sortedEntries others :=
    directory.inj (sorted_eq_of_node? (directory entries) (directory others) formed otherFormed same)
  have sortedFormed : (directory entries).sorted.WellFormed :=
    WellFormed.sorted (directory entries) formed
  rw [listedPlaces, listedPlaces, ← ordered]
  congr 1
  apply List.filter_congr
  rintro ⟨place, below⟩ member
  have found : (directory entries).sorted.get? place = some below :=
    (mem_descendants_iff _ sortedFormed).mp (List.mem_cons_of_mem _ member)
  obtain ⟨name, rest, nonempty⟩ := place_of_mem_descendantsIn member
  rcases List.eq_nil_or_concat place with rfl | ⟨front, last, rfl⟩
  · cases nonempty
  rw [List.concat_eq_append] at found ⊢
  by_cases hidden : (Path.ofNames (front ++ [last])).isIgnored = true
  · simp [isListed, hidden]
  -- The directory that holds the entry is not ignored either.
  have shown : (Path.ofNames front).isIgnored = false :=
    Bool.eq_false_iff.mpr fun ignored => hidden (Path.isIgnored_append ignored [last])
  obtain ⟨inner, holder⟩ := directory_of_get?_append found
  have opens := opensBelow_of_sameReach formed reach holder rfl shown
  rw [FileSystem.opensBelow, FileSystem.opensBelow] at opens
  rw [isListed, isListed, List.dropLast_concat, opens]

end SameContents
end Entry

namespace FileSystem

section TwoRuns

variable {here there : FileSystem} (formed : here.WellFormed) (otherFormed : there.WellFormed)
  {mode otherMode : Bool} {root other : Path} {place away : Place}
  {entries others : List (Name × Entry)}
  (opened : here.find mode root = .ok (place, .directory entries))
  (otherOpened : there.find otherMode other = .ok (away, .directory others))
  (linkFree : (Entry.directory entries).LinkFree)
  (same : ∀ below, (Entry.directory entries).node? below = (Entry.directory others).node? below)
  (reach : (Entry.directory entries).SameReach root other)

include formed otherFormed opened otherOpened linkFree same reach

theorem readText_of_sameReach {below : Place} (listed : below ∈ Entry.listedPlaces root entries)
    (source : below.getLast?.any isSourceName = true) :
    here.readText (root.descend below) = there.readText (other.descend below) := by
  have nonempty := (leads_of_find opened).1.nonempty
  have entriesFormed : Entry.WellFormedIn entries := formed.get? (find_eq_ok_iff.mp opened).2
  have whole : (Entry.directory entries).WellFormed := entriesFormed
  obtain ⟨entry, found, leaf, shown, -⟩ := (Entry.mem_listedPlaces entriesFormed nonempty below).mp listed
  have inside := (Entry.mem_descendants_iff (.directory entries) whole).mpr found
  rw [Path.relativeTo_descend (whole.isEntryName found) nonempty] at shown
  cases entry with
  | directory inner => cases leaf
  | locked inner => cases leaf
  | symlink target => exact absurd rfl (linkFree _ inside target)
  | file content =>
      have both := reach _ inside (by rw [source, Bool.or_true]) shown
      have moved := Entry.node?_eq_file.mp ((same below).symm.trans (Entry.node?_eq_file.mpr found))
      rw [readText_descend formed opened found, readText_descend otherFormed otherOpened moved]
      simp only [both]

theorem outlines_of_sameReach : ∃ seen,
    (here.listedOutlines root entries).mapM (FileOutline.strip? root) = some seen ∧
      (there.listedOutlines other others).mapM (FileOutline.strip? other) = some seen := by
  have entriesFormed : Entry.WellFormedIn entries := formed.get? (find_eq_ok_iff.mp opened).2
  have othersFormed : Entry.WellFormedIn others := otherFormed.get? (find_eq_ok_iff.mp otherOpened).2
  have places := Entry.listedPlaces_of_sameReach entriesFormed othersFormed same reach
  rw [listedOutlines, listedOutlines, ← places, List.mapM_map, List.mapM_map]
  refine ⟨_, mapM_eq_some_map (g := fun below =>
      { here.outline (root.descend below) with path := .ofNames below }) ?_, mapM_eq_some_map ?_⟩
  · intro below member
    have regular := (regular_of_mem_listedPlaces formed opened (List.mem_filter.mp member).1).1
    rw [Function.comp_apply, FileOutline.strip?, path_outline,
      Path.strip?_descend regular (leads_of_find opened).1.nonempty, Option.map_some]
  · intro below member
    obtain ⟨listed, source⟩ := List.mem_filter.mp member
    have regular := (regular_of_mem_listedPlaces formed opened listed).1
    have read := readText_of_sameReach formed otherFormed opened otherOpened linkFree same reach listed
      source
    rw [Function.comp_apply, FileOutline.strip?, path_outline,
      Path.strip?_descend regular (leads_of_find otherOpened).1.nonempty, Option.map_some,
      outline_of_readText read]

theorem tree_of_sameReach (levels : Nat) : ∃ seen,
    TreeNode.stripAll? root (here.tree root levels) = some seen ∧
      TreeNode.stripAll? other (there.tree other levels) = some seen := by
  have entriesFormed : Entry.WellFormedIn entries := formed.get? (find_eq_ok_iff.mp opened).2
  have othersFormed : Entry.WellFormedIn others := otherFormed.get? (find_eq_ok_iff.mp otherOpened).2
  have whole : (Entry.directory entries).WellFormed := entriesFormed
  have otherLinkFree : (Entry.directory others).LinkFree :=
    Entry.linkFree_of_node? whole othersFormed same linkFree
  have nodes := Entry.nodes_of_sameReach entriesFormed othersFormed same reach levels
  refine ⟨_, stripAll?_treeBelow formed (leads_of_find opened).1.nonempty levels
    (List.forall_mem_nil _) (find_directory opened) linkFree, ?_⟩
  rw [nodes]
  exact stripAll?_treeBelow otherFormed (leads_of_find otherOpened).1.nonempty levels
    (List.forall_mem_nil _) (find_directory otherOpened) otherLinkFree

end TwoRuns

section RealRoots

variable {here there : FileSystem} (formed : here.WellFormed) (otherFormed : there.WellFormed)
  {root other : Path} {place away : Place} {entries others : List (Name × Entry)}
  (real : here.find false root = .ok (place, .directory entries))
  (otherReal : there.find false other = .ok (away, .directory others))
  (linkFree : (Entry.directory entries).LinkFree)
  (same : ∀ below, (Entry.directory entries).node? below = (Entry.directory others).node? below)
  (reach : (Entry.directory entries).SameReach root other)

include formed otherFormed real otherReal linkFree same reach

theorem sources_of_sameReach (levels : Nat) : ∃ seen,
    (here.survey root levels).sources.mapM (FileOutline.strip? root) = some seen ∧
      (there.survey other levels).sources.mapM (FileOutline.strip? other) = some seen := by
  rw [sources_eq_listedPlaces formed real, sources_eq_listedPlaces otherFormed otherReal]
  exact outlines_of_sameReach formed otherFormed real otherReal linkFree same reach

omit linkFree in
theorem totalFiles_of_sameReach (levels : Nat) :
    (here.survey root levels).totalFiles = (there.survey other levels).totalFiles := by
  have entriesFormed : Entry.WellFormedIn entries := formed.get? (find_eq_ok_iff.mp real).2
  have othersFormed : Entry.WellFormedIn others := otherFormed.get? (find_eq_ok_iff.mp otherReal).2
  have places := Entry.listedPlaces_of_sameReach entriesFormed othersFormed same reach
  change (here.files root).length = (there.files other).length
  rw [files_eq_listedPlaces formed real, files_eq_listedPlaces otherFormed otherReal, ← places,
    List.length_map, List.length_map]

theorem strip?_of_sameReach (levels : Nat) : ∃ seen : Survey,
    (here.survey root levels).strip? = some seen ∧ (there.survey other levels).strip? = some seen := by
  obtain ⟨nodes, hereNodes, thereNodes⟩ :=
    tree_of_sameReach formed otherFormed real otherReal linkFree same reach levels
  obtain ⟨sources, hereSources, thereSources⟩ :=
    sources_of_sameReach formed otherFormed real otherReal linkFree same reach levels
  have first := strip?_survey hereNodes hereSources
  have second := strip?_survey thereNodes thereSources
  rw [← totalFiles_of_sameReach formed otherFormed real otherReal same reach levels] at second
  exact ⟨_, first, second⟩

end RealRoots

section Locked

variable {fs : FileSystem} {root : Path} {place : Place} {entries : List (Name × Entry)}

theorem sources_locked (real : fs.find false root = .ok (place, .locked entries)) (levels : Nat) :
    (fs.survey root levels).sources = [] := by
  rw [survey, files_locked real]
  rfl

theorem strip?_survey_locked (real : fs.find false root = .ok (place, .locked entries)) (levels : Nat) :
    (fs.survey root levels).strip? = some
      { root := ⟨[]⟩, fileTree := [], sources := [], totalFiles := 0, totalFunctions := 0,
        totalClasses := 0 } := by
  have tree : TreeNode.stripAll? root (fs.tree root levels) = some [] := by
    rw [tree_locked (find_locked real)]
    rfl
  have sources : (fs.survey root levels).sources.mapM (FileOutline.strip? root) = some [] := by
    rw [sources_locked real]
    rfl
  rw [strip?_survey tree sources, survey, files_locked real]
  rfl

end Locked

/-- Two directories without links that hold the same, at any two places, give surveys that are the same
when each is seen from its root: the totals, the tree, and every source with what is read in it. They
have the same module names and the same documents. -/
theorem survey_relocated {here there : FileSystem} (formed : here.WellFormed)
    (otherFormed : there.WellFormed) {root other : Path} {place away : Place} {entry moved : Entry}
    (real : here.find false root = .ok (place, entry))
    (otherReal : there.find false other = .ok (away, moved)) (directory : entry.isDirectory = true)
    (linkFree : entry.LinkFree) (same : ∀ below, entry.node? below = moved.node? below)
    (reach : entry.SameReach root other) (levels : Nat) :
    (∃ seen : Survey, (here.survey root levels).strip? = some seen ∧
        (there.survey other levels).strip? = some seen) ∧
      (here.survey root levels).moduleNames = (there.survey other levels).moduleNames ∧
      ∀ readme options, Document.render (here.survey root levels) readme options =
        Document.render (there.survey other levels) readme options := by
  obtain ⟨seen, first, second⟩ : ∃ seen : Survey, (here.survey root levels).strip? = some seen ∧
      (there.survey other levels).strip? = some seen := by
    have kind := same []
    rw [Entry.node?_nil, Entry.node?_nil, Option.some.injEq] at kind
    cases entry with
    | directory entries =>
        cases moved <;> cases kind
        exact strip?_of_sameReach formed otherFormed real otherReal linkFree same reach levels
    | locked entries =>
        cases moved <;> cases kind
        exact ⟨_, strip?_survey_locked real levels, strip?_survey_locked otherReal levels⟩
    | file content => cases directory
    | symlink target => cases directory
  exact ⟨⟨seen, first, second⟩, Survey.moduleNames_of_strip? first second,
    Document.render_of_strip? first second⟩

def brokenSource : Name × Entry := (Bytes.ofString "odd.py", .file [0xFF])

def package : Name × Entry :=
  (Bytes.ofString "pkg", .directory [(Bytes.ofString "mod.py", .file (Bytes.ofString "class A: 0\n"))])

def hiddenSystem : FileSystem :=
  ⟨[(Bytes.ofString ".git", .directory
    [(Bytes.ofString "venv", .directory [brokenSource, package])])], []⟩

def workSystem : FileSystem :=
  ⟨[(Bytes.ofString "work", .directory [package, brokenSource])], [Bytes.ofString "work"]⟩

def hiddenRoot : Path := .ofString ".git/../.git//venv/"

theorem survey_relocated_hidden :
    (hiddenSystem.survey hiddenRoot 2).totalFiles = 2 ∧
      (∃ seen : Survey, (hiddenSystem.survey hiddenRoot 2).strip? = some seen ∧
        (workSystem.survey (.ofString ".") 2).strip? = some seen) ∧
      (hiddenSystem.survey hiddenRoot 2).moduleNames = ["odd", "pkg.mod"] ∧
      (workSystem.survey (.ofString ".") 2).moduleNames = ["odd", "pkg.mod"] ∧
      ∀ readme options, Document.render (hiddenSystem.survey hiddenRoot 2) readme options =
        Document.render (workSystem.survey (.ofString ".") 2) readme options := by
  have formed : hiddenSystem.WellFormed := by decide +kernel
  have otherFormed : workSystem.WellFormed := by decide +kernel
  have real : hiddenSystem.find false hiddenRoot =
      .ok ([Bytes.ofString ".git", Bytes.ofString "venv"], .directory [brokenSource, package]) :=
    find_eq_ok_iff.mpr ⟨by decide +kernel, rfl⟩
  have otherReal : workSystem.find false (.ofString ".") =
      .ok ([Bytes.ofString "work"], .directory [package, brokenSource]) :=
    find_eq_ok_iff.mpr ⟨by decide +kernel, rfl⟩
  have linkFree : (Entry.directory [brokenSource, package]).LinkFree := by
    simp [Entry.LinkFree, Entry.descendants, Entry.descendantsIn, brokenSource, package]
  have same : ∀ below, (Entry.directory [brokenSource, package]).node? below =
      (Entry.directory [package, brokenSource]).node? below := by
    intro below
    cases below with
    | nil => rfl
    | cons name rest =>
        rw [Entry.node?_cons, Entry.node?_cons]
        by_cases first : brokenSource.1 = name
        · subst first
          rfl
        · by_cases second : package.1 = name
          · subst second
            rfl
          · simp only [Entry.lookup, first, second, if_false]
  have reach : (Entry.directory [brokenSource, package]).SameReach hiddenRoot (.ofString ".") := by
    unfold Entry.SameReach
    decide +kernel
  obtain ⟨seen, names, documents⟩ :=
    survey_relocated formed otherFormed real otherReal rfl linkFree same reach 2
  have hiddenNames : (hiddenSystem.survey hiddenRoot 2).moduleNames = ["odd", "pkg.mod"] := by
    decide +kernel
  exact ⟨by decide +kernel, seen, hiddenNames, names ▸ hiddenNames, documents⟩

theorem survey_relocated_long_root :
    deepSystem.WellFormed ∧
      deepSystem.find false (.ofString "d") =
        .ok ([Bytes.ofString "d"], .directory deepDirectories) ∧
      deepSystem.find false longRoot = .ok ([Bytes.ofString "d"], .directory deepDirectories) ∧
      (Entry.directory deepDirectories).LinkFree ∧
      (deepSystem.survey (.ofString "d") 1).totalFiles ≠ (deepSystem.survey longRoot 1).totalFiles := by
  refine ⟨by decide +kernel, find_eq_ok_iff.mpr ⟨by decide +kernel, rfl⟩,
    find_eq_ok_iff.mpr ⟨by decide +kernel, rfl⟩, ?_, by decide +kernel⟩
  simp [Entry.LinkFree, Entry.descendants, Entry.descendantsIn, deepDirectories]

end FileSystem
end CodeAtlas

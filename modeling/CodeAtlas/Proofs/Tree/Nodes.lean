import CodeAtlas.Proofs.Survey.Walk
import CodeAtlas.Proofs.Tree.Levels

/-!
# The nodes of a tree

A tree shows each path that leads from the root through directories that can be listed, or links to such
directories, as long as nothing on the way is ignored and the path is not too deep. It shows each once,
whatever circles links make (`tree_nodes`).
-/

namespace CodeAtlas

def Entry.entries : Entry → List (Name × Entry)
  | directory entries => entries
  | locked entries => entries
  | _ => []

namespace FileSystem

variable {fs : FileSystem} {root : Path}

/-! ## What a tree should show -/

def Contains (fs : FileSystem) (directory : Path) (name : Name) : Prop :=
  ∃ place entry, fs.find true directory = .ok (place, entry) ∧ Entry.lookup name entry.entries ≠ none

def Lists (fs : FileSystem) (directory : Path) (name : Name) : Prop :=
  fs.Contains directory name ∧ ∃ entries, fs.list directory = .ok entries

theorem lists_iff {directory : Path} {name : Name} : fs.Lists directory name ↔
    ∃ place entries, fs.find true directory = .ok (place, .directory entries) ∧
      Entry.lookup name entries ≠ none := by
  constructor
  · rintro ⟨⟨place, entry, found, inside⟩, shown, listed⟩
    rw [list, found] at listed
    cases entry with
    | directory entries => exact ⟨place, entries, found, inside⟩
    | file content => cases listed
    | symlink target => cases listed
    | locked entries => cases listed
  · rintro ⟨place, entries, found, inside⟩
    refine ⟨⟨place, _, found, inside⟩, sortByName entries, ?_⟩
    rw [list, found]

/-- Each of these names is in the directory to which those before it lead from the root, and no path on the
way is ignored. What it is for a name to be in a directory is left open. -/
def Admits (isIn : Path → Name → Prop) (root : Path) (place : Place) : Prop :=
  ∀ above name, above ++ [name] <+: place →
    isIn (root.descend above) name ∧
      ((root.descend (above ++ [name])).relativeTo root).isIgnored = false

section Admits

variable {isIn : Path → Name → Prop}

theorem admits_nil : Admits isIn root [] := by
  intro above name leads
  simp at leads

theorem admits_concat {above : Place} {name : Name} :
    Admits isIn root (above ++ [name]) ↔ Admits isIn root above ∧ isIn (root.descend above) name ∧
      ((root.descend (above ++ [name])).relativeTo root).isIgnored = false := by
  constructor
  · intro admitted
    refine ⟨fun front own leads => ?_, admitted above name List.prefix_rfl⟩
    exact admitted front own (leads.trans (List.prefix_append above [name]))
  · rintro ⟨admitted, last⟩ front own leads
    rcases List.prefix_concat_iff.mp leads with whole | inner
    · obtain ⟨rfl, same⟩ := List.append_inj' whole rfl
      cases same
      exact last
    · exact admitted front own inner

theorem Admits.of_append {above below : Place} (admitted : Admits isIn root (above ++ below)) :
    Admits isIn root above := fun front name leads =>
  admitted front name (leads.trans (List.prefix_append above below))

end Admits

theorem Lists.isEntryName {directory : Path} {name : Name} (formed : fs.WellFormed)
    (lists : fs.Lists directory name) : IsEntryName name := by
  obtain ⟨place, entries, found, listed⟩ := lists_iff.mp lists
  obtain ⟨child, looked⟩ := Option.ne_none_iff_exists'.mp listed
  have entriesFormed : Entry.WellFormedIn entries := formed.get? (find_eq_ok_iff.mp found).2
  exact (entriesFormed.of_mem (Entry.lookup_mem looked)).1

theorem Admits.isEntryName {place : Place} (formed : fs.WellFormed)
    (admitted : Admits fs.Lists root place) : ∀ name ∈ place, IsEntryName name := by
  intro name member
  obtain ⟨above, below, rfl⟩ := List.append_of_mem member
  have leads : above ++ [name] <+: above ++ name :: below := ⟨below, by simp⟩
  exact (admitted above name leads).1.isEntryName formed

theorem Lists.ne_nil {directory : Path} {name : Name} (lists : fs.Lists directory name) :
    directory.bytes ≠ [] := by
  obtain ⟨place, entries, found, -⟩ := lists_iff.mp lists
  exact (leads_of_find found).1.nonempty

theorem Admits.root_ne_nil {place : Place} (admitted : Admits fs.Lists root place) (deeper : place ≠ []) :
    root.bytes ≠ [] := by
  obtain ⟨name, rest, rfl⟩ := List.exists_cons_of_ne_nil deeper
  exact (admitted [] name ⟨rest, rfl⟩).1.ne_nil

/-! ## The names of one directory -/

theorem visible_pairwise (formed : fs.WellFormed) (above : List Name) (path : Path) :
    (fs.visible above path).Pairwise fun a b => Bytes.precedes a b = true := by
  unfold visible
  split
  · rename_i place entries found
    have entriesFormed := formed.get? (find_eq_ok_iff.mp found).2
    exact (Entry.sortedNames_pairwise entriesFormed).sublist List.filter_sublist
  · exact .nil

theorem mem_visible {above : List Name} {path : Path} {name : Name} :
    name ∈ fs.visible above path ↔
      fs.Lists path name ∧ (Path.ofNames (above ++ [name])).isIgnored = false := by
  rw [lists_iff]
  unfold visible
  split
  · rename_i place entries found
    rw [List.mem_filter, Entry.mem_sortedNames, Bool.not_eq_true', found]
    refine and_congr_left fun _ => ⟨fun listed => ⟨place, entries, rfl, listed⟩, ?_⟩
    rintro ⟨_, _, same, listed⟩
    cases same
    exact listed
  · rename_i closed
    refine iff_of_false List.not_mem_nil ?_
    rintro ⟨⟨place, entries, found, -⟩, -⟩
    exact closed place entries found

def Siblings (fs : FileSystem) (directory : Path) (nodes : List TreeNode) : Prop :=
  ∃ names : List Name, names.Pairwise (fun a b => Bytes.precedes a b = true) ∧
    (∀ name ∈ names, fs.Lists directory name) ∧
    nodes.map (·.path) = names.map directory.entry ∧ nodes.map (·.name) = names.map Bytes.display

theorem path_shownNode (levels : Nat) (above : List Name) (path : Path) (name : Name) :
    (fs.shownNode levels above path name).path = path.entry name := by
  by_cases directory : fs.isDirectory (path.entry name) = true
  · rw [shownNode_of_directory directory]
  · rw [shownNode_of_file directory]

theorem name_shownNode (levels : Nat) (above : List Name) (path : Path) (name : Name) :
    (fs.shownNode levels above path name).name = Bytes.display name := by
  by_cases directory : fs.isDirectory (path.entry name) = true
  · rw [shownNode_of_directory directory]
  · rw [shownNode_of_file directory]

theorem siblings_treeBelow (formed : fs.WellFormed) (levels : Nat) (above : List Name) (path : Path) :
    fs.Siblings path (fs.treeBelow levels above path) := by
  cases levels with
  | zero => exact ⟨[], .nil, List.forall_mem_nil _, rfl, rfl⟩
  | succ levels =>
      refine ⟨fs.visible above path, visible_pairwise formed above path,
        fun name member => (mem_visible.mp member).1, ?_, ?_⟩
      · rw [treeBelow_succ, List.map_map]
        exact List.map_congr_left fun name _ => path_shownNode levels above path name
      · rw [treeBelow_succ, List.map_map]
        exact List.map_congr_left fun name _ => name_shownNode levels above path name

/-! ## One node -/

theorem mem_preorderAll_treeBelow {levels : Nat} {above : List Name} {path : Path} {node : TreeNode}
    (member : node ∈ TreeNode.preorderAll (fs.treeBelow levels above path)) :
    ∃ fewer names directory name, node = fs.shownNode fewer names directory name := by
  induction levels generalizing above path with
  | zero => cases member
  | succ levels ih =>
      rw [treeBelow_succ, TreeNode.preorderAll_eq_flatMap, List.flatMap_map, List.mem_flatMap] at member
      obtain ⟨name, -, inside⟩ := member
      rw [TreeNode.preorder_eq, List.mem_cons] at inside
      rcases inside with rfl | below
      · exact ⟨levels, above, path, name, rfl⟩
      · by_cases directory : fs.isDirectory (path.entry name) = true
        · rw [shownNode_of_directory directory] at below
          exact ih below
        · rw [shownNode_of_file directory] at below
          cases below

theorem kind_shownNode (levels : Nat) (above : List Name) (path : Path) (name : Name) :
    let node := fs.shownNode levels above path name
    (node.kind = .directory ↔ fs.isDirectory node.path = true) ∧ (node.kind = .file → node.children = []) := by
  intro node
  by_cases directory : fs.isDirectory (path.entry name) = true
  · simp [node, shownNode_of_directory directory, directory]
  · simp [node, shownNode_of_file directory, directory]

theorem siblings_shownNode (formed : fs.WellFormed) (levels : Nat) (above : List Name) (path : Path)
    (name : Name) :
    let node := fs.shownNode levels above path name
    fs.Siblings node.path node.children := by
  intro node
  by_cases directory : fs.isDirectory (path.entry name) = true
  · have shown : node = _ := shownNode_of_directory directory levels above
    rw [shown]
    exact siblings_treeBelow formed levels _ _
  · have shown : node = _ := shownNode_of_file directory levels above
    rw [shown]
    exact siblings_treeBelow formed 0 above _

theorem depth_lt_of_mem_treeBelow (levels : Nat) (above : List Name) (path : Path) :
    ∀ node ∈ fs.treeBelow levels above path, node.depth < levels := by
  induction levels generalizing above path with
  | zero => exact List.forall_mem_nil _
  | succ levels ih =>
      rw [treeBelow_succ, List.forall_mem_map]
      intro name _
      rw [TreeNode.depth_eq, Nat.lt_succ_iff]
      by_cases directory : fs.isDirectory (path.entry name) = true
      · rw [shownNode_of_directory directory]
        exact TreeNode.depthBelow_le_iff.mpr (ih _ _)
      · rw [shownNode_of_file directory]
        exact Nat.zero_le levels

/-! ## The places of a tree -/

def shownPlaces (fs : FileSystem) (root : Path) : (levels : Nat) → (above : Place) → List Place
  | 0, _ => []
  | levels + 1, above =>
    (fs.visible above (root.descend above)).flatMap fun name =>
      ([] :: shownPlaces fs root levels (above ++ [name])).map (name :: ·)

theorem shownPlaces_succ (levels : Nat) (above : Place) :
    fs.shownPlaces root (levels + 1) above =
      (fs.visible above (root.descend above)).flatMap fun name =>
        ([] :: fs.shownPlaces root levels (above ++ [name])).map (name :: ·) := rfl

theorem paths_treeBelow (levels : Nat) (above : Place) :
    (TreeNode.preorderAll (fs.treeBelow levels above (root.descend above))).map (·.path) =
      (fs.shownPlaces root levels above).map fun below => root.descend (above ++ below) := by
  induction levels generalizing above with
  | zero => rfl
  | succ levels ih =>
      rw [treeBelow_succ, TreeNode.preorderAll_eq_flatMap, List.flatMap_map, List.map_flatMap,
        shownPlaces_succ, List.map_flatMap]
      apply List.flatMap_congr
      intro name _
      have inner : (TreeNode.preorderAll
            (fs.shownNode levels above (root.descend above) name).children).map (·.path) =
          (fs.shownPlaces root levels (above ++ [name])).map fun below =>
            root.descend ((above ++ [name]) ++ below) := by
        rw [← ih, Path.descend_concat]
        by_cases directory : fs.isDirectory ((root.descend above).entry name) = true
        · rw [shownNode_of_directory directory]
        · have empty := visible_of_not_isDirectory (Bool.eq_false_iff.mpr directory) (above ++ [name])
          rw [shownNode_of_file directory]
          cases levels with
          | zero => rfl
          | succ levels =>
              rw [treeBelow_succ, empty]
              rfl
      rw [TreeNode.preorder_eq, List.map_cons, inner, path_shownNode, List.map_cons, List.map_cons,
        List.map_map, Path.descend_concat]
      simp only [Function.comp_def, List.append_assoc, List.singleton_append]

theorem mem_shownPlaces_succ {levels : Nat} {above : Place} {name : Name} {rest : Place} :
    name :: rest ∈ fs.shownPlaces root (levels + 1) above ↔
      name ∈ fs.visible above (root.descend above) ∧
        (rest = [] ∨ rest ∈ fs.shownPlaces root levels (above ++ [name])) := by
  rw [shownPlaces_succ, List.mem_flatMap]
  constructor
  · rintro ⟨own, member, inside⟩
    obtain ⟨below, among, same⟩ := List.mem_map.mp inside
    obtain ⟨rfl, rfl⟩ := List.cons.inj same
    exact ⟨member, List.mem_cons.mp among⟩
  · rintro ⟨member, among⟩
    exact ⟨name, member, List.mem_map.mpr ⟨rest, List.mem_cons.mpr among, rfl⟩⟩

theorem nil_not_mem_shownPlaces (levels : Nat) (above : Place) :
    [] ∉ fs.shownPlaces root levels above := by
  cases levels with
  | zero => nofun
  | succ levels => simp [shownPlaces_succ]

theorem shownPlaces_pairwise (formed : fs.WellFormed) (levels : Nat) (above : Place) :
    (fs.shownPlaces root levels above).Pairwise Entry.ComesBefore := by
  induction levels generalizing above with
  | zero => exact .nil
  | succ levels ih =>
      rw [shownPlaces_succ, List.pairwise_flatMap]
      constructor
      · intro name _
        rw [List.pairwise_map, List.pairwise_cons]
        refine ⟨fun below member => .cons ?_, (ih _).imp fun before => .cons before⟩
        cases below with
        | nil => exact absurd member (nil_not_mem_shownPlaces levels _)
        | cons next rest => exact .nil
      · refine (visible_pairwise formed above (root.descend above)).imp ?_
        intro name other before
        simp only [List.forall_mem_map]
        exact fun _ _ _ _ => .rel before

theorem mem_visible_iff_admits (formed : fs.WellFormed) {above : Place} {name : Name}
    (admitted : Admits fs.Lists root above) :
    name ∈ fs.visible above (root.descend above) ↔ Admits fs.Lists root (above ++ [name]) := by
  rw [mem_visible, admits_concat, and_iff_right admitted]
  apply and_congr_right
  intro lists
  have nonempty : root.bytes ≠ [] := by
    by_cases start : above = []
    · subst start
      exact lists.ne_nil
    · exact admitted.root_ne_nil start
  have regular : ∀ other ∈ above ++ [name], IsEntryName other := by
    rw [List.forall_mem_append]
    exact ⟨admitted.isEntryName formed, List.forall_mem_singleton.mpr (lists.isEntryName formed)⟩
  rw [Path.relativeTo_descend regular nonempty]

theorem mem_shownPlaces (formed : fs.WellFormed) (levels : Nat) {above below : Place}
    (admitted : Admits fs.Lists root above) :
    below ∈ fs.shownPlaces root levels above ↔
      below ≠ [] ∧ below.length ≤ levels ∧ Admits fs.Lists root (above ++ below) := by
  induction levels generalizing above below with
  | zero =>
      rw [Nat.le_zero, List.length_eq_zero_iff]
      constructor
      · nofun
      · rintro ⟨deeper, shallow, -⟩
        exact absurd shallow deeper
  | succ levels ih =>
      cases below with
      | nil => simp [nil_not_mem_shownPlaces]
      | cons name rest =>
          have whole : above ++ name :: rest = (above ++ [name]) ++ rest := by simp
          rw [mem_shownPlaces_succ, mem_visible_iff_admits formed admitted, whole, List.length_cons,
            Nat.succ_le_succ_iff]
          constructor
          · rintro ⟨onward, rfl | inside⟩
            · exact ⟨by simp, Nat.zero_le _, by rwa [List.append_nil]⟩
            · obtain ⟨-, shallow, further⟩ := (ih onward).mp inside
              exact ⟨by simp, shallow, further⟩
          · rintro ⟨-, shallow, further⟩
            have onward := further.of_append
            refine ⟨onward, ?_⟩
            by_cases last : rest = []
            · exact .inl last
            · exact .inr ((ih onward).mpr ⟨last, shallow, further⟩)

theorem components_nodup (formed : fs.WellFormed) (root : Path) (levels : Nat) :
    ((fs.shownPlaces root levels []).map fun place => (root.descend place).components).Nodup := by
  rw [List.Nodup, List.pairwise_map]
  refine (shownPlaces_pairwise formed levels []).imp_of_mem ?_
  intro first second here there before same
  obtain ⟨deeper, -, admitted⟩ := (mem_shownPlaces formed levels admits_nil).mp here
  obtain ⟨-, -, otherAdmitted⟩ := (mem_shownPlaces formed levels admits_nil).mp there
  have equal : first = second := Path.eq_of_components_descend (admitted.isEntryName formed)
    (otherAdmitted.isEntryName formed) (admitted.root_ne_nil deeper) same
  rw [equal] at before
  exact Entry.not_comesBefore_self second before

/-- The paths of a tree are those that lead from the root to an entry, at most so many levels below it,
through directories that can be listed and past nothing that is ignored; each has one node. A node is a
directory if its path leads to one, and a file has no children. The nodes below one path are entries of
it, in byte order of their names. -/
theorem tree_nodes (formed : fs.WellFormed) (root : Path) (levels : Nat) :
    let nodes := TreeNode.preorderAll (fs.tree root levels)
    (∀ path, path ∈ nodes.map (·.path) ↔ ∃ place, path = root.descend place ∧
        1 ≤ place.length ∧ place.length ≤ levels ∧ Admits fs.Lists root place) ∧
      (nodes.map (·.path.components)).Nodup ∧
      fs.Siblings root (fs.tree root levels) ∧
      (∀ node ∈ nodes, (node.kind = .directory ↔ fs.isDirectory node.path = true) ∧
        (node.kind = .file → node.children = []) ∧ fs.Siblings node.path node.children) ∧
      ∀ node ∈ fs.tree root levels, node.depth < levels := by
  intro nodes
  -- The tree shows these places, each once, so what is to be shown of its paths is shown of the places.
  have paths : nodes.map (·.path) = (fs.shownPlaces root levels []).map root.descend :=
    paths_treeBelow levels []
  refine ⟨fun path => ?_, ?_, siblings_treeBelow formed levels [] root, fun node member => ?_,
    depth_lt_of_mem_treeBelow levels [] root⟩
  · rw [paths, List.mem_map]
    apply exists_congr
    intro place
    rw [mem_shownPlaces formed levels admits_nil, Nat.one_le_iff_ne_zero, Ne, Ne,
      List.length_eq_zero_iff, and_comm, eq_comm, List.nil_append]
  · have components : nodes.map (·.path.components) =
        (fs.shownPlaces root levels []).map fun place => (root.descend place).components := by
      have mapped := congrArg (List.map Path.components) paths
      rwa [List.map_map, List.map_map] at mapped
    rw [components]
    exact components_nodup formed root levels
  · obtain ⟨fewer, names, directory, name, rfl⟩ := mem_preorderAll_treeBelow member
    obtain ⟨kind, leaf⟩ := kind_shownNode fewer names directory name
    exact ⟨kind, leaf, siblings_shownNode formed fewer names directory name⟩

theorem tree_nodes_circular :
    let nodes := TreeNode.preorderAll (circularSystem.tree (.ofString "d") 4)
    let again := ["pkg", "up", "pkg", "mod.py"].map Bytes.ofString
    Admits circularSystem.Lists (.ofString "d") again ∧
      .ofString "d/pkg/up/pkg/mod.py" ∈ nodes.map (·.path) ∧ (nodes.map (·.path.components)).Nodup ∧
      ∀ node ∈ circularSystem.tree (.ofString "d") 4, node.depth < 4 := by
  intro nodes again
  have formed : circularSystem.WellFormed := by decide +kernel
  have admitted : Admits circularSystem.Lists (.ofString "d") again :=
    ((mem_shownPlaces formed 4 admits_nil).mp (by decide +kernel)).2.2
  obtain ⟨paths, once, -, -, shallow⟩ := tree_nodes formed (.ofString "d") 4
  exact ⟨admitted, (paths _).mpr ⟨again, by decide +kernel, by decide, by decide, admitted⟩, once, shallow⟩

def lockedSystem : FileSystem where
  entries := [(Bytes.ofString "d", .directory [(Bytes.ofString "keep", .locked
    [(Bytes.ofString "secret.py", .file [])]), (Bytes.ofString "main.py", .file [])])]
  workingDirectory := []

/-- What a locked directory contains has no node, though every path on the way to it is an entry of a
directory and not ignored. -/
theorem tree_nodes_locked :
    let secret := ["keep", "secret.py"].map Bytes.ofString
    lockedSystem.WellFormed ∧ secret.length ≤ 2 ∧
      lockedSystem.isDirectory (.ofString "d") = true ∧
      lockedSystem.isDirectory (.ofString "d/keep") = true ∧
      Admits lockedSystem.Contains (.ofString "d") secret ∧
      (Path.ofString "d").descend secret ∉
        (TreeNode.preorderAll (lockedSystem.tree (.ofString "d") 2)).map (·.path) := by
  intro secret
  have formed : lockedSystem.WellFormed := by decide +kernel
  refine ⟨formed, by decide, by rfl, by rfl, ?_, by decide +kernel⟩
  have shown : ∀ place ∈ [["keep"], ["keep", "secret.py"]].map (·.map Bytes.ofString),
      (((Path.ofString "d").descend place).relativeTo (.ofString "d")).isIgnored = false := by
    decide +kernel
  have outer : Admits lockedSystem.Contains (.ofString "d") [Bytes.ofString "keep"] :=
    admits_concat.mpr ⟨admits_nil, ⟨_, _, rfl, by decide⟩, shown _ (by simp)⟩
  exact admits_concat.mpr ⟨outer, ⟨_, _, rfl, by decide⟩, shown _ (by simp)⟩

end FileSystem
end CodeAtlas

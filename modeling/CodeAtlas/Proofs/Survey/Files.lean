import CodeAtlas.Proofs.FileSystem.Resolve
import CodeAtlas.Proofs.Python.Item
import CodeAtlas.Survey.Walk
import Mathlib.Data.List.Basic

namespace CodeAtlas

/-! ## Files of a tree -/

namespace TreeNode

mutual

def filePaths : TreeNode → List Path
  | ⟨_, path, .file, children⟩ => path :: filePathsAll children
  | ⟨_, _, .directory, children⟩ => filePathsAll children

def filePathsAll : List TreeNode → List Path
  | [] => []
  | node :: rest => node.filePaths ++ filePathsAll rest

end

theorem filePathsAll_filterMap {α : Type} (f : α → Option TreeNode) (items : List α) :
    filePathsAll (items.filterMap f) =
      items.flatMap fun item => ((f item).map filePaths).getD [] := by
  induction items with
  | nil => simp [filePathsAll]
  | cons item rest ih =>
      cases result : f item with
      | none => simp [result, ih]
      | some node => simp [result, filePathsAll, ih]

end TreeNode

/-! ## Levels -/

namespace Entry

mutual

def height : Entry → Nat
  | directory entries => heightIn entries
  | file _ => 0
  | symlink _ => 0
  | locked _ => 0

def heightIn : List (Name × Entry) → Nat
  | [] => 0
  | (_, entry) :: rest => max (entry.height + 1) (heightIn rest)

end

theorem heightIn_insertByName (name : Name) (entry : Entry) (entries : List (Name × Entry)) :
    heightIn (insertByName name entry entries) = max (entry.height + 1) (heightIn entries) := by
  induction entries with
  | nil => rfl
  | cons first rest ih =>
      obtain ⟨other, child⟩ := first
      unfold insertByName
      split
      · rfl
      · rw [heightIn, heightIn, ih, Nat.max_left_comm]

mutual

theorem height_sorted : (entry : Entry) → entry.sorted.height = entry.height
  | directory entries => heightIn_sortedEntries entries
  | file _ => rfl
  | symlink _ => rfl
  | locked _ => rfl

theorem heightIn_sortedEntries :
    (entries : List (Name × Entry)) → heightIn (sortedEntries entries) = heightIn entries
  | [] => rfl
  | (name, entry) :: rest => by
      rw [sortedEntries, heightIn_insertByName, height_sorted entry, heightIn_sortedEntries rest,
        heightIn]

end

mutual

theorem depth_of_mem_files {p path : Path} {above : List Name} :
    (entry : Entry) → entry.WellFormed → path.bytes ≠ [] → p ∈ entry.files path above →
      path.components.length ≤ p.components.length ∧
        p.components.length ≤ path.components.length + entry.height
  | directory entries, formed, nonempty, member => by
      rw [files] at member
      split at member
      · cases member
      · have bounds := depth_of_mem_filesIn entries formed nonempty member
        exact ⟨Nat.le_of_lt bounds.1, bounds.2⟩
  | file _, _, _, member => by
      rw [files, List.mem_singleton] at member
      simp [member, height]
  | symlink _, _, _, member => by
      rw [files, List.mem_singleton] at member
      simp [member, height]
  | locked _, _, _, member => by cases member

theorem depth_of_mem_filesIn {p path : Path} {above : List Name} :
    (entries : List (Name × Entry)) → WellFormedIn entries → path.bytes ≠ [] →
      p ∈ filesIn path above entries →
      path.components.length < p.components.length ∧
        p.components.length ≤ path.components.length + heightIn entries
  | [], _, _, member => by cases member
  | (name, entry) :: rest, ⟨regular, _, formed, others⟩, nonempty, member => by
      rw [filesIn, List.mem_append] at member
      rw [heightIn]
      rcases member with member | member
      · split at member
        · cases member
        · have bounds := depth_of_mem_files entry formed (Path.entry_ne_nil regular nonempty) member
          rw [Path.components_entry regular nonempty, List.length_append, List.length_singleton]
            at bounds
          omega
      · have bounds := depth_of_mem_filesIn rest others nonempty member
        omega

end

theorem filesIn_eq_flatMap (path : Path) (above : List Name) (entries : List (Name × Entry)) :
    filesIn path above entries =
      entries.flatMap fun item =>
        if (Path.ofNames (above ++ [item.1])).isIgnored then []
        else item.2.files (path.entry item.1) (above ++ [item.1]) := by
  induction entries with
  | nil => rfl
  | cons first rest ih => rw [filesIn, ih, List.flatMap_cons]

mutual

/-- The entries at and below an entry, each with the names that lead to it. -/
def descendants : Entry → List (Place × Entry)
  | directory entries => ([], directory entries) :: descendantsIn entries
  | file content => [([], file content)]
  | symlink target => [([], symlink target)]
  | locked entries => [([], locked entries)]

def descendantsIn : List (Name × Entry) → List (Place × Entry)
  | [] => []
  | (name, entry) :: rest =>
    entry.descendants.map (fun item => (name :: item.1, item.2)) ++ descendantsIn rest

end

theorem mem_descendants_self (entry : Entry) : ([], entry) ∈ entry.descendants := by
  cases entry <;> simp [descendants]

theorem mem_descendants_of_mem {entries : List (Name × Entry)} {name : Name} {child : Entry}
    {item : Place × Entry} (member : (name, child) ∈ entries) (inside : item ∈ child.descendants) :
    (name :: item.1, item.2) ∈ (directory entries).descendants := by
  suffices (name :: item.1, item.2) ∈ descendantsIn entries by
    rw [descendants]
    exact List.mem_cons_of_mem _ this
  induction entries with
  | nil => cases member
  | cons first rest ih =>
      rw [descendantsIn, List.mem_append]
      rcases List.mem_cons.mp member with rfl | later
      · exact Or.inl (List.mem_map.mpr ⟨item, inside, rfl⟩)
      · exact Or.inr (ih later)

def LinkFree (entry : Entry) : Prop :=
  ∀ item ∈ entry.descendants, ∀ target, item.2 ≠ symlink target

/-- Every directory that is shown in the first levels below an entry can be looked up by its path. The
entry is reached by `path`, and its names seen from the root of the tree are `above`. -/
def ShortPaths (path : Path) (above : List Name) (levels : Nat) (entry : Entry) : Prop :=
  ∀ item ∈ entry.descendants, item.2.isDirectory = true → item.1.length ≤ levels →
    (Path.ofNames (above ++ item.1)).isIgnored = false →
      (item.1.foldl Path.entry path).bytes.length ≤ maxPathLength

theorem LinkFree.of_mem {entries : List (Name × Entry)} {name : Name} {child : Entry}
    (linkFree : (directory entries).LinkFree) (member : (name, child) ∈ entries) :
    child.LinkFree := by
  intro item inside
  exact linkFree (name :: item.1, item.2) (mem_descendants_of_mem member inside)

theorem ShortPaths.of_mem {path : Path} {above : List Name} {levels : Nat}
    {entries : List (Name × Entry)} {name : Name} {child : Entry}
    (short : (directory entries).ShortPaths path above (levels + 1))
    (member : (name, child) ∈ entries) :
    child.ShortPaths (path.entry name) (above ++ [name]) levels := by
  intro item inside isDirectory bound shown
  refine short _ (mem_descendants_of_mem member inside) isDirectory (Nat.succ_le_succ bound) ?_
  rwa [List.append_assoc] at shown

end Entry

namespace FileSystem

/-! ## Agreement -/

theorem treeBelow_locked {fs : FileSystem} {path : Path} {place : Place} {entries : List (Name × Entry)}
    (found : fs.find true path = .ok (place, .locked entries)) (levels : Nat) (above : List Name) :
    fs.treeBelow levels above path = [] := by
  cases levels with
  | zero => rfl
  | succ levels => rw [treeBelow, list, found]

theorem tree_locked {fs : FileSystem} {root : Path} {place : Place} {entries : List (Name × Entry)}
    (found : fs.find true root = .ok (place, .locked entries)) (levels : Nat) : fs.tree root levels = [] :=
  treeBelow_locked found levels []

theorem filePathsAll_treeBelow {fs : FileSystem} (formed : fs.WellFormed) (levels : Nat)
    (above : List Name) {path : Path} {place : Place} {entries : List (Name × Entry)}
    (found : fs.find true path = .ok (place, .directory entries))
    (linkFree : (Entry.directory entries).LinkFree)
    (short : (Entry.directory entries).ShortPaths path above levels) :
    TreeNode.filePathsAll (fs.treeBelow levels above path) =
      (Entry.filesIn path above (Entry.sortedEntries entries)).filter fun p =>
        decide (p.components.length ≤ path.components.length + levels) := by
  have nonempty := (leads_of_find found).1.nonempty
  have entriesFormed : Entry.WellFormedIn entries := formed.get? (find_eq_ok_iff.mp found).2
  induction levels generalizing above path place entries with
  | zero =>
      symm
      rw [treeBelow, TreeNode.filePathsAll, List.filter_eq_nil_iff]
      intro p member
      have bounds := Entry.depth_of_mem_filesIn _ (Entry.WellFormedIn.sortedEntries _ entriesFormed)
        nonempty member
      simpa using bounds.1
  | succ levels ih =>
      -- Both sides are lists over the sorted entries, so it is enough to compare one entry.
      rw [Entry.filesIn_eq_flatMap, Entry.sortedEntries_eq, List.flatMap_map, List.filter_flatMap,
        treeBelow, list, found, TreeNode.filePathsAll_filterMap]
      apply List.flatMap_congr
      rintro ⟨name, child⟩ member
      rw [mem_sortByName] at member
      obtain ⟨regular, looked, childFormed⟩ := entriesFormed.of_mem member
      by_cases hidden : (Path.ofNames (above ++ [name])).isIgnored = true
      · simp [hidden]
      rw [Bool.not_eq_true] at hidden
      have shown : ∀ p : Path, p.components.length ≤ (path.entry name).components.length + levels ↔
          p.components.length ≤ path.components.length + (levels + 1) := by
        intro p
        rw [Path.components_entry regular nonempty, List.length_append, List.length_singleton]
        omega
      have noLink := linkFree.of_mem member _ (Entry.mem_descendants_self _)
      have kind := isDirectory_entry found regular looked noLink
      have reachable : child.isDirectory = true → (path.entry name).bytes.length ≤ maxPathLength :=
        fun directory =>
          short _ (Entry.mem_descendants_of_mem member (Entry.mem_descendants_self _)) directory
            (Nat.succ_le_succ (Nat.zero_le _)) hidden
      cases child with
      | directory inner =>
          replace reachable := reachable rfl
          have below := find_entry found regular looked noLink reachable true
          rw [decide_eq_true reachable] at kind
          simp only [hidden, kind, Entry.isDirectory, Bool.and_self, Bool.false_eq_true, if_false, if_true,
            Option.map_some, Option.getD_some, TreeNode.filePaths, Entry.sorted, Entry.files,
            Nat.not_lt.mpr reachable]
          rw [ih (above ++ [name]) below (linkFree.of_mem member) (short.of_mem member)
            (Path.entry_ne_nil regular nonempty) childFormed]
          simp only [shown]
      | file content =>
          have level := (shown (path.entry name)).mp (Nat.le_add_right _ _)
          simp [hidden, kind, Entry.isDirectory, TreeNode.filePaths, TreeNode.filePathsAll, Entry.sorted,
            Entry.files, level]
      | locked inner =>
          -- Neither side shows what is in it.
          replace reachable := reachable rfl
          have below := find_entry found regular looked noLink reachable true
          have closed := treeBelow_locked below levels (above ++ [name])
          simp [hidden, kind, Entry.isDirectory, reachable, closed, TreeNode.filePaths,
            TreeNode.filePathsAll, Entry.sorted, Entry.files]
      | symlink target => exact absurd rfl (noLink target)

theorem path_outline (fs : FileSystem) (path : Path) : (fs.outline path).path = path := by
  unfold outline
  split
  · exact Python.path_ofSource path _
  · rfl

theorem files_of_isDirectory {fs : FileSystem} {root : Path} {place : Place} {entry : Entry}
    (real : fs.find false root = .ok (place, entry)) (directory : entry.isDirectory = true) :
    fs.files root = entry.sorted.files root [] := by
  rw [files, real]
  cases entry with
  | symlink target => cases directory
  | _ => rfl

theorem filePathsAll_tree {fs : FileSystem} (formed : fs.WellFormed) {root : Path} {place : Place}
    {entry : Entry} (real : fs.find false root = .ok (place, entry)) (directory : entry.isDirectory = true)
    (linkFree : entry.LinkFree) (levels : Nat) (short : entry.ShortPaths root [] levels) :
    TreeNode.filePathsAll (fs.tree root levels) =
      ((entry.sorted.files root []).filter fun p =>
        decide (p.components.length ≤ root.components.length + levels)) := by
  cases entry with
  | directory entries =>
      have usable := usable_of_resolve (find_eq_ok_iff.mp real).1
      rw [Entry.sorted, Entry.files, if_neg (Nat.not_lt.mpr usable.short)]
      exact filePathsAll_treeBelow formed levels [] (find_directory real) linkFree short
  | locked entries => rw [tree_locked (find_locked real)]; rfl
  | file content => cases directory
  | symlink target => cases directory

/-- Below a real directory without links, the files of the tree are the files of the walk that are not
too deep. A tree that is deep enough has them all, and the sources among them. -/
theorem tree_files {fs : FileSystem} (formed : fs.WellFormed) {root : Path} {place : Place}
    {entry : Entry} (real : fs.find false root = .ok (place, entry))
    (directory : entry.isDirectory = true) (linkFree : entry.LinkFree) (levels : Nat)
    (short : entry.ShortPaths root [] levels) :
    TreeNode.filePathsAll (fs.tree root levels) =
        ((fs.files root).filter fun p =>
          decide (p.components.length ≤ root.components.length + levels)) ∧
      (fs.survey root levels).totalFiles = (fs.files root).length ∧
      (entry.height ≤ levels →
        (fs.survey root levels).totalFiles =
            (TreeNode.filePathsAll (fs.survey root levels).fileTree).length ∧
          (fs.survey root levels).sources.map (·.path) =
            (TreeNode.filePathsAll (fs.survey root levels).fileTree).filter fun p =>
              p.fileName?.any fun name =>
                (Bytes.decode? name).any fun text => ".py".toList.isSuffixOf text.toList) := by
  obtain ⟨resolved, here⟩ := find_eq_ok_iff.mp real
  have walked := files_of_isDirectory real directory
  have agree : TreeNode.filePathsAll (fs.tree root levels) =
      (fs.files root).filter fun p =>
        decide (p.components.length ≤ root.components.length + levels) := by
    rw [walked]
    exact filePathsAll_tree formed real directory linkFree levels short
  refine ⟨agree, rfl, fun high => ?_⟩
  have all : TreeNode.filePathsAll (fs.tree root levels) = fs.files root := by
    rw [agree, List.filter_eq_self]
    intro p member
    rw [walked] at member
    have bounds := (Entry.depth_of_mem_files _ (Entry.WellFormed.sorted entry (formed.get? here))
      (usable_of_resolve resolved).nonempty member).2
    rw [Entry.height_sorted] at bounds
    exact decide_eq_true (by omega)
  constructor
  · exact congrArg List.length all.symm
  · change ((((fs.files root).filter Path.isSource).map fs.outline).map (·.path)) =
      (TreeNode.filePathsAll (fs.tree root levels)).filter Path.isSource
    rw [all, List.map_map]
    calc
      _ = ((fs.files root).filter Path.isSource).map id :=
        List.map_congr_left fun path _ => path_outline fs path
      _ = _ := List.map_id _

def smallProject : List (Name × Entry) :=
  [(Bytes.ofString "pkg", .directory [(Bytes.ofString "mod.py", .file [])]),
    (Bytes.ofString ".git", .directory [(Bytes.ofString "hook.py", .file [])]),
    ([0xFF, 0x2E, 0x70, 0x79], .file []), (Bytes.ofString "a.txt", .file [])]

def smallSystem : FileSystem := ⟨[(Bytes.ofString "home", .directory smallProject)], []⟩

def smallRoot : Path := .ofString "./home/"

theorem tree_files_small :
    (smallSystem.survey smallRoot 2).totalFiles = 3 ∧
      (smallSystem.survey smallRoot 2).sources.map (·.path) = [.ofString "./home/pkg/mod.py"] ∧
      TreeNode.filePathsAll (smallSystem.tree smallRoot 2) =
        ((smallSystem.files smallRoot).filter fun p =>
          decide (p.components.length ≤ smallRoot.components.length + 2)) ∧
      (smallSystem.survey smallRoot 2).totalFiles =
        (TreeNode.filePathsAll (smallSystem.survey smallRoot 2).fileTree).length := by
  have formed : smallSystem.WellFormed := by decide +kernel
  have real : smallSystem.find false smallRoot =
      .ok ([Bytes.ofString "home"], .directory smallProject) :=
    find_eq_ok_iff.mpr ⟨by decide +kernel, rfl⟩
  have linkFree : (Entry.directory smallProject).LinkFree := by
    simp [Entry.LinkFree, Entry.descendants, Entry.descendantsIn, smallProject]
  have short : (Entry.directory smallProject).ShortPaths smallRoot [] 2 := by
    unfold Entry.ShortPaths
    decide +kernel
  have agree := tree_files formed real rfl linkFree 2 short
  exact ⟨by decide +kernel, by decide +kernel, agree.1, (agree.2.2 (by decide)).1⟩

def nestedDirectories : List (Name × Entry) := [(Bytes.ofString "inner", .directory [])]

def nestedSystem : FileSystem := ⟨[(Bytes.ofString "d", .directory nestedDirectories)], []⟩

def longRoot : Path := ⟨Bytes.ofString "d" ++ List.replicate 4092 Path.slash⟩

theorem tree_files_long_root :
    nestedSystem.WellFormed ∧
      nestedSystem.find false longRoot =
        .ok ([Bytes.ofString "d"], .directory nestedDirectories) ∧
      (Entry.directory nestedDirectories).LinkFree ∧
      (Entry.directory nestedDirectories).height ≤ 1 ∧
      TreeNode.filePathsAll (nestedSystem.tree longRoot 1) ≠
        ((nestedSystem.files longRoot).filter fun p =>
          decide (p.components.length ≤ longRoot.components.length + 1)) ∧
      (nestedSystem.survey longRoot 1).totalFiles ≠
        (TreeNode.filePathsAll (nestedSystem.survey longRoot 1).fileTree).length := by
  refine ⟨by decide +kernel, find_eq_ok_iff.mpr ⟨by decide +kernel, rfl⟩, ?_, by decide, ?_, ?_⟩
  · simp [Entry.LinkFree, Entry.descendants, Entry.descendantsIn, nestedDirectories]
  · decide +kernel
  · decide +kernel

end FileSystem

end CodeAtlas

import CodeAtlas.Proofs.FileSystem.Shape
import CodeAtlas.Proofs.Tree.Forest

namespace CodeAtlas.FileSystem

variable {fs other : FileSystem}

/-! ## One level -/

def visible (fs : FileSystem) (above : List Name) (path : Path) : List Name :=
  match fs.find true path with
  | .ok (_, .directory entries) =>
    (Entry.sortedNames entries).filter fun name => !(Path.ofNames (above ++ [name])).isIgnored
  | _ => []

def shownNode (fs : FileSystem) (levels : Nat) (above : List Name) (path : Path) (name : Name) :
    TreeNode :=
  if fs.isDirectory (path.entry name) then
    ⟨Bytes.display name, path.entry name, .directory,
      fs.treeBelow levels (above ++ [name]) (path.entry name)⟩
  else ⟨Bytes.display name, path.entry name, .file, []⟩

theorem visible_of_find {path : Path} {place : Place} {entries : List (Name × Entry)}
    (found : fs.find true path = .ok (place, .directory entries)) (above : List Name) :
    fs.visible above path =
      (Entry.sortedNames entries).filter fun name => !(Path.ofNames (above ++ [name])).isIgnored := by
  rw [visible, found]

theorem visible_of_not_isDirectory {path : Path} (file : fs.isDirectory path = false)
    (above : List Name) : fs.visible above path = [] := by
  rw [visible]
  split
  · rename_i place entries found
    rw [isDirectory_eq_true_iff.mpr ⟨place, _, found, rfl⟩] at file
    cases file
  · rfl

section ShownNode

variable {path : Path} {name : Name}

theorem shownNode_of_directory (directory : fs.isDirectory (path.entry name) = true) (levels : Nat)
    (above : List Name) :
    fs.shownNode levels above path name = ⟨Bytes.display name, path.entry name, .directory,
      fs.treeBelow levels (above ++ [name]) (path.entry name)⟩ :=
  if_pos directory

theorem shownNode_of_file (file : ¬ fs.isDirectory (path.entry name) = true) (levels : Nat)
    (above : List Name) :
    fs.shownNode levels above path name = ⟨Bytes.display name, path.entry name, .file, []⟩ :=
  if_neg file

end ShownNode

theorem treeBelow_succ (levels : Nat) (above : List Name) (path : Path) :
    fs.treeBelow (levels + 1) above path =
      (fs.visible above path).map (fs.shownNode levels above path) := by
  rw [treeBelow, visible, list]
  cases fs.find true path with
  | error fault => rfl
  | ok found =>
      obtain ⟨place, entry⟩ := found
      cases entry with
      | file content => rfl
      | symlink target => rfl
      | locked entries => rfl
      | directory entries =>
          simp only [Entry.sortedNames]
          induction sortByName entries with
          | nil => rfl
          | cons first rest ih =>
              obtain ⟨name, child⟩ := first
              by_cases hidden : (Path.ofNames (above ++ [name])).isIgnored = true
              · simp [hidden, ih]
              · by_cases directory : fs.isDirectory (path.entry name) = true
                · simp [hidden, directory, ih, shownNode_of_directory directory]
                · simp [hidden, directory, ih, shownNode_of_file directory]

theorem treeBelow_congr {P : List Name → Path → Prop}
    (step : ∀ above path, P above path → other.visible above path = fs.visible above path ∧
      ∀ name ∈ fs.visible above path,
        other.isDirectory (path.entry name) = fs.isDirectory (path.entry name) ∧
          (fs.isDirectory (path.entry name) = true → P (above ++ [name]) (path.entry name)))
    (levels : Nat) {above : List Name} {path : Path} (start : P above path) :
    other.treeBelow levels above path = fs.treeBelow levels above path := by
  induction levels generalizing above path with
  | zero => rfl
  | succ levels ih =>
      obtain ⟨names, each⟩ := step above path start
      rw [treeBelow_succ, treeBelow_succ, names]
      apply List.map_congr_left
      intro name member
      obtain ⟨kind, onward⟩ := each name member
      by_cases directory : fs.isDirectory (path.entry name) = true
      · rw [shownNode_of_directory directory, shownNode_of_directory (kind.trans directory),
          ih (onward directory)]
      · rw [shownNode_of_file directory, shownNode_of_file (kind ▸ directory)]

/-! ## Fewer levels -/

theorem cut_treeBelow (levels depth : Nat) (above : List Name) (path : Path) :
    TreeNode.cut levels (fs.treeBelow depth above path) = fs.treeBelow (min levels depth) above path := by
  induction levels generalizing depth above path with
  | zero => rw [Nat.zero_min, TreeNode.cut, treeBelow]
  | succ levels ih =>
      cases depth with
      | zero => rfl
      | succ depth =>
          rw [Nat.succ_min_succ, treeBelow_succ, treeBelow_succ, TreeNode.cut, List.map_map]
          apply List.map_congr_left
          intro name _
          rw [Function.comp]
          by_cases directory : fs.isDirectory (path.entry name) = true
          · rw [shownNode_of_directory directory, shownNode_of_directory directory, ih]
          · rw [shownNode_of_file directory, shownNode_of_file directory]
            cases levels <;> rfl

/-- A tree with fewer levels is the deeper tree cut: the nodes of its last level stay as they are but for
their children. A diagram that is drawn no deeper than either shows the same of both. -/
theorem cut_tree (fs : FileSystem) (root : Path) (levels depth : Nat) :
    TreeNode.cut levels (fs.tree root depth) = fs.tree root (min levels depth) ∧
      ∀ drawn ≤ min levels depth,
        Diagram.tree (fs.tree root levels) drawn = Diagram.tree (fs.tree root depth) drawn := by
  refine ⟨cut_treeBelow levels depth [] root, fun drawn within => ?_⟩
  have few : TreeNode.cut (min levels depth) (fs.tree root levels) = fs.tree root (min levels depth) := by
    rw [tree, cut_treeBelow, Nat.min_eq_left (Nat.min_le_left levels depth)]
    rfl
  have many : TreeNode.cut (min levels depth) (fs.tree root depth) = fs.tree root (min levels depth) := by
    rw [tree, cut_treeBelow, Nat.min_eq_left (Nat.min_le_right levels depth)]
    rfl
  calc
    Diagram.tree (fs.tree root levels) drawn
      = Diagram.tree (fs.tree root (min levels depth)) drawn := by
        rw [← few, Diagram.tree_cut within]
    _ = Diagram.tree (fs.tree root depth) drawn := by
        rw [← many, Diagram.tree_cut within]

def circularSystem : FileSystem where
  entries := [(Bytes.ofString "d", .directory [(Bytes.ofString "pkg", .directory
    [(Bytes.ofString "mod.py", .file []), (Bytes.ofString "up", .symlink (.ofString ".."))])])]
  workingDirectory := []

theorem cut_tree_circular :
    TreeNode.cut 2 (circularSystem.tree (.ofString "d") 5) = circularSystem.tree (.ofString "d") 2 ∧
      Diagram.tree (circularSystem.tree (.ofString "d") 2) 2 =
        Diagram.tree (circularSystem.tree (.ofString "d") 5) 2 ∧
      Diagram.tree (circularSystem.tree (.ofString "d") 2) 3 ≠
        Diagram.tree (circularSystem.tree (.ofString "d") 5) 3 := by
  obtain ⟨cut, same⟩ := cut_tree circularSystem (.ofString "d") 2 5
  exact ⟨cut, same 2 (by decide), by decide +kernel⟩

end CodeAtlas.FileSystem

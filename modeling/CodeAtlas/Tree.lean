import CodeAtlas.FileSystem.Resolve
import CodeAtlas.Path

namespace CodeAtlas

inductive NodeKind where
  | file
  | directory
  deriving DecidableEq, Inhabited

def NodeKind.word : NodeKind → String
  | file => "file"
  | directory => "directory"

/-- A file or directory in the tree. Directories at the depth limit have no children. -/
structure TreeNode where
  name : String
  path : Path
  kind : NodeKind
  children : List TreeNode
  deriving Inhabited

namespace TreeNode

def isDirectory (node : TreeNode) : Bool := node.kind == .directory

mutual

def depth : TreeNode → Nat
  | ⟨_, _, _, children⟩ => depthBelow children

def depthBelow : List TreeNode → Nat
  | [] => 0
  | node :: rest => max (node.depth + 1) (depthBelow rest)

end

mutual

def count : TreeNode → Nat
  | ⟨_, _, _, children⟩ => 1 + countAll children

def countAll : List TreeNode → Nat
  | [] => 0
  | node :: rest => node.count + countAll rest

end

end TreeNode

namespace FileSystem

/-- The nodes for the entries of one directory. `above` are the names that lead to it from the root of
the tree, and `levels` says how many levels of nodes to give. -/
def treeBelow (fs : FileSystem) : (levels : Nat) → (above : List Name) → Path → List TreeNode
  | 0, _, _ => []
  | levels + 1, above, directory =>
    match fs.list directory with
    | .error _ => []
    | .ok entries =>
      entries.filterMap fun (name, _) =>
        let path := directory.entry name
        let names := above ++ [name]
        if (Path.ofNames names).isIgnored then none
        else if fs.isDirectory path then
          some ⟨Bytes.display name, path, .directory, treeBelow fs levels names path⟩
        else some ⟨Bytes.display name, path, .file, []⟩

/-- The tree below a directory, `maxDepth` levels of it. A directory that cannot be listed has no
children. -/
def tree (fs : FileSystem) (root : Path) (maxDepth : Nat) : List TreeNode :=
  fs.treeBelow maxDepth [] root

end FileSystem
end CodeAtlas

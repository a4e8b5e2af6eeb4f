import CodeAtlas.Proofs.Diagram.Tree
import Mathlib.Data.List.Basic

namespace CodeAtlas

namespace TreeNode

/-! ## Preorder -/

mutual

def preorder : TreeNode → List TreeNode
  | ⟨name, path, kind, children⟩ => ⟨name, path, kind, children⟩ :: preorderAll children

def preorderAll : List TreeNode → List TreeNode
  | [] => []
  | node :: rest => node.preorder ++ preorderAll rest

end

theorem preorder_eq (node : TreeNode) : node.preorder = node :: preorderAll node.children := by
  cases node
  rw [preorder]

theorem preorderAll_eq_flatMap (nodes : List TreeNode) : preorderAll nodes = nodes.flatMap preorder := by
  induction nodes with
  | nil => rfl
  | cons node rest ih => rw [preorderAll, ih, List.flatMap_cons]

mutual

theorem length_preorder : (node : TreeNode) → node.preorder.length = node.count
  | ⟨_, _, _, children⟩ => by
      rw [preorder, List.length_cons, length_preorderAll children, count, Nat.add_comm]

theorem length_preorderAll : (nodes : List TreeNode) → (preorderAll nodes).length = countAll nodes
  | [] => rfl
  | node :: rest => by
      rw [preorderAll, List.length_append, length_preorder node, length_preorderAll rest, countAll]

end

theorem depth_eq (node : TreeNode) : node.depth = depthBelow node.children := by
  cases node
  rw [depth]

theorem depthBelow_le_iff {nodes : List TreeNode} {levels : Nat} :
    depthBelow nodes ≤ levels ↔ ∀ node ∈ nodes, node.depth < levels := by
  induction nodes with
  | nil => simp [depthBelow]
  | cons node rest ih => rw [depthBelow, Nat.max_le, ih, List.forall_mem_cons, Nat.succ_le_iff]

/-! ## Cuts -/

def cut : (levels : Nat) → List TreeNode → List TreeNode
  | 0, _ => []
  | levels + 1, nodes => nodes.map fun node => { node with children := cut levels node.children }

end TreeNode

namespace Diagram

theorem statementsBelow_cut {levels depth : Nat} (within : levels ≤ depth) (parent : NodeId)
    (nodes : List TreeNode) :
    statementsBelow levels parent (TreeNode.cut depth nodes) = statementsBelow levels parent nodes := by
  induction levels generalizing depth parent nodes with
  | zero => rfl
  | succ levels ih =>
      obtain ⟨depth, rfl⟩ : ∃ more, depth = more + 1 := ⟨depth - 1, by omega⟩
      rw [statementsBelow_succ, statementsBelow_succ, TreeNode.cut, ← List.map_take, List.zipIdx_map,
        List.flatMap_map]
      apply List.flatMap_congr
      rintro ⟨node, index⟩ -
      have below := ih (Nat.le_of_succ_le_succ within) (parent ++ [index]) node.children
      simp only [nodeStatements, Prod.map, id, below]
      rfl

theorem tree_cut {levels depth : Nat} (within : levels ≤ depth) (nodes : List TreeNode) :
    tree (TreeNode.cut depth nodes) levels = tree nodes levels := by
  rw [tree, tree, treeLines, treeLines, statementsBelow_cut within]

end Diagram
end CodeAtlas

import CodeAtlas.Proofs.List
import CodeAtlas.Proofs.Tree.Forest
import Mathlib.Data.List.Nodup

namespace CodeAtlas.Diagram

/-! ## Declarations and edges -/

/-- Nodes are declared one after the other. The identifier of each is not known before, and the one edge
that follows comes from a known one. -/
inductive Branches : (known : List String) → List Statement → Prop where
  | done {known : List String} : Branches known []
  | branch {known : List String} {id parent : NodeId} {kind : NodeKind} {name : String}
      {rest : List Statement} (fresh : nodeId id ∉ known) (joined : nodeId parent ∈ known)
      (onward : Branches (known ++ [nodeId id]) rest) :
      Branches known (.node id kind name :: .edge parent id :: rest)

def declarations (statements : List Statement) : List (NodeId × NodeKind × String) :=
  statements.filterMap fun
    | .node id kind name => some (id, kind, name)
    | .edge _ _ => none

def declaredIds (statements : List Statement) : List String :=
  (declarations statements).map fun declared => nodeId declared.1

def joinedIds (statements : List Statement) : List String :=
  statements.filterMap fun
    | .node _ _ _ => none
    | .edge _ target => some (nodeId target)

theorem declaredIds_branch (id parent : NodeId) (kind : NodeKind) (name : String)
    (rest : List Statement) :
    declaredIds (.node id kind name :: .edge parent id :: rest) = nodeId id :: declaredIds rest := rfl

theorem joinedIds_branch (id parent : NodeId) (kind : NodeKind) (name : String)
    (rest : List Statement) :
    joinedIds (.node id kind name :: .edge parent id :: rest) = nodeId id :: joinedIds rest := rfl

variable {known : List String} {statements : List Statement}

theorem Branches.append {more : List Statement} (front : Branches known statements)
    (back : Branches (known ++ declaredIds statements) more) : Branches known (statements ++ more) := by
  induction front with
  | done =>
      have same : declaredIds [] = [] := rfl
      rwa [same, List.append_nil] at back
  | @branch known id parent kind name rest fresh joined onward ih =>
      refine .branch fresh joined (ih ?_)
      rw [declaredIds_branch] at back
      rwa [List.append_assoc]

theorem Branches.nodup (branches : Branches known statements) :
    (declaredIds statements).Nodup ∧ ∀ id ∈ known, id ∉ declaredIds statements := by
  induction branches with
  | done => exact ⟨.nil, fun _ _ => List.not_mem_nil⟩
  | @branch known id parent kind name rest fresh joined onward ih =>
      obtain ⟨nodup, apart⟩ := ih
      rw [List.forall_mem_append, List.forall_mem_singleton] at apart
      rw [declaredIds_branch, List.nodup_cons]
      refine ⟨⟨apart.2, nodup⟩, fun other member => ?_⟩
      rw [List.mem_cons, not_or]
      exact ⟨fun same => fresh (same ▸ member), apart.1 other member⟩

theorem Branches.joinedIds_eq (branches : Branches known statements) :
    joinedIds statements = declaredIds statements := by
  induction branches with
  | done => rfl
  | branch fresh joined onward ih => rw [declaredIds_branch, joinedIds_branch, ih]

/-! ## Identifiers -/

theorem nodeId_injective : Function.Injective nodeId := fun first second same => by
  rw [← readId_nodeId first, same, readId_nodeId]

theorem prefix_of_mem_declarations {below : NodeId} {declared : NodeId × NodeKind × String}
    (inside : ∀ statement ∈ statements, below <+: statement.subject)
    (member : declared ∈ declarations statements) : below <+: declared.1 := by
  obtain ⟨statement, among, same⟩ := List.mem_filterMap.mp member
  have leads := inside statement among
  cases statement with
  | node id kind name =>
      cases same
      exact leads
  | edge source target => cases same

/-! ## The statements of a diagram -/

def IsOpen (known : List NodeId) (parent : NodeId) (start : Nat) : Prop :=
  ∀ id ∈ known, ∀ index, start ≤ index → ¬ parent ++ [index] <+: id

theorem branches_nodeStatements {levels start : Nat} {parent : NodeId} {node : TreeNode}
    {known : List NodeId}
    (below : ∀ {parent : NodeId} {nodes : List TreeNode} {known : List NodeId}, parent ∈ known →
      IsOpen known parent 0 → Branches (known.map nodeId) (statementsBelow levels parent nodes))
    (present : parent ∈ known) (opened : IsOpen known parent start) :
    Branches (known.map nodeId) (nodeStatements levels parent (node, start)) := by
  have fresh : parent ++ [start] ∉ known := fun member =>
    opened _ member start (Nat.le_refl start) List.prefix_rfl
  refine .branch ?_ ?_ ?_
  · rwa [List.mem_map_of_injective nodeId_injective]
  · rwa [List.mem_map_of_injective nodeId_injective]
  · have grown : known.map nodeId ++ [nodeId (parent ++ [start])] =
        (known ++ [parent ++ [start]]).map nodeId := by simp
    rw [grown]
    split
    · refine below (by simp) fun id member index _ inside => ?_
      rcases List.mem_append.mp member with before | own
      · exact opened id before start (Nat.le_refl start) ((List.prefix_append _ _).trans inside)
      · rw [List.mem_singleton.mp own] at inside
        exact not_concat_prefix_self _ index inside
    · exact .done

theorem branches_statementsBelow {levels : Nat} {parent : NodeId} {nodes : List TreeNode}
    {known : List NodeId} (present : parent ∈ known) (opened : IsOpen known parent 0) :
    Branches (known.map nodeId) (statementsBelow levels parent nodes) := by
  induction levels generalizing parent nodes known with
  | zero => exact .done
  | succ levels ih =>
      rw [statementsBelow_succ]
      -- Siblings are numbered from any number on, and those before are known.
      generalize nodes.take maxSiblings = siblings, 0 = start at opened ⊢
      induction siblings generalizing start known with
      | nil => exact .done
      | cons node rest others =>
          rw [List.zipIdx_cons, List.flatMap_cons]
          refine (branches_nodeStatements ih present opened).append ?_
          have grown : known.map nodeId ++ declaredIds (nodeStatements levels parent (node, start)) =
              (known ++ (declarations (nodeStatements levels parent (node, start))).map (·.1)).map
                nodeId := by
            rw [declaredIds, List.map_append, List.map_map]
            rfl
          rw [grown]
          refine others (List.mem_append_left _ present) (start + 1) fun id member index later inside => ?_
          rcases List.mem_append.mp member with before | own
          · exact opened id before index (Nat.le_of_succ_le later) inside
          · obtain ⟨declared, among, rfl⟩ := List.mem_map.mp own
            have leads := prefix_of_mem_declarations
              (prefix_of_mem_nodeStatements prefix_subject) among
            have same := child_prefix_inj inside leads
            omega

theorem declarations_nodeStatements {levels : Nat} {parent : NodeId} {item : TreeNode × Nat}
    (below : ∀ parent nodes, (declarations (statementsBelow levels parent nodes)).map (·.2) =
      (TreeNode.preorderAll (drawn levels nodes)).map fun node => (node.kind, node.name)) :
    (declarations (nodeStatements levels parent item)).map (·.2) =
      (TreeNode.preorder { item.1 with
        children := if item.1.isDirectory then drawn levels item.1.children else [] }).map
          fun node => (node.kind, node.name) := by
  rw [TreeNode.preorder_eq, List.map_cons]
  show (item.1.kind, item.1.name) :: List.map _ (declarations (if item.1.isDirectory then _ else [])) = _
  split
  · rw [below]
  · rfl

theorem declarations_statementsBelow (levels : Nat) (parent : NodeId) (nodes : List TreeNode) :
    (declarations (statementsBelow levels parent nodes)).map (·.2) =
      (TreeNode.preorderAll (drawn levels nodes)).map fun node => (node.kind, node.name) := by
  induction levels generalizing parent nodes with
  | zero => rfl
  | succ levels ih =>
      rw [statementsBelow_succ, drawn, TreeNode.preorderAll_eq_flatMap, List.flatMap_map,
        List.map_flatMap, declarations, List.filterMap_flatMap, List.map_flatMap]
      -- The number of a sibling is in its identifier only.
      rw [← List.zipIdx_map_fst 0 (nodes.take maxSiblings), List.flatMap_map, List.zipIdx_map_fst]
      exact List.flatMap_congr fun item _ => declarations_nodeStatements ih

/-- A tree diagram declares each node that it draws once and in preorder, under an identifier that no
other node and not the root has, and follows it by the one edge that leads to it, from the root or from a
node declared before. -/
theorem tree_graph (nodes : List TreeNode) (maxDepth : Nat) :
    let statements := statementsBelow maxDepth [] nodes
    tree nodes maxDepth = Text.unlines (block "graph TD" (statements.map Statement.line)) ∧
      Branches ["root"] statements ∧
      (declaredIds statements).Nodup ∧ "root" ∉ declaredIds statements ∧
      joinedIds statements = declaredIds statements ∧
      (declarations statements).map (·.2) =
        (TreeNode.preorderAll (drawn maxDepth nodes)).map (fun node => (node.kind, node.name)) ∧
      (declaredIds statements).length = TreeNode.countAll (drawn maxDepth nodes) ∧
      (drawn maxDepth nodes = nodes → (declaredIds statements).length = TreeNode.countAll nodes) := by
  intro statements
  have opened : IsOpen [[]] [] 0 := by
    intro id member index _ inside
    rw [List.mem_singleton.mp member] at inside
    exact not_concat_prefix_self [] index inside
  have branches : Branches ["root"] statements :=
    branches_statementsBelow (List.mem_singleton_self []) opened
  obtain ⟨nodup, apart⟩ := branches.nodup
  have shown := declarations_statementsBelow maxDepth [] nodes
  have count : (declaredIds statements).length = TreeNode.countAll (drawn maxDepth nodes) := by
    have length := congrArg List.length shown
    rw [List.length_map, List.length_map, TreeNode.length_preorderAll] at length
    rwa [declaredIds, List.length_map]
  refine ⟨rfl, branches, nodup, apart _ (List.mem_singleton_self "root"), branches.joinedIds_eq,
    shown, count, fun whole => ?_⟩
  rw [count, whole]

def crowdedFile : TreeNode := ⟨"a", .ofString "a", .file, []⟩

def crowd : List TreeNode :=
  crowdedFile :: ⟨"b", .ofString "b", .directory, [crowdedFile]⟩ :: List.replicate 9 crowdedFile

theorem tree_graph_crowd :
    let statements := statementsBelow 2 [] crowd
    "root_1_0" ∈ declaredIds statements ∧ "root_10" ∈ declaredIds statements ∧
      (declaredIds statements).Nodup ∧ (declaredIds statements).length = 12 := by
  obtain ⟨-, -, nodup, -, -, -, -, count⟩ := tree_graph crowd 2
  exact ⟨by decide, by decide +kernel, nodup, (count rfl).trans rfl⟩

end CodeAtlas.Diagram

import CodeAtlas.Diagram
import CodeAtlas.Proofs.Text.Decimal
import CodeAtlas.Proofs.Text.Lines

namespace CodeAtlas.Diagram

open Text

theorem isOneLine_nodeLine {id label : String} (own : IsOneLine id) (shown : IsOneLine label) :
    IsOneLine (nodeLine id label) := by
  simp only [nodeLine, isOneLine_append]
  exact ⟨⟨⟨⟨by decide, own⟩, by decide⟩, shown⟩, by decide⟩

theorem isOneLine_edgeLine {source target : String} (front : IsOneLine source)
    (back : IsOneLine target) : IsOneLine (edgeLine source target) := by
  simp only [edgeLine, isOneLine_append]
  exact ⟨⟨⟨by decide, front⟩, by decide⟩, back⟩

theorem isOneLine_block {kind : String} {body : List String} (named : IsOneLine kind)
    (each : ∀ line ∈ body, IsOneLine line) : ∀ line ∈ block kind body, IsOneLine line := by
  rw [block, List.forall_mem_cons, List.forall_mem_cons, List.forall_mem_append,
    List.forall_mem_singleton]
  exact ⟨by decide, named, each, by decide⟩

end CodeAtlas.Diagram

namespace CodeAtlas

structure Sketch where
  name : String
  kind : NodeKind
  children : List Sketch

namespace TreeNode

mutual

def sketch : TreeNode → Sketch
  | ⟨name, _, kind, children⟩ => ⟨name, kind, sketchAll children⟩

def sketchAll : List TreeNode → List Sketch
  | [] => []
  | node :: rest => node.sketch :: sketchAll rest

end

mutual

def names : TreeNode → List String
  | ⟨name, _, _, children⟩ => name :: namesAll children

def namesAll : List TreeNode → List String
  | [] => []
  | node :: rest => node.names ++ namesAll rest

end

end TreeNode

namespace Diagram

/-! ## Identifiers -/

def readId (text : List Char) : NodeId := (Text.splitOn '_' text).tail.map Text.natOfDigits

theorem toList_foldl_index (start : String) (id : NodeId) :
    (id.foldl (fun text index => text ++ "_" ++ toString index) start).toList =
      Text.joinWith ['_'] (start.toList :: id.map Text.digitsOf) := by
  induction id generalizing start with
  | nil => rfl
  | cons index rest ih =>
      rw [List.foldl_cons, ih]
      cases rest <;> simp [Text.joinWith, Text.digitsOf]

theorem toList_nodeId (id : NodeId) :
    (nodeId id).toList = Text.joinWith ['_'] ("root".toList :: id.map Text.digitsOf) :=
  toList_foldl_index "root" id

theorem not_mem_digitsOf {c : Char} (other : Text.isDigit c = false) (n : Nat) :
    c ∉ Text.digitsOf n := fun member => by
  rw [Text.isDigit_of_mem_digitsOf member] at other
  cases other

theorem readId_nodeId (id : NodeId) : readId (nodeId id).toList = id := by
  have absent : ∀ part ∈ "root".toList :: id.map Text.digitsOf, '_' ∉ part := by
    rw [List.forall_mem_cons, List.forall_mem_map]
    exact ⟨by decide, fun index _ => not_mem_digitsOf (by decide) index⟩
  rw [readId, toList_nodeId, Text.splitOn_joinWith '_' _ _ absent, List.tail_cons, List.map_map]
  exact (List.map_congr_left fun index _ => Text.natOfDigits_digitsOf index).trans (List.map_id id)

def isIdChar (c : Char) : Bool := c == '_' || c.isAlphanum

theorem isIdChar_of_mem_nodeId {id : NodeId} {c : Char} (member : c ∈ (nodeId id).toList) :
    isIdChar c = true := by
  rw [toList_nodeId] at member
  rcases Text.mem_joinWith member with between | ⟨part, among, inside⟩
  · rw [List.mem_singleton] at between
    rw [between]
    decide
  · rcases List.mem_cons.mp among with rfl | among
    · have letters : "root".toList.all isIdChar = true := by decide
      exact List.all_eq_true.mp letters c inside
    · obtain ⟨index, _, rfl⟩ := List.mem_map.mp among
      have digit : c.isDigit = true := Text.isDigit_of_mem_digitsOf inside
      simp [isIdChar, Char.isAlphanum, digit]

theorem takeWhile_nodeId (id : NodeId) {c : Char} (rest : List Char) (stop : isIdChar c = false) :
    ((nodeId id).toList ++ c :: rest).takeWhile isIdChar = (nodeId id).toList ∧
      ((nodeId id).toList ++ c :: rest).dropWhile isIdChar = c :: rest := by
  rw [List.takeWhile_append_of_pos fun c => isIdChar_of_mem_nodeId,
    List.dropWhile_append_of_pos fun c => isIdChar_of_mem_nodeId]
  simp [stop]

/-! ## Statements -/

def kindOf? (mark : Char) : Option NodeKind :=
  if mark = '📁' then some .directory else if mark = '📄' then some .file else none

def Statement.ofLine? (line : List Char) : Option Statement :=
  (Text.dropFront? [' ', ' ', ' ', ' '] line).bind fun text =>
    let id := readId (text.takeWhile isIdChar)
    match text.dropWhile isIdChar with
    | '[' :: '"' :: mark :: ' ' :: label =>
      (kindOf? mark).map fun kind => .node id kind (String.ofList label.dropLast.dropLast)
    | ' ' :: '-' :: '-' :: '>' :: ' ' :: target => some (.edge id (readId target))
    | _ => none

theorem Statement.ofLine?_line (statement : Statement) :
    ofLine? statement.line.toList = some statement := by
  cases statement with
  | node id kind name =>
      obtain ⟨front, back⟩ := takeWhile_nodeId id (c := '[')
        ('"' :: ((marker kind).toList ++ ' ' :: (name.toList ++ ['"', ']']))) (by decide)
      have whole : (line (.node id kind name)).toList = [' ', ' ', ' ', ' '] ++
          ((nodeId id).toList ++
            '[' :: '"' :: ((marker kind).toList ++ ' ' :: (name.toList ++ ['"', ']']))) := by
        simp [line, nodeLine]
      simp only [ofLine?, whole, Text.dropFront?, List.isPrefixOf_iff_prefix, List.prefix_append,
        if_true, List.drop_left, Option.bind_some, front, back, readId_nodeId]
      cases kind <;> simp [marker, kindOf?]
  | edge source target =>
      obtain ⟨front, back⟩ := takeWhile_nodeId source (c := ' ')
        ('-' :: '-' :: '>' :: ' ' :: (nodeId target).toList) (by decide)
      have whole : (line (.edge source target)).toList = [' ', ' ', ' ', ' '] ++
          ((nodeId source).toList ++ ' ' :: '-' :: '-' :: '>' :: ' ' :: (nodeId target).toList) := by
        simp [line, edgeLine]
      simp only [ofLine?, whole, Text.dropFront?, List.isPrefixOf_iff_prefix, List.prefix_append,
        if_true, List.drop_left, Option.bind_some, front, back, readId_nodeId]

/-! ## Forests -/

def Statement.subject : Statement → NodeId
  | .node id _ _ => id
  | .edge _ target => target

def Statement.isAt (id : NodeId) (statement : Statement) : Bool := id.isPrefixOf statement.subject

def forest : List Statement → List Sketch
  | [] => []
  | .edge _ _ :: rest => forest rest
  | .node id kind name :: rest =>
    ⟨name, kind, forest (rest.takeWhile (Statement.isAt id))⟩ ::
      forest (rest.dropWhile (Statement.isAt id))
termination_by statements => statements.length
decreasing_by
  · simp
  · exact Nat.lt_succ_of_le (List.takeWhile_sublist _).length_le
  · exact Nat.lt_succ_of_le (List.dropWhile_sublist _).length_le

def nodeStatements (levels : Nat) (parent : NodeId) (item : TreeNode × Nat) : List Statement :=
  let id := parent ++ [item.2]
  .node id item.1.kind item.1.name :: .edge parent id ::
    (if item.1.isDirectory then statementsBelow levels id item.1.children else [])

theorem statementsBelow_succ (levels : Nat) (parent : NodeId) (nodes : List TreeNode) :
    statementsBelow (levels + 1) parent nodes =
      ((nodes.take maxSiblings).zipIdx).flatMap (nodeStatements levels parent) := rfl

theorem prefix_of_mem_nodeStatements {levels : Nat} {parent : NodeId} {item : TreeNode × Nat}
    (below : ∀ statement ∈ statementsBelow levels (parent ++ [item.2]) item.1.children,
      parent ++ [item.2] <+: statement.subject) :
    ∀ statement ∈ nodeStatements levels parent item, parent ++ [item.2] <+: statement.subject := by
  rw [nodeStatements, List.forall_mem_cons, List.forall_mem_cons]
  refine ⟨List.prefix_rfl, List.prefix_rfl, fun statement member => ?_⟩
  split at member
  · exact below statement member
  · cases member

theorem prefix_subject {levels : Nat} {parent : NodeId} {nodes : List TreeNode} :
    ∀ statement ∈ statementsBelow levels parent nodes, parent <+: statement.subject := by
  induction levels generalizing parent nodes with
  | zero => exact List.forall_mem_nil _
  | succ levels ih =>
      intro statement member
      rw [statementsBelow_succ, List.mem_flatMap] at member
      obtain ⟨item, -, member⟩ := member
      exact (List.prefix_append _ _).trans (prefix_of_mem_nodeStatements ih statement member)

theorem isAt_of_mem {levels : Nat} {parent : NodeId} {item : TreeNode × Nat} {statement : Statement}
    (member : statement ∈ nodeStatements levels parent item) :
    statement.isAt (parent ++ [item.2]) = true :=
  List.isPrefixOf_iff_prefix.mpr (prefix_of_mem_nodeStatements prefix_subject statement member)

theorem child_prefix_inj {parent id : NodeId} {index other : Nat} (first : parent ++ [index] <+: id)
    (second : parent ++ [other] <+: id) : index = other := by
  have same := (List.prefix_of_prefix_length_le first second (by simp)).eq_of_length (by simp)
  exact List.singleton_inj.mp (List.append_inj' same rfl).2

theorem not_isAt_of_mem {levels index : Nat} {parent : NodeId} {item : TreeNode × Nat}
    {statement : Statement} (apart : index ≠ item.2)
    (member : statement ∈ nodeStatements levels parent item) :
    statement.isAt (parent ++ [index]) = false := by
  have own := isAt_of_mem member
  rw [Statement.isAt, List.isPrefixOf_iff_prefix] at own
  rw [Statement.isAt, Bool.eq_false_iff, Ne, List.isPrefixOf_iff_prefix]
  intro other
  exact apart (child_prefix_inj other own)

theorem forest_node (id : NodeId) (kind : NodeKind) (name : String) {below later : List Statement}
    (inside : ∀ statement ∈ below, statement.isAt id = true)
    (apart : ∀ statement ∈ later, statement.isAt id = false) :
    forest (.node id kind name :: (below ++ later)) =
      ⟨name, kind, forest below⟩ :: forest later := by
  rw [forest, List.takeWhile_append_of_pos inside, List.dropWhile_append_of_pos inside]
  cases later with
  | nil => simp
  | cons first rest =>
      have stop := apart first List.mem_cons_self
      simp [stop]

theorem forest_statementsBelow (levels : Nat) (parent : NodeId) (nodes : List TreeNode) :
    forest (statementsBelow levels parent nodes) = TreeNode.sketchAll (drawn levels nodes) := by
  induction levels generalizing parent nodes with
  | zero => simp [statementsBelow, drawn, forest, TreeNode.sketchAll]
  | succ levels ih =>
      rw [statementsBelow_succ, drawn]
      -- Siblings are numbered and cut, so the induction is on any number to start and to cut at.
      generalize 0 = start, maxSiblings = shown
      induction nodes generalizing start shown with
      | nil => simp [forest, TreeNode.sketchAll]
      | cons node rest siblings =>
          cases shown with
          | zero => simp [forest, TreeNode.sketchAll]
          | succ shown =>
              have below : ∀ statement ∈ (nodeStatements levels parent (node, start)).tail,
                  statement.isAt (parent ++ [start]) = true :=
                fun statement member => isAt_of_mem (List.mem_of_mem_tail member)
              have later : ∀ statement ∈ ((rest.take shown).zipIdx (start + 1)).flatMap
                  (nodeStatements levels parent), statement.isAt (parent ++ [start]) = false := by
                intro statement member
                obtain ⟨item, among, member⟩ := List.mem_flatMap.mp member
                have further := List.le_snd_of_mem_zipIdx among
                exact not_isAt_of_mem (by omega) member
              rw [List.take_succ_cons, List.zipIdx_cons, List.flatMap_cons, List.map_cons,
                TreeNode.sketchAll, ← siblings (start + 1) shown]
              refine (forest_node _ _ _ below later).trans ?_
              rw [nodeStatements, List.tail_cons, forest, TreeNode.sketch]
              split
              · rw [ih]
              · simp [forest, TreeNode.sketchAll]

/-! ## Diagrams -/

def readTree (text : String) : List Sketch :=
  forest ((Text.splitOn '\n' text.toList).filterMap Statement.ofLine?)

theorem filterMap_treeLines (nodes : List TreeNode) (maxDepth : Nat) :
    ((treeLines nodes maxDepth).map String.toList).filterMap Statement.ofLine? =
      statementsBelow maxDepth [] nodes := by
  have open_fence : Statement.ofLine? "```mermaid".toList = none := by decide
  have kind : Statement.ofLine? "graph TD".toList = none := by decide
  have close_fence : Statement.ofLine? "```".toList = none := by decide
  have body : ∀ statements : List Statement,
      ((statements.map Statement.line).map String.toList).filterMap Statement.ofLine? =
        statements := by
    intro statements
    induction statements with
    | nil => rfl
    | cons statement rest ih =>
        rw [List.map_cons, List.map_cons, List.filterMap_cons_some statement.ofLine?_line, ih]
  rw [treeLines, block, List.map_cons, List.map_cons, List.map_append,
    List.filterMap_cons_none open_fence, List.filterMap_cons_none kind, List.filterMap_append, body]
  simp only [List.map_cons, List.map_nil, List.filterMap_cons_none close_fence, List.filterMap_nil,
    List.append_nil]

end Diagram

namespace TreeNode

theorem names_eq (node : TreeNode) : node.names = node.name :: namesAll node.children := by
  cases node
  rw [names]

theorem mem_namesAll {nodes : List TreeNode} {name : String} :
    name ∈ namesAll nodes ↔ ∃ node ∈ nodes, name ∈ node.names := by
  induction nodes with
  | nil => simp [namesAll]
  | cons node rest ih => simp [namesAll, ih]

end TreeNode

namespace Diagram

theorem isOneLine_nodeId (id : NodeId) : Text.IsOneLine (nodeId id) := fun member =>
  absurd (isIdChar_of_mem_nodeId member) (by decide)

theorem isOneLine_marker (kind : NodeKind) : Text.IsOneLine (marker kind) := by
  cases kind <;> decide

theorem isOneLine_line {levels : Nat} {parent : NodeId} {nodes : List TreeNode}
    (names : ∀ name ∈ TreeNode.namesAll nodes, Text.IsOneLine name) :
    ∀ statement ∈ statementsBelow levels parent nodes, Text.IsOneLine statement.line := by
  induction levels generalizing parent nodes with
  | zero => exact List.forall_mem_nil _
  | succ levels ih =>
      intro statement member
      rw [statementsBelow_succ, List.mem_flatMap] at member
      obtain ⟨⟨node, index⟩, among, member⟩ := member
      have listed : node ∈ nodes := List.mem_of_mem_take (List.fst_mem_of_mem_zipIdx among)
      have own : ∀ name ∈ node.names, Text.IsOneLine name := fun name inside =>
        names name (TreeNode.mem_namesAll.mpr ⟨node, listed, inside⟩)
      rw [TreeNode.names_eq, List.forall_mem_cons] at own
      rcases List.mem_cons.mp member with rfl | member
      · have label : Text.IsOneLine (marker node.kind ++ " " ++ node.name) := by
          rw [Text.isOneLine_append, Text.isOneLine_append]
          exact ⟨⟨isOneLine_marker node.kind, by decide⟩, own.1⟩
        exact isOneLine_nodeLine (isOneLine_nodeId _) label
      rcases List.mem_cons.mp member with rfl | member
      · exact isOneLine_edgeLine (isOneLine_nodeId _) (isOneLine_nodeId _)
      split at member
      · exact ih own.2 statement member
      · cases member

theorem isOneLine_treeLines {nodes : List TreeNode}
    (names : ∀ name ∈ TreeNode.namesAll nodes, Text.IsOneLine name) (maxDepth : Nat) :
    ∀ line ∈ treeLines nodes maxDepth, Text.IsOneLine line := by
  refine isOneLine_block (by decide) ?_
  rw [List.forall_mem_map]
  exact isOneLine_line names

/-- A tree diagram is read back as the forest that it draws, whatever is written in its names but line
feeds. So forests with one diagram are drawn alike. -/
theorem readTree_tree {nodes others : List TreeNode}
    (names : ∀ name ∈ TreeNode.namesAll nodes, Text.IsOneLine name)
    (otherNames : ∀ name ∈ TreeNode.namesAll others, Text.IsOneLine name) (maxDepth otherDepth : Nat) :
    readTree (tree nodes maxDepth) = TreeNode.sketchAll (drawn maxDepth nodes) ∧
      (tree nodes maxDepth = tree others otherDepth →
        TreeNode.sketchAll (drawn maxDepth nodes) = TreeNode.sketchAll (drawn otherDepth others)) := by
  have reads : ∀ {nodes : List TreeNode},
      (∀ name ∈ TreeNode.namesAll nodes, Text.IsOneLine name) → ∀ depth,
        readTree (tree nodes depth) = TreeNode.sketchAll (drawn depth nodes) := by
    intro nodes names depth
    have blank : Statement.ofLine? [] = none := by decide
    rw [readTree, tree, Text.splitOn_unlines (isOneLine_treeLines names depth), List.filterMap_append,
      filterMap_treeLines, List.filterMap_cons_none blank, List.filterMap_nil, List.append_nil,
      forest_statementsBelow]
  refine ⟨reads names maxDepth, fun same => ?_⟩
  rw [← reads names maxDepth, same, reads otherNames otherDepth]

def mimicked : TreeNode := ⟨"root_0[\"📁 pkg\"]", .ofString "a", .file, []⟩

def mimics (below : List TreeNode) : List TreeNode :=
  [⟨"] --> root_1", .ofString "b", .directory, [mimicked, ⟨"\\\"", .ofString "c", .directory, below⟩]⟩,
    ⟨"", .ofString "d", .file, [mimicked]⟩]

theorem readTree_mimics :
    readTree (tree (mimics [mimicked]) 2) =
        [⟨"] --> root_1", .directory, [⟨"root_0[\"📁 pkg\"]", .file, []⟩, ⟨"\\\"", .directory, []⟩]⟩,
          ⟨"", .file, []⟩] ∧
      TreeNode.sketchAll (drawn 2 (mimics [mimicked])) = TreeNode.sketchAll (drawn 2 (mimics [])) := by
  have names : ∀ name ∈ TreeNode.namesAll (mimics [mimicked]), Text.IsOneLine name := by decide
  have otherNames : ∀ name ∈ TreeNode.namesAll (mimics []), Text.IsOneLine name := by decide
  obtain ⟨read, same⟩ := readTree_tree names otherNames 2 2
  exact ⟨read.trans rfl, same rfl⟩

end Diagram
end CodeAtlas

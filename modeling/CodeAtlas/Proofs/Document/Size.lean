import CodeAtlas.Proofs.Document.Lines
import CodeAtlas.Proofs.List
import Mathlib.Algebra.BigOperators.Intervals
import Mathlib.Algebra.BigOperators.Ring.Finset

namespace CodeAtlas

open Text

namespace Diagram

/-- How many nodes a tree diagram of so many levels can have: 20 below each node of a level. -/
def nodeLimit (levels : Nat) : Nat := ∑ level ∈ Finset.range levels, 20 ^ (level + 1)

theorem nodeLimit_succ (levels : Nat) : nodeLimit (levels + 1) = 20 * (1 + nodeLimit levels) := by
  rw [nodeLimit, Finset.sum_range_succ', nodeLimit, Nat.mul_add, Finset.mul_sum, Nat.add_comm]
  simp only [← pow_succ', zero_add, pow_one, mul_one]

theorem length_block (kind : String) (body : List String) : (block kind body).length = body.length + 3 := by
  simp [block]

theorem length_statementsBelow_le (levels : Nat) (parent : NodeId) (nodes : List TreeNode) :
    (statementsBelow levels parent nodes).length ≤ 2 * nodeLimit levels := by
  induction levels generalizing parent nodes with
  | zero => exact Nat.zero_le _
  | succ levels ih =>
      have each : ∀ item ∈ (nodes.take maxSiblings).zipIdx,
          (nodeStatements levels parent item).length ≤ 2 + 2 * nodeLimit levels := by
        intro item _
        rw [nodeStatements]
        split
        · have below := ih (parent ++ [item.2]) item.1.children
          simp only [List.length_cons]
          omega
        · simp
      have siblings : ((nodes.take maxSiblings).zipIdx).length ≤ 20 := by
        rw [List.length_zipIdx]
        exact List.length_take_le maxSiblings nodes
      calc (statementsBelow (levels + 1) parent nodes).length
          ≤ ((nodes.take maxSiblings).zipIdx).length * (2 + 2 * nodeLimit levels) := length_flatMap_le each
        _ ≤ 20 * (2 + 2 * nodeLimit levels) := Nat.mul_le_mul_right _ siblings
        _ = 2 * nodeLimit (levels + 1) := by rw [nodeLimit_succ]; omega

theorem length_treeLines_le (nodes : List TreeNode) (levels : Nat) :
    (treeLines nodes levels).length ≤ 3 + 2 * nodeLimit levels := by
  have body := length_statementsBelow_le levels [] nodes
  rw [treeLines, length_block, List.length_map]
  omega

theorem length_classesLines_le (classes : List Declaration) : (classesLines classes).length ≤ 213 := by
  have each : ∀ declaration ∈ classes.take maxClasses, (classLines declaration).length ≤ 7 := by
    intro declaration _
    have methods := List.length_take_le maxMethods (methodNames declaration.sourceText)
    simp only [classLines, List.cons_append, List.length_cons, List.length_append, List.length_map,
      List.length_nil]
    rw [maxMethods] at methods ⊢
    omega
  have shown : (classes.take maxClasses).length ≤ 30 := List.length_take_le maxClasses classes
  have body := length_flatMap_le each
  rw [classesLines, length_block]
  omega

theorem length_functionsLines_le (functions : List Declaration) :
    (functionsLines functions).length ≤ 23 := by
  have shown : (functions.take maxFunctions).length ≤ 20 := List.length_take_le maxFunctions functions
  rw [functionsLines, length_block, List.length_map]
  omega

theorem length_modulesLines_le (modules : List String) : (modulesLines modules).length ≤ 22 := by
  have shown : (modules.take maxModules).length ≤ 10 := List.length_take_le maxModules modules
  rw [modulesLines, length_block]
  cases listed : modules.take maxModules with
  | nil => decide
  | cons first others =>
      rw [listed, List.length_cons] at shown
      have each : ∀ item ∈ others.zipIdx (0 + 1), (moduleLines item.1 item.2).length ≤ 2 := by
        rintro ⟨name, index⟩ _
        cases index <;> simp [moduleLines]
      have rest := length_flatMap_le each
      have node : (moduleLines first 0).length = 1 := rfl
      rw [List.length_zipIdx] at rest
      rw [List.zipIdx_cons, List.flatMap_cons, List.length_append, node]
      change 1 + ((others.zipIdx (0 + 1)).flatMap fun item => moduleLines item.1 item.2).length + 3 ≤ 22
      omega

end Diagram

/-- Nothing in a survey that its document shows holds a line feed. -/
structure Survey.IsLineFree (survey : Survey) : Prop where
  tree : ∀ name ∈ TreeNode.namesAll survey.fileTree, IsOneLine name
  paths : ∀ file ∈ survey.sources, lineFeed ∉ file.path.bytes
  declarations : ∀ file ∈ survey.sources, ∀ declaration ∈ file.functions ++ file.classes,
    IsOneLine declaration.name
  errors : ∀ file ∈ survey.sources, ∀ error ∈ file.errors, IsOneLine error

theorem Survey.IsLineFree.showsOneLine {survey : Survey} (free : survey.IsLineFree) :
    survey.ShowsOneLine where
  tree := free.tree
  paths file among inside := free.paths file among (Path.mem_of_mem_relativeTo inside (by decide))

namespace Document

/-! ## Sections -/

theorem length_sectionLines (part : Section) : part.lines.length = part.body.length + 3 := by
  simp [Section.lines]

theorem length_unlessEmpty_le {α : Type} (items : List α) (part : Section) :
    ((unlessEmpty items part).flatMap Section.lines).length ≤ part.body.length + 3 := by
  rw [unlessEmpty]
  split
  · exact Nat.zero_le _
  · rw [List.flatMap_singleton, length_sectionLines]

theorem length_overview_le (readme : Option String) :
    ((readme.map overview).toList.flatMap Section.lines).length ≤ 23 := by
  cases readme with
  | none => exact Nat.zero_le _
  | some text =>
      have quotes : (overview text).body.length ≤ 20 := by
        rw [overview, List.length_map]
        exact List.length_take_le maxExcerptLines _
      rw [Option.map_some, Option.toList_some, List.flatMap_singleton, length_sectionLines]
      omega

theorem length_diagramSections_le (survey : Survey) (treeDepth : Nat) :
    ((diagramSections survey treeDepth).flatMap Section.lines).length ≤
      273 + 2 * Diagram.nodeLimit treeDepth := by
  have modules := length_unlessEmpty_le survey.moduleNames
    ⟨"Architecture", Diagram.modulesLines survey.moduleNames⟩
  have classes := length_unlessEmpty_le survey.allClasses
    ⟨"Classes", Diagram.classesLines survey.allClasses⟩
  have functions := length_unlessEmpty_le survey.allFunctions
    ⟨"Functions", Diagram.functionsLines survey.allFunctions⟩
  have moduleLimit := Diagram.length_modulesLines_le survey.moduleNames
  have treeLimit := Diagram.length_treeLines_le survey.fileTree treeDepth
  have classLimit := Diagram.length_classesLines_le survey.allClasses
  have functionLimit := Diagram.length_functionsLines_le survey.allFunctions
  rw [diagramSections, List.flatMap_append, List.flatMap_append, List.flatMap_append,
    List.flatMap_singleton, List.length_append, List.length_append, List.length_append,
    length_sectionLines]
  dsimp only at modules classes functions ⊢
  omega

theorem length_errorSections_le (survey : Survey) :
    ((errorSections survey).flatMap Section.lines).length ≤ 14 := by
  have listed := List.length_take_le maxListedErrors survey.failed
  refine Nat.le_trans (length_unlessEmpty_le _ _) ?_
  rw [List.length_append, List.length_map]
  rw [maxListedErrors] at listed ⊢
  split
  · rw [List.length_singleton]
    omega
  · rw [List.length_nil]
    omega

theorem length_lines_le (survey : Survey) (readme : Option String) (options : DocumentOptions) :
    (lines survey readme options).length ≤ 319 + 2 * Diagram.nodeLimit options.treeDepth := by
  have counted : (statistics survey).lines.length = 7 := rfl
  have quoted := length_overview_le readme
  have drawn : ((if options.diagrams then diagramSections survey options.treeDepth else []).flatMap
      Section.lines).length ≤ 273 + 2 * Diagram.nodeLimit options.treeDepth := by
    split
    · exact length_diagramSections_le survey options.treeDepth
    · exact Nat.zero_le _
  have failed := length_errorSections_le survey
  rw [lines, sections, List.flatMap_append, List.flatMap_append, List.flatMap_cons]
  simp only [List.length_cons, List.length_append]
  omega

/-- However large a codebase is, its document has a number of lines that the depth of the tree diagram
limits, and so have the diagrams of its tree and of its classes. -/
theorem length_render_le :
    (∀ survey : Survey, survey.IsLineFree → ∀ (readme : Option String) (options : DocumentOptions),
      IsOneLine options.title →
        (Text.lines (render survey readme options)).length ≤
          319 + 2 * ∑ level ∈ Finset.range options.treeDepth, 20 ^ (level + 1)) ∧
      (∀ nodes : List TreeNode, (∀ name ∈ TreeNode.namesAll nodes, IsOneLine name) → ∀ depth,
        (Text.lines (Diagram.tree nodes depth)).length ≤
          3 + 2 * ∑ level ∈ Finset.range depth, 20 ^ (level + 1)) ∧
      ∀ classes : List Declaration, (∀ declaration ∈ classes, IsOneLine declaration.name) →
        (Text.lines (Diagram.classes classes)).length ≤ 213 := by
  refine ⟨fun survey free readme options title => ?_, fun nodes names depth => ?_,
    fun classes names => ?_⟩
  · have laid := lays_document free.showsOneLine free.declarations free.errors readme title
    rw [render, length_lines_unlines laid.oneLine]
    exact length_lines_le survey readme options
  · rw [Diagram.tree, length_lines_unlines (lays_tree names depth).oneLine]
    exact Diagram.length_treeLines_le nodes depth
  · rw [Diagram.classes, length_lines_unlines (lays_classes names).oneLine]
    exact Diagram.length_classesLines_le classes

def crowded : Survey where
  root := .ofString "p"
  fileTree := List.replicate 30 ⟨"a", .ofString "p/a", .directory, List.replicate 30 default⟩
  sources := List.replicate 40
    ⟨.ofString "p/a.py", [⟨"f", 1, "def f(): pass"⟩], [⟨"C", 2, "class C: pass"⟩], [], ["unread"]⟩
  totalFiles := 40
  totalFunctions := 40
  totalClasses := 40

theorem length_render_le_crowded :
    crowded.IsLineFree ∧
      (Text.lines (render crowded (some "# a") { title := "T", treeDepth := 1 })).length ≤ 359 ∧
      (Text.lines (Diagram.tree crowded.fileTree 2)).length ≤ 843 ∧
      (Text.lines (Diagram.classes crowded.allClasses)).length ≤ 213 := by
  have free : crowded.IsLineFree :=
    ⟨by decide +kernel, by decide +kernel, by decide +kernel, by decide +kernel⟩
  obtain ⟨document, tree, classes⟩ := length_render_le
  refine ⟨free, document crowded free _ _ (by decide), tree _ free.tree 2, classes _ ?_⟩
  decide +kernel

end Document
end CodeAtlas

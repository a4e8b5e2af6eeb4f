import CodeAtlas.Document
import CodeAtlas.Proofs.List

namespace CodeAtlas

namespace FileOutline

def strip? (root : Path) (file : FileOutline) : Option FileOutline :=
  (root.strip? file.path).map fun path => { file with path }

def relativeTo (root : Path) (file : FileOutline) : FileOutline :=
  { file with path := file.path.relativeTo root }

theorem relativeTo_of_strip? {root : Path} {file stripped : FileOutline}
    (found : file.strip? root = some stripped) : file.relativeTo root = stripped := by
  obtain ⟨path, short, rfl⟩ := Option.map_eq_some_iff.mp found
  rw [relativeTo, Path.relativeTo, short, Option.getD_some]

theorem map_relativeTo_of_strip? {root : Path} {files stripped : List FileOutline}
    (found : files.mapM (strip? root) = some stripped) : files.map (relativeTo root) = stripped := by
  induction files generalizing stripped with
  | nil => exact Option.some.inj found
  | cons file rest ih =>
      obtain ⟨first, others, here, later, rfl⟩ := mapM_cons_eq_some_iff.mp found
      rw [List.map_cons, relativeTo_of_strip? here, ih later]

theorem map_eq_of_relativeTo {α : Type} {root other : Path} {files others : List FileOutline}
    {f g : FileOutline → α} (same : files.map (relativeTo root) = others.map (relativeTo other))
    (each : ∀ file another, file.relativeTo root = another.relativeTo other → f file = g another) :
    files.map f = others.map g := by
  induction files generalizing others with
  | nil =>
      cases others with
      | nil => rfl
      | cons another rest => cases same
  | cons file rest ih =>
      cases others with
      | nil => cases same
      | cons another others =>
          rw [List.map_cons, List.map_cons, List.cons.injEq] at same
          rw [List.map_cons, List.map_cons, each file another same.1, ih same.2]

theorem map_moduleName_of_relativeTo {root other : Path} {files others : List FileOutline}
    (same : files.map (relativeTo root) = others.map (relativeTo other)) :
    (files.map fun file => moduleName file.path root) =
      others.map fun file => moduleName file.path other := by
  apply map_eq_of_relativeTo same
  intro file another equal
  have path : file.path.relativeTo root = another.path.relativeTo other :=
    congrArg FileOutline.path equal
  rw [moduleName, moduleName, path]

end FileOutline

namespace TreeNode

mutual

def strip? (root : Path) : TreeNode → Option TreeNode
  | ⟨name, path, kind, children⟩ => do
    let path ← root.strip? path
    let children ← stripAll? root children
    return ⟨name, path, kind, children⟩

def stripAll? (root : Path) : List TreeNode → Option (List TreeNode)
  | [] => some []
  | node :: rest => do
    let node ← node.strip? root
    let rest ← stripAll? root rest
    return node :: rest

end

theorem strip?_eq_some_iff {root : Path} {node stripped : TreeNode} :
    node.strip? root = some stripped ↔ stripped.name = node.name ∧ stripped.kind = node.kind ∧
      root.strip? node.path = some stripped.path ∧
      stripAll? root node.children = some stripped.children := by
  obtain ⟨name, path, kind, children⟩ := node
  obtain ⟨name', path', kind', children'⟩ := stripped
  simp only [strip?, bind, pure, Option.bind_eq_some_iff, Option.some.injEq, TreeNode.mk.injEq]
  constructor
  · rintro ⟨_, short, _, below, rfl, rfl, rfl, rfl⟩
    exact ⟨rfl, rfl, short, below⟩
  · rintro ⟨rfl, rfl, short, below⟩
    exact ⟨_, short, _, below, rfl, rfl, rfl, rfl⟩

theorem stripAll?_cons_eq_some_iff {root : Path} {node : TreeNode} {rest stripped : List TreeNode} :
    stripAll? root (node :: rest) = some stripped ↔ ∃ first others,
      stripped = first :: others ∧ node.strip? root = some first ∧
        stripAll? root rest = some others := by
  simp only [stripAll?, bind, pure, Option.bind_eq_some_iff, Option.some.injEq]
  constructor
  · rintro ⟨first, here, others, later, rfl⟩
    exact ⟨first, others, rfl, here, later⟩
  · rintro ⟨first, others, rfl, here, later⟩
    exact ⟨first, here, others, later, rfl⟩

theorem stripAll?_filterMap {α : Type} {root : Path} {f g : α → Option TreeNode} {items : List α}
    (each : ∀ item ∈ items, (f item).map (strip? root) = (g item).map some) :
    stripAll? root (items.filterMap f) = some (items.filterMap g) := by
  induction items with
  | nil => rfl
  | cons item rest ih =>
      rw [List.forall_mem_cons] at each
      have here := each.1
      cases made : f item with
      | none =>
          cases other : g item with
          | none => rw [List.filterMap_cons_none made, List.filterMap_cons_none other, ih each.2]
          | some stripped => simp [made, other] at here
      | some node =>
          cases other : g item with
          | none => simp [made, other] at here
          | some stripped =>
              rw [made, other, Option.map_some, Option.map_some, Option.some.injEq] at here
              rw [List.filterMap_cons_some made, List.filterMap_cons_some other,
                stripAll?_cons_eq_some_iff]
              exact ⟨stripped, _, rfl, here, ih each.2⟩

end TreeNode

namespace Diagram

theorem statementsBelow_of_strip? {root : Path} (levels : Nat) (parent : NodeId)
    {nodes stripped : List TreeNode} (found : TreeNode.stripAll? root nodes = some stripped) :
    statementsBelow levels parent nodes = statementsBelow levels parent stripped := by
  induction levels generalizing parent nodes stripped with
  | zero => rfl
  | succ levels ih =>
      unfold statementsBelow
      -- Siblings are numbered and cut, so the induction is on any number to start and to cut at.
      generalize 0 = start, maxSiblings = shown
      induction nodes generalizing stripped start shown with
      | nil => cases found; rfl
      | cons node rest siblings =>
          obtain ⟨first, others, rfl, here, later⟩ := TreeNode.stripAll?_cons_eq_some_iff.mp found
          obtain ⟨name, kind, -, below⟩ := TreeNode.strip?_eq_some_iff.mp here
          cases shown with
          | zero => rfl
          | succ shown =>
              rw [List.take_succ_cons, List.take_succ_cons, List.zipIdx_cons, List.zipIdx_cons,
                List.flatMap_cons, List.flatMap_cons, siblings later (start + 1) shown]
              simp only [TreeNode.isDirectory, name, kind, ih _ below]

theorem treeLines_of_strip? {root other : Path} {nodes others stripped : List TreeNode}
    (here : TreeNode.stripAll? root nodes = some stripped)
    (there : TreeNode.stripAll? other others = some stripped) (maxDepth : Nat) :
    treeLines nodes maxDepth = treeLines others maxDepth := by
  rw [treeLines, treeLines, statementsBelow_of_strip? maxDepth [] here,
    statementsBelow_of_strip? maxDepth [] there]

end Diagram

namespace Survey

def strip? (survey : Survey) : Option Survey := do
  let fileTree ← TreeNode.stripAll? survey.root survey.fileTree
  let sources ← survey.sources.mapM (FileOutline.strip? survey.root)
  return { survey with root := ⟨[]⟩, fileTree, sources }

theorem strip?_eq_some_iff {survey stripped : Survey} :
    survey.strip? = some stripped ↔ stripped.root = ⟨[]⟩ ∧
      TreeNode.stripAll? survey.root survey.fileTree = some stripped.fileTree ∧
      survey.sources.mapM (FileOutline.strip? survey.root) = some stripped.sources ∧
      stripped.totalFiles = survey.totalFiles ∧ stripped.totalFunctions = survey.totalFunctions ∧
      stripped.totalClasses = survey.totalClasses := by
  obtain ⟨root, fileTree, sources, totalFiles, totalFunctions, totalClasses⟩ := survey
  obtain ⟨root', fileTree', sources', totalFiles', totalFunctions', totalClasses'⟩ := stripped
  simp only [strip?, bind, pure, Option.bind_eq_some_iff, Option.some.injEq, Survey.mk.injEq]
  constructor
  · rintro ⟨_, nodes, _, files, rfl, rfl, rfl, rfl, rfl, rfl⟩
    exact ⟨rfl, nodes, files, rfl, rfl, rfl⟩
  · rintro ⟨rfl, nodes, files, rfl, rfl, rfl⟩
    exact ⟨_, nodes, _, files, rfl, rfl, rfl, rfl, rfl, rfl⟩

section SameSeen

variable {here there seen : Survey} (first : here.strip? = some seen)
  (second : there.strip? = some seen)

include first second

theorem sources_of_strip? : here.sources.map (FileOutline.relativeTo here.root) =
    there.sources.map (FileOutline.relativeTo there.root) := by
  obtain ⟨-, -, sources, -⟩ := strip?_eq_some_iff.mp first
  obtain ⟨-, -, others, -⟩ := strip?_eq_some_iff.mp second
  rw [FileOutline.map_relativeTo_of_strip? sources, FileOutline.map_relativeTo_of_strip? others]

theorem moduleNames_of_strip? : here.moduleNames = there.moduleNames := by
  rw [moduleNames, moduleNames,
    FileOutline.map_moduleName_of_relativeTo (sources_of_strip? first second)]

theorem allFunctions_of_strip? : here.allFunctions = there.allFunctions := by
  have same := congrArg (List.flatMap FileOutline.functions) (sources_of_strip? first second)
  rwa [List.flatMap_map, List.flatMap_map] at same

theorem allClasses_of_strip? : here.allClasses = there.allClasses := by
  have same := congrArg (List.flatMap FileOutline.classes) (sources_of_strip? first second)
  rwa [List.flatMap_map, List.flatMap_map] at same

theorem failed_of_strip? : here.failed.map (FileOutline.relativeTo here.root) =
    there.failed.map (FileOutline.relativeTo there.root) := by
  have same := congrArg (List.filter FileOutline.hasErrors) (sources_of_strip? first second)
  rwa [List.filter_map, List.filter_map] at same

end SameSeen
end Survey

namespace Document

section SameSeen

variable {here there seen : Survey} (first : here.strip? = some seen)
  (second : there.strip? = some seen)

include first second

theorem statistics_of_strip? : statistics here = statistics there := by
  obtain ⟨-, -, -, files, functions, classes⟩ := Survey.strip?_eq_some_iff.mp first
  obtain ⟨-, -, -, files', functions', classes'⟩ := Survey.strip?_eq_some_iff.mp second
  have count := congrArg List.length (Survey.sources_of_strip? first second)
  rw [List.length_map, List.length_map] at count
  rw [statistics, statistics, ← files, ← functions, ← classes, files', functions', classes', count]

theorem diagramSections_of_strip? (treeDepth : Nat) :
    diagramSections here treeDepth = diagramSections there treeDepth := by
  obtain ⟨-, nodes, -⟩ := Survey.strip?_eq_some_iff.mp first
  obtain ⟨-, others, -⟩ := Survey.strip?_eq_some_iff.mp second
  rw [diagramSections, diagramSections, Survey.moduleNames_of_strip? first second,
    Survey.allFunctions_of_strip? first second, Survey.allClasses_of_strip? first second,
    Diagram.treeLines_of_strip? nodes others]

theorem errorSections_of_strip? : errorSections here = errorSections there := by
  have failed := Survey.failed_of_strip? first second
  have count := congrArg List.length failed
  rw [List.length_map, List.length_map] at count
  have empty := congrArg List.isEmpty failed
  rw [List.isEmpty_map, List.isEmpty_map] at empty
  have listed : (here.failed.take maxListedErrors).map (errorLine here.root) =
      (there.failed.take maxListedErrors).map (errorLine there.root) := by
    rw [List.map_take, List.map_take]
    congr 1
    apply FileOutline.map_eq_of_relativeTo failed
    intro file another same
    have path : file.path.relativeTo here.root = another.path.relativeTo there.root :=
      congrArg FileOutline.path same
    have errors : file.errors = another.errors := congrArg (fun outline => outline.errors) same
    rw [errorLine, errorLine, path, errors]
  simp only [errorSections, unlessEmpty, empty, count, listed]

theorem render_of_strip? (readme : Option String) (options : DocumentOptions) :
    render here readme options = render there readme options := by
  have parts : sections here readme options = sections there readme options := by
    rw [sections, sections, statistics_of_strip? first second,
      diagramSections_of_strip? first second, errorSections_of_strip? first second]
  rw [render, render, lines, lines, parts]

end SameSeen
end Document
end CodeAtlas

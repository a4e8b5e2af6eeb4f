import CodeAtlas.Document
import CodeAtlas.Proofs.Diagram.Lists
import CodeAtlas.Proofs.Survey.Modules
import CodeAtlas.Proofs.Survey.Names

namespace CodeAtlas

open Text

/-- No name that a document shows holds a line feed: those of the tree, and the paths that modules and
failures are called by. -/
structure Survey.ShowsOneLine (survey : Survey) : Prop where
  tree : ∀ name ∈ TreeNode.namesAll survey.fileTree, IsOneLine name
  paths : ∀ file ∈ survey.sources, lineFeed ∉ (file.path.relativeTo survey.root).bytes

namespace Document

def isStructural (line : String) : Bool :=
  "#".toList.isPrefixOf line.toList || "```".toList.isPrefixOf line.toList

def diagramSkeleton (heading : String) : List String := ["## " ++ heading, "```mermaid", "```"]

def diagramsSkeleton (survey : Survey) : List String :=
  (if survey.moduleNames.isEmpty then [] else diagramSkeleton "Architecture")
    ++ diagramSkeleton "File Structure"
    ++ (if survey.allClasses.isEmpty then [] else diagramSkeleton "Classes")
    ++ (if survey.allFunctions.isEmpty then [] else diagramSkeleton "Functions")

/-- The headings of a document, and the fences of each diagram below its heading. -/
def skeleton (survey : Survey) (readme : Option String) (options : DocumentOptions) : List String :=
  ["# " ++ options.title, "## Project Statistics"]
    ++ (if readme.isSome then ["## Overview"] else [])
    ++ (if options.diagrams then diagramsSkeleton survey else [])
    ++ (if survey.failed.isEmpty then []
      else ["## Parse Errors (" ++ toString survey.failed.length ++ ")"])

def fixedLines : List String :=
  ["", "```mermaid", "```", "graph LR", "graph TD", "classDiagram", "flowchart TD"]

def marks : List String := ["# ", "## ", "- ", ">", "    "]

def IsOwn (line : String) : Prop := line ∈ fixedLines ∨ ∃ mark ∈ marks, mark.toList <+: line.toList

instance (line : String) : Decidable (IsOwn line) := inferInstanceAs (Decidable (_ ∨ _))

/-! ## Lines of a body -/

def IsMarked (line : String) : Prop := ∃ mark ∈ ["- ", ">", "    "], mark.toList <+: line.toList

instance (line : String) : Decidable (IsMarked line) :=
  inferInstanceAs (Decidable (∃ mark ∈ ["- ", ">", "    "], mark.toList <+: line.toList))

theorem IsMarked.append {front : String} (marked : IsMarked front) (back : String) :
    IsMarked (front ++ back) := by
  obtain ⟨mark, among, begins⟩ := marked
  refine ⟨mark, among, ?_⟩
  rw [String.toList_append]
  exact begins.trans (List.prefix_append _ _)

theorem IsMarked.isOwn {line : String} (marked : IsMarked line) : IsOwn line := by
  obtain ⟨mark, among, begins⟩ := marked
  exact .inr ⟨mark, List.mem_cons_of_mem _ (List.mem_cons_of_mem _ among), begins⟩

theorem IsMarked.not_structural {line : String} (marked : IsMarked line) :
    isStructural line = false := by
  obtain ⟨mark, among, rest, begins⟩ := marked
  rw [isStructural, ← begins]
  simp only [List.mem_cons, List.not_mem_nil, or_false] at among
  rcases among with rfl | rfl | rfl <;> rfl

/-! ## Parts of a document -/

/-- These lines are lines of the text too, none begins as the document does not want, and those that a
Markdown reader notices are `skeleton`. -/
structure Lays (lines skeleton : List String) : Prop where
  oneLine : ∀ line ∈ lines, IsOneLine line
  own : ∀ line ∈ lines, IsOwn line
  structural : lines.filter isStructural = skeleton

namespace Lays

variable {lines more skeleton further : List String}

theorem nil : Lays [] [] := ⟨List.forall_mem_nil _, List.forall_mem_nil _, rfl⟩

theorem append (first : Lays lines skeleton) (second : Lays more further) :
    Lays (lines ++ more) (skeleton ++ further) where
  oneLine := List.forall_mem_append.mpr ⟨first.oneLine, second.oneLine⟩
  own := List.forall_mem_append.mpr ⟨first.own, second.own⟩
  structural := by rw [List.filter_append, first.structural, second.structural]

theorem of_marked (oneLine : ∀ line ∈ lines, IsOneLine line) (marked : ∀ line ∈ lines, IsMarked line) :
    Lays lines [] where
  oneLine := oneLine
  own line member := (marked line member).isOwn
  structural := List.filter_eq_nil_iff.mpr fun line member => by
    simp [(marked line member).not_structural]

theorem of_fixed {line : String} (fixed : line ∈ fixedLines) (oneLine : IsOneLine line)
    (noticed : [line].filter isStructural = skeleton) : Lays [line] skeleton where
  oneLine := List.forall_mem_singleton.mpr oneLine
  own := List.forall_mem_singleton.mpr (.inl fixed)
  structural := noticed

theorem heading {mark text : String} (among : mark ∈ ["# ", "## "]) (oneLine : IsOneLine text) :
    Lays [mark ++ text, ""] [mark ++ text] where
  oneLine := by
    have own : IsOneLine mark := by
      revert mark
      decide
    rw [List.forall_mem_cons, List.forall_mem_singleton, isOneLine_append]
    exact ⟨⟨own, oneLine⟩, by decide⟩
  own := by
    rw [List.forall_mem_cons, List.forall_mem_singleton]
    refine ⟨.inr ⟨mark, List.mem_append_left _ among, ?_⟩, .inl (by decide)⟩
    rw [String.toList_append]
    exact List.prefix_append _ _
  structural := by
    have noticed : isStructural (mark ++ text) = true := by
      simp only [List.mem_cons, List.not_mem_nil, or_false] at among
      rcases among with rfl | rfl <;> simp [isStructural]
    have blank : isStructural "" = false := by decide
    rw [List.filter_cons_of_pos noticed, List.filter_cons_of_neg (by simp [blank]), List.filter_nil]

theorem block {kind : String} {body : List String} (among : kind ∈ fixedLines)
    (named : IsOneLine kind) (plain : isStructural kind = false) (laid : Lays body []) :
    Lays (Diagram.block kind body) ["```mermaid", "```"] := by
  have opens : Lays ["```mermaid"] ["```mermaid"] := .of_fixed (by decide) (by decide) (by decide)
  have tells : Lays [kind] [] := .of_fixed among named (List.filter_cons_of_neg (by simp [plain]))
  have closes : Lays ["```"] ["```"] := .of_fixed (by decide) (by decide) (by decide)
  exact (opens.append tells).append (laid.append closes)

theorem sectionLines {text : String} {body noticed : List String} (oneLine : IsOneLine text)
    (laid : Lays body noticed) : Lays (Section.mk text body).lines (("## " ++ text) :: noticed) := by
  have begins : Lays ["## " ++ text, ""] ["## " ++ text] := .heading (by decide) oneLine
  have ends : Lays [""] [] := .of_fixed (by decide) (by decide) (by decide)
  have whole := begins.append (laid.append ends)
  rwa [List.append_nil] at whole

theorem unlessEmpty {α : Type} {items : List α} {part : Section} (laid : Lays part.lines skeleton) :
    Lays ((Document.unlessEmpty items part).flatMap Section.lines)
      (if items.isEmpty then [] else skeleton) := by
  rw [Document.unlessEmpty]
  split
  · exact nil
  · rwa [List.flatMap_singleton]

end Lays

/-! ## Sections -/

theorem lays_statistics (survey : Survey) :
    Lays (statistics survey).lines ["## Project Statistics"] := by
  refine .sectionLines (by decide) (.of_marked ?_ ?_)
  · simp only [List.forall_mem_cons, isOneLine_append, isOneLine_toString, and_true]
    decide
  · simp only [List.forall_mem_cons]
    exact ⟨.append (by decide) _, .append (by decide) _, .append (by decide) _, .append (by decide) _,
      List.forall_mem_nil _⟩

theorem lays_overview (readme : String) : Lays (overview readme).lines ["## Overview"] := by
  refine .sectionLines (by decide) (.of_marked ?_ ?_)
  all_goals
    rw [List.forall_mem_map]
    intro line member
    rw [quoted]
    split
  · decide
  · have oneLine := not_mem_of_mem_linesOf (List.mem_of_mem_take member)
    exact isOneLine_append.mpr ⟨by decide, isOneLine_ofList.mpr oneLine⟩
  · decide
  · exact .append (by decide) _

theorem isMarked_nodeLine (id label : String) : IsMarked (Diagram.nodeLine id label) :=
  .append (.append (.append (.append (by decide) _) _) _) _

theorem isMarked_edgeLine (source target : String) : IsMarked (Diagram.edgeLine source target) :=
  .append (.append (.append (by decide) _) _) _

theorem lays_modules {modules : List String} (each : ∀ name ∈ modules, IsOneLine name) :
    Lays (Diagram.modulesLines modules) ["```mermaid", "```"] := by
  refine .block (by decide) (by decide) (by decide) (.of_marked (Diagram.isOneLine_modules each) ?_)
  intro line member
  obtain ⟨⟨name, index⟩, -, member⟩ := List.mem_flatMap.mp member
  cases index <;> simp only [Diagram.moduleLines, List.mem_cons, List.not_mem_nil, or_false] at member
  · rw [member]
    exact isMarked_nodeLine _ _
  · rcases member with rfl | rfl
    · exact isMarked_nodeLine _ _
    · exact isMarked_edgeLine _ _

theorem isMarked_line (statement : Diagram.Statement) : IsMarked statement.line := by
  cases statement with
  | node id kind name => exact isMarked_nodeLine _ _
  | edge source target => exact isMarked_edgeLine _ _

theorem lays_tree {nodes : List TreeNode} (names : ∀ name ∈ TreeNode.namesAll nodes, IsOneLine name)
    (depth : Nat) : Lays (Diagram.treeLines nodes depth) ["```mermaid", "```"] := by
  refine .block (by decide) (by decide) (by decide) (.of_marked ?_ ?_)
  · rw [List.forall_mem_map]
    exact Diagram.isOneLine_line names
  · rw [List.forall_mem_map]
    exact fun statement _ => isMarked_line statement

theorem lays_classes {classes : List Declaration}
    (each : ∀ declaration ∈ classes, IsOneLine declaration.name) :
    Lays (Diagram.classesLines classes) ["```mermaid", "```"] := by
  refine .block (by decide) (by decide) (by decide) (.of_marked (Diagram.isOneLine_classes each) ?_)
  intro line member
  obtain ⟨declaration, -, member⟩ := List.mem_flatMap.mp member
  rw [Diagram.classLines, List.cons_append, List.mem_cons, List.mem_append, List.mem_map,
    List.mem_singleton] at member
  rcases member with rfl | ⟨name, -, rfl⟩ | rfl
  · exact .append (.append (by decide) _) _
  · exact .append (.append (by decide) _) _
  · decide

theorem lays_functions {functions : List Declaration}
    (each : ∀ declaration ∈ functions, IsOneLine declaration.name) :
    Lays (Diagram.functionsLines functions) ["```mermaid", "```"] := by
  refine .block (by decide) (by decide) (by decide) (.of_marked (Diagram.isOneLine_functions each) ?_)
  rw [List.forall_mem_map]
  exact fun declaration _ => isMarked_nodeLine _ _

theorem lays_errors {survey : Survey} (failed : List FileOutline)
    (paths : ∀ file ∈ failed, lineFeed ∉ (file.path.relativeTo survey.root).bytes)
    (words : ∀ file ∈ failed, ∀ error ∈ file.errors, IsOneLine error) :
    Lays ((failed.take maxListedErrors).map (errorLine survey.root)
      ++ if maxListedErrors < failed.length then
          ["- ... and " ++ toString (failed.length - maxListedErrors) ++ " more"]
        else []) [] := by
  have listed : Lays ((failed.take maxListedErrors).map (errorLine survey.root)) [] := by
    refine .of_marked ?_ ?_
    · rw [List.forall_mem_map]
      intro file member
      have among := List.mem_of_mem_take member
      have shown := Bytes.isOneLine_display (paths file among)
      have joined : IsOneLine (joinStrings "; " file.errors) :=
        isOneLine_joinStrings (by decide) (words file among)
      simp only [errorLine, isOneLine_append]
      exact ⟨⟨⟨by decide, shown⟩, by decide⟩, joined⟩
    · rw [List.forall_mem_map]
      exact fun file _ => .append (.append (.append (by decide) _) _) _
  have counted : Lays ["- ... and " ++ toString (failed.length - maxListedErrors) ++ " more"] [] := by
    refine .of_marked ?_ ?_
    · rw [List.forall_mem_singleton, isOneLine_append, isOneLine_append]
      exact ⟨⟨by decide, isOneLine_toString _⟩, by decide⟩
    · rw [List.forall_mem_singleton]
      exact .append (.append (by decide) _) _
  split
  · exact listed.append counted
  · exact listed.append .nil

/-! ## Documents -/

section Shown

variable {survey : Survey} (shown : survey.ShowsOneLine)

include shown

theorem lays_diagramSections (declared : ∀ file ∈ survey.sources,
      ∀ declaration ∈ file.functions ++ file.classes, IsOneLine declaration.name) (treeDepth : Nat) :
    Lays ((diagramSections survey treeDepth).flatMap Section.lines) (diagramsSkeleton survey) := by
  have modules : ∀ name ∈ survey.moduleNames, IsOneLine name := by
    intro name member
    obtain ⟨file, among, rfl⟩ := List.mem_map.mp (mem_distinctNames.mp member).2
    exact isOneLine_moduleName (shown.paths file among)
  have classes : ∀ declaration ∈ survey.allClasses, IsOneLine declaration.name := by
    intro declaration member
    obtain ⟨file, among, own⟩ := List.mem_flatMap.mp member
    exact declared file among declaration (List.mem_append_right _ own)
  have functions : ∀ declaration ∈ survey.allFunctions, IsOneLine declaration.name := by
    intro declaration member
    obtain ⟨file, among, own⟩ := List.mem_flatMap.mp member
    exact declared file among declaration (List.mem_append_left _ own)
  rw [diagramSections, List.flatMap_append, List.flatMap_append, List.flatMap_append,
    List.flatMap_singleton]
  refine .append (.append (.append (.unlessEmpty ?_) ?_) (.unlessEmpty ?_)) (.unlessEmpty ?_)
  · exact .sectionLines (by decide) (lays_modules modules)
  · exact .sectionLines (by decide) (lays_tree shown.tree treeDepth)
  · exact .sectionLines (by decide) (lays_classes classes)
  · exact .sectionLines (by decide) (lays_functions functions)

theorem lays_errorSections (words : ∀ file ∈ survey.sources, ∀ error ∈ file.errors, IsOneLine error) :
    Lays ((errorSections survey).flatMap Section.lines)
      (if survey.failed.isEmpty then []
        else ["## Parse Errors (" ++ toString survey.failed.length ++ ")"]) := by
  have among : ∀ file ∈ survey.failed, file ∈ survey.sources :=
    fun file member => (List.mem_filter.mp member).1
  rw [errorSections]
  refine .unlessEmpty (.sectionLines ?_ (lays_errors _ (fun file member => shown.paths file (among file member))
    fun file member => words file (among file member)))
  rw [isOneLine_append, isOneLine_append]
  exact ⟨⟨by decide, isOneLine_toString _⟩, by decide⟩

theorem lays_document
    (declared : ∀ file ∈ survey.sources, ∀ declaration ∈ file.functions ++ file.classes,
      IsOneLine declaration.name)
    (words : ∀ file ∈ survey.sources, ∀ error ∈ file.errors, IsOneLine error) (readme : Option String)
    {options : DocumentOptions} (title : IsOneLine options.title) :
    Lays (lines survey readme options) (skeleton survey readme options) := by
  have titled : Lays ["# " ++ options.title, ""] ["# " ++ options.title] :=
    .heading (by decide) title
  have overviews : Lays ((readme.map overview).toList.flatMap Section.lines)
      (if readme.isSome then ["## Overview"] else []) := by
    cases readme with
    | none => exact .nil
    | some text =>
        rw [Option.map_some, Option.toList_some, List.flatMap_singleton]
        exact lays_overview text
  have diagrams : Lays
      ((if options.diagrams then diagramSections survey options.treeDepth else []).flatMap Section.lines)
      (if options.diagrams then diagramsSkeleton survey else []) := by
    split
    · exact lays_diagramSections shown declared options.treeDepth
    · exact .nil
  have whole := (((titled.append (lays_statistics survey)).append overviews).append diagrams).append
    (lays_errorSections shown words)
  rw [lines, sections]
  simpa [skeleton] using whole

end Shown

section Survey

variable {fs : FileSystem} {root : Path} {levels : Nat}

theorem outline_of_mem_sources {file : FileOutline} (member : file ∈ (fs.survey root levels).sources) :
    ∃ path, file = fs.outline path := by
  obtain ⟨path, -, rfl⟩ := List.mem_map.mp member
  exact ⟨path, rfl⟩

theorem lays_lines (shown : (fs.survey root levels).ShowsOneLine) (readme : Option String)
    {options : DocumentOptions} (title : IsOneLine options.title) :
    Lays (lines (fs.survey root levels) readme options)
      (skeleton (fs.survey root levels) readme options) := by
  refine lays_document shown ?_ ?_ readme title
  · intro file member
    obtain ⟨path, rfl⟩ := outline_of_mem_sources member
    exact FileSystem.isOneLine_declaration path
  · intro file member
    obtain ⟨path, rfl⟩ := outline_of_mem_sources member
    exact FileSystem.isOneLine_errors path

/-- Headings and fences of a document are its own, and so is the beginning of each line. -/
theorem render_skeleton (fs : FileSystem) (root : Path) (levels : Nat)
    (shown : (fs.survey root levels).ShowsOneLine) (readme : Option String)
    {options : DocumentOptions} (title : IsOneLine options.title) :
    let survey := fs.survey root levels
    let rendered := rows (render survey readme options)
    rendered.filter isStructural = skeleton survey readme options ∧
      ∀ line ∈ rendered, IsOwn line := by
  intro survey rendered
  have laid : Lays (lines survey readme options) (skeleton survey readme options) :=
    lays_lines shown readme title
  have last : Lays [""] [] := .of_fixed (by decide) (by decide) (by decide)
  have whole := laid.append last
  have split : rendered = lines survey readme options ++ [""] := rows_unlines laid.oneLine
  rw [split]
  refine ⟨?_, whole.own⟩
  rw [whole.structural, List.append_nil]

end Survey

def lonely (name content : String) : FileSystem where
  entries := [(Bytes.ofString "p", .directory [(Bytes.ofString name, .file (Bytes.ofString content))])]
  workingDirectory := []

theorem render_skeleton_marked :
    let survey := (lonely "```.py" "def f(): pass").survey (.ofString "p") 3
    let rendered := rows (render survey (some "# Introduction\n```\n") { title := "T" })
    rendered.filter isStructural =
        ["# T", "## Project Statistics", "## Overview", "## Architecture", "```mermaid", "```",
          "## File Structure", "```mermaid", "```", "## Functions", "```mermaid", "```"] ∧
      ∀ line ∈ rendered, IsOwn line := by
  have shown : ((lonely "```.py" "def f(): pass").survey (.ofString "p") 3).ShowsOneLine :=
    ⟨by decide +kernel, by decide +kernel⟩
  have title : IsOneLine ({ title := "T" } : DocumentOptions).title := by decide
  obtain ⟨structural, own⟩ := render_skeleton _ _ _ shown (some "# Introduction\n```\n") title
  exact ⟨structural.trans (by decide +kernel), own⟩

theorem render_line_feed :
    let survey := (lonely "notes\n```\n# Injected" "").survey (.ofString "p") 3
    (rows (render survey none { title := "T" })).filter isStructural =
        ["# T", "## Project Statistics", "## File Structure", "```mermaid", "```", "# Injected\"]",
          "```"] ∧
      skeleton survey none { title := "T" } =
        ["# T", "## Project Statistics", "## File Structure", "```mermaid", "```"] := by
  intro survey
  rw [rows, render, toList_unlines]
  decide +kernel

end Document
end CodeAtlas

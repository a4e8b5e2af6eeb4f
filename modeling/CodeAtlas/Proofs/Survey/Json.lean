import CodeAtlas.Proofs.Json.Edited
import CodeAtlas.Proofs.Text.Utf8
import CodeAtlas.Survey.Json

namespace CodeAtlas

/-! ## Paths -/

namespace Path

theorem json?_eq_none_iff {path : Path} : path.json? = none ↔ path.toText? = none :=
  Option.map_eq_none_iff

theorem encodes_json? {path : Path} {value : Json} (written : path.json? = some value) :
    Json.Encodes ofJson? value path := by
  obtain ⟨text, decoded, rfl⟩ := Option.map_eq_some_iff.mp written
  refine ⟨Json.isWritten_text text, fun edit => ?_⟩
  cases edit
  change some (ofString text) = some path
  rw [ofString, Bytes.ofString_of_decode? decoded]

end Path

/-! ## Source files -/

section Records

open Json

theorem Declaration.encodes_json {declaration : Declaration} (small : declaration.line < UInt64.size) :
    Encodes ofJson? declaration.json declaration := by
  apply encodes_record
  · exact fun _ => rfl
  · rfl
  · decide
  · simp [isWritten_text, isWritten_nat]
  intro inside values edits
  obtain _ | ⟨name, _ | ⟨line, _ | ⟨source, ⟨⟩⟩⟩⟩ := edits
  simp only [(encodes_text _).reads name, (encodes_nat small).reads line,
    (encodes_text _).reads source, bind_unless, unless_or, Bool.or_false]
  rfl

theorem ImportRecord.encodes_json {record : ImportRecord} (small : record.line < UInt64.size) :
    Encodes ofJson? record.json record := by
  apply encodes_record
  · exact fun _ => rfl
  · rfl
  · decide
  · simp [isWritten_text, isWritten_nat]
  intro inside values edits
  obtain _ | ⟨line, _ | ⟨source, ⟨⟩⟩⟩ := edits
  simp only [(encodes_nat small).reads line, (encodes_text _).reads source, bind_unless, unless_or,
    Bool.or_false]
  rfl

end Records

namespace FileOutline

def lines (file : FileOutline) : List Nat :=
  file.functions.map (·.line) ++ file.classes.map (·.line) ++ file.imports.map (·.line)

theorem json?_eq_none_iff {file : FileOutline} : file.json? = none ↔ file.path.toText? = none := by
  rw [json?, Option.bind_eq_bind, Option.bind_eq_none_iff, ← Path.json?_eq_none_iff]
  cases file.path.json? <;> simp

open Json in
theorem encodes_json? {file : FileOutline} {value : Json} (written : file.json? = some value)
    (small : ∀ n ∈ file.lines, n < UInt64.size) : Encodes ofJson? value file := by
  obtain ⟨path, shown, made⟩ := Option.bind_eq_some_iff.mp written
  obtain rfl := Option.some.inj made
  simp only [lines, List.forall_mem_append, List.forall_mem_map] at small
  obtain ⟨⟨functionLines, classLines⟩, importLines⟩ := small
  have root := Path.encodes_json? shown
  have functions := encodes_map fun _ member => Declaration.encodes_json (functionLines _ member)
  have classes := encodes_map fun _ member => Declaration.encodes_json (classLines _ member)
  have imports := encodes_map fun _ member => ImportRecord.encodes_json (importLines _ member)
  have errors := encodes_map fun s (_ : s ∈ file.errors) => encodes_text s
  apply encodes_record
  · exact fun _ => rfl
  · rfl
  · decide
  · simp only [List.forall_mem_cons]
    exact ⟨root.written, isWritten_array functions, isWritten_array classes, isWritten_array imports,
      isWritten_array errors, List.forall_mem_nil _⟩
  intro inside values edits
  obtain _ | ⟨pathEdit, _ | ⟨functionEdits, _ | ⟨classEdits, _ | ⟨importEdits,
    _ | ⟨errorEdits, ⟨⟩⟩⟩⟩⟩⟩ := edits
  simp only [root.reads pathEdit, items?_edited functions functionEdits,
    items?_edited classes classEdits, items?_edited imports importEdits,
    items?_edited errors errorEdits, bind_unless, unless_or, Bool.or_false]
  rfl

end FileOutline

/-! ## The tree -/

theorem NodeKind.ofWord?_word (kind : NodeKind) : ofWord? kind.word = some kind := by
  cases kind <;> decide

theorem NodeKind.encodes_word (kind : NodeKind) :
    Json.Encodes (fun value => value.variant?.bind ofWord?) (.text kind.word) kind where
  written := Json.isWritten_text kind.word
  reads edit := by
    cases edit
    exact ofWord?_word kind

namespace TreeNode

mutual

def paths : TreeNode → List Path
  | ⟨_, path, _, children⟩ => path :: pathsAll children

def pathsAll : List TreeNode → List Path
  | [] => []
  | node :: rest => node.paths ++ pathsAll rest

end

mutual

theorem json?_eq_none_iff :
    (node : TreeNode) → (node.json? = none ↔ ∃ path ∈ node.paths, path.toText? = none)
  | ⟨name, path, kind, children⟩ => by
      have parts : (TreeNode.mk name path kind children).json? = none ↔
          path.json? = none ∨ forestJson? children = none := by
        rw [json?]
        cases path.json? <;> cases forestJson? children <;> simp
      rw [parts, Path.json?_eq_none_iff, forestJson?_eq_none_iff children]
      simp [paths]

theorem forestJson?_eq_none_iff :
    (nodes : List TreeNode) → (forestJson? nodes = none ↔ ∃ path ∈ pathsAll nodes, path.toText? = none)
  | [] => by simp [forestJson?, pathsAll]
  | node :: rest => by
      have parts : forestJson? (node :: rest) = none ↔
          node.json? = none ∨ forestJson? rest = none := by
        rw [forestJson?]
        cases node.json? <;> cases forestJson? rest <;> simp
      rw [parts, json?_eq_none_iff node, forestJson?_eq_none_iff rest]
      simp [pathsAll, or_and_right, exists_or]

end

open Json

mutual

theorem encodes_json? {value : Json} : (node : TreeNode) → node.json? = some value →
    ∀ levels, 2 * (node.depth + 1) ≤ levels → Encodes (ofJson? levels) value node
  | ⟨name, path, kind, children⟩, written, levels, enough => by
      obtain ⟨shownPath, shown, made⟩ := Option.bind_eq_some_iff.mp written
      obtain ⟨values, below, made⟩ := Option.bind_eq_some_iff.mp made
      obtain rfl := Option.some.inj made
      rw [depth] at enough
      obtain ⟨deeper, rfl⟩ := Nat.exists_eq_add_of_le' (show 2 ≤ levels by omega)
      have place := Path.encodes_json? shown
      have forest := encodes_forestJson? children below deeper (by omega)
      apply encodes_record
      · exact fun _ => by rw [ofJson?]; rfl
      · rfl
      · decide
      · simp [isWritten_text, place.written, isWritten_array forest]
      intro inside values edits
      obtain _ | ⟨nameEdit, _ | ⟨pathEdit, _ | ⟨kindEdit, _ | ⟨childEdits, ⟨⟩⟩⟩⟩⟩ := edits
      have kindRead := kind.encodes_word.reads kindEdit
      simp only [(encodes_text _).reads nameEdit, place.reads pathEdit, kindRead,
        items?_edited forest childEdits, bind_unless, unless_or, Bool.or_false]
      rfl

theorem encodes_forestJson? {values : List Json} : (nodes : List TreeNode) →
    forestJson? nodes = some values → ∀ levels, 2 * depthBelow nodes ≤ levels →
      List.Forall₂ (Encodes (ofJson? levels)) values nodes
  | [], written, _, _ => by
      obtain rfl := Option.some.inj written
      exact .nil
  | node :: rest, written, levels, enough => by
      obtain ⟨first, here, made⟩ := Option.bind_eq_some_iff.mp written
      obtain ⟨others, later, made⟩ := Option.bind_eq_some_iff.mp made
      obtain rfl := Option.some.inj made
      rw [depthBelow] at enough
      exact .cons (encodes_json? node here levels (by omega))
        (encodes_forestJson? rest later levels (by omega))

end

end TreeNode

/-! ## Surveys -/

namespace Survey

def paths (survey : Survey) : List Path :=
  survey.root :: TreeNode.pathsAll survey.fileTree ++ survey.sources.map (·.path)

def counts (survey : Survey) : List Nat :=
  [survey.totalFiles, survey.totalFunctions, survey.totalClasses] ++
    survey.sources.flatMap FileOutline.lines

theorem toJson?_eq_none_iff {survey : Survey} :
    survey.toJson? = none ↔ ∃ path ∈ survey.paths, path.toText? = none := by
  have parts : survey.json? = none ↔ survey.root.json? = none ∨
      TreeNode.forestJson? survey.fileTree = none ∨
        survey.sources.mapM FileOutline.json? = none := by
    rw [json?]
    cases survey.root.json? <;> cases TreeNode.forestJson? survey.fileTree <;>
      cases survey.sources.mapM FileOutline.json? <;> simp
  have files : (∃ file ∈ survey.sources, file.json? = none) ↔
      ∃ path ∈ survey.sources.map (·.path), path.toText? = none := by
    constructor
    · rintro ⟨file, member, broken⟩
      exact ⟨file.path, List.mem_map_of_mem member, FileOutline.json?_eq_none_iff.mp broken⟩
    · rintro ⟨path, member, broken⟩
      obtain ⟨file, given, rfl⟩ := List.mem_map.mp member
      exact ⟨file, given, FileOutline.json?_eq_none_iff.mpr broken⟩
  rw [toJson?, Option.map_eq_none_iff, parts, Path.json?_eq_none_iff,
    TreeNode.forestJson?_eq_none_iff, mapM_eq_none_iff, files]
  simp only [paths, List.cons_append, List.mem_cons, List.mem_append, exists_eq_left, or_and_right,
    exists_or]

open Json in
theorem encodes_json? {survey : Survey} {value : Json} (written : survey.json? = some value)
    (small : ∀ n ∈ survey.counts, n < UInt64.size) (nesting : TreeNode.depthBelow survey.fileTree ≤ 62) :
    Encodes ofValue? value survey := by
  obtain ⟨root, shownRoot, made⟩ := Option.bind_eq_some_iff.mp written
  obtain ⟨nodes, shownNodes, made⟩ := Option.bind_eq_some_iff.mp made
  obtain ⟨files, shownFiles, made⟩ := Option.bind_eq_some_iff.mp made
  obtain rfl := Option.some.inj made
  rw [counts, List.forall_mem_append, List.forall_mem_flatMap] at small
  obtain ⟨totals, lines⟩ := small
  simp only [List.forall_mem_cons] at totals
  obtain ⟨fileTotal, functionTotal, classTotal, -⟩ := totals
  have place := Path.encodes_json? shownRoot
  have tree := TreeNode.encodes_forestJson? survey.fileTree shownNodes (maxNesting - 2)
    (Nat.le_trans (Nat.mul_le_mul_left 2 nesting) (by decide))
  have sources := encodes_mapM shownFiles fun file member shown made =>
    FileOutline.encodes_json? made (lines file member)
  apply encodes_record
  · exact fun _ => rfl
  · rfl
  · decide
  · simp [place.written, isWritten_array tree, isWritten_array sources, isWritten_nat]
  intro inside values edits
  obtain _ | ⟨rootEdit, _ | ⟨nodeEdits, _ | ⟨fileEdits, _ | ⟨filesEdit, _ | ⟨functionsEdit,
    _ | ⟨classesEdit, ⟨⟩⟩⟩⟩⟩⟩⟩ := edits
  simp only [place.reads rootEdit, items?_edited tree nodeEdits, items?_edited sources fileEdits,
    (encodes_nat fileTotal).reads filesEdit, (encodes_nat functionTotal).reads functionsEdit,
    (encodes_nat classTotal).reads classesEdit, bind_unless, unless_or, Bool.or_false]
  rfl

theorem exists_json? {survey : Survey} (texts : ∀ path ∈ survey.paths, path.toText? ≠ none) :
    ∃ value, survey.json? = some value ∧ survey.toJson? = some (Json.pretty value) := by
  have shown : survey.toJson? ≠ none := fun missing => by
    obtain ⟨path, member, broken⟩ := toJson?_eq_none_iff.mp missing
    exact texts path member broken
  obtain ⟨document, written⟩ := Option.ne_none_iff_exists'.mp shown
  obtain ⟨value, made, rfl⟩ := Option.map_eq_some_iff.mp written
  exact ⟨value, made, written⟩

/-- A survey whose paths are texts is read back from its document, whatever its other texts are: it has
to fit into 64 bits and into the nesting that a document may have. A survey with any other path has no
document. -/
theorem ofJson?_toJson? (survey : Survey) :
    ((∀ path ∈ survey.paths, path.toText? ≠ none) → (∀ n ∈ survey.counts, n < UInt64.size) →
        TreeNode.depthBelow survey.fileTree ≤ 62 →
          ∃ document, survey.toJson? = some document ∧ ofJson? document = some survey) ∧
      ((∃ path ∈ survey.paths, path.toText? = none) → survey.toJson? = none) := by
  refine ⟨fun texts small nesting => ?_, toJson?_eq_none_iff.mpr⟩
  obtain ⟨value, made, written⟩ := exists_json? texts
  have encodes := encodes_json? made small nesting
  have read : ofValue? value = some survey := encodes.reads (.refl value)
  refine ⟨_, written, ?_⟩
  rw [ofJson?, Json.read?_pretty encodes.written, Option.bind_some, read]

def quotedSurvey : Survey where
  root := .ofString "C:\\ \"home\""
  fileTree :=
    [⟨"d\n", .ofString "d\n", .directory, [⟨"é'", .ofString "d\n/é'", .file, []⟩]⟩]
  sources := [⟨.ofString "m.py", [⟨"f", UInt64.size - 1, "def f():\n\t\"\x01\x7f\""⟩], [], [⟨1, ""⟩], ["\\u0041"]⟩]
  totalFiles := UInt64.size - 1
  totalFunctions := 1
  totalClasses := 0

def brokenSurvey : Survey := { quotedSurvey with root := ⟨[0xFF]⟩ }

theorem ofJson?_toJson?_quoted :
    (∃ document, quotedSurvey.toJson? = some document ∧ ofJson? document = some quotedSurvey) ∧
      brokenSurvey.toJson? = none := by
  constructor
  · refine (ofJson?_toJson? quotedSurvey).1 ?_ ?_ (by decide)
    · simp only [paths, quotedSurvey, TreeNode.pathsAll, TreeNode.paths, List.map_cons, List.map_nil,
        List.cons_append, List.nil_append, List.append_nil, List.forall_mem_cons, Path.toText?,
        Path.ofString, Bytes.decode?_ofString]
      simp
    · decide
  · exact (ofJson?_toJson? brokenSurvey).2 ⟨_, List.mem_cons_self, by decide⟩

/-! ## Documents that are edited -/

open Json

/-- A survey is read back from each document of an edited value without a flaw, and from none of a value
with one. -/
theorem ofJson?_rewritten (survey : Survey) (texts : ∀ path ∈ survey.paths, path.toText? ≠ none)
    (small : ∀ n ∈ survey.counts, n < UInt64.size)
    (nesting : TreeNode.depthBelow survey.fileTree ≤ 62) :
    ∃ value, survey.json? = some value ∧ survey.toJson? = some (pretty value) ∧
      ∀ flawed edited, Edited flawed value edited →
        (flawed = false → read? (pretty edited) = some edited) ∧
          ∀ document, read? document = some edited →
            ofJson? document = if flawed then none else some survey := by
  obtain ⟨value, made, written⟩ := exists_json? texts
  have encodes := encodes_json? made small nesting
  refine ⟨value, made, written, fun flawed edited edit => ⟨fun sound => ?_, fun document read => ?_⟩⟩
  · exact read?_pretty (edit.isWritten sound encodes.written)
  · rw [ofJson?, read, Option.bind_some, encodes.reads edit]

def nestedSurvey : Survey where
  root := .ofString "r"
  fileTree := [⟨"d", .ofString "d", .directory, [⟨"e", .ofString "d/e", .file, []⟩]⟩]
  sources := []
  totalFiles := 1
  totalFunctions := 0
  totalClasses := 0

def nestedDocument (lower : Json) : Json :=
  .object [(some "note", text "new"), (some "total_classes", nat 0), (some "total_functions", nat 0),
    (some "total_files", nat 1), (some "python_files", .array []),
    (some "file_tree", .array [.array [text "d", text "d", text "directory", .array [lower]]]),
    (some "root", text "r")]

theorem json?_nestedSurvey : nestedSurvey.json? = some (record [("root", text "r"),
    ("file_tree", .array [record [("name", text "d"), ("path", text "d"), ("kind", text "directory"),
      ("children", .array [record [("name", text "e"), ("path", text "d/e"), ("kind", text "file"),
        ("children", .array [])]])]]), ("python_files", .array []), ("total_files", nat 1),
    ("total_functions", nat 0), ("total_classes", nat 0)]) := by
  simp [json?, nestedSurvey, TreeNode.forestJson?, TreeNode.json?, Path.json?, Path.toText?,
    Path.ofString, Bytes.decode?_ofString, NodeKind.word]

theorem edited_nestedDocument {flawed : Bool} {value lower : Json} (made : nestedSurvey.json? = some value)
    (edit : Edited flawed (record [("name", text "e"), ("path", text "d/e"), ("kind", text "file"),
      ("children", .array [])]) lower) : Edited flawed value (nestedDocument lower) := by
  obtain rfl := Option.some.inj (json?_nestedSurvey.symm.trans made)
  have children := Edited.array (EditedItems.at [] [] edit)
  have node := EditedMembers.at [(some "name", text "d"), (some "path", text "d"),
    (some "kind", text "directory")] [] (some "children") children
  have tree := Edited.array (EditedItems.at [] [] (Edited.object node .array))
  have fields := EditedMembers.at [(some "root", text "r")] [(some "python_files", .array []),
    (some "total_files", nat 1), (some "total_functions", nat 0), (some "total_classes", nat 0)]
    (some "file_tree") tree
  have reversed := Edited.object fields (.object
    (List.forall_mem_singleton.mpr ⟨"note", "new", rfl, by simp⟩) (List.reverse_perm _))
  rw [Bool.or_false, Bool.or_false] at reversed
  exact reversed

theorem ofJson?_rewritten_nested :
    ofJson? (pretty (nestedDocument (.array [text "e", text "d/e", text "file", .array []]))) =
        some nestedSurvey ∧
      ofJson? (pretty (nestedDocument (record [("name", text "e"), ("path", text "d/e"),
        ("kind", text "file")]))) = none := by
  have texts : ∀ path ∈ nestedSurvey.paths, path.toText? ≠ none := by
    simp [paths, nestedSurvey, TreeNode.pathsAll, TreeNode.paths, Path.toText?, Path.ofString,
      Bytes.decode?_ofString]
  obtain ⟨value, made, -, edits⟩ := ofJson?_rewritten nestedSurvey texts (by decide) (by decide)
  constructor
  · have sound := edited_nestedDocument made (.object (.refl _) .array)
    exact (edits _ _ sound).2 _ ((edits _ _ sound).1 rfl)
  · have known : (some "children", Json.array []) ∈ [(some "name", text "e"),
        (some "path", text "d/e"), (some "kind", text "file"), (some "children", .array [])] := by
      simp
    have childless : Spells _ true (record [("name", text "e"), ("path", text "d/e"),
        ("kind", text "file")]) := .miscounted known (by simp)
    have flawed := edited_nestedDocument made (.object (.refl _) childless)
    apply (edits _ _ flawed).2 _ (read?_pretty ?_)
    simp [nestedDocument, record, IsWritten, MembersWritten, AreWritten, text, isWritten_nat]

end Survey
end CodeAtlas

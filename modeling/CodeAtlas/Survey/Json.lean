import CodeAtlas.Json
import CodeAtlas.Survey

namespace CodeAtlas

/-! ## Writing -/

def Path.json? (path : Path) : Option Json := path.toText?.map Json.text

def Declaration.json (declaration : Declaration) : Json :=
  .record [("name", .text declaration.name), ("line", .nat declaration.line),
    ("source_text", .text declaration.sourceText)]

def ImportRecord.json (record : ImportRecord) : Json :=
  .record [("line", .nat record.line), ("source_text", .text record.sourceText)]

def FileOutline.json? (file : FileOutline) : Option Json := do
  let path ← file.path.json?
  return .record [("file_path", path), ("functions", .array (file.functions.map Declaration.json)),
    ("classes", .array (file.classes.map Declaration.json)),
    ("imports", .array (file.imports.map ImportRecord.json)),
    ("errors", .array (file.errors.map Json.text))]

namespace TreeNode

mutual

def json? : TreeNode → Option Json
  | ⟨name, path, kind, children⟩ => do
    let path ← path.json?
    let children ← forestJson? children
    return .record [("name", .text name), ("path", path), ("kind", .text kind.word),
      ("children", .array children)]

def forestJson? : List TreeNode → Option (List Json)
  | [] => some []
  | node :: rest => do
    let first ← node.json?
    let rest ← forestJson? rest
    return first :: rest

end

end TreeNode

namespace Survey

def json? (survey : Survey) : Option Json := do
  let root ← survey.root.json?
  let tree ← TreeNode.forestJson? survey.fileTree
  let sources ← survey.sources.mapM FileOutline.json?
  return .record [("root", root), ("file_tree", .array tree), ("python_files", .array sources),
    ("total_files", .nat survey.totalFiles), ("total_functions", .nat survey.totalFunctions),
    ("total_classes", .nat survey.totalClasses)]

def toJson? (survey : Survey) : Option String := survey.json?.map Json.pretty

end Survey

/-! ## Reading -/

def Path.ofJson? (value : Json) : Option Path := value.text?.map Path.ofString

def NodeKind.ofWord? (word : String) : Option NodeKind :=
  if word = "file" then some .file else if word = "directory" then some .directory else none

def Declaration.ofJson? (value : Json) : Option Declaration := do
  let [name, line, sourceText] ← value.fields? ["name", "line", "source_text"] | none
  return ⟨← name.text?, ← line.natural?, ← sourceText.text?⟩

def ImportRecord.ofJson? (value : Json) : Option ImportRecord := do
  let [line, sourceText] ← value.fields? ["line", "source_text"] | none
  return ⟨← line.natural?, ← sourceText.text?⟩

def FileOutline.ofJson? (value : Json) : Option FileOutline := do
  let [path, functions, classes, imports, errors] ←
    value.fields? ["file_path", "functions", "classes", "imports", "errors"] | none
  return ⟨← Path.ofJson? path, ← (← functions.items?).mapM Declaration.ofJson?,
    ← (← classes.items?).mapM Declaration.ofJson?, ← (← imports.items?).mapM ImportRecord.ofJson?,
    ← (← errors.items?).mapM Json.text?⟩

/-- A node whose own record and whose list of children may take up two of the `levels` left. -/
def TreeNode.ofJson? : (levels : Nat) → Json → Option TreeNode
  | levels + 2, value => do
    let [name, path, kind, children] ← value.fields? ["name", "path", "kind", "children"] | none
    let name ← name.text?
    let path ← Path.ofJson? path
    let kind ← kind.variant?.bind NodeKind.ofWord?
    let children ← (← children.items?).mapM (TreeNode.ofJson? levels)
    return ⟨name, path, kind, children⟩
  | _, _ => none

namespace Survey

def maxNesting : Nat := 127

def ofValue? (value : Json) : Option Survey := do
  let [root, tree, sources, files, functions, classes] ← value.fields?
    ["root", "file_tree", "python_files", "total_files", "total_functions", "total_classes"] | none
  return ⟨← Path.ofJson? root, ← (← tree.items?).mapM (TreeNode.ofJson? (maxNesting - 2)),
    ← (← sources.items?).mapM FileOutline.ofJson?, ← files.natural?, ← functions.natural?,
    ← classes.natural?⟩

def ofJson? (document : String) : Option Survey := (Json.read? document).bind ofValue?

end Survey
end CodeAtlas

import CodeAtlas.Failure
import CodeAtlas.FileSystem.Resolve
import CodeAtlas.Python.Piece
import CodeAtlas.Survey
import CodeAtlas.Text.Utf8

namespace CodeAtlas

namespace Python

/-- A node of a tree. It spans the bytes of the text from `start` to `stop`, and rows count from zero. -/
structure Node where
  kind : String
  start : Nat
  stop : Nat
  row : Nat
  children : List Node

abbrev Parser := String → Option Node

namespace Node

def line (node : Node) : Nat := node.row + 1

def text (source : Bytes) (node : Node) : Except String String :=
  let bytes : Bytes := (source.take node.stop).drop node.start
  match bytes.decode? with
  | some text => .ok text
  | none => .error (bytes.brokenAt 0)

def declaration? (source : Bytes) (node : Node) : Option Declaration := do
  let identifier ← node.children.find? fun child => child.kind == "identifier"
  let name ← (identifier.text source).toOption
  let text ← (node.text source).toOption
  return ⟨name, node.line, text⟩

end Node
end Python

namespace FileOutline

/-- An outline with what these nodes declare. An import whose text cannot be read ends it. -/
def addNodes (source : Bytes) (file : FileOutline) : List Python.Node → FileOutline
  | [] => file
  | node :: rest =>
    if node.kind == "function_definition" then
      addNodes source
        { file with functions := file.functions ++ (node.declaration? source).toList } rest
    else if node.kind == "class_definition" then
      addNodes source { file with classes := file.classes ++ (node.declaration? source).toList } rest
    else if node.kind == "import_statement" || node.kind == "import_from_statement" then
      match node.text source with
      | .ok text => addNodes source { file with imports := file.imports ++ [⟨node.line, text⟩] } rest
      | .error reason => { file with errors := file.errors ++ [(Failure.parser reason).message] }
    else addNodes source file rest

def extract (parse : Python.Parser) (path : Path) (source : String) : FileOutline :=
  match parse source with
  | some root => (blank path).addNodes (Bytes.ofString source) root.children
  | none => { blank path with errors := [(Failure.parser "Failed to parse source").message] }

end FileOutline

namespace Python

def byteLength (text : List Char) : Nat := (String.ofList text).utf8ByteSize

def DefinitionKind.nodeKind : DefinitionKind → String
  | ofFunction => "function_definition"
  | ofClass => "class_definition"

def importKind (text : List Char) : String :=
  if text.head? = some 'f' then "import_from_statement" else "import_statement"

/-- The node of an item that begins at the byte `start` in the row `row`. Of the nodes below a definition,
it has the name alone. -/
def ItemKind.node (start row : Nat) (text : List Char) : ItemKind → Node
  | definition kind front name =>
    let nameStart := start + byteLength front
    { kind := kind.nodeKind
      start, stop := start + byteLength text, row
      children := [⟨"identifier", nameStart, nameStart + byteLength name, row + front.count '\n', []⟩] }
  | importing =>
    { kind := importKind text
      start, stop := start + byteLength text, row
      children := [] }

def pieceNodes : (start row : Nat) → List Piece → List Node
  | _, _, [] => []
  | start, row, .between text :: rest =>
    pieceNodes (start + byteLength text) (row + text.count '\n') rest
  | start, row, .item kind text :: rest =>
    kind.node start row text :: pieceNodes (start + byteLength text) (row + text.count '\n') rest

def scan : Parser := fun source =>
  some ⟨"module", 0, source.utf8ByteSize, 0, pieceNodes 0 0 (pieces source.toList)⟩

end Python

def FileOutline.ofSource (path : Path) (source : String) : FileOutline :=
  extract Python.scan path source

def FileSystem.outline (fs : FileSystem) (path : Path) : FileOutline :=
  match fs.readText path with
  | .ok source => .ofSource path source
  | .error fault => { FileOutline.blank path with errors := [(Failure.io fault).message] }

end CodeAtlas

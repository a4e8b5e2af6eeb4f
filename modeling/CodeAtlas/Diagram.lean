import CodeAtlas.Survey
import CodeAtlas.Text
import CodeAtlas.Tree

namespace CodeAtlas.Diagram

def block (kind : String) (body : List String) : List String :=
  "```mermaid" :: kind :: (body ++ ["```"])

def nodeLine (id label : String) : String := "    " ++ id ++ "[\"" ++ label ++ "\"]"

def edgeLine (source target : String) : String := "    " ++ source ++ " --> " ++ target

/-! ## The file tree -/

def maxSiblings : Nat := 20

/-- The indices that lead from the root to a node; the root has none. -/
abbrev NodeId := List Nat

def nodeId (id : NodeId) : String :=
  id.foldl (fun text index => text ++ "_" ++ toString index) "root"

inductive Statement where
  | node (id : NodeId) (kind : NodeKind) (name : String)
  | edge (source target : NodeId)
  deriving DecidableEq

def marker : NodeKind → String
  | .directory => "📁"
  | .file => "📄"

def Statement.line : Statement → String
  | node id kind name => nodeLine (nodeId id) (marker kind ++ " " ++ name)
  | edge source target => edgeLine (nodeId source) (nodeId target)

/-- The statements for the children of one node, at most `levels` levels of them. -/
def statementsBelow : (levels : Nat) → NodeId → List TreeNode → List Statement
  | 0, _, _ => []
  | levels + 1, parent, nodes =>
    (nodes.take maxSiblings).zipIdx.flatMap fun (node, index) =>
      let id := parent ++ [index]
      .node id node.kind node.name :: .edge parent id ::
        (if node.isDirectory then statementsBelow levels id node.children else [])

/-- The forest that a diagram of so many levels shows: the first siblings of each level, and nothing
below a file. -/
def drawn : (levels : Nat) → List TreeNode → List TreeNode
  | 0, _ => []
  | levels + 1, nodes =>
    (nodes.take maxSiblings).map fun node =>
      { node with children := if node.isDirectory then drawn levels node.children else [] }

def treeLines (nodes : List TreeNode) (maxDepth : Nat) : List String :=
  block "graph TD" ((statementsBelow maxDepth [] nodes).map Statement.line)

def tree (nodes : List TreeNode) (maxDepth : Nat) : String := Text.unlines (treeLines nodes maxDepth)

/-! ## The architecture -/

def maxModules : Nat := 10

def moduleId (index : Nat) : String := "module_" ++ toString index

def moduleLines (name : String) : (index : Nat) → List String
  | 0 => [nodeLine (moduleId 0) name]
  | index + 1 =>
    [nodeLine (moduleId (index + 1)) name, edgeLine (moduleId index) (moduleId (index + 1))]

def modulesLines (modules : List String) : List String :=
  block "graph LR"
    ((modules.take maxModules).zipIdx.flatMap fun (name, index) => moduleLines name index)

def modules (names : List String) : String := Text.unlines (modulesLines names)

/-! ## Functions -/

def maxFunctions : Nat := 20

def functionId (name : String) : String :=
  String.ofList (name.toList.map fun c => if c = ' ' ∨ c = '-' then '_' else c)

def functionsLines (functions : List Declaration) : List String :=
  block "flowchart TD"
    ((functions.take maxFunctions).map fun f => nodeLine (functionId f.name) f.name)

def functions (declarations : List Declaration) : String :=
  Text.unlines (functionsLines declarations)

/-! ## Classes -/

def maxClasses : Nat := 30

def maxMethods : Nat := 5

def definitionMark : List Char := ['d', 'e', 'f', ' ']

/-- The method that a line announces: the trimmed text from the first mark to the next mark or
parenthesis. A line without a parenthesis announces none, and a private or empty name is dropped. -/
def methodOfLine (line : List Char) : Option (List Char) :=
  if !line.contains '(' then none
  else
    match Text.splitOnce? definitionMark line with
    | none => none
    | some (_, after) =>
      let name := Text.trim (Text.before ['('] (Text.before definitionMark after))
      if name.isEmpty || name.head? == some '_' then none else some name

def methodNames (source : String) : List String :=
  ((Text.linesOf source.toList).filterMap methodOfLine).map String.ofList

def classLines (declaration : Declaration) : List String :=
  ("    class " ++ declaration.name ++ " \x7b") ::
    ((methodNames declaration.sourceText).take maxMethods).map (fun name => "        +" ++ name ++ "()")
    ++ ["    \x7d"]

def classesLines (classes : List Declaration) : List String :=
  block "classDiagram" ((classes.take maxClasses).flatMap classLines)

def classes (declarations : List Declaration) : String := Text.unlines (classesLines declarations)

end CodeAtlas.Diagram

import CodeAtlas.Path
import CodeAtlas.Tree

namespace CodeAtlas

structure Declaration where
  name : String
  line : Nat
  sourceText : String
  deriving DecidableEq, Inhabited

def Declaration.isPrivate (declaration : Declaration) : Bool :=
  declaration.name.toList.head? == some '_'

structure ImportRecord where
  line : Nat
  sourceText : String
  deriving DecidableEq, Inhabited

structure FileOutline where
  path : Path
  functions : List Declaration
  classes : List Declaration
  imports : List ImportRecord
  errors : List String
  deriving DecidableEq, Inhabited

namespace FileOutline

def blank (path : Path) : FileOutline := ⟨path, [], [], [], []⟩

def hasErrors (file : FileOutline) : Bool := !file.errors.isEmpty

def isEmpty (file : FileOutline) : Bool :=
  file.functions.isEmpty && file.classes.isEmpty && file.imports.isEmpty

end FileOutline

def sourceSuffix : String := ".py"

structure Survey where
  root : Path
  fileTree : List TreeNode
  sources : List FileOutline
  totalFiles : Nat
  totalFunctions : Nat
  totalClasses : Nat
  deriving Inhabited

/-- The dotted name of the module that a source file holds. The file `__init__.py` of a package is the
package itself. Names that are no text are left out. -/
def moduleName (path root : Path) : String :=
  let parts := (path.relativeTo root).components.filterMap fun step => Bytes.decode? step.name
  let parts :=
    match parts.getLast? with
    | none => parts
    | some last =>
      match Text.dropBack? sourceSuffix.toList last.toList with
      | some stem => parts.dropLast ++ [String.ofList stem]
      | none => parts
  Text.joinStrings "." (if parts.getLast? == some "__init__" then parts.dropLast else parts)

def distinctNames (names : List String) : List String :=
  names.foldl (fun seen name => if name.isEmpty || seen.contains name then seen else seen ++ [name]) []

namespace Survey

def allFunctions (survey : Survey) : List Declaration := survey.sources.flatMap (·.functions)

def allClasses (survey : Survey) : List Declaration := survey.sources.flatMap (·.classes)

def moduleNames (survey : Survey) : List String :=
  distinctNames (survey.sources.map fun file => moduleName file.path survey.root)

def failed (survey : Survey) : List FileOutline := survey.sources.filter (·.hasErrors)

def errorCount (survey : Survey) : Nat := survey.failed.length

end Survey
end CodeAtlas

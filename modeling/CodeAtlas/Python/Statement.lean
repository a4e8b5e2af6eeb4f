import CodeAtlas.Python.LogicalLine
import CodeAtlas.Text

namespace CodeAtlas.Python

/-! ## Import statements -/

def isImportedName : List Lexeme → Bool
  | [x] => x.isWord
  | x :: y :: rest =>
    x.isWord && ((y == .ofSign "." && isImportedName rest)
      || (y == .ofWord "as" && rest.length == 1 && rest.all Lexeme.isWord))
  | [] => false

def isNameList (lexemes : List Lexeme) : Bool :=
  match (Text.splitOn (.ofSign ",") lexemes).reverse with
  | [] => false
  | last :: front =>
    front.all isImportedName && (isImportedName last || (last.isEmpty && !front.isEmpty))

def isImportedPart : List Lexeme → Bool
  | [] => false
  | x :: rest =>
    if x == .ofSign "*" then rest.isEmpty
    else if x == ⟨.openBracket, ['(']⟩ then
      rest.getLast? == some ⟨.closeBracket, [')']⟩ && isNameList rest.dropLast
    else isNameList (x :: rest)

def afterModule? : List Lexeme → Option (List Lexeme)
  | x :: y :: rest =>
    if !x.isWord then none
    else if y == .ofSign "." then afterModule? rest
    else if y == .ofWord "import" then some rest
    else none
  | _ => none

/-- Whether these lexemes make up the rest of an import from a module. A directive to the compiler is
written alike, as an import from `__future__`, and is none. -/
def isImportFrom (lexemes : List Lexeme) : Bool :=
  let dots := lexemes.takeWhile (· == .ofSign ".")
  let named := lexemes.drop dots.length
  if dots.isEmpty then
    named.head? != some (.ofWord "__future__") && (afterModule? named).any isImportedPart
  else if named.head? == some (.ofWord "import") then isImportedPart named.tail
  else (afterModule? named).any isImportedPart

def isImport : List Lexeme → Bool
  | [] => false
  | x :: rest =>
    (x == .ofWord "import" && isNameList rest) || (x == .ofWord "from" && isImportFrom rest)

/-! ## Headers -/

/-- The part of a compound statement after the colon that ends its header. The parameters of an
anonymous function end with a colon too. -/
def suite? : (depth functions : Nat) → List Lexeme → Option (List Lexeme)
  | _, _, [] => none
  | depth, functions, x :: rest =>
    if depth == 0 && x == .ofSign ":" then
      match functions with
      | 0 => some rest
      | functions + 1 => suite? depth functions rest
    else if depth == 0 && x == .ofWord "lambda" then suite? depth (functions + 1) rest
    else suite? (depthAfter depth x rest) functions rest

inductive DefinitionKind where
  | ofFunction
  | ofClass
  deriving DecidableEq

def definition? : List Lexeme → Option (DefinitionKind × Lexeme)
  | keyword :: name :: next :: rest =>
    let bracketed := next == ⟨.openBracket, ['(']⟩ || next == ⟨.openBracket, ['[']⟩
    if keyword == .ofWord "async" then
      if name == .ofWord "def" && next.isWord then
        match rest with
        | bracket :: _ =>
          if bracket == ⟨.openBracket, ['(']⟩ || bracket == ⟨.openBracket, ['[']⟩ then
            some (.ofFunction, next)
          else none
        | [] => none
      else none
    else if keyword == .ofWord "def" && name.isWord && bracketed then some (.ofFunction, name)
    else if keyword == .ofWord "class" && name.isWord && (bracketed || next == .ofSign ":") then
      some (.ofClass, name)
    else none
  | _ => none

def compoundWords : List String :=
  ["if", "elif", "else", "for", "while", "with", "try", "except", "finally"]

inductive LineKind where
  | idle
  | decorator
  | definition (kind : DefinitionKind) (name : Lexeme) (opensBody : Bool)
  | compound (opensBody : Bool)
  | simple
  deriving DecidableEq

def beginsDefinition : List Lexeme → Bool
  | x :: rest =>
    x == .ofWord "def" || x == .ofWord "class"
      || (x == .ofWord "async" && rest.head? == some (.ofWord "def"))
  | [] => false

/-- Whether the words begin a compound statement that is no definition. The word `match` does so if the
line ends with a colon. -/
def beginsCompound : List Lexeme → Bool
  | x :: rest =>
    compoundWords.any (fun word => x == .ofWord word)
      || (x == .ofWord "async"
        && (rest.head? == some (.ofWord "for") || rest.head? == some (.ofWord "with")))
      || (x == .ofWord "match" && suite? 0 0 rest == some [])
  | [] => false

def lineKind (core : List Lexeme) : LineKind :=
  if core.isEmpty then .idle
  else if core.head? == some (.ofSign "@") then .decorator
  else if beginsDefinition core then
    match definition? core, suite? 0 0 core with
    | some (kind, name), some suite => .definition kind name suite.isEmpty
    | _, suite => .compound (suite.all List.isEmpty)
  else if beginsCompound core then .compound ((suite? 0 0 core).all List.isEmpty)
  else .simple

end CodeAtlas.Python

import CodeAtlas.Python.Statement
import CodeAtlas.Survey
import CodeAtlas.Text

/-!
# Programs and how they are written

Programs of imports, assignments and definitions, nested to any depth and decorated or not, with blank
lines between the statements. A statement is laid out in lines, and a line is spelled in characters.
Beside them stands the outline that such a program ought to have.
-/

namespace CodeAtlas.Python

/-! ## Names -/

def reservedWords : List String :=
  ["False", "None", "True", "and", "as", "assert", "async", "await", "break", "class", "continue",
    "def", "del", "elif", "else", "except", "finally", "for", "from", "global", "if", "import", "in",
    "is", "lambda", "nonlocal", "not", "or", "pass", "raise", "return", "try", "while", "with",
    "yield", "match", "case", "type", "print", "exec"]

def isPlainStart (c : Char) : Bool := c.isAlpha || c == '_'

def isPlainPart (c : Char) : Bool := isPlainStart c || c.isDigit

def isPlainWord : List Char → Bool
  | [] => false
  | c :: rest => isPlainStart c && rest.all isPlainPart

structure Identifier where
  text : List Char
  plain : isPlainWord text = true
  free : ∀ word ∈ reservedWords, text ≠ word.toList

structure DottedName where
  first : Identifier
  others : List Identifier

def DottedName.text (name : DottedName) : List Char :=
  Text.joinWith ['.'] ((name.first :: name.others).map Identifier.text)

def spacedText : List (List Char) → List Char := Text.joinWith [' ']

def commaText : List (List Char) → List Char := Text.joinWith [',', ' ']

/-! ## Statements -/

inductive SimpleStatement where
  | importNames (first : DottedName) (others : List DottedName)
  | importFrom (source : DottedName) (present : source.first.text ≠ "__future__".toList)
      (first : Identifier) (others : List Identifier)
  | assignment (target : Identifier) (value : Nat)

inductive Argument where
  | plain (value : DottedName)
  | keyword (name : Identifier) (value : DottedName)

inductive Parameter where
  | plain (name : Identifier)
  | annotated (name : Identifier) (hint : DottedName)
  | preset (name : Identifier) (value : Nat)
  | starred (name : Identifier)
  | doublyStarred (name : Identifier)

structure Decorator where
  name : DottedName
  arguments : Option (List Argument)

inductive Header where
  | ofFunction (isAsync : Bool) (name : Identifier) (parameters : List Parameter)
  | ofClass (name : Identifier) (bases : Option (List Argument))

namespace Header

def kind : Header → DefinitionKind
  | ofFunction _ _ _ => .ofFunction
  | ofClass _ _ => .ofClass

def name : Header → Identifier
  | ofFunction _ name _ | ofClass name _ => name

end Header

mutual

inductive Statement where
  | simple (simple : SimpleStatement)
  | definition (decorators : List Decorator) (header : Header) (body : Block)

/-- One statement or more, each after blank lines of these widths. -/
inductive Block where
  | last (blanks : List Nat) (statement : Statement)
  | more (blanks : List Nat) (statement : Statement) (rest : Block)

end

/-- Statements, each after blank lines of these widths, and the blank lines at the end. The last line is
`ended` by a line feed, or by the end of the text alone. -/
structure Program where
  statements : List (List Nat × Statement)
  blanks : List Nat
  ended : Bool

/-! ## Spelling -/

namespace SimpleStatement

def text : SimpleStatement → List Char
  | importNames first others =>
    spacedText ["import".toList, commaText ((first :: others).map DottedName.text)]
  | importFrom source _ first others =>
    spacedText ["from".toList, source.text, "import".toList,
      commaText ((first :: others).map Identifier.text)]
  | assignment target value => target.text ++ [' ', '=', ' '] ++ Text.digitsOf value

end SimpleStatement

def Argument.text : Argument → List Char
  | plain value => value.text
  | keyword name value => name.text ++ '=' :: value.text

def Parameter.text : Parameter → List Char
  | plain name => name.text
  | annotated name hint => name.text ++ [':', ' '] ++ hint.text
  | preset name value => name.text ++ '=' :: Text.digitsOf value
  | starred name => '*' :: name.text
  | doublyStarred name => ['*', '*'] ++ name.text

def bracketText (items : List (List Char)) : List Char := '(' :: commaText items ++ [')']

def argumentsText : Option (List Argument) → List Char
  | none => []
  | some arguments => bracketText (arguments.map Argument.text)

def Decorator.text (decorator : Decorator) : List Char :=
  '@' :: decorator.name.text ++ argumentsText decorator.arguments

def Header.text : Header → List Char
  | ofFunction isAsync name parameters =>
    spacedText ((if isAsync then ["async".toList] else []) ++ ["def".toList, name.text]) ++
      bracketText (parameters.map Parameter.text) ++ [':']
  | ofClass name bases => spacedText ["class".toList, name.text] ++ argumentsText bases ++ [':']

/-! ## Layout -/

inductive LineContent where
  | statement (simple : SimpleStatement)
  | decoration (decorator : Decorator)
  | heading (header : Header)

def LineContent.text : LineContent → List Char
  | statement simple => simple.text
  | decoration decorator => decorator.text
  | heading header => header.text

inductive Line where
  | blank (width : Nat)
  | code (depth : Nat) (content : LineContent)

/-- The characters of a line. A line is indented by four blanks for each definition around it. -/
def Line.text : Line → List Char
  | blank width => List.replicate width ' '
  | code depth content => List.replicate (4 * depth) ' ' ++ content.text

mutual

def Statement.lines (depth : Nat) : Statement → List Line
  | .simple simple => [.code depth (.statement simple)]
  | .definition decorators header body =>
    decorators.map (fun decorator => .code depth (.decoration decorator)) ++
      .code depth (.heading header) :: body.lines (depth + 1)

def Block.lines (depth : Nat) : Block → List Line
  | .last blanks statement => blanks.map .blank ++ statement.lines depth
  | .more blanks statement rest =>
    blanks.map .blank ++ (statement.lines depth ++ rest.lines depth)

end

def linesText (lines : List Line) : List Char := lines.flatMap fun line => line.text ++ ['\n']

def Statement.text (statement : Statement) : List Char :=
  Text.joinWith ['\n'] ((statement.lines 0).map Line.text)

namespace Program

def lines (program : Program) : List Line :=
  program.statements.flatMap (fun (blanks, statement) => blanks.map .blank ++ statement.lines 0) ++
    program.blanks.map .blank

def text (program : Program) : List Char :=
  if program.ended then linesText program.lines else (linesText program.lines).dropLast

end Program

/-! ## The outline of a program -/

namespace Statement

def function? (line : Nat) (statement : Statement) : Option Declaration :=
  match statement with
  | .definition [] (.ofFunction _ name _) _ =>
    some ⟨String.ofList name.text, line, String.ofList statement.text⟩
  | _ => none

def class? (line : Nat) (statement : Statement) : Option Declaration :=
  match statement with
  | .definition [] (.ofClass name _) _ =>
    some ⟨String.ofList name.text, line, String.ofList statement.text⟩
  | _ => none

def import? (line : Nat) (statement : Statement) : Option ImportRecord :=
  match statement with
  | .simple (.importNames _ _) | .simple (.importFrom _ _ _ _) =>
    some ⟨line, String.ofList statement.text⟩
  | _ => none

end Statement

namespace Program

def place : (line : Nat) → List (List Nat × Statement) → List (Nat × Statement)
  | _, [] => []
  | line, (blanks, statement) :: rest =>
    (line + blanks.length, statement) ::
      place (line + blanks.length + (statement.lines 0).length) rest

def placed (program : Program) : List (Nat × Statement) := place 1 program.statements

def functions (program : Program) : List Declaration :=
  program.placed.filterMap fun (line, statement) => statement.function? line

def classes (program : Program) : List Declaration :=
  program.placed.filterMap fun (line, statement) => statement.class? line

def imports (program : Program) : List ImportRecord :=
  program.placed.filterMap fun (line, statement) => statement.import? line

end Program
end CodeAtlas.Python

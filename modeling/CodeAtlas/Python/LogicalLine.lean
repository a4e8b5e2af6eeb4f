import CodeAtlas.Python.Lexeme

namespace CodeAtlas.Python

/-- The lexemes of a line, with the line end if there is one. -/
abbrev LogicalLine := List Lexeme

/-- Whether the lexeme opens a bracket. A parenthesis right before a colon is a slip and opens nothing. -/
def opensBracket (x : Lexeme) (rest : List Lexeme) : Bool :=
  x.kind == .openBracket && !(x.text == ['('] && rest.head? == some (.ofSign ":"))

def depthAfter (depth : Nat) (x : Lexeme) (rest : List Lexeme) : Nat :=
  if opensBracket x rest then depth + 1
  else if x.kind == .closeBracket then depth - 1
  else depth

def cutAfter (ends : Lexeme → Bool) : (depth : Nat) → List Lexeme → List (List Lexeme)
  | _, [] => []
  | depth, x :: rest =>
    if ends x && depth == 0 then [x] :: cutAfter ends 0 rest
    else
      match cutAfter ends (depthAfter depth x rest) rest with
      | [] => [[x]]
      | part :: parts => (x :: part) :: parts

/-- Lexemes grouped into lines. A line end in brackets, in a literal or after a backslash ends no line. -/
def logicalLines (lexemes : List Lexeme) : List LogicalLine :=
  cutAfter (fun x => x.kind == .newline) 0 lexemes

theorem flatten_cutAfter (ends : Lexeme → Bool) (depth : Nat) (lexemes : List Lexeme) :
    (cutAfter ends depth lexemes).flatten = lexemes := by
  induction lexemes generalizing depth with
  | nil => rfl
  | cons x rest ih =>
    unfold cutAfter
    split
    · simp [ih]
    · have below := ih (depthAfter depth x rest)
      split <;> simp_all

theorem flatten_logicalLines (lexemes : List Lexeme) : (logicalLines lexemes).flatten = lexemes :=
  flatten_cutAfter _ _ _

def columnAfter : (column : Nat) → List Char → Nat
  | column, '\\' :: '\r' :: '\n' :: rest => columnAfter column rest
  | column, '\\' :: '\n' :: rest => columnAfter column rest
  | column, c :: rest =>
    if c == ' ' then columnAfter (column + 1) rest
    else if c == '\t' then columnAfter (column + 8) rest
    else if c == '\r' || c == '\x0C' then columnAfter 0 rest
    else column
  | column, [] => column

namespace LogicalLine

def indent (line : LogicalLine) : Nat :=
  columnAfter 0 (textOf (line.takeWhile fun x => x.kind == .gap || x.kind == .joiner))

def core (line : LogicalLine) : List Lexeme := line.filter fun x => !x.isFiller

def isCode (line : LogicalLine) : Bool := line.any fun x => !x.isFiller

def isRemark (line : LogicalLine) : Bool := !line.isCode && line.any fun x => x.kind == .comment

end LogicalLine
end CodeAtlas.Python

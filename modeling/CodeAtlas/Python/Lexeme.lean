import CodeAtlas.Python.Literal

namespace CodeAtlas.Python

inductive LexemeKind where
  | gap
  | newline
  | joiner
  | comment
  | word
  | number
  | literal
  | openBracket
  | closeBracket
  | sign
  deriving DecidableEq

structure Lexeme where
  kind : LexemeKind
  text : List Char
  deriving DecidableEq

namespace Lexeme

def ofSign (text : String) : Lexeme := ⟨.sign, text.toList⟩

def ofWord (text : String) : Lexeme := ⟨.word, text.toList⟩

def isWord (x : Lexeme) : Bool := x.kind == .word

/-- Whether the lexeme can be left out without a change of meaning, line structure apart. -/
def isFiller (x : Lexeme) : Bool :=
  x.kind == .gap || x.kind == .newline || x.kind == .joiner || x.kind == .comment

def isInvisible (x : Lexeme) : Bool := x.kind == .gap || x.kind == .newline || x.kind == .joiner

end Lexeme

def textOf (lexemes : List Lexeme) : List Char := lexemes.flatMap (·.text)

def isGap (c : Char) : Bool :=
  c == ' ' || c == '\t' || c == '\r' || c == '\x0B' || c == '\x0C' || c.toNat == 0xFEFF
    || c.toNat == 0x2060 || c.toNat == 0x200B

/-- The kind of the lexeme that begins with `c`, and how many characters of `rest` belong to it. -/
def measure (c : Char) (rest : List Char) : LexemeKind × Nat :=
  if c == '\n' then (.newline, 0)
  else if isGap c then (.gap, (rest.takeWhile isGap).length)
  else if c == '#' then (.comment, (rest.takeWhile (· != '\n')).length)
  else
    match literalLength? (c :: rest) with
    | some length => (.literal, length - 1)
    | none =>
      if Text.isIdentifierStart c then (.word, (rest.takeWhile Text.isIdentifierPart).length)
      else if '0' ≤ c && c ≤ '9' then (.number, (rest.takeWhile Text.isIdentifierPart).length)
      else if c == '(' || c == '[' || c == '{' then (.openBracket, 0)
      else if c == ')' || c == ']' || c == '}' then (.closeBracket, 0)
      else
        match c, rest with
        | '\\', [] => (.joiner, 0)
        | '\\', '\n' :: _ => (.joiner, 1)
        | '\\', '\r' :: '\n' :: _ => (.joiner, 2)
        | ':', '=' :: _ => (.sign, 1)
        | '-', '>' :: _ => (.sign, 1)
        | _, _ => (.sign, 0)

def lex (s : List Char) : List Lexeme :=
  match s with
  | [] => []
  | c :: rest =>
    ⟨(measure c rest).1, c :: rest.take (measure c rest).2⟩ :: lex (rest.drop (measure c rest).2)
termination_by s.length
decreasing_by
  simp only [List.length_drop, List.length_cons]
  omega

/-- The lexemes make up the text. -/
theorem textOf_lex (s : List Char) : textOf (lex s) = s := by
  fun_induction lex s with
  | case1 => rfl
  | case2 c rest ih =>
    simp only [textOf, List.flatMap_cons] at ih ⊢
    rw [ih, List.cons_append, List.take_append_drop]

end CodeAtlas.Python

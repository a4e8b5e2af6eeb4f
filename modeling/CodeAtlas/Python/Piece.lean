import CodeAtlas.Python.Statement

namespace CodeAtlas.Python

/-- What an item is; of a definition, what it is called and the text before that. -/
inductive ItemKind where
  | definition (kind : DefinitionKind) (front name : List Char)
  | importing
  deriving DecidableEq

inductive Piece where
  | item (kind : ItemKind) (text : List Char)
  | between (text : List Char)
  deriving DecidableEq

def Piece.text : Piece → List Char
  | item _ text => text
  | between text => text

/-! ## Bodies -/

def goesOn (indent : Nat) (lines : List LogicalLine) : Bool :=
  (lines.find? LogicalLine.isCode).any fun line => indent ≤ line.indent

/-- The lines of a body of this indent, and the lines after it. Comments after the last statement belong
to the body up to the first that stands farther left. -/
def splitBody (indent : Nat) : List LogicalLine → List LogicalLine × List LogicalLine
  | [] => ([], [])
  | line :: rest =>
    if goesOn indent (line :: rest)
        || !(line.isCode || (line.isRemark && decide (line.indent < indent))) then
      (line :: (splitBody indent rest).1, (splitBody indent rest).2)
    else ([], line :: rest)

def takeBody (lines : List LogicalLine) : List LogicalLine × List LogicalLine :=
  match lines.find? LogicalLine.isCode with
  | some line => if line.indent = 0 then ([], lines) else splitBody line.indent lines
  | none => ([], lines)

theorem splitBody_append (indent : Nat) (lines : List LogicalLine) :
    (splitBody indent lines).1 ++ (splitBody indent lines).2 = lines := by
  induction lines with
  | nil => rfl
  | cons line rest ih =>
    unfold splitBody
    split <;> simp [ih]

theorem takeBody_append (lines : List LogicalLine) :
    (takeBody lines).1 ++ (takeBody lines).2 = lines := by
  unfold takeBody
  split
  · split
    · rfl
    · exact splitBody_append _ _
  · rfl

theorem takeBody_length (lines : List LogicalLine) :
    (takeBody lines).2.length ≤ lines.length := by
  have h := congrArg List.length (takeBody_append lines)
  rw [List.length_append] at h
  omega

/-! ## Pieces of lines -/

def splitEnd (p : Lexeme → Bool) (lexemes : List Lexeme) : List Lexeme × List Lexeme :=
  ((lexemes.reverse.dropWhile p).reverse, (lexemes.reverse.takeWhile p).reverse)

/-- An item whose text begins at the first lexeme that can be seen and ends before the last lexemes that
satisfy `trailing`, with what stands before and after it. -/
def itemPieces (trailing : Lexeme → Bool) (kind : ItemKind) (lexemes : List Lexeme) : List Piece :=
  let shown := lexemes.dropWhile Lexeme.isFiller
  [.between (textOf (lexemes.takeWhile Lexeme.isFiller)),
    .item kind (textOf (splitEnd trailing shown).1), .between (textOf (splitEnd trailing shown).2)]

def statementPieces (lexemes : List Lexeme) : List Piece :=
  if isImport (LogicalLine.core (splitEnd (fun x => x == .ofSign ";" || x.isFiller) lexemes).1) then
    itemPieces (fun x => x == .ofSign ";" || x.isFiller) .importing lexemes
  else [.between (textOf lexemes)]

def simplePieces (line : LogicalLine) : List Piece :=
  (cutAfter (· == .ofSign ";") 0 line).flatMap statementPieces

def beforeShown : (count : Nat) → List Lexeme → List Lexeme
  | _, [] => []
  | 0, x :: rest => if x.isFiller then x :: beforeShown 0 rest else []
  | count + 1, x :: rest => x :: beforeShown (if x.isFiller then count + 1 else count) rest

def keywordCount (core : List Lexeme) : Nat := if core.head? == some (.ofWord "async") then 2 else 1

def beforeName (line : LogicalLine) : List Char :=
  textOf (beforeShown (keywordCount line.core) (line.dropWhile Lexeme.isFiller))

/-- The pieces of these lines; `decorated` says that a decorator stands before them. A decorated
definition is no item. -/
def linePieces (decorated : Bool) (lines : List LogicalLine) : List Piece :=
  match lines with
  | [] => []
  | line :: rest =>
    match lineKind line.core with
    | .idle => .between (textOf line) :: linePieces decorated rest
    | .decorator => .between (textOf line) :: linePieces true rest
    | .simple => simplePieces line ++ linePieces false rest
    | .compound false => .between (textOf line) :: linePieces false rest
    | .compound true =>
      .between (textOf (line ++ (takeBody rest).1.flatten)) :: linePieces false (takeBody rest).2
    | .definition kind name false =>
      (if decorated then [.between (textOf line)]
        else itemPieces Lexeme.isInvisible (.definition kind (beforeName line) name.text) line)
        ++ linePieces false rest
    | .definition kind name true =>
      let lexemes := line ++ (takeBody rest).1.flatten
      (if decorated then [.between (textOf lexemes)]
        else itemPieces Lexeme.isInvisible (.definition kind (beforeName line) name.text) lexemes)
        ++ linePieces false (takeBody rest).2
termination_by lines.length
decreasing_by all_goals
  have := takeBody_length rest
  simp only [List.length_cons]
  omega

def pieces (source : List Char) : List Piece := linePieces false (logicalLines (lex source))

/-! ## Nothing is lost -/

theorem textOf_append (a b : List Lexeme) : textOf (a ++ b) = textOf a ++ textOf b := by
  simp [textOf]

theorem splitEnd_append (p : Lexeme → Bool) (lexemes : List Lexeme) :
    (splitEnd p lexemes).1 ++ (splitEnd p lexemes).2 = lexemes := by
  rw [splitEnd, ← List.reverse_append, List.takeWhile_append_dropWhile, List.reverse_reverse]

theorem textOf_itemPieces (trailing : Lexeme → Bool) (kind : ItemKind) (lexemes : List Lexeme) :
    (itemPieces trailing kind lexemes).flatMap Piece.text = textOf lexemes := by
  simp only [itemPieces, List.flatMap_cons, List.flatMap_nil, Piece.text, List.append_nil]
  rw [← textOf_append, splitEnd_append, ← textOf_append, List.takeWhile_append_dropWhile]

theorem textOf_statementPieces (lexemes : List Lexeme) :
    (statementPieces lexemes).flatMap Piece.text = textOf lexemes := by
  unfold statementPieces
  split
  · exact textOf_itemPieces _ _ _
  · simp [Piece.text]

theorem textOf_simplePieces (line : LogicalLine) :
    (simplePieces line).flatMap Piece.text = textOf line := by
  have parts : ∀ statements : List (List Lexeme),
      (statements.flatMap statementPieces).flatMap Piece.text = textOf statements.flatten := by
    intro statements
    induction statements with
    | nil => rfl
    | cons first rest ih =>
      rw [List.flatMap_cons, List.flatMap_append, ih, textOf_statementPieces, List.flatten_cons,
        textOf_append]
  rw [simplePieces, parts, flatten_cutAfter]

theorem textOf_linePieces (decorated : Bool) (lines : List LogicalLine) :
    (linePieces decorated lines).flatMap Piece.text = textOf lines.flatten := by
  fun_induction linePieces decorated lines with
  | case1 => rfl
  | case2 _ _ _ _ ih => simp_all [Piece.text, textOf_append]
  | case3 _ _ _ _ ih => simp_all [Piece.text, textOf_append]
  | case4 _ _ _ _ ih => simp_all [textOf_simplePieces, textOf_append]
  | case5 _ _ _ _ ih => simp_all [Piece.text, textOf_append]
  | case6 _ line rest _ ih =>
    rw [List.flatMap_cons, ih, Piece.text, ← textOf_append, List.append_assoc, ← List.flatten_append,
      takeBody_append, List.flatten_cons]
  | case7 decorated line rest kind name _ ih =>
    rw [List.flatMap_append, ih, List.flatten_cons, textOf_append]
    split <;> simp [Piece.text, textOf_itemPieces]
  | case8 decorated line rest kind name _ lexemes ih =>
    rw [List.flatMap_append, ih]
    have whole : textOf lexemes ++ textOf (takeBody rest).2.flatten
        = textOf (line :: rest).flatten := by
      rw [← textOf_append, List.append_assoc, ← List.flatten_append, takeBody_append,
        List.flatten_cons]
    split <;> simp [Piece.text, textOf_itemPieces, whole]

theorem textOf_pieces (source : List Char) : (pieces source).flatMap Piece.text = source := by
  rw [pieces, textOf_linePieces, flatten_logicalLines, textOf_lex]

end CodeAtlas.Python

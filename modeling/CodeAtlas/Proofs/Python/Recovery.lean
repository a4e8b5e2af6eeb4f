import CodeAtlas.Proofs.Python.Ending

namespace CodeAtlas.Python

/-! ## The lines of a statement -/

def Line.IsInside : Line → Prop
  | blank _ => True
  | code depth _ => 1 ≤ depth

inductive StartsOutside : List Line → Prop where
  | nil : StartsOutside []
  | code (content : LineContent) (rest : List Line) : StartsOutside (.code 0 content :: rest)

theorem Statement.lines_first (depth : Nat) (statement : Statement) :
    ∃ content rest, statement.lines depth = .code depth content :: rest := by
  cases statement with
  | simple simple => exact ⟨.statement simple, [], rfl⟩
  | definition decorators header body =>
      cases decorators with
      | nil => exact ⟨.heading header, body.lines (depth + 1), rfl⟩
      | cons decorator others => exact ⟨.decoration decorator, _, rfl⟩

theorem Block.lines_first (depth : Nat) (block : Block) :
    ∃ (blanks : List Nat) (content : LineContent) (rest : List Line),
      block.lines depth = blanks.map Line.blank ++ .code depth content :: rest := by
  cases block with
  | last blanks statement =>
      obtain ⟨content, rest, first⟩ := statement.lines_first depth
      exact ⟨blanks, content, rest, by rw [Block.lines, first]⟩
  | more blanks statement others =>
      obtain ⟨content, rest, first⟩ := statement.lines_first depth
      exact ⟨blanks, content, rest ++ others.lines depth, by rw [Block.lines, first, List.cons_append]⟩

mutual

theorem Statement.lines_last (depth : Nat) : (statement : Statement) →
    ∃ front below simple, statement.lines depth = front ++ [.code below (.statement simple)]
  | .simple simple => ⟨[], depth, simple, rfl⟩
  | .definition decorators header body => by
    obtain ⟨front, below, simple, last⟩ := body.lines_last (depth + 1)
    exact ⟨decorators.map (fun decorator => .code depth (.decoration decorator)) ++
      .code depth (.heading header) :: front, below, simple, by simp [Statement.lines, last]⟩

theorem Block.lines_last (depth : Nat) : (block : Block) →
    ∃ front below simple, block.lines depth = front ++ [.code below (.statement simple)]
  | .last blanks statement => by
    obtain ⟨front, below, simple, last⟩ := statement.lines_last depth
    exact ⟨blanks.map .blank ++ front, below, simple, by simp [Block.lines, last]⟩
  | .more blanks statement rest => by
    obtain ⟨front, below, simple, last⟩ := rest.lines_last depth
    exact ⟨blanks.map .blank ++ (statement.lines depth ++ front), below, simple, by
      simp [Block.lines, last]⟩

end

theorem isInside_blanks (blanks : List Nat) : ∀ line ∈ blanks.map Line.blank, line.IsInside := by
  simp [Line.IsInside]

mutual

theorem Statement.lines_inside (depth : Nat) : (statement : Statement) →
    ∀ line ∈ statement.lines (depth + 1), line.IsInside
  | .simple simple => by simp [Statement.lines, Line.IsInside]
  | .definition decorators header body => by
    have inside := body.lines_inside (depth + 1)
    simp only [Statement.lines, List.forall_mem_append, List.forall_mem_cons, List.forall_mem_map]
    exact ⟨fun _ _ => Nat.le_add_left _ _, Nat.le_add_left _ _, inside⟩

theorem Block.lines_inside (depth : Nat) : (block : Block) →
    ∀ line ∈ block.lines (depth + 1), line.IsInside
  | .last blanks statement => by
    simp only [Block.lines, List.forall_mem_append]
    exact ⟨isInside_blanks blanks, statement.lines_inside depth⟩
  | .more blanks statement rest => by
    simp only [Block.lines, List.forall_mem_append]
    exact ⟨isInside_blanks blanks, statement.lines_inside depth, rest.lines_inside depth⟩

end

/-! ## Bodies -/

theorem splitBody_inside (lines next : List Line) (inside : ∀ line ∈ lines, line.IsInside)
    (outside : StartsOutside next) :
    splitBody 4 ((lines ++ next).map Line.lexemes) =
      (lines.map Line.lexemes, next.map Line.lexemes) := by
  induction lines with
  | nil =>
      cases outside with
      | nil => rfl
      | code content rest =>
          have left := indent_code 0 content
          have code := isCode_code 0 content
          simp [splitBody, goesOn, code, left]
  | cons line rest ih =>
      have below := ih fun other member => inside other (List.mem_cons_of_mem _ member)
      rw [List.map_append] at below
      cases line with
      | blank width =>
          have blank := isCode_blank width
          have no_remark := isRemark_blank width
          simp [splitBody, blank, no_remark, below]
      | code depth content =>
          have step : 1 ≤ depth := inside _ List.mem_cons_self
          have column := indent_code depth content
          have code := isCode_code depth content
          have enough : 4 ≤ 4 * depth := by omega
          simp [splitBody, goesOn, code, column, enough, below]

theorem find?_blanks (blanks : List Nat) (rest : List Line) :
    ((blanks.map Line.blank ++ rest).map Line.lexemes).find? LogicalLine.isCode =
      (rest.map Line.lexemes).find? LogicalLine.isCode := by
  induction blanks with
  | nil => rfl
  | cons width blanks ih => simp [isCode_blank] at ih ⊢; exact ih

/-- The body of a definition is the block below it with the blank lines at the end. -/
theorem takeBody_block (block : Block) (blanks : List Nat) (next : List Line)
    (outside : StartsOutside next) :
    takeBody ((block.lines 1 ++ blanks.map Line.blank ++ next).map Line.lexemes) =
      ((block.lines 1 ++ blanks.map Line.blank).map Line.lexemes, next.map Line.lexemes) := by
  have inside : ∀ line ∈ block.lines 1 ++ blanks.map Line.blank, line.IsInside := by
    rw [List.forall_mem_append]
    exact ⟨block.lines_inside 0, isInside_blanks blanks⟩
  have split := splitBody_inside _ next inside outside
  obtain ⟨front, content, rest, first⟩ := block.lines_first 1
  have found : ((block.lines 1 ++ blanks.map Line.blank ++ next).map Line.lexemes).find?
      LogicalLine.isCode = some (Line.code 1 content).lexemes := by
    rw [first, List.append_assoc, List.append_assoc, find?_blanks]
    simp [isCode_code]
  rw [takeBody, found]
  simp only [indent_code]
  exact split

/-! ## Texts -/

theorem textOf_lexemes (lines : List Line) :
    textOf (lines.flatMap Line.lexemes) = linesText lines := by
  rw [← lex_linesText, textOf_lex]

theorem count_lexemes (lines : List Line) :
    (textOf (lines.flatMap Line.lexemes)).count '\n' = lines.length := by
  rw [textOf_lexemes, count_linesText]

theorem count_line (line : Line) : (textOf line.lexemes).count '\n' = 1 := by
  have count := count_lexemes [line]
  rwa [List.flatMap_cons, List.flatMap_nil, List.append_nil] at count

theorem linesText_cons (line : Line) (rest : List Line) :
    linesText (line :: rest) = Text.joinWith ['\n'] ((line :: rest).map Line.text) ++ ['\n'] := by
  induction rest generalizing line with
  | nil => simp [linesText, Text.joinWith]
  | cons second rest ih =>
      have below := ih second
      rw [linesText, List.flatMap_cons, ← linesText, below]
      simp [Text.joinWith]

theorem linesText_statement (statement : Statement) :
    linesText (statement.lines 0) = statement.text ++ ['\n'] := by
  obtain ⟨content, rest, first⟩ := statement.lines_first 0
  rw [Statement.text, first, linesText_cons]

theorem Statement.lexemes_first (statement : Statement) :
    ∃ x rest, (statement.lines 0).flatMap Line.lexemes = x :: rest ∧ IsShown x := by
  obtain ⟨content, rest, first⟩ := statement.lines_first 0
  obtain ⟨x, others, begins, shown⟩ := shown_content content
  refine ⟨x, others ++ newline :: rest.flatMap Line.lexemes, ?_, shown⟩
  simp [first, Line.lexemes, begins, gapLexemes, newline]

theorem Statement.lexemes_framed (statement : Statement) :
    ∃ front, (statement.lines 0).flatMap Line.lexemes = front ++ [newline] ∧ Framed front ∧
      textOf front = statement.text := by
  obtain ⟨lines, below, simple, last⟩ := statement.lines_last 0
  obtain ⟨before, y, ends, seen⟩ := simple.framed.last
  obtain ⟨front, whole, final⟩ : ∃ front, (statement.lines 0).flatMap Line.lexemes =
      front ++ [newline] ∧ ∃ before y, front = before ++ [y] ∧ IsShown y := by
    refine ⟨lines.flatMap Line.lexemes ++ gapLexemes (4 * below) ++ simple.lexemes, ?_,
      lines.flatMap Line.lexemes ++ gapLexemes (4 * below) ++ before, y, ?_, seen⟩
    · simp [last, Line.lexemes, LineContent.lexemes, newline]
    · simp [ends]
  obtain ⟨x, rest, first, shown⟩ := statement.lexemes_first
  refine ⟨front, whole, ⟨?_, final⟩, ?_⟩
  · rw [whole] at first
    cases front with
    | nil =>
        obtain ⟨before, y, impossible, _⟩ := final
        simp at impossible
    | cons z front =>
        rw [List.cons_append, List.cons.injEq] at first
        exact ⟨z, front, rfl, first.1 ▸ shown⟩
  · have text := textOf_lexemes (statement.lines 0)
    rw [whole, textOf_append, linesText_statement] at text
    exact List.append_cancel_right text

/-! ## Pieces of statements -/

theorem splitEnd_framed {trailing : Lexeme → Bool} {front ends : List Lexeme}
    (stays : ∀ x, IsShown x → trailing x = false) (framed : Framed front)
    (cut : ∀ x ∈ ends, trailing x = true) : splitEnd trailing (front ++ ends) = (front, ends) := by
  obtain ⟨before, x, rfl, shown⟩ := framed.last
  have reversed : ∀ x ∈ ends.reverse, trailing x = true := by simpa using cut
  have stop := stays x shown
  simp only [splitEnd, List.reverse_append, List.reverse_cons, List.reverse_nil, List.nil_append,
    List.cons_append]
  rw [List.dropWhile_append_of_pos reversed, List.takeWhile_append_of_pos reversed]
  simp [stop]

theorem itemPieces_framed {trailing : Lexeme → Bool} (kind : ItemKind) {front ends : List Lexeme}
    (stays : ∀ x, IsShown x → trailing x = false) (framed : Framed front)
    (cut : ∀ x ∈ ends, trailing x = true) :
    itemPieces trailing kind (front ++ ends) =
      [.between [], .item kind (textOf front), .between (textOf ends)] := by
  obtain ⟨x, rest, begins, shown⟩ := framed.first
  have visible := shown.1
  have shownFirst : (front ++ ends).dropWhile Lexeme.isFiller = front ++ ends ∧
      (front ++ ends).takeWhile Lexeme.isFiller = [] := by
    simp [begins, visible]
  simp only [itemPieces, shownFirst, splitEnd_framed stays framed cut]
  rfl

theorem simplePieces_line (simple : SimpleStatement) :
    simplePieces (Line.code 0 (.statement simple)).lexemes =
      statementPieces (simple.lexemes ++ [newline]) := by
  exact simplePieces_ended simple.phrasal

theorem statementPieces_line (simple : SimpleStatement) :
    statementPieces (simple.lexemes ++ [newline]) =
      if isImport (LogicalLine.core simple.lexemes) then
        [.between [], .item .importing (textOf simple.lexemes), .between ['\n']]
      else [.between (textOf (simple.lexemes ++ [newline]))] := by
  have stays : ∀ x, IsShown x → (x == .ofSign ";" || x.isFiller) = false := fun x shown => by
    simpa [shown.1] using shown.2.2
  have cut : ∀ x ∈ [newline], (x == .ofSign ";" || x.isFiller) = true := by decide
  rw [statementPieces, splitEnd_framed stays simple.framed cut,
    itemPieces_framed _ stays simple.framed cut]
  rfl

/-! ## Items of statements -/

def Header.front : Header → List Char
  | ofFunction true _ _ => "async def ".toList
  | ofFunction false _ _ => "def ".toList
  | ofClass _ _ => "class ".toList

def Statement.item? (line : Nat) (statement : Statement) : Option PlacedItem :=
  match statement with
  | .simple (.importNames _ _) | .simple (.importFrom _ _ _ _) =>
    some ⟨.importing, line, statement.text⟩
  | .simple (.assignment _ _) => none
  | .definition [] header _ =>
    some ⟨.definition header.kind header.front header.name.text, line, statement.text⟩
  | .definition (_ :: _) _ _ => none

theorem linePieces_simple (simple : SimpleStatement) (rest : List LogicalLine) :
    linePieces false ((Line.code 0 (.statement simple)).lexemes :: rest) =
      statementPieces (simple.lexemes ++ [newline]) ++ linePieces false rest := by
  have kind : lineKind (LogicalLine.core (Line.code 0 (.statement simple)).lexemes) = .simple := by
    rw [core_code]
    exact lineKind_simple simple
  rw [linePieces, kind]
  exact congrArg (· ++ linePieces false rest) (simplePieces_line simple)

theorem textOf_simple (simple : SimpleStatement) :
    textOf simple.lexemes = (Statement.simple simple).text := by
  have cut := (Spells.simpleStatement simple).cut [] nofun
  have text := textOf_lex (simple.text ++ [])
  rw [cut, lex, List.append_nil, List.append_nil] at text
  exact text

theorem count_statementPieces (simple : SimpleStatement) :
    ((statementPieces (simple.lexemes ++ [newline])).flatMap Piece.text).count '\n' = 1 := by
  rw [textOf_statementPieces]
  exact count_line (.code 0 (.statement simple))

theorem placeItems_simple (line : Nat) (simple : SimpleStatement) (rest : List LogicalLine) :
    placeItems line (linePieces false ((Line.code 0 (.statement simple)).lexemes :: rest)) =
      ((Statement.simple simple).item? line).toList ++
        placeItems (line + 1) (linePieces false rest) := by
  rw [linePieces_simple, placeItems_append, count_statementPieces, statementPieces_line,
    textOf_simple]
  congr 1
  cases simple with
  | importNames first others =>
      rw [isImport_importNames]
      rfl
  | importFrom source present first others =>
      rw [isImport_importFrom]
      rfl
  | assignment target value =>
      rw [isImport_assignment]
      rfl

/-! ## Items of definitions -/

theorem placeItems_blanks (decorated : Bool) (line : Nat) (blanks : List Nat)
    (rest : List LogicalLine) :
    placeItems line (linePieces decorated ((blanks.map Line.blank).map Line.lexemes ++ rest)) =
      placeItems (line + blanks.length) (linePieces decorated rest) := by
  induction blanks generalizing line with
  | nil => rfl
  | cons width blanks ih =>
      have kind : lineKind (LogicalLine.core (Line.blank width).lexemes) = .idle := by
        rw [core_blank]
        rfl
      have below := ih (line + 1)
      simp only [List.map_cons, List.cons_append, linePieces, kind, placeItems, count_line]
      rw [below, List.length_cons, Nat.add_assoc, Nat.add_comm 1]

theorem placeItems_decorators (decorated : Bool) (line : Nat) (decorators : List Decorator)
    (rest : List LogicalLine) :
    placeItems line (linePieces decorated
      ((decorators.map fun decorator => Line.code 0 (.decoration decorator)).map Line.lexemes ++
        rest)) =
      placeItems (line + decorators.length)
        (linePieces (decorated || !decorators.isEmpty) rest) := by
  induction decorators generalizing decorated line with
  | nil => simp
  | cons decorator decorators ih =>
      have kind : lineKind (LogicalLine.core (Line.code 0 (.decoration decorator)).lexemes) =
          .decorator := by
        rw [core_code]
        exact lineKind_decorator decorator
      have below := ih true (line + 1)
      simp only [List.map_cons, List.cons_append, linePieces, kind, placeItems, count_line]
      rw [below, List.length_cons, Nat.add_assoc, Nat.add_comm 1]
      simp

def definitionLexemes (header : Header) (body : Block) (blanks : List Nat) : List Lexeme :=
  (Line.code 0 (.heading header)).lexemes ++
    ((body.lines 1 ++ blanks.map Line.blank).map Line.lexemes).flatten

theorem definitionLexemes_eq (header : Header) (body : Block) (blanks : List Nat) :
    definitionLexemes header body blanks =
      ((Statement.definition [] header body).lines 0 ++ blanks.map Line.blank).flatMap
        Line.lexemes := by
  rw [definitionLexemes, ← List.flatMap_def]
  rfl

theorem beforeName_header (header : Header) :
    beforeName (Line.code 0 (.heading header)).lexemes = header.front := by
  cases header with
  | ofFunction isAsync name parameters => cases isAsync <;> rfl
  | ofClass name bases => rfl

theorem linePieces_definition (decorated : Bool) (header : Header) (body : Block)
    (blanks : List Nat) (next : List Line) (outside : StartsOutside next) :
    linePieces decorated (((Statement.definition [] header body).lines 0 ++
      blanks.map Line.blank ++ next).map Line.lexemes) =
      (if decorated then [.between (textOf (definitionLexemes header body blanks))]
        else itemPieces Lexeme.isInvisible (.definition header.kind header.front header.name.text)
          (definitionLexemes header body blanks)) ++
        linePieces false (next.map Line.lexemes) := by
  have kind : lineKind (LogicalLine.core (Line.code 0 (.heading header)).lexemes) =
      .definition header.kind header.name.lexeme true := by
    rw [core_code]
    exact lineKind_header header
  have taken := takeBody_block body blanks next outside
  have lines : ((Statement.definition [] header body).lines 0 ++ blanks.map Line.blank ++ next).map
      Line.lexemes = (Line.code 0 (.heading header)).lexemes ::
        (body.lines 1 ++ blanks.map Line.blank ++ next).map Line.lexemes := rfl
  rw [lines, linePieces, kind]
  simp only [taken, beforeName_header]
  rfl

theorem itemPieces_definition (header : Header) (body : Block) (blanks : List Nat) :
    ∃ after, itemPieces Lexeme.isInvisible (.definition header.kind header.front header.name.text)
      (definitionLexemes header body blanks) =
        [.between [], .item (.definition header.kind header.front header.name.text)
          (Statement.definition [] header body).text, .between after] := by
  obtain ⟨front, whole, framed, text⟩ := (Statement.definition [] header body).lexemes_framed
  have stays : ∀ x, IsShown x → x.isInvisible = false := fun x shown =>
    isInvisible_of_isFiller shown.1
  have cut : ∀ x ∈ newline :: (blanks.map Line.blank).flatMap Line.lexemes,
      x.isInvisible = true := by
    intro x member
    rcases List.mem_cons.mp member with rfl | member
    · rfl
    · obtain ⟨line, among, inside⟩ := List.mem_flatMap.mp member
      obtain ⟨width, _, rfl⟩ := List.mem_map.mp among
      rcases List.mem_append.mp inside with gap | last
      · simp [Lexeme.isInvisible, kind_gapLexemes gap]
      · rw [List.mem_singleton.mp last]
        rfl
  refine ⟨textOf (newline :: (blanks.map Line.blank).flatMap Line.lexemes), ?_⟩
  rw [definitionLexemes_eq, List.flatMap_append, whole, List.append_assoc, List.singleton_append,
    itemPieces_framed _ stays framed cut, text]

theorem placeItems_definition (decorated : Bool) (line : Nat) (header : Header) (body : Block)
    (blanks : List Nat) (next : List Line) (outside : StartsOutside next) :
    placeItems line (linePieces decorated (((Statement.definition [] header body).lines 0 ++
      blanks.map Line.blank ++ next).map Line.lexemes)) =
      (if decorated then [] else ((Statement.definition [] header body).item? line).toList) ++
        placeItems (line + ((Statement.definition [] header body).lines 0).length)
          (linePieces false ((blanks.map Line.blank ++ next).map Line.lexemes)) := by
  -- The blank lines after the body are read with it, but no item begins on them.
  have count : (textOf (definitionLexemes header body blanks)).count '\n' =
      ((Statement.definition [] header body).lines 0).length + blanks.length := by
    rw [definitionLexemes_eq, count_lexemes, List.length_append, List.length_map]
  have skipped := placeItems_blanks false
    (line + ((Statement.definition [] header body).lines 0).length) blanks (next.map Line.lexemes)
  rw [← List.map_append] at skipped
  rw [skipped, linePieces_definition decorated header body blanks next outside,
    placeItems_append, Nat.add_assoc, ← count]
  cases decorated with
  | true =>
      simp [placeItems, Piece.text]
  | false =>
      obtain ⟨after, pieces⟩ := itemPieces_definition header body blanks
      have text := textOf_itemPieces Lexeme.isInvisible
        (.definition header.kind header.front header.name.text) (definitionLexemes header body blanks)
      simp only [Bool.false_eq_true, if_false, text]
      rw [pieces]
      rfl

/-! ## The whole program -/

def IsRest (rest : List Line) : Prop :=
  ∃ (blanks : List Nat) (next : List Line), rest = blanks.map Line.blank ++ next ∧
    StartsOutside next

theorem placeItems_statement (line : Nat) (statement : Statement) (rest : List Line)
    (outside : IsRest rest) :
    placeItems line (linePieces false ((statement.lines 0 ++ rest).map Line.lexemes)) =
      (statement.item? line).toList ++
        placeItems (line + (statement.lines 0).length)
          (linePieces false (rest.map Line.lexemes)) := by
  cases statement with
  | simple simple => exact placeItems_simple line simple (rest.map Line.lexemes)
  | definition decorators header body =>
      obtain ⟨blanks, next, rfl, outside⟩ := outside
      have defined := fun decorated line =>
        placeItems_definition decorated line header body blanks next outside
      have lines : (Statement.definition decorators header body).lines 0 =
          (decorators.map fun decorator => Line.code 0 (.decoration decorator)) ++
            (Statement.definition [] header body).lines 0 := rfl
      rw [lines, List.append_assoc, ← List.append_assoc _ _ next, List.map_append,
        placeItems_decorators, defined, List.length_append, List.length_map, Nat.add_assoc]
      cases decorators with
      | nil => rfl
      | cons decorator others => rfl

def statementLines (statements : List (List Nat × Statement)) (blanks : List Nat) : List Line :=
  statements.flatMap (fun (blanks, statement) => blanks.map .blank ++ statement.lines 0) ++
    blanks.map .blank

theorem isRest_statementLines (statements : List (List Nat × Statement)) (blanks : List Nat) :
    IsRest (statementLines statements blanks) := by
  cases statements with
  | nil => exact ⟨blanks, [], (List.append_nil _).symm, .nil⟩
  | cons placed others =>
      obtain ⟨before, statement⟩ := placed
      obtain ⟨content, rest, first⟩ := statement.lines_first 0
      refine ⟨before, .code 0 content :: (rest ++ statementLines others blanks), ?_, .code _ _⟩
      simp [statementLines, first]

theorem placeItems_statements (line : Nat) (statements : List (List Nat × Statement))
    (blanks : List Nat) :
    placeItems line (linePieces false ((statementLines statements blanks).map Line.lexemes)) =
      (Program.place line statements).filterMap fun (line, statement) => statement.item? line := by
  induction statements generalizing line with
  | nil =>
      have skipped := placeItems_blanks false line blanks []
      rw [List.append_nil, linePieces] at skipped
      exact skipped
  | cons placed others ih =>
      obtain ⟨before, statement⟩ := placed
      have lines : statementLines ((before, statement) :: others) blanks =
          before.map Line.blank ++ (statement.lines 0 ++ statementLines others blanks) := by
        simp [statementLines]
      rw [lines, List.map_append, placeItems_blanks, placeItems_statement _ _ _
        (isRest_statementLines others blanks), ih, Program.place]
      cases added : statement.item? (line + before.length) with
      | none => simp [added]
      | some item => simp [added]

theorem items_text (program : Program) :
    items program.text =
      program.placed.filterMap fun (line, statement) => statement.item? line := by
  obtain ⟨statements, blanks, ended⟩ := program
  have read := fun blanks => placeItems_statements 1 statements blanks
  simp only [← items_linesText] at read
  cases ended with
  | true => exact read blanks
  | false =>
      change items (linesText (statementLines statements blanks)).dropLast = _
      rcases List.eq_nil_or_concat blanks with rfl | ⟨blanks, width, rfl⟩
      · refine Eq.trans ?_ (read [])
        rcases List.eq_nil_or_concat statements with rfl | ⟨others, ⟨before, statement⟩, rfl⟩
        · rfl
        · obtain ⟨front, below, simple, last⟩ := statement.lines_last 0
          have lines : statementLines (others.concat (before, statement)) [] =
              statementLines others before ++ front ++ [.code below (.statement simple)] := by
            simp [statementLines, last]
          rw [lines]
          exact items_dropLast_simple _ below simple
      · have lines : statementLines statements (blanks.concat width) =
            statementLines statements blanks ++ [.blank width] := by simp [statementLines]
        cases width with
        | zero =>
            -- The last line is empty, so the text is the one without it.
            have text : (linesText (statementLines statements blanks ++ [.blank 0])).dropLast =
                linesText (statementLines statements blanks) := by
              simp [linesText, Line.text]
            rw [lines, text]
            exact read blanks
        | succ width =>
            rw [lines, items_dropLast_blank, ← lines]
            exact read _

theorem records_item? (line : Nat) (statement : Statement) :
    (statement.item? line).bind (·.declaration? .ofFunction) = statement.function? line ∧
      (statement.item? line).bind (·.declaration? .ofClass) = statement.class? line ∧
      (statement.item? line).bind (·.importRecord?) = statement.import? line := by
  cases statement with
  | simple simple =>
      cases simple with
      | importNames first others => exact ⟨rfl, rfl, rfl⟩
      | importFrom source present first others => exact ⟨rfl, rfl, rfl⟩
      | assignment target value => exact ⟨rfl, rfl, rfl⟩
  | definition decorators header body =>
      cases decorators with
      | nil =>
          cases header with
          | ofFunction isAsync name parameters => exact ⟨rfl, rfl, rfl⟩
          | ofClass name bases => exact ⟨rfl, rfl, rfl⟩
      | cons decorator others => exact ⟨rfl, rfl, rfl⟩

end CodeAtlas.Python

namespace CodeAtlas.FileOutline

/-- The outline of the text of a program has no errors, and it is the outline that the program ought to
have. -/
theorem ofSource_text (path : Path) (program : Python.Program) :
    FileOutline.ofSource path (String.ofList program.text) =
      ⟨path, program.functions, program.classes, program.imports, []⟩ := by
  have records := fun placed : Nat × Python.Statement =>
    Python.records_item? placed.1 placed.2
  rw [Python.ofSource_eq, String.toList_ofList, Python.items_text]
  simp only [List.filterMap_filterMap]
  congr 1
  · exact List.filterMap_congr fun placed _ => (records placed).1
  · exact List.filterMap_congr fun placed _ => (records placed).2.1
  · exact List.filterMap_congr fun placed _ => (records placed).2.2

end CodeAtlas.FileOutline

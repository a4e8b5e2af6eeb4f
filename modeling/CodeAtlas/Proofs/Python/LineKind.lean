import CodeAtlas.Proofs.Python.Layout

namespace CodeAtlas.Python

/-! ## Lists of names -/

theorem isImportedName_dot {x : Lexeme} (word : x.isWord = true) (rest : List Lexeme)
    (named : isImportedName rest = true) : isImportedName (x :: mark '.' :: rest) = true := by
  have sign : (mark '.' == Lexeme.ofSign ".") = true := by decide
  simp [isImportedName, word, sign, named]

theorem isImportedName_dottedName (name : DottedName) : isImportedName name.lexemes = true := by
  obtain ⟨first, others⟩ := name
  simp only [DottedName.lexemes]
  induction others generalizing first with
  | nil => rfl
  | cons second others ih => exact isImportedName_dot rfl _ (ih second)

theorem afterModule?_dottedName (name : DottedName) (rest : List Lexeme) :
    afterModule? (name.lexemes ++ .ofWord "import" :: rest) = some rest := by
  obtain ⟨first, others⟩ := name
  simp only [DottedName.lexemes]
  induction others generalizing first with
  | nil => rfl
  | cons second others ih => exact ih second

theorem isNameList_joinWith (first : List Lexeme) (others : List (List Lexeme))
    (names : ∀ item ∈ first :: others, isImportedName item = true ∧ mark ',' ∉ item) :
    isNameList (Text.joinWith [mark ','] (first :: others)) = true := by
  have split := Text.splitOn_joinWith (mark ',') first others
    fun item member => (names item member).2
  have sign : Lexeme.ofSign "," = mark ',' := by decide
  unfold isNameList
  rw [sign, split]
  cases reversed : (first :: others).reverse with
  | nil => simp at reversed
  | cons last front =>
      have each : ∀ item ∈ last :: front, isImportedName item = true := by
        intro item member
        rw [← reversed, List.mem_reverse] at member
        exact (names item member).1
      rw [List.forall_mem_cons] at each
      simp [each.1, List.all_eq_true.mpr each.2]

theorem comma_not_mem_dottedName (name : DottedName) : mark ',' ∉ name.lexemes := by
  intro member
  rcases Text.mem_joinWith member with between | ⟨item, among, inside⟩
  · revert between
    decide
  · obtain ⟨part, _, rfl⟩ := List.mem_map.mp among
    cases List.mem_singleton.mp inside

/-! ## Simple statements -/

theorem core_dottedName (name : DottedName) :
    LogicalLine.core name.lexemes = name.lexemes := by
  rw [LogicalLine.core, DottedName.lexemes, Text.filter_joinWith, List.map_map]
  rfl

theorem core_append (front back : List Lexeme) :
    LogicalLine.core (front ++ back) = LogicalLine.core front ++ LogicalLine.core back :=
  List.filter_append _ _

theorem core_importNames (first : DottedName) (others : List DottedName) :
    LogicalLine.core (SimpleStatement.importNames first others).lexemes =
      .ofWord "import" :: Text.joinWith [mark ','] ((first :: others).map DottedName.lexemes) := by
  have names : LogicalLine.core (commaLexemes ((first :: others).map DottedName.lexemes)) =
      Text.joinWith [mark ','] ((first :: others).map DottedName.lexemes) := by
    rw [LogicalLine.core, commaLexemes, Text.filter_joinWith, List.map_map]
    exact congrArg _ (List.map_congr_left fun name _ => core_dottedName name)
  exact congrArg _ names

theorem core_importFrom (source : DottedName) (present : source.first.text ≠ "__future__".toList)
    (first : Identifier) (others : List Identifier) :
    LogicalLine.core (SimpleStatement.importFrom source present first others).lexemes =
      .ofWord "from" :: (source.lexemes ++ .ofWord "import" ::
        Text.joinWith [mark ','] ((first :: others).map fun name => [name.lexeme])) := by
  have names : LogicalLine.core (commaLexemes ((first :: others).map fun name => [name.lexeme])) =
      Text.joinWith [mark ','] ((first :: others).map fun name => [name.lexeme]) := by
    rw [LogicalLine.core, commaLexemes, Text.filter_joinWith, List.map_map]
    rfl
  have tail : LogicalLine.core (blank :: .ofWord "import" :: blank ::
      commaLexemes ((first :: others).map fun name => [name.lexeme])) =
      .ofWord "import" :: Text.joinWith [mark ','] ((first :: others).map fun name => [name.lexeme]) :=
    congrArg _ names
  have whole := core_append source.lexemes (blank :: .ofWord "import" :: blank ::
    commaLexemes ((first :: others).map fun name => [name.lexeme]))
  rw [core_dottedName, tail] at whole
  rw [← whole]
  simp [SimpleStatement.lexemes, spacedLexemes, Text.joinWith, LogicalLine.core, Lexeme.isFiller, blank, Lexeme.ofWord]

theorem isImport_importNames (first : DottedName) (others : List DottedName) :
    isImport (LogicalLine.core (SimpleStatement.importNames first others).lexemes) = true := by
  have names := isNameList_joinWith first.lexemes (others.map DottedName.lexemes) (by
    simp only [List.forall_mem_cons, List.forall_mem_map]
    exact ⟨⟨isImportedName_dottedName first, comma_not_mem_dottedName first⟩,
      fun name _ => ⟨isImportedName_dottedName name, comma_not_mem_dottedName name⟩⟩)
  rw [core_importNames, isImport]
  simp [names]

theorem isImportedPart_names (first : Identifier) (others : List Identifier) :
    isImportedPart (Text.joinWith [mark ','] ((first :: others).map fun name => [name.lexeme])) =
      true := by
  have single : ∀ name : Identifier,
      isImportedName [name.lexeme] = true ∧ mark ',' ∉ [name.lexeme] := by
    intro name
    refine ⟨rfl, ?_⟩
    rw [List.mem_singleton]
    nofun
  have names := isNameList_joinWith [first.lexeme] (others.map fun name => [name.lexeme]) (by
    simp only [List.forall_mem_cons, List.forall_mem_map]
    exact ⟨single first, fun name _ => single name⟩)
  have no_star : (first.lexeme == .ofSign "*") = false := by simp [Identifier.lexeme, Lexeme.ofSign]
  have no_bracket : (first.lexeme == ⟨.openBracket, ['(']⟩) = false := by simp [Identifier.lexeme]
  obtain ⟨rest, begins⟩ := Text.joinWith_cons [mark ','] [first.lexeme]
    (others.map fun name => [name.lexeme])
  rw [List.map_cons, begins]
  rw [begins] at names
  simpa [isImportedPart, no_star, no_bracket] using names

theorem isImport_importFrom (source : DottedName)
    (present : source.first.text ≠ "__future__".toList) (first : Identifier)
    (others : List Identifier) :
    isImport (LogicalLine.core (SimpleStatement.importFrom source present first others).lexemes) =
      true := by
  have part := isImportedPart_names first others
  have named : source.first.lexeme ≠ .ofWord "__future__" := fun same =>
    present (congrArg Lexeme.text same)
  have no_dot : (source.first.lexeme == .ofSign ".") = false := by
    simp [Identifier.lexeme, Lexeme.ofSign]
  have front : (Lexeme.ofWord "from" == .ofWord "import") = false := by decide
  obtain ⟨rest, begins⟩ : ∃ rest, source.lexemes = [source.first.lexeme] ++ rest :=
    Text.joinWith_cons _ _ _
  rw [core_importFrom, isImport, front]
  generalize Text.joinWith [mark ','] _ = names at part ⊢
  have after := afterModule?_dottedName source names
  rw [begins, List.append_assoc, List.singleton_append] at after ⊢
  simp [isImportFrom, no_dot, named, after, part]

theorem core_assignment (target : Identifier) (value : Nat) :
    LogicalLine.core (SimpleStatement.assignment target value).lexemes =
      [target.lexeme, mark '=', ⟨.number, Text.digitsOf value⟩] := rfl

theorem isImport_assignment (target : Identifier) (value : Nat) :
    isImport (LogicalLine.core (SimpleStatement.assignment target value).lexemes) = false := by
  have no_import := target.lexeme_ne "import" (by decide)
  have no_from := target.lexeme_ne "from" (by decide)
  simp [core_assignment, isImport, no_import, no_from]

theorem lineKind_word {name : Identifier} {rest : List Lexeme} :
    lineKind (name.lexeme :: rest) = .simple := by
  have plain : ∀ word ∈ reservedWords, (name.lexeme == .ofWord word) = false := by
    intro word member
    simpa using name.lexeme_ne word member
  have no_mark : (name.lexeme == .ofSign "@") = false := by simp [Identifier.lexeme, Lexeme.ofSign]
  simp only [reservedWords, List.forall_mem_cons] at plain
  simp_all [lineKind, beginsDefinition, beginsCompound, compoundWords]

theorem lineKind_simple (simple : SimpleStatement) :
    lineKind (LogicalLine.core simple.lexemes) = .simple := by
  cases simple with
  | importNames first others => rfl
  | importFrom source present first others => rfl
  | assignment target value => exact lineKind_word

/-! ## Decorators and headers -/

theorem lineKind_decorator (decorator : Decorator) :
    lineKind (LogicalLine.core decorator.lexemes) = .decorator := rfl

theorem definition?_header (header : Header) :
    definition? (LogicalLine.core (header.lexemes ++ [mark ':'])) =
      some (header.kind, header.name.lexeme) := by
  cases header with
  | ofFunction isAsync name parameters =>
      cases isAsync with
      | false => rfl
      | true => rfl
  | ofClass name bases =>
      cases bases with
      | none => rfl
      | some arguments => rfl

theorem beginsDefinition_header (header : Header) :
    beginsDefinition (LogicalLine.core (header.lexemes ++ [mark ':'])) = true ∧
      ((LogicalLine.core (header.lexemes ++ [mark ':'])).head? == some (.ofSign "@")) = false := by
  cases header with
  | ofFunction isAsync name parameters =>
      cases isAsync with
      | false => exact ⟨rfl, rfl⟩
      | true => exact ⟨rfl, rfl⟩
  | ofClass name bases => exact ⟨rfl, rfl⟩

theorem lineKind_header (header : Header) :
    lineKind (LogicalLine.core (header.lexemes ++ [mark ':'])) =
      .definition header.kind header.name.lexeme true := by
  have defined := definition?_header header
  obtain ⟨begins, no_mark⟩ := beginsDefinition_header header
  have suite : suite? 0 0 (LogicalLine.core (header.lexemes ++ [mark ':'])) = some [] := by
    rw [core_append, suite?_balanced header.balanced.core]
    rfl
  have nonempty : LogicalLine.core (header.lexemes ++ [mark ':']) ≠ [] := by
    intro empty
    rw [empty] at defined
    cases defined
  simp [lineKind, nonempty, no_mark, begins, defined, suite]

/-! ## Lines -/

theorem shown_content (content : LineContent) :
    ∃ x rest, content.lexemes = x :: rest ∧ IsShown x := by
  cases content with
  | statement simple => exact simple.framed.first
  | decoration decorator => exact ⟨mark '@', _, rfl, by decide⟩
  | heading header =>
      cases header with
      | ofFunction isAsync name parameters =>
          cases isAsync with
          | false => exact ⟨.ofWord "def", _, rfl, by decide⟩
          | true => exact ⟨.ofWord "async", _, rfl, by decide⟩
      | ofClass name bases => exact ⟨.ofWord "class", _, rfl, by decide⟩

theorem kind_gapLexemes {width : Nat} {x : Lexeme} (member : x ∈ gapLexemes width) :
    x.kind = .gap := by
  cases width with
  | zero => cases member
  | succ width =>
      rw [gapLexemes, List.mem_singleton] at member
      rw [member]

theorem core_gapLexemes (width : Nat) : LogicalLine.core (gapLexemes width) = [] := by
  cases width with
  | zero => rfl
  | succ width => rfl

theorem core_blank (width : Nat) : LogicalLine.core (Line.blank width).lexemes = [] := by
  rw [Line.lexemes, core_append, core_gapLexemes]
  rfl

theorem core_code (depth : Nat) (content : LineContent) :
    LogicalLine.core (Line.code depth content).lexemes = LogicalLine.core content.lexemes := by
  rw [Line.lexemes, core_append, core_append, core_gapLexemes, List.nil_append]
  exact List.append_nil _

theorem isCode_eq_false_iff {line : LogicalLine} :
    line.isCode = false ↔ LogicalLine.core line = [] := by
  simp [LogicalLine.isCode, LogicalLine.core]

theorem isCode_blank (width : Nat) : LogicalLine.isCode (Line.blank width).lexemes = false :=
  isCode_eq_false_iff.mpr (core_blank width)

theorem isCode_code (depth : Nat) (content : LineContent) :
    LogicalLine.isCode (Line.code depth content).lexemes = true := by
  obtain ⟨x, rest, equal, shown, _⟩ := shown_content content
  rw [← Bool.not_eq_false, isCode_eq_false_iff, core_code, equal]
  simp [LogicalLine.core, shown]

theorem isRemark_blank (width : Nat) : LogicalLine.isRemark (Line.blank width).lexemes = false := by
  cases width with
  | zero => rfl
  | succ width => rfl

theorem columnAfter_blanks (column width : Nat) :
    columnAfter column (List.replicate width ' ') = column + width := by
  induction width generalizing column with
  | zero => rfl
  | succ width ih =>
      have step := ih (column + 1)
      rw [List.replicate_succ]
      simpa [columnAfter, Nat.add_assoc, Nat.add_comm 1] using step

theorem indent_code (depth : Nat) (content : LineContent) :
    LogicalLine.indent (Line.code depth content).lexemes = 4 * depth := by
  obtain ⟨x, rest, equal, shown, _⟩ := shown_content content
  have stop : (x.kind == .gap || x.kind == .joiner) = false := by
    cases same : x.kind <;> simp_all [Lexeme.isFiller]
  have gap : ((Line.code depth content).lexemes.takeWhile
      fun x => x.kind == .gap || x.kind == .joiner) = gapLexemes (4 * depth) := by
    rw [Line.lexemes, equal, List.append_assoc, List.takeWhile_append_of_pos]
    · simp only [List.cons_append, List.takeWhile_cons, stop]
      simp
    · intro y member
      simp [kind_gapLexemes member]
  have text : textOf (gapLexemes (4 * depth)) = List.replicate (4 * depth) ' ' := by
    cases 4 * depth with
    | zero => rfl
    | succ width => simp [gapLexemes, textOf]
  rw [LogicalLine.indent, gap, text, columnAfter_blanks, Nat.zero_add]

end CodeAtlas.Python

import CodeAtlas.Proofs.Python.Spelling
import CodeAtlas.Python.Statement

namespace CodeAtlas.Python

/-! ## Brackets -/

def newline : Lexeme := ⟨.newline, ['\n']⟩

def IsLevel (x : Lexeme) : Prop :=
  x.kind ≠ .openBracket ∧ x.kind ≠ .closeBracket ∧ x.kind ≠ .newline

instance (x : Lexeme) : Decidable (IsLevel x) := inferInstanceAs (Decidable (_ ∧ _ ∧ _))

def IsPhrasal (x : Lexeme) : Prop :=
  IsLevel x ∧ x ≠ .ofSign ":" ∧ x ≠ .ofSign ";" ∧ x ≠ .ofWord "lambda"

instance (x : Lexeme) : Decidable (IsPhrasal x) := inferInstanceAs (Decidable (_ ∧ _ ∧ _ ∧ _))

inductive Balanced : List Lexeme → Prop where
  | nil : Balanced []
  | cons {x rest} : IsPhrasal x → Balanced rest → Balanced (x :: rest)
  | brackets {inner rest} : (∀ x ∈ inner, IsLevel x) →
      (∀ x ∈ inner.head?, x.isFiller = false ∧ x ≠ .ofSign ":") → Balanced rest →
      Balanced (openBracket :: inner ++ closeBracket :: rest)

namespace Balanced

theorem of_phrasal {lexemes : List Lexeme} (phrasal : ∀ x ∈ lexemes, IsPhrasal x) :
    Balanced lexemes := by
  induction lexemes with
  | nil => exact .nil
  | cons x rest ih =>
      exact .cons (phrasal x List.mem_cons_self)
        (ih fun y member => phrasal y (List.mem_cons_of_mem _ member))

theorem append {front back : List Lexeme} (first : Balanced front) (second : Balanced back) :
    Balanced (front ++ back) := by
  induction first with
  | nil => exact second
  | cons phrasal _ ih => exact .cons phrasal ih
  | brackets level head _ ih =>
      rw [List.append_assoc, List.cons_append]
      exact .brackets level head ih

theorem core {lexemes : List Lexeme} (balanced : Balanced lexemes) :
    Balanced (LogicalLine.core lexemes) := by
  induction balanced with
  | nil => exact .nil
  | @cons x rest phrasal _ ih =>
      simp only [LogicalLine.core, List.filter_cons]
      split
      · exact .cons phrasal ih
      · exact ih
  | @brackets inner rest level head _ ih =>
      have kept : (inner.filter fun x => !x.isFiller).head? = inner.head? := by
        cases inner with
        | nil => rfl
        | cons x inner => simp [(head x rfl).1]
      have result : Balanced (openBracket :: inner.filter (fun x => !x.isFiller) ++
          closeBracket :: LogicalLine.core rest) :=
        .brackets (fun x member => level x (List.mem_filter.mp member).1) (by rwa [kept]) ih
      simpa [LogicalLine.core, openBracket, closeBracket, Lexeme.isFiller] using result

end Balanced

theorem opensBracket_openBracket {rest : List Lexeme} (apart : rest.head? ≠ some (.ofSign ":")) :
    opensBracket openBracket rest = true := by
  simp [opensBracket, openBracket, apart]

theorem depthAfter_level {depth : Nat} {x : Lexeme} (level : IsLevel x) (rest : List Lexeme) :
    depthAfter depth x rest = depth := by
  simp [depthAfter, opensBracket, level.1, level.2.1]

theorem head?_inner {inner : List Lexeme} (rest : List Lexeme)
    (head : ∀ x ∈ inner.head?, x.isFiller = false ∧ x ≠ .ofSign ":") :
    (inner ++ closeBracket :: rest).head? ≠ some (.ofSign ":") := by
  cases inner with
  | nil => simp [closeBracket, Lexeme.ofSign]
  | cons x inner => simpa using (head x rfl).2

theorem depthAfter_openBracket {inner : List Lexeme} (rest : List Lexeme)
    (head : ∀ x ∈ inner.head?, x.isFiller = false ∧ x ≠ .ofSign ":") :
    depthAfter 0 openBracket (inner ++ closeBracket :: rest) = 1 := by
  simp [depthAfter, opensBracket_openBracket (head?_inner rest head)]

theorem depthAfter_closeBracket (rest : List Lexeme) : depthAfter 1 closeBracket rest = 0 := by
  simp [depthAfter, opensBracket, closeBracket]

/-! ## Cutting -/

theorem cutAfter_cons {ends : Lexeme → Bool} {depth : Nat} {x : Lexeme} {rest part : List Lexeme}
    {parts : List (List Lexeme)} (goes : (ends x && depth == 0) = false)
    (cut : cutAfter ends (depthAfter depth x rest) rest = part :: parts) :
    cutAfter ends depth (x :: rest) = (x :: part) :: parts := by
  simp [cutAfter, goes, cut]

theorem cutAfter_inner {ends : Lexeme → Bool} {depth : Nat} {inner rest part : List Lexeme}
    {parts : List (List Lexeme)} (level : ∀ x ∈ inner, IsLevel x)
    (cut : cutAfter ends (depth + 1) rest = part :: parts) :
    cutAfter ends (depth + 1) (inner ++ rest) = (inner ++ part) :: parts := by
  induction inner with
  | nil => exact cut
  | cons x inner ih =>
      have below := ih fun y member => level y (List.mem_cons_of_mem _ member)
      refine cutAfter_cons (by simp) ?_
      rwa [depthAfter_level (level x List.mem_cons_self)]

/-- Balanced lexemes are not cut where nothing of a phrase ends a part. -/
theorem cutAfter_balanced {ends : Lexeme → Bool} (quiet : ∀ x, IsPhrasal x → ends x = false)
    (opens : ends openBracket = false) {front rest part : List Lexeme}
    {parts : List (List Lexeme)} (balanced : Balanced front)
    (cut : cutAfter ends 0 rest = part :: parts) :
    cutAfter ends 0 (front ++ rest) = (front ++ part) :: parts := by
  induction balanced with
  | nil => exact cut
  | @cons x front phrasal _ ih =>
      refine cutAfter_cons (by simp [quiet x phrasal]) ?_
      rwa [depthAfter_level phrasal.1]
  | @brackets inner front level head _ ih =>
      -- Between the brackets the depth is one, and parts end only at depth zero.
      simp only [List.cons_append, List.append_assoc]
      refine cutAfter_cons (by simp [opens]) ?_
      rw [depthAfter_openBracket (front ++ rest) head]
      have tail : cutAfter ends 1 (closeBracket :: (front ++ rest)) =
          (closeBracket :: (front ++ part)) :: parts :=
        cutAfter_cons (by simp) (by rwa [depthAfter_closeBracket])
      exact cutAfter_inner level tail

theorem cutAfter_phrasal {ends : Lexeme → Bool} (quiet : ∀ x, IsPhrasal x → ends x = false)
    {lexemes : List Lexeme} (phrasal : ∀ x ∈ lexemes, IsPhrasal x) (nonempty : lexemes ≠ []) :
    cutAfter ends 0 lexemes = [lexemes] := by
  induction lexemes with
  | nil => exact absurd rfl nonempty
  | cons x rest ih =>
      obtain ⟨own, others⟩ := List.forall_mem_cons.mp phrasal
      cases rest with
      | nil => simp [cutAfter, quiet x own]
      | cons y rest =>
          refine cutAfter_cons (by simp [quiet x own]) ?_
          rw [depthAfter_level own.1]
          exact ih others (List.cons_ne_nil y rest)

theorem suite?_inner {depth : Nat} {inner : List Lexeme} (level : ∀ x ∈ inner, IsLevel x)
    (rest : List Lexeme) : suite? (depth + 1) 0 (inner ++ rest) = suite? (depth + 1) 0 rest := by
  induction inner with
  | nil => rfl
  | cons x inner ih =>
      have below := ih fun y member => level y (List.mem_cons_of_mem _ member)
      simp [suite?, depthAfter_level (level x List.mem_cons_self), below]

theorem suite?_balanced {front : List Lexeme} (balanced : Balanced front) (rest : List Lexeme) :
    suite? 0 0 (front ++ rest) = suite? 0 0 rest := by
  induction balanced with
  | nil => rfl
  | @cons x front phrasal _ ih =>
      obtain ⟨level, no_colon, _, no_lambda⟩ := phrasal
      simp [suite?, no_colon, no_lambda, depthAfter_level level, ih]
  | @brackets inner front level head _ ih =>
      have colon : (openBracket == Lexeme.ofSign ":") = false := by decide
      have lambda : (openBracket == Lexeme.ofWord "lambda") = false := by decide
      simp only [List.cons_append, List.append_assoc]
      rw [suite?, colon, lambda, depthAfter_openBracket (front ++ rest) head]
      simp [suite?_inner level, suite?, depthAfter_closeBracket, ih]

/-! ## The lexemes of phrases -/

def IsShown (x : Lexeme) : Prop := x.isFiller = false ∧ x ≠ .ofSign ":" ∧ x ≠ .ofSign ";"

instance (x : Lexeme) : Decidable (IsShown x) := inferInstanceAs (Decidable (_ ∧ _ ∧ _))

structure Framed (lexemes : List Lexeme) : Prop where
  first : ∃ x rest, lexemes = x :: rest ∧ IsShown x
  last : ∃ front x, lexemes = front ++ [x] ∧ IsShown x

namespace Framed

theorem single {x : Lexeme} (shown : IsShown x) : Framed [x] where
  first := ⟨x, [], rfl, shown⟩
  last := ⟨[], x, rfl, shown⟩

theorem append {front back : List Lexeme} (first : Framed front) (between : List Lexeme)
    (last : Framed back) : Framed (front ++ between ++ back) where
  first := by
    obtain ⟨x, rest, rfl, shown⟩ := first.first
    exact ⟨x, rest ++ between ++ back, rfl, shown⟩
  last := by
    obtain ⟨front', x, rfl, shown⟩ := last.last
    exact ⟨front ++ between ++ front', x, by simp, shown⟩

theorem joinWith (between : List Lexeme) (first : List Lexeme) (others : List (List Lexeme))
    (each : ∀ item ∈ first :: others, Framed item) :
    Framed (Text.joinWith between (first :: others)) := by
  induction others generalizing first with
  | nil => exact each first List.mem_cons_self
  | cons second others ih =>
      have rest := ih second fun item member => each item (List.mem_cons_of_mem _ member)
      exact (each first List.mem_cons_self).append between rest

end Framed

namespace Identifier

theorem lexeme_ne (name : Identifier) (reserved : String) (member : reserved ∈ reservedWords) :
    name.lexeme ≠ .ofWord reserved := by
  intro same
  exact name.free reserved member (congrArg Lexeme.text same)

theorem phrasal (name : Identifier) : IsPhrasal name.lexeme := by
  refine ⟨by simp [IsLevel, lexeme], ?_, ?_, name.lexeme_ne "lambda" (by decide)⟩
  · simp [lexeme, Lexeme.ofSign]
  · simp [lexeme, Lexeme.ofSign]

theorem shown (name : Identifier) : IsShown name.lexeme :=
  ⟨rfl, name.phrasal.2.1, name.phrasal.2.2.1⟩

end Identifier

theorem phrasal_digits (value : Nat) : IsPhrasal ⟨.number, Text.digitsOf value⟩ := by
  simp [IsPhrasal, IsLevel, Lexeme.ofSign, Lexeme.ofWord]

theorem phrasal_joinWith {between : List Lexeme} {items : List (List Lexeme)}
    (apart : ∀ x ∈ between, IsPhrasal x) (each : ∀ item ∈ items, ∀ x ∈ item, IsPhrasal x) :
    ∀ x ∈ Text.joinWith between items, IsPhrasal x := by
  intro x member
  rcases Text.mem_joinWith member with between | ⟨item, among, inside⟩
  · exact apart x between
  · exact each item among x inside

namespace DottedName

theorem phrasal (name : DottedName) : ∀ x ∈ name.lexemes, IsPhrasal x := by
  refine phrasal_joinWith (by decide) ?_
  simp only [List.forall_mem_map, List.forall_mem_singleton]
  exact fun part _ => part.phrasal

theorem framed (name : DottedName) : Framed name.lexemes := by
  refine Framed.joinWith [mark '.'] [name.first.lexeme]
    (name.others.map fun part => [part.lexeme]) ?_
  simp only [List.forall_mem_cons, List.forall_mem_map]
  exact ⟨Framed.single name.first.shown, fun part _ => Framed.single part.shown⟩

end DottedName

theorem SimpleStatement.phrasal (simple : SimpleStatement) :
    ∀ x ∈ simple.lexemes, IsPhrasal x := by
  cases simple with
  | importNames first others =>
      refine phrasal_joinWith (by decide) ?_
      simp only [List.forall_mem_cons]
      refine ⟨by decide, ?_, by simp⟩
      refine phrasal_joinWith (by decide) ?_
      simp only [List.forall_mem_map]
      exact fun name _ => name.phrasal
  | importFrom source present first others =>
      refine phrasal_joinWith (by decide) ?_
      simp only [List.forall_mem_cons]
      refine ⟨by decide, source.phrasal, by decide, ?_, by simp⟩
      refine phrasal_joinWith (by decide) ?_
      simp only [List.forall_mem_map, List.forall_mem_singleton]
      exact fun name _ => name.phrasal
  | assignment target value =>
      simp only [SimpleStatement.lexemes, List.forall_mem_cons]
      exact ⟨target.phrasal, by decide, by decide, by decide, phrasal_digits value, by simp⟩

theorem SimpleStatement.framed (simple : SimpleStatement) : Framed simple.lexemes := by
  cases simple with
  | importNames first others =>
      have names := Framed.joinWith [mark ',', blank] first.lexemes
        (others.map DottedName.lexemes) (by
          simp only [List.forall_mem_cons, List.forall_mem_map]
          exact ⟨first.framed, fun name _ => name.framed⟩)
      exact (Framed.single (by decide)).append [blank] names
  | importFrom source present first others =>
      have names := Framed.joinWith [mark ',', blank] [first.lexeme]
        (others.map fun name => [name.lexeme]) (by
          simp only [List.forall_mem_cons, List.forall_mem_map]
          exact ⟨Framed.single first.shown, fun name _ => Framed.single name.shown⟩)
      have middle := (Framed.single (x := .ofWord "import") (by decide)).append [blank] names
      exact (Framed.single (by decide)).append [blank] (source.framed.append [blank] middle)
  | assignment target value =>
      have number : IsShown ⟨.number, Text.digitsOf value⟩ :=
        ⟨rfl, (phrasal_digits value).2.1, (phrasal_digits value).2.2.1⟩
      exact (Framed.single target.shown).append [blank, mark '=', blank] (Framed.single number)

theorem Argument.phrasal (argument : Argument) : ∀ x ∈ argument.lexemes, IsPhrasal x := by
  cases argument with
  | plain value => exact value.phrasal
  | keyword name value =>
      simp only [Argument.lexemes, List.forall_mem_cons]
      exact ⟨name.phrasal, by decide, value.phrasal⟩

theorem Argument.framed (argument : Argument) : Framed argument.lexemes := by
  cases argument with
  | plain value => exact value.framed
  | keyword name value => exact (Framed.single name.shown).append [mark '='] value.framed

theorem Parameter.level (parameter : Parameter) : ∀ x ∈ parameter.lexemes, IsLevel x := by
  cases parameter with
  | plain name =>
      simp only [Parameter.lexemes, List.forall_mem_singleton]
      exact name.phrasal.1
  | annotated name hint =>
      simp only [Parameter.lexemes, List.forall_mem_cons]
      exact ⟨name.phrasal.1, by decide, by decide, fun x member => (hint.phrasal x member).1⟩
  | preset name value =>
      simp only [Parameter.lexemes, List.forall_mem_cons]
      exact ⟨name.phrasal.1, by decide, (phrasal_digits value).1, by simp⟩
  | starred name =>
      simp only [Parameter.lexemes, List.forall_mem_cons]
      exact ⟨by decide, name.phrasal.1, by simp⟩
  | doublyStarred name =>
      simp only [Parameter.lexemes, List.forall_mem_cons]
      exact ⟨by decide, by decide, name.phrasal.1, by simp⟩

theorem Parameter.framed (parameter : Parameter) : Framed parameter.lexemes := by
  cases parameter with
  | plain name => exact Framed.single name.shown
  | annotated name hint =>
      exact (Framed.single name.shown).append [mark ':', blank] hint.framed
  | preset name value =>
      have number : IsShown ⟨.number, Text.digitsOf value⟩ :=
        ⟨rfl, (phrasal_digits value).2.1, (phrasal_digits value).2.2.1⟩
      exact (Framed.single name.shown).append [mark '='] (Framed.single number)
  | starred name =>
      exact (Framed.single (x := mark '*') (by decide)).append [] (Framed.single name.shown)
  | doublyStarred name =>
      exact (Framed.single (x := mark '*') (by decide)).append [mark '*'] (Framed.single name.shown)

theorem Balanced.bracketLexemes {items : List (List Lexeme)}
    (level : ∀ item ∈ items, ∀ x ∈ item, IsLevel x) (framed : ∀ item ∈ items, Framed item) :
    Balanced (bracketLexemes items) := by
  refine .brackets ?_ ?_ .nil
  · have apart : ∀ x ∈ [mark ',', blank], IsLevel x := by decide
    intro x member
    rcases Text.mem_joinWith member with between | ⟨item, among, inside⟩
    · exact apart x between
    · exact level item among x inside
  · cases items with
    | nil => simp [commaLexemes, Text.joinWith]
    | cons first others =>
        have whole := Framed.joinWith [mark ',', blank] first others framed
        obtain ⟨x, rest, equal, shown⟩ := whole.first
        simp only [commaLexemes, equal]
        intro y head
        cases head
        exact ⟨shown.1, shown.2.1⟩

theorem Balanced.argumentsLexemes (arguments : Option (List Argument)) :
    Balanced (argumentsLexemes arguments) := by
  cases arguments with
  | none => exact .nil
  | some arguments =>
      refine Balanced.bracketLexemes ?_ ?_
      · simp only [List.forall_mem_map]
        exact fun argument _ x member => (argument.phrasal x member).1
      · simp only [List.forall_mem_map]
        exact fun argument _ => argument.framed

theorem Decorator.balanced (decorator : Decorator) : Balanced decorator.lexemes := by
  have name := Balanced.of_phrasal decorator.name.phrasal
  exact .cons (by decide) (name.append (.argumentsLexemes decorator.arguments))

theorem Header.balanced (header : Header) : Balanced header.lexemes := by
  cases header with
  | ofFunction isAsync name parameters =>
      have list : Balanced (bracketLexemes (parameters.map Parameter.lexemes)) := by
        refine .bracketLexemes ?_ ?_
        · simp only [List.forall_mem_map]
          exact fun parameter _ => parameter.level
        · simp only [List.forall_mem_map]
          exact fun parameter _ => parameter.framed
      have front := Balanced.cons (x := .ofWord "def") (by decide)
        (.cons (x := blank) (by decide) (.cons name.phrasal list))
      cases isAsync with
      | false => exact front
      | true => exact .cons (by decide) (.cons (by decide) front)
  | ofClass name bases =>
      exact .cons (by decide) (.cons (by decide) (.cons name.phrasal (.argumentsLexemes bases)))

/-! ## Logical lines -/

theorem cutAfter_newline (rest : List Lexeme) :
    cutAfter (fun x => x.kind == .newline) 0 (newline :: rest) = [newline] :: logicalLines rest := rfl

theorem phrasal_gapLexemes (width : Nat) : ∀ x ∈ gapLexemes width, IsPhrasal x := by
  cases width with
  | zero => nofun
  | succ width => simp [gapLexemes, IsPhrasal, IsLevel, Lexeme.ofSign, Lexeme.ofWord]

theorem logicalLines_line (line : Line) (rest : List Lexeme) :
    logicalLines (line.lexemes ++ rest) = line.lexemes :: logicalLines rest := by
  have stop := cutAfter_newline rest
  have quiet : ∀ x, IsPhrasal x → (x.kind == .newline) = false := fun x phrasal => by
    simp [phrasal.1.2.2]
  cases line with
  | blank width =>
      simp only [Line.lexemes, List.append_assoc]
      exact cutAfter_balanced quiet rfl (.of_phrasal (phrasal_gapLexemes width)) stop
  | code depth content =>
      have gap := Balanced.of_phrasal (phrasal_gapLexemes (4 * depth))
      simp only [Line.lexemes, List.append_assoc]
      refine cutAfter_balanced quiet rfl gap ?_
      cases content with
      | statement simple => exact cutAfter_balanced quiet rfl (.of_phrasal simple.phrasal) stop
      | decoration decorator => exact cutAfter_balanced quiet rfl decorator.balanced stop
      | heading header =>
          have colon : cutAfter (fun x => x.kind == .newline) 0 (mark ':' :: newline :: rest) =
              [mark ':', newline] :: logicalLines rest := cutAfter_cons (by decide) stop
          simp only [LineContent.lexemes, List.append_assoc]
          exact cutAfter_balanced quiet rfl header.balanced colon

theorem logicalLines_append (lines : List Line) (rest : List Lexeme) :
    logicalLines (lines.flatMap Line.lexemes ++ rest) =
      lines.map Line.lexemes ++ logicalLines rest := by
  induction lines with
  | nil => rfl
  | cons line others ih =>
      rw [List.flatMap_cons, List.append_assoc, logicalLines_line, ih, List.map_cons,
        List.cons_append]

theorem logicalLines_lexemes (lines : List Line) :
    logicalLines (lines.flatMap Line.lexemes) = lines.map Line.lexemes := by
  have cut := logicalLines_append lines []
  have none : logicalLines [] = [] := rfl
  rwa [none, List.append_nil, List.append_nil] at cut

end CodeAtlas.Python

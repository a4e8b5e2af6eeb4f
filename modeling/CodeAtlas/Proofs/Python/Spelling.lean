import CodeAtlas.Proofs.Path
import CodeAtlas.Proofs.Python.Program
import CodeAtlas.Proofs.Text.Decimal
import CodeAtlas.Python.LogicalLine

namespace CodeAtlas.Python

/-! ## Plain characters -/

theorem of_isPlainPart {P : Char → Prop}
    (all : ∀ n : Fin 128, isPlainPart (Char.ofNat n) = true → P (Char.ofNat n)) {c : Char}
    (plain : isPlainPart c = true) : P c := by
  have small : c.toNat < 128 := by
    simp only [isPlainPart, isPlainStart, Bool.or_eq_true, beq_iff_eq] at plain
    rcases plain with (letter | rfl) | digit
    · have range := Text.isAlphanum_range (Bool.or_eq_true_iff.mpr (.inl letter))
      omega
    · decide
    · have range := Text.isAlphanum_range (Bool.or_eq_true_iff.mpr (.inr digit))
      omega
  have self : Char.ofNat c.toNat = c := Char.ofNat_toNat c
  have result := all ⟨c.toNat, small⟩
  simp only [self] at result
  exact result plain

/-- A plain character goes on with a word, and it is none of the characters that begin another lexeme. -/
structure IsInner (c : Char) : Prop where
  part : Text.isIdentifierPart c = true
  no_quote : isQuoteMark c = false
  no_gap : isGap c = false
  no_newline : (c == '\n') = false
  no_hash : (c == '#') = false

instance (c : Char) : Decidable (IsInner c) :=
  decidable_of_iff
    (Text.isIdentifierPart c = true ∧ isQuoteMark c = false ∧ isGap c = false ∧
      (c == '\n') = false ∧ (c == '#') = false)
    ⟨fun ⟨part, no_quote, no_gap, no_newline, no_hash⟩ =>
      ⟨part, no_quote, no_gap, no_newline, no_hash⟩,
      fun inner => ⟨inner.part, inner.no_quote, inner.no_gap, inner.no_newline, inner.no_hash⟩⟩

theorem isInner_of_plain {c : Char} (plain : isPlainPart c = true) : IsInner c :=
  of_isPlainPart (P := IsInner) (by decide) plain

theorem isIdentifierStart_of_plain {c : Char} (plain : isPlainStart c = true) :
    Text.isIdentifierStart c = true := by
  simp only [isPlainStart, Bool.or_eq_true] at plain
  simp only [Text.isIdentifierStart, Bool.or_eq_true]
  exact .inl plain.symm

theorem isIdentifierPart_of_letter {c : Char} (letter : isLiteralLetter c = true) :
    Text.isIdentifierPart c = true := by
  simp only [isLiteralLetter, Bool.or_eq_true, beq_iff_eq] at letter
  rcases letter with ((((((rfl | rfl) | rfl) | rfl) | rfl) | rfl) | rfl) | rfl <;> decide

/-! ## Where a lexeme ends -/

def IsClear (after : List Char) : Prop :=
  ∀ c ∈ after.head?, Text.isIdentifierPart c = false ∧ isQuoteMark c = false

def IsSeen (after : List Char) : Prop := ∀ c ∈ after.head?, isGap c = false

theorem takeWhile_append {p : Char → Bool} (front after : List Char)
    (inside : ∀ c ∈ front, p c = true) (stop : ∀ c ∈ after.head?, p c = false) :
    (front ++ after).takeWhile p = front := by
  rw [List.takeWhile_append_of_pos inside]
  cases after with
  | nil => simp
  | cons c rest => simp [stop c rfl]

theorem opening?_eq_none (front after : List Char) (inner : ∀ c ∈ front, IsInner c)
    (clear : IsClear after) : opening? (front ++ after) = none := by
  -- A mark would stand after letters at the start, inside the word or right after it.
  have head : ∀ mark ∈ ((front ++ after).dropWhile isLiteralLetter).head?,
      isQuoteMark mark = false := by
    induction front with
    | nil =>
        cases after with
        | nil => simp
        | cons c rest =>
            have ends := clear c rfl
            have stays : isLiteralLetter c = false := by
              rw [← Bool.not_eq_true]
              intro letter
              exact absurd (isIdentifierPart_of_letter letter) (by simp [ends.1])
            simp [stays, ends.2]
    | cons c rest ih =>
        by_cases letter : isLiteralLetter c = true
        · simpa [letter] using ih fun c member => inner c (List.mem_cons_of_mem _ member)
        · simp [letter, (inner c List.mem_cons_self).no_quote]
  have dropped : (front ++ after).drop ((front ++ after).takeWhile isLiteralLetter).length =
      (front ++ after).dropWhile isLiteralLetter := by
    generalize front ++ after = text
    induction text with
    | nil => rfl
    | cons c rest ih =>
        by_cases letter : isLiteralLetter c = true
        · simpa [letter] using ih
        · simp [letter]
  simp only [opening?, dropped]
  cases rest : (front ++ after).dropWhile isLiteralLetter with
  | nil => rfl
  | cons mark rest' =>
      rw [rest] at head
      simp [head mark rfl]

/-! ## Single lexemes -/

theorem lex_cons (c : Char) (rest after : List Char) (kind : LexemeKind)
    (measured : measure c (rest ++ after) = (kind, rest.length)) :
    lex (c :: rest ++ after) = ⟨kind, c :: rest⟩ :: lex after := by
  rw [List.cons_append, lex, measured]
  simp

theorem measure_inner (c : Char) (front after : List Char)
    (inner : ∀ d ∈ c :: front, IsInner d) (clear : IsClear after) (kind : LexemeKind)
    (judged : (if Text.isIdentifierStart c then LexemeKind.word else .number) = kind)
    (begins : (Text.isIdentifierStart c || decide ('0' ≤ c) && decide (c ≤ '9')) = true) :
    measure c (front ++ after) = (kind, front.length) := by
  have here := inner c List.mem_cons_self
  have run := takeWhile_append front after
    (fun d member => (inner d (List.mem_cons_of_mem _ member)).part) fun d head => (clear d head).1
  have literal : literalLength? (c :: (front ++ after)) = none := by
    have none := opening?_eq_none (c :: front) after inner clear
    rw [List.cons_append] at none
    rw [literalLength?, none]
  subst judged
  unfold measure
  rw [here.no_newline, here.no_gap, here.no_hash, literal, run]
  by_cases starts : Text.isIdentifierStart c = true
  · simp [starts]
  · simp only [starts, Bool.false_or] at begins
    simp [starts, begins]

theorem isInner_of_plainWord {word : List Char} (plain : isPlainWord word = true) :
    ∀ c ∈ word, IsInner c := by
  cases word with
  | nil => simp
  | cons c rest =>
      simp only [isPlainWord, Bool.and_eq_true, List.all_eq_true] at plain
      intro d member
      rcases List.mem_cons.mp member with rfl | member
      · exact isInner_of_plain (by simp [isPlainPart, plain.1])
      · exact isInner_of_plain (plain.2 d member)

theorem lex_word (word after : List Char) (plain : isPlainWord word = true)
    (clear : IsClear after) : lex (word ++ after) = ⟨.word, word⟩ :: lex after := by
  have inner := isInner_of_plainWord plain
  cases word with
  | nil => simp [isPlainWord] at plain
  | cons c rest =>
      simp only [isPlainWord, Bool.and_eq_true] at plain
      have starts := isIdentifierStart_of_plain plain.1
      exact lex_cons c rest after .word
        (measure_inner c rest after inner clear .word (by simp [starts]) (by simp [starts]))

theorem digitsOf_digit (value : Nat) : ∀ c ∈ Text.digitsOf value, c.isDigit = true := by
  intro c member
  exact Nat.isDigit_of_mem_toDigits (by decide) (by decide) member

theorem lex_digits (value : Nat) (after : List Char) (clear : IsClear after) :
    lex (Text.digitsOf value ++ after) = ⟨.number, Text.digitsOf value⟩ :: lex after := by
  have digit := digitsOf_digit value
  have inner : ∀ c ∈ Text.digitsOf value, IsInner c := fun c member =>
    isInner_of_plain (by simp [isPlainPart, digit c member])
  cases digits : Text.digitsOf value with
  | nil => exact absurd digits Nat.toDigits_ne_nil
  | cons c rest =>
      rw [digits] at inner digit
      have first := digit c List.mem_cons_self
      have number : Text.isIdentifierStart c = false ∧
          (decide ('0' ≤ c) && decide (c ≤ '9')) = true :=
        of_isPlainPart
          (P := fun c => c.isDigit = true → Text.isIdentifierStart c = false ∧
            (decide ('0' ≤ c) && decide (c ≤ '9')) = true)
          (by decide) (by simp [isPlainPart, first]) first
      exact lex_cons c rest after .number
        (measure_inner c rest after inner clear .number (by simp [number.1])
          (by rw [number.2, Bool.or_true]))

theorem lex_sign (c : Char) (after : List Char)
    (sign : c = '.' ∨ c = ',' ∨ c = '=' ∨ c = '@' ∨ c = '*') :
    lex (c :: after) = ⟨.sign, [c]⟩ :: lex after := by
  refine lex_cons c [] after .sign ?_
  rcases sign with rfl | rfl | rfl | rfl | rfl <;> rfl

theorem lex_open (after : List Char) :
    lex ('(' :: after) = ⟨.openBracket, ['(']⟩ :: lex after :=
  lex_cons '(' [] after .openBracket rfl

theorem lex_close (after : List Char) :
    lex (')' :: after) = ⟨.closeBracket, [')']⟩ :: lex after :=
  lex_cons ')' [] after .closeBracket rfl

theorem lex_colon (c : Char) (after : List Char) (apart : c = ' ' ∨ c = '\n') :
    lex (':' :: c :: after) = ⟨.sign, [':']⟩ :: lex (c :: after) := by
  refine lex_cons ':' [] (c :: after) .sign ?_
  rcases apart with rfl | rfl <;> rfl

theorem lex_newline (after : List Char) :
    lex ('\n' :: after) = ⟨.newline, ['\n']⟩ :: lex after :=
  lex_cons '\n' [] after .newline rfl

theorem lex_gap (width : Nat) (after : List Char) (seen : IsSeen after) :
    lex (List.replicate (width + 1) ' ' ++ after) =
      ⟨.gap, List.replicate (width + 1) ' '⟩ :: lex after := by
  refine lex_cons ' ' (List.replicate width ' ') after .gap ?_
  have run := takeWhile_append (List.replicate width ' ') after
    (fun c member => by rw [List.eq_of_mem_replicate member]; rfl) seen
  change (LexemeKind.gap, ((List.replicate width ' ' ++ after).takeWhile isGap).length) = _
  rw [run]

/-! ## Phrases -/

structure Spells (text : List Char) (lexemes : List Lexeme) : Prop where
  cut : ∀ after, IsClear after → lex (text ++ after) = lexemes ++ lex after
  seen : ∀ after, IsSeen (text ++ after)
  oneLine : '\n' ∉ text

/-- A text on one line that ends a word and is cut into these lexemes if no blank is after it. -/
structure Separates (text : List Char) (lexemes : List Lexeme) : Prop where
  cut : ∀ after, IsSeen after → lex (text ++ after) = lexemes ++ lex after
  clear : ∀ after, IsClear (text ++ after)
  oneLine : '\n' ∉ text

theorem isClear_cons {c : Char}
    (ends : Text.isIdentifierPart c = false ∧ isQuoteMark c = false) (rest : List Char) :
    IsClear (c :: rest) := by
  intro d head
  cases head
  exact ends

theorem isSeen_cons {c : Char} (shown : isGap c = false) (rest : List Char) :
    IsSeen (c :: rest) := by
  intro d head
  cases head
  exact shown

def blank : Lexeme := ⟨.gap, [' ']⟩

def mark (c : Char) : Lexeme := ⟨.sign, [c]⟩

theorem lex_blank (after : List Char) (seen : IsSeen after) :
    lex (' ' :: after) = blank :: lex after := lex_gap 0 after seen

namespace Separates

theorem gap : Separates [' '] [blank] where
  cut := lex_blank
  clear := isClear_cons (by decide)
  oneLine := by decide

theorem dot : Separates ['.'] [mark '.'] where
  cut after _ := lex_sign '.' after (by simp)
  clear := isClear_cons (by decide)
  oneLine := by decide

theorem equals : Separates ['='] [mark '='] where
  cut after _ := lex_sign '=' after (by simp)
  clear := isClear_cons (by decide)
  oneLine := by decide

theorem comma : Separates [',', ' '] [mark ',', blank] where
  cut after seen := by
    rw [List.cons_append, List.cons_append, List.nil_append, lex_sign ',' _ (by simp),
      lex_blank after seen]
    rfl
  clear _ := isClear_cons (by decide) _
  oneLine := by decide

theorem colon : Separates [':', ' '] [mark ':', blank] where
  cut after seen := by
    rw [List.cons_append, List.cons_append, List.nil_append, lex_colon ' ' after (.inl rfl),
      lex_blank after seen]
    rfl
  clear _ := isClear_cons (by decide) _
  oneLine := by decide

theorem assignment : Separates [' ', '=', ' '] [blank, mark '=', blank] where
  cut after seen := by
    simp only [List.cons_append, List.nil_append]
    rw [lex_blank _ (isSeen_cons (by decide) _), lex_sign '=' _ (by simp), lex_blank after seen]
    rfl
  clear _ := isClear_cons (by decide) _
  oneLine := by decide

end Separates

namespace Spells

theorem word {text : List Char} (plain : isPlainWord text = true) :
    Spells text [⟨.word, text⟩] where
  cut after := lex_word text after plain
  seen after := by
    have inner := isInner_of_plainWord plain
    cases text with
    | nil => simp [isPlainWord] at plain
    | cons c rest => exact isSeen_cons (inner c List.mem_cons_self).no_gap _
  oneLine member := by
    have inner := isInner_of_plainWord plain '\n' member
    revert inner
    decide

theorem digits (value : Nat) : Spells (Text.digitsOf value) [⟨.number, Text.digitsOf value⟩] where
  cut := lex_digits value
  seen after := by
    have digit := digitsOf_digit value
    cases digits : Text.digitsOf value with
    | nil => exact absurd digits Nat.toDigits_ne_nil
    | cons c rest =>
        have plain : isPlainPart c = true := by
          simp [isPlainPart, digit c (by simp [digits])]
        exact isSeen_cons (isInner_of_plain plain).no_gap _
  oneLine member := by
    have digit := digitsOf_digit value '\n' member
    revert digit
    decide

theorem append {first second : List Char} {before after : List Lexeme}
    (front : Spells first before) (back : Spells second after)
    (clear : ∀ rest, IsClear (second ++ rest)) : Spells (first ++ second) (before ++ after) where
  cut rest ends := by
    rw [List.append_assoc, front.cut _ (clear rest), back.cut rest ends, List.append_assoc]
  seen rest := by
    rw [List.append_assoc]
    exact front.seen _
  oneLine := by
    rw [List.mem_append, not_or]
    exact ⟨front.oneLine, back.oneLine⟩

theorem join {first second separator : List Char} {before after between : List Lexeme}
    (front : Spells first before) (separates : Separates separator between)
    (back : Spells second after) :
    Spells (first ++ separator ++ second) (before ++ between ++ after) where
  cut rest ends := by
    rw [List.append_assoc, List.append_assoc, front.cut _ (separates.clear _),
      separates.cut _ (back.seen rest), back.cut rest ends, List.append_assoc, List.append_assoc]
  seen rest := by
    rw [List.append_assoc, List.append_assoc]
    exact front.seen _
  oneLine := by
    rw [List.mem_append, List.mem_append, not_or, not_or]
    exact ⟨⟨front.oneLine, separates.oneLine⟩, back.oneLine⟩

theorem joinWith {α : Type} {text : α → List Char} {lexemes : α → List Lexeme}
    {separator : List Char} {between : List Lexeme} (separates : Separates separator between)
    (first : α) (others : List α) (each : ∀ x ∈ first :: others, Spells (text x) (lexemes x)) :
    Spells (Text.joinWith separator ((first :: others).map text))
      (Text.joinWith between ((first :: others).map lexemes)) := by
  induction others generalizing first with
  | nil => exact each first List.mem_cons_self
  | cons second others ih =>
      have front := each first List.mem_cons_self
      have back := ih second fun x member => each x (List.mem_cons_of_mem _ member)
      exact front.join separates back

theorem sign {c : Char} (known : c = '.' ∨ c = ',' ∨ c = '=' ∨ c = '@' ∨ c = '*')
    {text : List Char} {lexemes : List Lexeme} (phrase : Spells text lexemes) :
    Spells (c :: text) (mark c :: lexemes) where
  cut after clear := by
    rw [List.cons_append, lex_sign c _ known, phrase.cut after clear]
    rfl
  seen _ := by
    refine isSeen_cons ?_ _
    rcases known with rfl | rfl | rfl | rfl | rfl <;> decide
  oneLine := by
    rw [List.mem_cons, not_or]
    refine ⟨?_, phrase.oneLine⟩
    rcases known with rfl | rfl | rfl | rfl | rfl <;> decide

end Spells

/-! ## The lexemes of a program -/

def spacedLexemes : List (List Lexeme) → List Lexeme := Text.joinWith [blank]

def commaLexemes : List (List Lexeme) → List Lexeme := Text.joinWith [mark ',', blank]

def openBracket : Lexeme := ⟨.openBracket, ['(']⟩

def closeBracket : Lexeme := ⟨.closeBracket, [')']⟩

def bracketLexemes (items : List (List Lexeme)) : List Lexeme :=
  openBracket :: commaLexemes items ++ [closeBracket]

def Identifier.lexeme (name : Identifier) : Lexeme := ⟨.word, name.text⟩

def DottedName.lexemes (name : DottedName) : List Lexeme :=
  Text.joinWith [mark '.'] ((name.first :: name.others).map fun part => [part.lexeme])

def SimpleStatement.lexemes : SimpleStatement → List Lexeme
  | importNames first others =>
    spacedLexemes [[.ofWord "import"], commaLexemes ((first :: others).map DottedName.lexemes)]
  | importFrom source _ first others =>
    spacedLexemes [[.ofWord "from"], source.lexemes, [.ofWord "import"],
      commaLexemes ((first :: others).map fun name => [name.lexeme])]
  | assignment target value =>
    [target.lexeme, blank, mark '=', blank, ⟨.number, Text.digitsOf value⟩]

def Argument.lexemes : Argument → List Lexeme
  | plain value => value.lexemes
  | keyword name value => name.lexeme :: mark '=' :: value.lexemes

def Parameter.lexemes : Parameter → List Lexeme
  | plain name => [name.lexeme]
  | annotated name hint => name.lexeme :: mark ':' :: blank :: hint.lexemes
  | preset name value => [name.lexeme, mark '=', ⟨.number, Text.digitsOf value⟩]
  | starred name => [mark '*', name.lexeme]
  | doublyStarred name => [mark '*', mark '*', name.lexeme]

def argumentsLexemes : Option (List Argument) → List Lexeme
  | none => []
  | some arguments => bracketLexemes (arguments.map Argument.lexemes)

def Decorator.lexemes (decorator : Decorator) : List Lexeme :=
  mark '@' :: decorator.name.lexemes ++ argumentsLexemes decorator.arguments

def Header.lexemes : Header → List Lexeme
  | ofFunction isAsync name parameters =>
    spacedLexemes ((if isAsync then [[.ofWord "async"]] else []) ++ [[.ofWord "def"], [name.lexeme]]) ++
      bracketLexemes (parameters.map Parameter.lexemes)
  | ofClass name bases =>
    spacedLexemes [[.ofWord "class"], [name.lexeme]] ++ argumentsLexemes bases

namespace LineContent

def lexemes : LineContent → List Lexeme
  | statement simple => simple.lexemes
  | decoration decorator => decorator.lexemes
  | heading header => header.lexemes ++ [mark ':']

end LineContent

def gapLexemes : (width : Nat) → List Lexeme
  | 0 => []
  | width + 1 => [⟨.gap, List.replicate (width + 1) ' '⟩]

def Line.lexemes : Line → LogicalLine
  | blank width => gapLexemes width ++ [⟨.newline, ['\n']⟩]
  | code depth content => gapLexemes (4 * depth) ++ content.lexemes ++ [⟨.newline, ['\n']⟩]

namespace Spells

theorem keyword {text : String} (plain : isPlainWord text.toList = true) :
    Spells text.toList [.ofWord text] := word plain

theorem identifier (name : Identifier) : Spells name.text [name.lexeme] := word name.plain

theorem dottedName (name : DottedName) : Spells name.text name.lexemes :=
  joinWith .dot name.first name.others fun part _ => identifier part

theorem bracket {α : Type} {text : α → List Char} {lexemes : α → List Lexeme} (items : List α)
    (each : ∀ x ∈ items, Spells (text x) (lexemes x)) :
    Spells (bracketText (items.map text)) (bracketLexemes (items.map lexemes)) where
  cut after clear := by
    have inner : lex (commaText (items.map text) ++ ')' :: after) =
        commaLexemes (items.map lexemes) ++ lex (')' :: after) := by
      cases items with
      | nil => rfl
      | cons first others =>
          exact (joinWith .comma first others each).cut _ (isClear_cons (by decide) _)
    simp only [bracketText, List.cons_append, List.append_assoc, List.nil_append]
    rw [lex_open, inner, lex_close]
    simp [bracketLexemes, openBracket, closeBracket]
  seen _ := isSeen_cons (by decide) _
  oneLine := by
    have inner : '\n' ∉ commaText (items.map text) := by
      cases items with
      | nil => simp [commaText, Text.joinWith]
      | cons first others => exact (joinWith .comma first others each).oneLine
    simpa [bracketText] using inner

theorem argument : (argument : Argument) → Spells argument.text argument.lexemes
  | .plain value => dottedName value
  | .keyword name value => by
    simpa [Argument.text, Argument.lexemes] using (identifier name).join .equals (dottedName value)

theorem parameter : (parameter : Parameter) → Spells parameter.text parameter.lexemes
  | .plain name => identifier name
  | .annotated name hint => (identifier name).join .colon (dottedName hint)
  | .preset name value => by
    simpa [Parameter.text, Parameter.lexemes] using (identifier name).join .equals (digits value)
  | .starred name => (identifier name).sign (by simp)
  | .doublyStarred name => ((identifier name).sign (by simp)).sign (by simp)

theorem arguments {text : List Char} {lexemes : List Lexeme} (phrase : Spells text lexemes)
    (arguments : Option (List Argument)) :
    Spells (text ++ argumentsText arguments) (lexemes ++ argumentsLexemes arguments) := by
  cases arguments with
  | none => simpa [argumentsText, argumentsLexemes] using phrase
  | some arguments =>
      exact phrase.append (bracket arguments fun x _ => argument x)
        fun _ => isClear_cons (by decide) _

theorem simpleStatement (simple : SimpleStatement) : Spells simple.text simple.lexemes := by
  cases simple with
  | importNames first others =>
      have imports : Spells "import".toList [.ofWord "import"] := keyword (by decide)
      exact imports.join .gap (joinWith .comma first others fun name _ => dottedName name)
  | importFrom source present first others =>
      have origin : Spells "from".toList [.ofWord "from"] := keyword (by decide)
      have imports : Spells "import".toList [.ofWord "import"] := keyword (by decide)
      have names := joinWith .comma first others fun name _ => identifier name
      exact origin.join .gap ((dottedName source).join .gap (imports.join .gap names))
  | assignment target value =>
      exact (identifier target).join .assignment (digits value)

theorem decorator (decorator : Decorator) : Spells decorator.text decorator.lexemes :=
  ((dottedName decorator.name).sign (by simp)).arguments decorator.arguments

theorem header (header : Header) :
    ∃ text, header.text = text ++ [':'] ∧ Spells text header.lexemes := by
  cases header with
  | ofFunction isAsync name parameters =>
      have list := bracket parameters fun x _ => parameter x
      have defines : Spells "def".toList [.ofWord "def"] := keyword (by decide)
      have named := defines.join .gap (identifier name)
      cases isAsync with
      | false => exact ⟨_, rfl, named.append list fun _ => isClear_cons (by decide) _⟩
      | true =>
          have waits : Spells "async".toList [.ofWord "async"] := keyword (by decide)
          exact ⟨_, rfl, (waits.join .gap named).append list fun _ => isClear_cons (by decide) _⟩
  | ofClass name bases =>
      have defines : Spells "class".toList [.ofWord "class"] := keyword (by decide)
      exact ⟨_, rfl, (defines.join .gap (identifier name)).arguments bases⟩

end Spells

/-! ## Lines -/

theorem lex_content (content : LineContent) (after : List Char) :
    lex (content.text ++ '\n' :: after) = content.lexemes ++ lex ('\n' :: after) := by
  have clear : IsClear ('\n' :: after) := isClear_cons (by decide) _
  cases content with
  | statement simple => exact (Spells.simpleStatement simple).cut _ clear
  | decoration decorator => exact (Spells.decorator decorator).cut _ clear
  | heading header =>
      obtain ⟨text, spelled, phrase⟩ := Spells.header header
      simp only [LineContent.text, LineContent.lexemes, spelled, List.append_assoc,
        List.cons_append, List.nil_append]
      rw [phrase.cut _ (isClear_cons (by decide) _), lex_colon '\n' after (.inr rfl)]
      rfl

theorem isSeen_content (content : LineContent) (after : List Char) :
    IsSeen (content.text ++ after) := by
  cases content with
  | statement simple => exact (Spells.simpleStatement simple).seen _
  | decoration decorator => exact (Spells.decorator decorator).seen _
  | heading header =>
      obtain ⟨text, spelled, phrase⟩ := Spells.header header
      simp only [LineContent.text, spelled, List.append_assoc]
      exact phrase.seen _

theorem oneLine_content (content : LineContent) : '\n' ∉ content.text := by
  cases content with
  | statement simple => exact (Spells.simpleStatement simple).oneLine
  | decoration decorator => exact (Spells.decorator decorator).oneLine
  | heading header =>
      obtain ⟨text, spelled, phrase⟩ := Spells.header header
      simpa [LineContent.text, spelled] using phrase.oneLine

theorem oneLine_line (line : Line) : '\n' ∉ line.text := by
  cases line with
  | blank width => simp [Line.text]
  | code depth content => simp [Line.text, oneLine_content]

theorem count_linesText (lines : List Line) : (linesText lines).count '\n' = lines.length := by
  induction lines with
  | nil => rfl
  | cons line rest ih =>
      have none := List.count_eq_zero.mpr (oneLine_line line)
      simp only [linesText, List.flatMap_cons, List.count_append, none] at ih ⊢
      simp [ih, Nat.add_comm]

theorem lex_gapLexemes (width : Nat) (after : List Char) (seen : IsSeen after) :
    lex (List.replicate width ' ' ++ after) = gapLexemes width ++ lex after := by
  cases width with
  | zero => rfl
  | succ width => exact lex_gap width after seen

theorem lex_line (line : Line) (after : List Char) :
    lex (line.text ++ '\n' :: after) = line.lexemes ++ lex after := by
  cases line with
  | blank width =>
      simp only [Line.text, Line.lexemes]
      rw [lex_gapLexemes width _ (isSeen_cons (by decide) _), lex_newline]
      simp
  | code depth content =>
      simp only [Line.text, Line.lexemes, List.append_assoc]
      rw [lex_gapLexemes _ _ (isSeen_content content _), lex_content, lex_newline]
      simp

theorem lex_linesText_append (lines : List Line) (after : List Char) :
    lex (linesText lines ++ after) = lines.flatMap Line.lexemes ++ lex after := by
  induction lines with
  | nil => rfl
  | cons line rest ih =>
      have cut := lex_line line (linesText rest ++ after)
      simp only [linesText, List.flatMap_cons, List.append_assoc, List.cons_append,
        List.nil_append] at cut ih ⊢
      rw [cut, ih]

theorem lex_linesText (lines : List Line) : lex (linesText lines) = lines.flatMap Line.lexemes := by
  have cut := lex_linesText_append lines []
  rwa [lex, List.append_nil, List.append_nil] at cut

end CodeAtlas.Python

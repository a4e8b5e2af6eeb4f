import CodeAtlas.Proofs.Python.Extraction
import Mathlib.Data.List.TakeWhile

namespace CodeAtlas

namespace Python

/-! ## Items of lines -/

theorem mem_dropWhile {α : Type} {p : α → Bool} {x : α} {items : List α} (member : x ∈ items)
    (fails : p x = false) : x ∈ items.dropWhile p := by
  rw [← List.takeWhile_append_dropWhile (p := p) (l := items), List.mem_append] at member
  rcases member with taken | dropped
  · rw [List.mem_takeWhile_imp taken] at fails
    cases fails
  · exact dropped

theorem mem_splitEnd {p : Lexeme → Bool} {x : Lexeme} {lexemes : List Lexeme} (member : x ∈ lexemes)
    (fails : p x = false) : x ∈ (splitEnd p lexemes).1 := by
  rw [splitEnd, List.mem_reverse]
  exact mem_dropWhile (List.mem_reverse.mpr member) fails

def itemText (trailing : Lexeme → Bool) (lexemes : List Lexeme) : List Char :=
  textOf (splitEnd trailing (lexemes.dropWhile Lexeme.isFiller)).1

theorem infix_itemText {trailing : Lexeme → Bool} {x : Lexeme} {lexemes : List Lexeme}
    (member : x ∈ lexemes) (shown : x.isFiller = false) (kept : trailing x = false) :
    x.text <:+: itemText trailing lexemes := by
  obtain ⟨front, back, split⟩ :=
    List.append_of_mem (mem_splitEnd (mem_dropWhile member shown) kept)
  refine ⟨textOf front, textOf back, ?_⟩
  rw [itemText, split]
  simp [textOf]

theorem isInvisible_of_isFiller {x : Lexeme} (shown : x.isFiller = false) : x.isInvisible = false := by
  simp_all [Lexeme.isFiller, Lexeme.isInvisible]

theorem isFiller_of_isWord {x : Lexeme} (word : x.isWord = true) : x.isFiller = false := by
  rw [Lexeme.isWord, beq_iff_eq] at word
  simp [Lexeme.isFiller, word]

structure Heads (core : List Lexeme) (name : Lexeme) : Prop where
  isWord : name.isWord = true
  follows : ∃ keywords rest, core = keywords ++ name :: rest ∧ keywords.length = keywordCount core

theorem Heads.mem {core : List Lexeme} {name : Lexeme} (heads : Heads core name) : name ∈ core := by
  obtain ⟨keywords, rest, shape, -⟩ := heads.follows
  rw [shape]
  exact List.mem_append_right _ List.mem_cons_self

theorem heads_of_definition? {core : List Lexeme} {kind : DefinitionKind} {name : Lexeme}
    (defines : definition? core = some (kind, name)) : Heads core name := by
  unfold definition? at defines
  split at defines
  · rename_i keyword first next rest
    dsimp only at defines
    split at defines
    · rename_i isAsync
      have count : keywordCount (keyword :: first :: next :: rest) = 2 := by
        simp [keywordCount, beq_iff_eq.mp isAsync]
      split at defines
      · rename_i words
        rw [Bool.and_eq_true] at words
        split at defines
        · split at defines
          · cases defines
            exact ⟨words.2, [keyword, first], _, rfl, count.symm⟩
          · cases defines
        · cases defines
      · cases defines
    · rename_i notAsync
      have count : keywordCount (keyword :: first :: next :: rest) = 1 := by
        simpa [keywordCount] using notAsync
      split at defines
      · rename_i words
        simp only [Bool.and_eq_true] at words
        cases defines
        exact ⟨words.1.2, [keyword], _, rfl, count.symm⟩
      · split at defines
        · rename_i words
          simp only [Bool.and_eq_true] at words
          cases defines
          exact ⟨words.1.2, [keyword], _, rfl, count.symm⟩
        · cases defines
  · cases defines

theorem heads_of_lineKind {core : List Lexeme} {kind : DefinitionKind} {name : Lexeme}
    {opensBody : Bool} (begins : lineKind core = .definition kind name opensBody) : Heads core name := by
  unfold lineKind at begins
  split at begins
  · cases begins
  · split at begins
    · cases begins
    · split at begins
      · split at begins
        · rename_i defines _
          cases begins
          exact heads_of_definition? defines
        · cases begins
      · split at begins <;> cases begins

theorem beforeShown_append {lexemes keywords rest : List Lexeme} {x : Lexeme}
    (core : lexemes.filter (fun y => !y.isFiller) = keywords ++ x :: rest) :
    ∃ later, lexemes = beforeShown keywords.length lexemes ++ x :: later := by
  induction lexemes generalizing keywords with
  | nil => simp at core
  | cons y lexemes ih =>
      cases filler : y.isFiller with
      | true =>
          rw [List.filter_cons_of_neg (by simp [filler])] at core
          obtain ⟨later, shape⟩ := ih core
          refine ⟨later, ?_⟩
          cases keywords with
          | nil =>
              rw [List.length_nil] at shape ⊢
              rw [beforeShown, if_pos filler, List.cons_append, ← shape]
          | cons keyword keywords =>
              rw [List.length_cons] at shape ⊢
              rw [beforeShown, if_pos filler, List.cons_append, ← shape]
      | false =>
          rw [List.filter_cons_of_pos (by simp [filler])] at core
          cases keywords with
          | nil =>
              rw [List.nil_append, List.cons.injEq] at core
              have stop : beforeShown 0 (y :: lexemes) = [] := if_neg (by simp [filler])
              exact ⟨lexemes, by rw [List.length_nil, stop, core.1, List.nil_append]⟩
          | cons keyword keywords =>
              rw [List.cons_append, List.cons.injEq] at core
              obtain ⟨later, shape⟩ := ih core.2
              refine ⟨later, ?_⟩
              rw [List.length_cons, beforeShown, if_neg (by simp [filler]), List.cons_append, ← shape]

theorem prefix_splitEnd {p : Lexeme → Bool} {x : Lexeme} (front back : List Lexeme) (kept : p x = false) :
    front ++ [x] <+: (splitEnd p (front ++ x :: back)).1 := by
  have trailing : ∀ y ∈ (splitEnd p (front ++ x :: back)).2, p y = true := by
    intro y member
    rw [splitEnd, List.mem_reverse] at member
    exact List.mem_takeWhile_imp member
  have whole := splitEnd_append p (front ++ x :: back)
  rw [List.append_cons front x back] at whole trailing ⊢
  rcases List.append_eq_append_iff.mp whole with ⟨last, short, ends⟩ | ⟨more, long, -⟩
  · rcases List.eq_nil_or_concat last with rfl | ⟨init, y, rfl⟩
    · rw [List.append_nil] at short
      exact short ▸ List.prefix_rfl
    · rw [List.concat_eq_append, ← List.append_assoc] at short
      have same : x = y := List.singleton_inj.mp (List.append_inj_right' short rfl)
      have cut := trailing y (by rw [ends]; simp)
      rw [← same, kept] at cut
      cases cut
  · rw [long]
    exact List.prefix_append _ _

theorem prefix_itemText {line : LogicalLine} {name : Lexeme} (heads : Heads line.core name)
    (more : List Lexeme) :
    beforeName line ++ name.text <+: itemText Lexeme.isInvisible (line ++ more) := by
  have shown := isFiller_of_isWord heads.isWord
  have inside : name ∈ line.dropWhile Lexeme.isFiller :=
    mem_dropWhile (List.mem_filter.mp heads.mem).1 shown
  obtain ⟨keywords, rest, core, count⟩ := heads.follows
  have seen : (line.dropWhile Lexeme.isFiller).filter (fun x => !x.isFiller) = keywords ++ name :: rest := by
    have fillers : (line.takeWhile Lexeme.isFiller).filter (fun x => !x.isFiller) = [] := by
      simpa using fun x => List.mem_takeWhile_imp (p := Lexeme.isFiller)
    rw [← core, LogicalLine.core]
    conv_rhs => rw [← List.takeWhile_append_dropWhile (p := Lexeme.isFiller) (l := line)]
    rw [List.filter_append, fillers, List.nil_append]
  obtain ⟨later, shape⟩ := beforeShown_append seen
  have whole : (line ++ more).dropWhile Lexeme.isFiller =
      beforeShown (keywordCount line.core) (line.dropWhile Lexeme.isFiller) ++ name :: (later ++ more) := by
    rw [List.dropWhile_append, if_neg (by simpa using List.ne_nil_of_mem inside), ← count]
    conv_lhs => rw [shape]
    simp
  obtain ⟨tail, split⟩ := prefix_splitEnd (beforeShown (keywordCount line.core)
    (line.dropWhile Lexeme.isFiller)) (later ++ more) (isInvisible_of_isFiller shown)
  rw [itemText, whole, ← split, textOf_append, textOf_append, beforeName]
  exact ⟨textOf tail, by simp [textOf]⟩

def IsCut (kind : ItemKind) (text : List Char) (lexemes : List Lexeme) : Prop :=
  (∃ trailing, ∃ x ∈ lexemes, x.isFiller = false ∧ trailing x = false ∧
      text = itemText trailing lexemes) ∧
    ∀ sort front name, kind = .definition sort front name → front ++ name <+: text

theorem item_mem_itemPieces {trailing : Lexeme → Bool} {kind sort : ItemKind} {text : List Char}
    {lexemes : List Lexeme} (member : .item kind text ∈ itemPieces trailing sort lexemes) :
    kind = sort ∧ text = itemText trailing lexemes := by
  simp only [itemPieces, List.mem_cons, reduceCtorEq, Piece.item.injEq, List.not_mem_nil, or_false,
    false_or] at member
  exact member

theorem isCut_of_mem_statementPieces {kind : ItemKind} {text : List Char} {lexemes : List Lexeme}
    (member : .item kind text ∈ statementPieces lexemes) : IsCut kind text lexemes := by
  unfold statementPieces at member
  split at member
  · rename_i imports
    obtain ⟨rfl, cut⟩ := item_mem_itemPieces member
    have kept : ∃ x ∈ lexemes, (x == .ofSign ";" || x.isFiller) = false := by
      by_contra none
      push Not at none
      have all : ∀ x ∈ lexemes.reverse, (x == .ofSign ";" || x.isFiller) = true := by
        intro x inside
        exact eq_true_of_ne_false (none x (List.mem_reverse.mp inside))
      rw [splitEnd, List.dropWhile_eq_nil_iff.mpr all] at imports
      cases imports
    obtain ⟨x, inside, shown⟩ := kept
    refine ⟨⟨_, x, inside, (Bool.or_eq_false_iff.mp shown).2, shown, cut⟩, ?_⟩
    rintro sort front name ⟨⟩
  · simp at member

theorem isCut_of_definition {line more : List Lexeme} {sort : DefinitionKind} {name : Lexeme}
    {opensBody : Bool} {kind : ItemKind} {text : List Char}
    (begins : lineKind (LogicalLine.core line) = .definition sort name opensBody)
    (member : .item kind text ∈
      itemPieces Lexeme.isInvisible (.definition sort (beforeName line) name.text) (line ++ more)) :
    IsCut kind text (line ++ more) := by
  obtain ⟨rfl, rfl⟩ := item_mem_itemPieces member
  have heads := heads_of_lineKind begins
  have shown := isFiller_of_isWord heads.isWord
  have own : name ∈ line := (List.mem_filter.mp heads.mem).1
  refine ⟨⟨_, name, List.mem_append_left _ own, shown, isInvisible_of_isFiller shown, rfl⟩, ?_⟩
  rintro _ _ _ ⟨⟩
  exact prefix_itemText heads more

/-- Where an item among the pieces of lines comes from: a line of simple statements, or the header of a
definition with the lexemes of its body. -/
inductive Stems (kind : ItemKind) (text : List Char) (lines : List LogicalLine) : Prop where
  | simple {line : LogicalLine} (among : line ∈ lines) (member : .item kind text ∈ simplePieces line)
  | definition {line : LogicalLine} {more : List Lexeme} {sort : DefinitionKind} {name : Lexeme}
      {opensBody : Bool} (inside : line ++ more ⊆ lines.flatten)
      (begins : lineKind (LogicalLine.core line) = .definition sort name opensBody)
      (member : .item kind text ∈
        itemPieces Lexeme.isInvisible (.definition sort (beforeName line) name.text) (line ++ more))

theorem Stems.mono {kind : ItemKind} {text : List Char} {lines more : List LogicalLine}
    (stems : Stems kind text lines) (among : lines ⊆ more) : Stems kind text more := by
  cases stems with
  | simple listed member => exact .simple (among listed) member
  | definition inside begins member =>
      refine .definition (fun x own => ?_) begins member
      obtain ⟨line, listed, own⟩ := List.mem_flatten.mp (inside own)
      exact List.mem_flatten.mpr ⟨line, among listed, own⟩

theorem stems_of_mem_linePieces {decorated : Bool} {lines : List LogicalLine} {kind : ItemKind}
    {text : List Char} (member : .item kind text ∈ linePieces decorated lines) :
    Stems kind text lines := by
  have onward : ∀ {line : LogicalLine} {rest : List LogicalLine},
      Stems kind text rest → Stems kind text (line :: rest) := fun stems => stems.mono (by simp)
  have afterBody : ∀ {line : LogicalLine} {rest : List LogicalLine},
      Stems kind text (takeBody rest).2 → Stems kind text (line :: rest) := by
    intro line rest stems
    refine onward (stems.mono ?_)
    conv_rhs => rw [← takeBody_append rest]
    simp
  -- The cases are those of the lines: none, then by kind, a body being taken only below a header.
  fun_induction linePieces decorated lines with
  | case1 => cases member
  | case2 decorated line rest _ ih => exact onward (ih (by simpa using member))
  | case3 decorated line rest _ ih => exact onward (ih (by simpa using member))
  | case4 decorated line rest _ ih =>
      rcases List.mem_append.mp member with member | member
      · exact .simple List.mem_cons_self member
      · exact onward (ih member)
  | case5 decorated line rest _ ih => exact onward (ih (by simpa using member))
  | case6 decorated line rest _ ih => exact afterBody (ih (by simpa using member))
  | case7 decorated line rest sort name begins ih =>
      rcases List.mem_append.mp member with member | member
      · split at member
        · simp at member
        · have inside : line ++ [] ⊆ (line :: rest).flatten := by simp
          exact .definition inside begins (by rwa [List.append_nil])
      · exact onward (ih member)
  | case8 decorated line rest sort name begins lexemes ih =>
      rcases List.mem_append.mp member with member | member
      · split at member
        · simp at member
        · have inside : line ++ (takeBody rest).1.flatten ⊆ (line :: rest).flatten := by
            conv_rhs => rw [List.flatten_cons, ← takeBody_append rest, List.flatten_append]
            simp
          exact .definition inside begins member
      · exact afterBody (ih member)

theorem isCut_of_mem_linePieces {decorated : Bool} {lines : List LogicalLine} {kind : ItemKind}
    {text : List Char} (member : .item kind text ∈ linePieces decorated lines) :
    ∃ lexemes, lexemes ⊆ lines.flatten ∧ IsCut kind text lexemes := by
  cases stems_of_mem_linePieces member with
  | @simple line among member =>
      obtain ⟨lexemes, part, member⟩ := List.mem_flatMap.mp member
      refine ⟨lexemes, fun x inside => ?_, isCut_of_mem_statementPieces member⟩
      have own : x ∈ line := by
        rw [← flatten_cutAfter (· == .ofSign ";") 0 line]
        exact List.mem_flatten.mpr ⟨lexemes, part, inside⟩
      exact List.mem_flatten.mpr ⟨line, among, own⟩
  | definition inside begins member => exact ⟨_, inside, isCut_of_definition begins member⟩

theorem text_ne_nil_of_mem_lex (source : List Char) : ∀ x ∈ lex source, x.text ≠ [] := by
  fun_induction lex source with
  | case1 => simp
  | case2 c rest ih =>
      rw [List.forall_mem_cons]
      exact ⟨by simp, ih⟩

theorem text_ne_nil_of_mem_pieces {source : List Char} {kind : ItemKind} {text : List Char}
    (member : .item kind text ∈ pieces source) : text ≠ [] := by
  obtain ⟨lexemes, inside, ⟨trailing, x, own, shown, kept, rfl⟩, -⟩ := isCut_of_mem_linePieces member
  have visible : x ∈ lex source := flatten_logicalLines (lex source) ▸ inside own
  intro empty
  have part := infix_itemText own shown kept
  rw [empty, List.infix_nil] at part
  exact text_ne_nil_of_mem_lex source x visible part

theorem name_prefix_of_mem_pieces {source : List Char} {sort : DefinitionKind}
    {front name text : List Char} (member : .item (.definition sort front name) text ∈ pieces source) :
    front ++ name <+: text := by
  obtain ⟨lexemes, -, -, named⟩ := isCut_of_mem_linePieces member
  exact named sort front name rfl

/-! ## Nodes -/

theorem spans_append (kind : String) (before text after : List Char) (children : List Node) :
    Node.Spans ⟨kind, byteLength before, byteLength before + byteLength text, before.count '\n', children⟩
      (String.ofList (before ++ text ++ after)) (String.ofList text) := by
  refine ⟨String.ofList before, String.ofList after, ?_, rfl, rfl, ?_⟩
  · rw [String.ofList_append, String.ofList_append]
  · rw [String.toList_ofList]
    exact Nat.add_comm _ _

def ItemKind.nodeAfter (kind : ItemKind) (before text : List Char) : Node :=
  kind.node (byteLength before) (before.count '\n') text

theorem nodeAfter_span (kind : ItemKind) (before text : List Char) :
    (kind.nodeAfter before text).span = ⟨byteLength before, byteLength before + byteLength text⟩ := by
  cases kind <;> rfl

theorem nodeAfter_spans (kind : ItemKind) (before text after : List Char) :
    (kind.nodeAfter before text).Spans (String.ofList (before ++ text ++ after)) (String.ofList text) := by
  cases kind <;> exact spans_append _ before text after _

theorem identifier_spans {front name text : List Char} (named : front ++ name <+: text)
    (before after : List Char) :
    Node.Spans ⟨"identifier", byteLength before + byteLength front,
        byteLength before + byteLength front + byteLength name,
        before.count '\n' + front.count '\n', []⟩
      (String.ofList (before ++ text ++ after)) (String.ofList name) := by
  obtain ⟨rest, rfl⟩ := named
  have spans := spans_append "identifier" (before ++ front) name (rest ++ after) []
  rw [byteLength_append, List.count_append] at spans
  simpa using spans

theorem of_mem_pieceNodes (before : List Char) {pieces : List Piece} {node : Node}
    (member : node ∈ pieceNodes (byteLength before) (before.count '\n') pieces) :
    ∃ kind front text after, node = kind.nodeAfter (before ++ front) text ∧
      .item kind text ∈ pieces ∧ pieces.flatMap Piece.text = front ++ text ++ after := by
  induction pieces generalizing before with
  | nil => cases member
  | cons piece rest ih =>
      have later : node ∈ pieceNodes (byteLength (before ++ piece.text))
          ((before ++ piece.text).count '\n') rest →
            ∃ kind front text after, node = kind.nodeAfter (before ++ front) text ∧
              .item kind text ∈ piece :: rest ∧
                (piece :: rest).flatMap Piece.text = front ++ text ++ after := by
        intro member
        obtain ⟨kind, front, text, after, same, item, whole⟩ := ih _ member
        refine ⟨kind, piece.text ++ front, text, after, by rwa [← List.append_assoc],
          List.mem_cons_of_mem _ item, ?_⟩
        rw [List.flatMap_cons, whole]
        simp
      rw [byteLength_append, List.count_append] at later
      cases piece with
      | between text => exact later member
      | item kind text =>
          rcases List.mem_cons.mp member with same | member
          · refine ⟨kind, [], text, rest.flatMap Piece.text, ?_, List.mem_cons_self, rfl⟩
            rw [List.append_nil]
            exact same
          · exact later member

theorem pieceNodes_ordered (before : List Char) (pieces : List Piece) :
    (pieceNodes (byteLength before) (before.count '\n') pieces).Pairwise fun a b => a.stop ≤ b.start := by
  induction pieces generalizing before with
  | nil => exact .nil
  | cons piece rest ih =>
      have onward := ih (before ++ piece.text)
      rw [byteLength_append, List.count_append] at onward
      cases piece with
      | between text => exact onward
      | item kind text =>
          refine .cons (fun node member => ?_) onward
          rw [← List.count_append, ← byteLength_append] at member
          obtain ⟨sort, front, other, -, rfl, -, -⟩ := of_mem_pieceNodes _ member
          have here := congrArg Span.stop (nodeAfter_span kind before text)
          have there := congrArg Span.start (nodeAfter_span sort (before ++ text ++ front) other)
          change (kind.nodeAfter before text).stop = _ at here
          change (sort.nodeAfter (before ++ text ++ front) other).start = _ at there
          change (kind.nodeAfter before text).stop ≤ _
          rw [here, there, byteLength_append, byteLength_append]
          exact Nat.le_add_right _ _

/-- The scanner has a tree for every text, and its nodes are where they say. -/
theorem scan_faithful : scan.Faithful := by
  intro source
  refine ⟨_, rfl, ?_⟩
  -- The pieces make up the text, so every node is that of an item with a text before and after it.
  have stands : ∀ node ∈ pieceNodes 0 0 (pieces source.toList), ∃ kind front text after,
      node = kind.nodeAfter front text ∧ .item kind text ∈ pieces source.toList ∧
        source = String.ofList (front ++ text ++ after) := by
    intro node member
    obtain ⟨kind, front, text, after, same, item, whole⟩ := of_mem_pieceNodes [] member
    rw [textOf_pieces] at whole
    exact ⟨kind, front, text, after, same, item, by rw [← whole, String.ofList_toList]⟩
  constructor
  · intro node member
    obtain ⟨kind, front, text, after, rfl, -, whole⟩ := stands node member
    exact ⟨_, whole ▸ nodeAfter_spans kind front text after⟩
  · intro node member _
    obtain ⟨kind, front, text, -, rfl, item, -⟩ := stands node member
    have span := nodeAfter_span kind front text
    have start := congrArg Span.start span
    have stop := congrArg Span.stop span
    have positive := byteLength_pos (text_ne_nil_of_mem_pieces item)
    change (kind.nodeAfter front text).start = _ at start
    change (kind.nodeAfter front text).stop = _ at stop
    rw [start, stop]
    exact Nat.lt_add_of_pos_right positive
  · exact pieceNodes_ordered [] (pieces source.toList)
  · intro node member child below
    obtain ⟨kind, front, text, after, rfl, item, whole⟩ := stands node member
    cases kind with
    | importing => cases below
    | definition sort ahead name =>
        obtain rfl := List.mem_singleton.mp below
        have named := name_prefix_of_mem_pieces item
        refine ⟨Nat.le_add_right _ _, ?_, _, whole ▸ identifier_spans named front after⟩
        obtain ⟨rest, rfl⟩ := named
        change byteLength front + byteLength ahead + byteLength name ≤ byteLength front + byteLength _
        rw [byteLength_append, byteLength_append]
        omega

end Python

/-- The outline of a text has no errors, and its records are ranges of the text: in order within each
list, and disjoint among all three. -/
theorem FileOutline.ofSource_spans (path : Path) (source : String) :
    (ofSource path source).errors = [] ∧
      ∃ functions classes imports : List Span,
        Python.InPlace source Declaration.sourceText Declaration.line
            (ofSource path source).functions functions ∧
          Python.InPlace source Declaration.sourceText Declaration.line
            (ofSource path source).classes classes ∧
          Python.InPlace source ImportRecord.sourceText ImportRecord.line
            (ofSource path source).imports imports ∧
          (functions ++ classes ++ imports).Pairwise Span.Disjoint ∧
          ∀ declaration ∈ (ofSource path source).functions ++ (ofSource path source).classes,
            declaration.name.toList <:+: declaration.sourceText.toList :=
  extract_spans Python.scan_faithful path source

end CodeAtlas

import CodeAtlas.Proofs.Python.Span

namespace CodeAtlas.Python

structure PlacedItem where
  kind : ItemKind
  line : Nat
  text : List Char

def placeItems : (line : Nat) → List Piece → List PlacedItem
  | _, [] => []
  | line, .between text :: rest => placeItems (line + text.count '\n') rest
  | line, .item kind text :: rest => ⟨kind, line, text⟩ :: placeItems (line + text.count '\n') rest

def items (source : List Char) : List PlacedItem := placeItems 1 (pieces source)

namespace PlacedItem

def declaration? (wanted : DefinitionKind) (item : PlacedItem) : Option Declaration :=
  match item.kind with
  | .definition kind _ name =>
    if kind = wanted then some ⟨String.ofList name, item.line, String.ofList item.text⟩ else none
  | .importing => none

def importRecord? (item : PlacedItem) : Option ImportRecord :=
  match item.kind with
  | .importing => some ⟨item.line, String.ofList item.text⟩
  | .definition _ _ _ => none

end PlacedItem

/-! ## What is read off the nodes of items -/

theorem filterMap_pieceNodes {α : Type} {f : Node → Option α} {g : PlacedItem → Option α}
    (before : List Char) {pieces : List Piece}
    (same : ∀ kind front text after, .item kind text ∈ pieces →
      before ++ pieces.flatMap Piece.text = front ++ text ++ after →
        f (kind.nodeAfter front text) = g ⟨kind, 1 + front.count '\n', text⟩) :
    (pieceNodes (byteLength before) (before.count '\n') pieces).filterMap f =
      (placeItems (1 + before.count '\n') pieces).filterMap g := by
  induction pieces generalizing before with
  | nil => rfl
  | cons piece rest ih =>
      have onward := ih (before ++ piece.text) fun kind front text after item whole =>
        same kind front text after (List.mem_cons_of_mem _ item) (by
          rw [List.flatMap_cons, ← List.append_assoc, whole])
      rw [byteLength_append, List.count_append, ← Nat.add_assoc] at onward
      cases piece with
      | between text => exact onward
      | item kind text =>
          have own := same kind before text (rest.flatMap Piece.text) List.mem_cons_self (by
            rw [List.flatMap_cons, List.append_assoc, Piece.text])
          change (kind.nodeAfter before text :: pieceNodes _ _ rest).filterMap f = _
          rw [placeItems, List.filterMap_cons, List.filterMap_cons, own]
          cases g ⟨kind, 1 + before.count '\n', text⟩ with
          | none => exact onward
          | some record => exact congrArg _ onward

section NodeAfter

variable {kind : ItemKind} {front text after : List Char} {source : String}
  (whole : source = String.ofList (front ++ text ++ after))

include whole

theorem declared?_nodeAfter
    (named : ∀ sort ahead name, kind = .definition sort ahead name → ahead ++ name <+: text)
    (wanted : DefinitionKind) :
    (kind.nodeAfter front text).declared? wanted.nodeKind (Bytes.ofString source) =
      (PlacedItem.mk kind (1 + front.count '\n') text).declaration? wanted := by
  have own := Node.text_of_spans (whole ▸ nodeAfter_spans kind front text after)
  cases kind with
  | importing =>
      have other : (importKind text == wanted.nodeKind) = false := by
        unfold importKind
        split <;> cases wanted <;> rfl
      exact if_neg (Bool.not_eq_true _ ▸ other)
  | definition sort ahead name =>
      have identifier := Node.text_of_spans
        (whole ▸ identifier_spans (named sort ahead name rfl) front after)
      have named : ((ItemKind.definition sort ahead name).nodeAfter front text).declaration?
          (Bytes.ofString source) =
            some ⟨String.ofList name, 1 + front.count '\n', String.ofList text⟩ := by
        rw [Node.declaration?, own]
        change ((Node.text _ _).toOption.bind _) = _
        rw [identifier, Nat.add_comm]
        rfl
      have kinds : (sort.nodeKind == wanted.nodeKind) = decide (sort = wanted) := by
        cases sort <;> cases wanted <;> rfl
      change (if sort.nodeKind == wanted.nodeKind then _ else none) = if sort = wanted then _ else none
      rw [named, kinds]
      simp only [decide_eq_true_eq]

theorem imported?_nodeAfter :
    (kind.nodeAfter front text).imported? (Bytes.ofString source) =
      (PlacedItem.mk kind (1 + front.count '\n') text).importRecord? := by
  have own := Node.text_of_spans (whole ▸ nodeAfter_spans kind front text after)
  cases kind with
  | importing =>
      have listed : (importKind text == "import_statement" ||
          importKind text == "import_from_statement") = true := by
        unfold importKind
        split <;> rfl
      rw [Node.imported?, own, Nat.add_comm]
      exact if_pos listed
  | definition sort ahead name =>
      cases sort <;> rfl

end NodeAfter

theorem ofSource_eq (path : Path) (source : String) :
    FileOutline.ofSource path source =
      { path
        functions := (items source.toList).filterMap (·.declaration? .ofFunction)
        classes := (items source.toList).filterMap (·.declaration? .ofClass)
        imports := (items source.toList).filterMap (·.importRecord?)
        errors := [] } := by
  obtain ⟨root, parsed, maps⟩ := scan_faithful source
  have whole : ∀ front text after : List Char,
      [] ++ (pieces source.toList).flatMap Piece.text = front ++ text ++ after →
        source = String.ofList (front ++ text ++ after) := by
    intro front text after split
    rw [List.nil_append, textOf_pieces] at split
    rw [← split, String.ofList_toList]
  have declared : ∀ wanted : DefinitionKind,
      (pieceNodes 0 0 (pieces source.toList)).filterMap
          (Node.declared? wanted.nodeKind (Bytes.ofString source)) =
        (items source.toList).filterMap (·.declaration? wanted) := fun wanted =>
    filterMap_pieceNodes [] fun kind front text after item split =>
      declared?_nodeAfter (whole front text after split)
        (fun sort ahead name same => name_prefix_of_mem_pieces (same ▸ item)) wanted
  have imported : (pieceNodes 0 0 (pieces source.toList)).filterMap
        (Node.imported? (Bytes.ofString source)) =
      (items source.toList).filterMap (·.importRecord?) :=
    filterMap_pieceNodes [] fun kind front text after _ split =>
      imported?_nodeAfter (whole front text after split)
  rw [FileOutline.ofSource, extract_eq parsed maps]
  cases parsed
  rw [← declared .ofFunction, ← declared .ofClass, ← imported]
  rfl

theorem path_ofSource (path : Path) (source : String) : (FileOutline.ofSource path source).path = path := by
  rw [ofSource_eq]

theorem errors_ofSource (path : Path) (source : String) : (FileOutline.ofSource path source).errors = [] := by
  rw [ofSource_eq]

theorem declaration?_eq_some {wanted : DefinitionKind} {item : PlacedItem} {declaration : Declaration}
    (made : item.declaration? wanted = some declaration) :
    ∃ front name, item.kind = .definition wanted front name ∧
      declaration = ⟨String.ofList name, item.line, String.ofList item.text⟩ := by
  unfold PlacedItem.declaration? at made
  split at made
  · rename_i kind front name same
    split at made
    · rename_i wants
      cases made
      exact ⟨front, name, wants ▸ same, rfl⟩
    · cases made
  · cases made

theorem piece_of_mem_placeItems {line : Nat} {pieces : List Piece} {item : PlacedItem}
    (member : item ∈ placeItems line pieces) : .item item.kind item.text ∈ pieces := by
  induction pieces generalizing line with
  | nil => cases member
  | cons piece rest ih =>
      cases piece with
      | between text => exact List.mem_cons_of_mem _ (ih member)
      | item kind text =>
          rcases List.mem_cons.mp member with rfl | later
          · exact List.mem_cons_self
          · exact List.mem_cons_of_mem _ (ih later)

/-! ## Names -/

theorem measure_word {c : Char} {rest : List Char} (word : (measure c rest).1 = .word) :
    Text.isIdentifierStart c = true ∧
      (measure c rest).2 = (rest.takeWhile Text.isIdentifierPart).length := by
  unfold measure at word ⊢
  split at word
  · cases word
  split at word
  · cases word
  split at word
  · cases word
  rename_i noBreak noGap noComment
  rw [if_neg noBreak, if_neg noGap, if_neg noComment]
  split at word
  · cases word
  by_cases starts : Text.isIdentifierStart c = true
  · exact ⟨starts, by rw [if_pos starts]⟩
  · rw [if_neg starts] at word
    repeat' split at word
    all_goals cases word

theorem isIdentifierPart_of_mem_lex {source : List Char} :
    ∀ x ∈ lex source, x.isWord = true → ∀ c ∈ x.text, Text.isIdentifierPart c = true := by
  fun_induction lex source with
  | case1 => simp
  | case2 c rest ih =>
      rw [List.forall_mem_cons]
      refine ⟨fun word => ?_, ih⟩
      rw [Lexeme.isWord, beq_iff_eq] at word
      obtain ⟨starts, length⟩ := measure_word word
      have taken : rest.take (measure c rest).2 = rest.takeWhile Text.isIdentifierPart := by
        rw [length]
        exact (List.prefix_iff_eq_take.mp (List.takeWhile_prefix _)).symm
      rw [List.forall_mem_cons, taken]
      exact ⟨by simp [Text.isIdentifierPart, starts], fun _ member => List.mem_takeWhile_imp member⟩

theorem kind_of_mem_simplePieces {line : LogicalLine} {kind : ItemKind} {text : List Char}
    (member : .item kind text ∈ simplePieces line) : kind = .importing := by
  obtain ⟨lexemes, -, member⟩ := List.mem_flatMap.mp member
  unfold statementPieces at member
  split at member
  · exact (item_mem_itemPieces member).1
  · simp at member

theorem isIdentifierPart_of_mem_pieces {source : List Char} {sort : DefinitionKind}
    {front name text : List Char}
    (member : .item (.definition sort front name) text ∈ pieces source) :
    ∀ c ∈ name, Text.isIdentifierPart c = true := by
  cases stems_of_mem_linePieces member with
  | simple among member => cases kind_of_mem_simplePieces member
  | definition inside begins member =>
      obtain ⟨named, -⟩ := item_mem_itemPieces member
      have heads := heads_of_lineKind begins
      cases named
      have visible := inside (List.mem_append_left _ (List.mem_filter.mp heads.mem).1)
      rw [flatten_logicalLines] at visible
      exact isIdentifierPart_of_mem_lex _ visible heads.isWord

theorem isIdentifierPart_of_declaration {path : Path} {source : String} {declaration : Declaration}
    (member : declaration ∈ (FileOutline.ofSource path source).functions ++
      (FileOutline.ofSource path source).classes) :
    ∀ c ∈ declaration.name.toList, Text.isIdentifierPart c = true := by
  have each : ∀ wanted, declaration ∈ (items source.toList).filterMap (·.declaration? wanted) →
      ∀ c ∈ declaration.name.toList, Text.isIdentifierPart c = true := by
    intro wanted among
    obtain ⟨item, placed, made⟩ := List.mem_filterMap.mp among
    obtain ⟨front, name, sort, rfl⟩ := declaration?_eq_some made
    have piece := piece_of_mem_placeItems placed
    rw [sort] at piece
    rw [String.toList_ofList]
    exact isIdentifierPart_of_mem_pieces piece
  rw [ofSource_eq] at member
  rcases List.mem_append.mp member with among | among
  · exact each .ofFunction among
  · exact each .ofClass among

end CodeAtlas.Python

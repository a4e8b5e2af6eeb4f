import CodeAtlas.Proofs.Python.Item
import CodeAtlas.Proofs.Python.LineKind

namespace CodeAtlas.Python

/-! ## One line -/

theorem core_ended (line : LogicalLine) :
    LogicalLine.core (line ++ [newline]) = LogicalLine.core line := by
  rw [core_append]
  exact List.append_nil _

theorem isCode_ended (line : LogicalLine) :
    LogicalLine.isCode (line ++ [newline]) = LogicalLine.isCode line := by
  simp [LogicalLine.isCode, newline, Lexeme.isFiller]

theorem isRemark_ended (line : LogicalLine) :
    LogicalLine.isRemark (line ++ [newline]) = LogicalLine.isRemark line := by
  have no_comment : (newline.kind == .comment) = false := rfl
  simp [LogicalLine.isRemark, isCode_ended, no_comment]

theorem indent_ended (line : LogicalLine) :
    LogicalLine.indent (line ++ [newline]) = LogicalLine.indent line := by
  have stop : ([newline].takeWhile fun x => x.kind == .gap || x.kind == .joiner) = [] := rfl
  have same : ((line ++ [newline]).takeWhile fun x => x.kind == .gap || x.kind == .joiner) =
      line.takeWhile fun x => x.kind == .gap || x.kind == .joiner := by
    induction line with
    | nil => exact stop
    | cons x rest ih => simp only [List.cons_append, List.takeWhile_cons, ih]
  rw [LogicalLine.indent, same, LogicalLine.indent]

/-! ## Bodies -/

section

variable (last : LogicalLine)

theorem goesOn_ended (indent : Nat) (front : List LogicalLine) :
    goesOn indent (front ++ [last ++ [newline]]) = goesOn indent (front ++ [last]) := by
  rw [goesOn, goesOn, List.find?_append, List.find?_append]
  cases front.find? LogicalLine.isCode with
  | some line => rfl
  | none => cases code : last.isCode <;> simp [isCode_ended, indent_ended, code]

theorem splitBody_ended (indent : Nat) (front : List LogicalLine) :
    (∃ inner outer, front = inner ++ outer ∧
      splitBody indent (front ++ [last ++ [newline]]) = (inner, outer ++ [last ++ [newline]]) ∧
      splitBody indent (front ++ [last]) = (inner, outer ++ [last])) ∨
    (splitBody indent (front ++ [last ++ [newline]]) = (front ++ [last ++ [newline]], []) ∧
      splitBody indent (front ++ [last]) = (front ++ [last], [])) := by
  induction front with
  | nil =>
      have goes := goesOn_ended last indent []
      simp only [List.nil_append] at goes ⊢
      simp only [splitBody, goes, isCode_ended, isRemark_ended, indent_ended]
      split
      · exact .inr ⟨rfl, rfl⟩
      · exact .inl ⟨[], [], rfl, rfl, rfl⟩
  | cons line rest ih =>
      have goes := goesOn_ended last indent (line :: rest)
      simp only [List.cons_append] at goes ⊢
      simp only [splitBody, goes]
      split
      · rcases ih with ⟨inner, outer, rfl, ended, bare⟩ | ⟨ended, bare⟩
        · exact .inl ⟨line :: inner, outer, rfl, by rw [ended], by rw [bare]⟩
        · exact .inr ⟨by rw [ended], by rw [bare]⟩
      · exact .inl ⟨[], line :: rest, rfl, rfl, rfl⟩

theorem takeBody_ended (front : List LogicalLine) :
    (∃ inner outer, front = inner ++ outer ∧
      takeBody (front ++ [last ++ [newline]]) = (inner, outer ++ [last ++ [newline]]) ∧
      takeBody (front ++ [last]) = (inner, outer ++ [last])) ∨
    (takeBody (front ++ [last ++ [newline]]) = (front ++ [last ++ [newline]], []) ∧
      takeBody (front ++ [last]) = (front ++ [last], [])) := by
  unfold takeBody
  rw [List.find?_append, List.find?_append]
  cases front.find? LogicalLine.isCode with
  | some line =>
      simp only [Option.some_or]
      split
      · exact .inl ⟨[], front, rfl, rfl, rfl⟩
      · exact splitBody_ended last _ _
  | none =>
      cases code : last.isCode with
      | false =>
          simp only [List.find?_cons, isCode_ended, code]
          exact .inl ⟨[], front, rfl, rfl, rfl⟩
      | true =>
          simp only [List.find?_cons, isCode_ended, code, Option.none_or, indent_ended]
          split
          · exact .inl ⟨[], front, rfl, rfl, rfl⟩
          · exact splitBody_ended last _ _

end

/-! ## Pieces -/

theorem placeItems_append (line : Nat) (front back : List Piece) :
    placeItems line (front ++ back) =
      placeItems line front ++
        placeItems (line + (front.flatMap Piece.text).count '\n') back := by
  induction front generalizing line with
  | nil => rfl
  | cons piece rest ih =>
      cases piece with
      | item kind text => simp [placeItems, ih, Piece.text, Nat.add_assoc]
      | between text => simp [placeItems, ih, Piece.text, Nat.add_assoc]

theorem splitEnd_ended (trailing : Lexeme → Bool) (cut : trailing newline = true)
    (lexemes : List Lexeme) :
    (splitEnd trailing (lexemes ++ [newline])).1 = (splitEnd trailing lexemes).1 := by
  simp [splitEnd, cut]

theorem placeItems_itemPieces_ended (trailing : Lexeme → Bool) (cut : trailing newline = true)
    (line : Nat) (kind : ItemKind) {lexemes : List Lexeme}
    (seen : ∃ x ∈ lexemes, x.isFiller = false) :
    placeItems line (itemPieces trailing kind (lexemes ++ [newline])) =
      placeItems line (itemPieces trailing kind lexemes) := by
  have fillers : (lexemes ++ [newline]).takeWhile Lexeme.isFiller =
        lexemes.takeWhile Lexeme.isFiller ∧
      (lexemes ++ [newline]).dropWhile Lexeme.isFiller =
        lexemes.dropWhile Lexeme.isFiller ++ [newline] := by
    obtain ⟨x, member, shown⟩ := seen
    induction lexemes with
    | nil => cases member
    | cons y rest ih =>
        cases filler : y.isFiller with
        | false => simp [filler]
        | true =>
            have later : x ∈ rest := by
              rcases List.mem_cons.mp member with rfl | later
              · rw [shown] at filler
                cases filler
              · exact later
            simp [filler, ih later]
  simp only [itemPieces, fillers, splitEnd_ended trailing cut]
  rfl

theorem placeItems_statementPieces_ended (line : Nat) {lexemes : List Lexeme}
    (seen : ∃ x ∈ lexemes, x.isFiller = false) :
    placeItems line (statementPieces (lexemes ++ [newline])) =
      placeItems line (statementPieces lexemes) := by
  have same := splitEnd_ended (fun x => x == .ofSign ";" || x.isFiller) rfl lexemes
  unfold statementPieces
  rw [same]
  split
  · exact placeItems_itemPieces_ended _ rfl line .importing seen
  · rfl

/-! ## Phrases -/

variable {lexemes : List Lexeme}

theorem simplePieces_ended (phrasal : ∀ x ∈ lexemes, IsPhrasal x) :
    simplePieces (lexemes ++ [newline]) = statementPieces (lexemes ++ [newline]) := by
  have stop : cutAfter (· == .ofSign ";") 0 [newline] = [[newline]] := rfl
  have quiet : ∀ x, IsPhrasal x → (x == .ofSign ";") = false := fun x phrasal => by
    simpa using phrasal.2.2.1
  rw [simplePieces, cutAfter_balanced quiet (by decide) (.of_phrasal phrasal) stop]
  simp

theorem simplePieces_bare (phrasal : ∀ x ∈ lexemes, IsPhrasal x) (nonempty : lexemes ≠ []) :
    simplePieces lexemes = statementPieces lexemes := by
  have quiet : ∀ x, IsPhrasal x → (x == .ofSign ";") = false := fun x phrasal => by
    simpa using phrasal.2.2.1
  rw [simplePieces, cutAfter_phrasal quiet phrasal nonempty]
  simp

theorem placeItems_alone (phrasal : ∀ x ∈ lexemes, IsPhrasal x) (nonempty : lexemes ≠ [])
    (kind : lineKind (LogicalLine.core lexemes) = .idle ∨
      lineKind (LogicalLine.core lexemes) = .simple ∧ ∃ x ∈ lexemes, x.isFiller = false)
    (decorated : Bool) (line : Nat) :
    placeItems line (linePieces decorated [lexemes ++ [newline]]) =
      placeItems line (linePieces decorated [lexemes]) := by
  have done : ∀ decorated, linePieces decorated [] = [] := fun _ => by rw [linePieces]
  unfold linePieces
  rw [core_ended]
  rcases kind with idle | ⟨simple, seen⟩
  · simp only [idle, done]
    rfl
  · simp only [simple, done, List.append_nil]
    rw [simplePieces_ended phrasal, simplePieces_bare phrasal nonempty]
    exact placeItems_statementPieces_ended line seen

/-! ## Lines -/

theorem placeItems_ended {last : LogicalLine} (alone : ∀ decorated line,
      placeItems line (linePieces decorated [last ++ [newline]]) =
        placeItems line (linePieces decorated [last]))
    (decorated : Bool) (line : Nat) (front : List LogicalLine) :
    placeItems line (linePieces decorated (front ++ [last ++ [newline]])) =
      placeItems line (linePieces decorated (front ++ [last])) := by
  match front with
  | [] => exact alone decorated line
  | first :: rest =>
      have onward := fun decorated line => placeItems_ended alone decorated line rest
      rw [List.cons_append, List.cons_append]
      unfold linePieces
      cases kind : lineKind (LogicalLine.core first) with
      | idle => exact onward decorated _
      | decorator => exact onward true _
      | simple =>
          simp only [placeItems_append]
          exact congrArg _ (onward false _)
      | compound opensBody =>
          cases opensBody with
          | false => exact onward false _
          | true =>
              rcases takeBody_ended last rest with
                ⟨inner, outer, rfl, ended, bare⟩ | ⟨ended, bare⟩
              · simp only [ended, bare]
                exact placeItems_ended alone false _ outer
              · simp only [ended, bare]
                rw [linePieces]
                rfl
      | definition sort name opensBody =>
          obtain ⟨among, shown⟩ := List.mem_filter.mp (heads_of_lineKind kind).mem
          cases opensBody with
          | false =>
              simp only [placeItems_append]
              exact congrArg _ (onward false _)
          | true =>
              rcases takeBody_ended last rest with
                ⟨inner, outer, rfl, ended, bare⟩ | ⟨ended, bare⟩
              · simp only [ended, bare, placeItems_append]
                exact congrArg _ (placeItems_ended alone false _ outer)
              · have whole : first ++ (rest ++ [last ++ [newline]]).flatten =
                    (first ++ (rest ++ [last]).flatten) ++ [newline] := by simp
                have seen : ∃ x ∈ first ++ (rest ++ [last]).flatten, x.isFiller = false :=
                  ⟨name, List.mem_append_left _ among, by simpa using shown⟩
                have same := placeItems_itemPieces_ended Lexeme.isInvisible rfl line
                  (.definition sort (beforeName first) name.text) seen
                simp only [ended, bare, whole]
                rw [linePieces, List.append_nil, List.append_nil]
                cases decorated with
                | false => exact same
                | true => rfl
termination_by front.length

/-! ## Texts -/

theorem items_linesText (lines : List Line) :
    items (linesText lines) = placeItems 1 (linePieces false (lines.map Line.lexemes)) := by
  rw [items, pieces, lex_linesText, logicalLines_lexemes]

theorem items_dropLast (front : List Line) {last : Line} {lexemes : List Lexeme}
    (ends : last.lexemes = lexemes ++ [newline]) (cut : lex last.text = lexemes)
    (phrasal : ∀ x ∈ lexemes, IsPhrasal x) (nonempty : lexemes ≠ [])
    (kind : lineKind (LogicalLine.core lexemes) = .idle ∨
      lineKind (LogicalLine.core lexemes) = .simple ∧ ∃ x ∈ lexemes, x.isFiller = false) :
    items (linesText (front ++ [last])).dropLast = items (linesText (front ++ [last])) := by
  have quiet : ∀ x, IsPhrasal x → (x.kind == .newline) = false := fun x phrasal => by
    simp [phrasal.1.2.2]
  have single : logicalLines lexemes = [lexemes] := cutAfter_phrasal quiet phrasal nonempty
  have text : linesText (front ++ [last]) = (linesText front ++ last.text) ++ ['\n'] := by
    simp [linesText]
  rw [items_linesText, text, List.dropLast_concat, items, pieces, lex_linesText_append, cut,
    logicalLines_append, single,
    ← placeItems_ended (placeItems_alone phrasal nonempty kind) false 1 _]
  simp [ends]

theorem items_dropLast_blank (front : List Line) (width : Nat) :
    items (linesText (front ++ [.blank (width + 1)])).dropLast =
      items (linesText (front ++ [.blank (width + 1)])) := by
  have cut := lex_gapLexemes (width + 1) [] nofun
  rw [lex, List.append_nil, List.append_nil] at cut
  have idle : lineKind (LogicalLine.core (gapLexemes (width + 1))) = .idle := by
    rw [core_gapLexemes]
    rfl
  exact items_dropLast front rfl cut (phrasal_gapLexemes _) (List.cons_ne_nil _ _) (.inl idle)

theorem items_dropLast_simple (front : List Line) (depth : Nat) (simple : SimpleStatement) :
    items (linesText (front ++ [.code depth (.statement simple)])).dropLast =
      items (linesText (front ++ [.code depth (.statement simple)])) := by
  have cut : lex (Line.code depth (.statement simple)).text =
      gapLexemes (4 * depth) ++ simple.lexemes := by
    have text := (Spells.simpleStatement simple).cut [] nofun
    have seen := (Spells.simpleStatement simple).seen []
    rw [List.append_nil] at seen
    have gap := lex_gapLexemes (4 * depth) simple.text seen
    rw [lex, List.append_nil, List.append_nil] at text
    rw [text] at gap
    exact gap
  have phrasal : ∀ x ∈ gapLexemes (4 * depth) ++ simple.lexemes, IsPhrasal x :=
    List.forall_mem_append.mpr ⟨phrasal_gapLexemes _, simple.phrasal⟩
  have kind : lineKind (LogicalLine.core (gapLexemes (4 * depth) ++ simple.lexemes)) = .simple := by
    rw [core_append, core_gapLexemes]
    exact lineKind_simple simple
  obtain ⟨x, rest, begins, shown⟩ := simple.framed.first
  have member : x ∈ gapLexemes (4 * depth) ++ simple.lexemes := by simp [begins]
  exact items_dropLast front rfl cut phrasal (List.ne_nil_of_mem member)
    (.inr ⟨kind, x, member, shown.1⟩)

end CodeAtlas.Python

import CodeAtlas.Json
import CodeAtlas.Proofs.Json.Token

namespace CodeAtlas.Json

mutual

def IsWritten : Json → Prop
  | null => True
  | boolean _ => True
  | number literal => ∃ n : Nat, literal = toString n
  | string text => text ≠ none
  | array items => AreWritten items
  | object members => MembersWritten members

def AreWritten : List Json → Prop
  | [] => True
  | item :: items => item.IsWritten ∧ AreWritten items

def MembersWritten : List (Option String × Json) → Prop
  | [] => True
  | (key, value) :: members => key ≠ none ∧ value.IsWritten ∧ MembersWritten members

end

theorem areWritten_iff {items : List Json} : AreWritten items ↔ ∀ item ∈ items, item.IsWritten := by
  induction items with
  | nil => simp [AreWritten]
  | cons item items ih => rw [AreWritten, ih, List.forall_mem_cons]

theorem isWritten_record {members : List (String × Json)}
    (values : ∀ member ∈ members, member.2.IsWritten) : (record members).IsWritten := by
  rw [record, IsWritten]
  induction members with
  | nil => trivial
  | cons member members ih =>
      rw [List.forall_mem_cons] at values
      exact ⟨by simp, values.1, ih values.2⟩

/-! ## Tokens one by one -/

def scan? (reading : Reading) (s : List Char) : Option Reading :=
  (tokens? s).bind fun tokens => tokens.foldlM Reading.feed reading

variable {reading : Reading}

theorem scan?_nil : scan? reading [] = some reading := by
  rw [scan?, tokens?]
  rfl

theorem scan?_space {c : Char} (space : isSpace c = true) (rest : List Char) :
    scan? reading (c :: rest) = scan? reading rest := by
  rw [scan?, tokens?, if_pos space, scan?]

theorem scan?_token {c : Char} {rest after : List Char} {token : Token} (shown : isSpace c = false)
    (found : token? (c :: rest) = some (token, after)) :
    scan? reading (c :: rest) = (reading.feed token).bind (scan? · after) := by
  have tokens : tokens? (c :: rest) = (tokens? after).map (token :: ·) := by
    rw [tokens?, shown]
    simp only [Bool.false_eq_true, if_false]
    split
    · rename_i missing
      rw [found] at missing
      cases missing
    · rename_i other more same
      rw [found] at same
      cases same
      rfl
  rw [scan?, tokens]
  cases later : tokens? after with
  | none => cases reading.feed token <;> simp [scan?, later]
  | some others => cases next : reading.feed token <;> simp [scan?, later, next]

theorem scan?_step {c : Char} {rest after : List Char} {token : Token} {next : Reading}
    (shown : isSpace c = false) (found : token? (c :: rest) = some (token, after))
    (taken : reading.feed token = some next) : scan? reading (c :: rest) = scan? next after := by
  rw [scan?_token shown found, taken, Option.bind_some]

theorem scan?_newLine (level : Nat) (rest : List Char) :
    scan? reading (newLine level ++ rest) = scan? reading rest := by
  rw [newLine, List.cons_append, scan?_space rfl]
  generalize 2 * level = blanks
  induction blanks with
  | zero => rfl
  | succ blanks ih => rw [List.replicate_succ, List.cons_append, scan?_space rfl, ih]

theorem scan?_quote (s after : List Char) :
    scan? reading (quote s ++ after) =
      (reading.feed (.string (some (String.ofList s)))).bind (scan? · after) :=
  scan?_token rfl (token?_quote s after)

/-! ## Values -/

theorem endsNumber_layoutItems (level : Nat) (items : List Json) (rest : List Char) :
    EndsNumber (layoutItems level items ++ rest) := by
  intro c first
  cases items with
  | nil => cases first; decide
  | cons item items => cases first; decide

theorem endsNumber_layoutMembers (level : Nat) (members : List (Option String × Json))
    (rest : List Char) : EndsNumber (layoutMembers level members ++ rest) := by
  intro c first
  cases members with
  | nil => cases first; decide
  | cons member members => cases first; decide

theorem token?_layout_number (level n : Nat) {rest : List Char} (ends : EndsNumber rest) :
    ∃ c others, layout level (number (toString n)) ++ rest = c :: others ∧ isSpace c = false ∧
      token? (c :: others) = some (.number (toString n), rest) := by
  obtain ⟨first, others, shape, digit⟩ := Text.digitsOf_cons n
  have found := token?_digitsOf n ends
  rw [layout, Text.toList_toString, shape]
  rw [shape] at found
  exact ⟨first, _, rfl, isSpace_of_isDigit digit, found⟩

theorem token?_layout (level : Nat) {value : Json} (written : value.IsWritten) {rest : List Char}
    (ends : EndsNumber rest) : ∃ c others token after,
      layout level value ++ rest = c :: others ∧ isSpace c = false ∧
        token? (c :: others) = some (token, after) ∧ token ≠ .closeBracket := by
  cases value with
  | null => exact ⟨_, _, _, rest, rfl, rfl, rfl, by decide⟩
  | boolean b => cases b <;> exact ⟨_, _, _, rest, rfl, rfl, rfl, by simp⟩
  | number literal =>
      obtain ⟨n, rfl⟩ := written
      obtain ⟨first, others, shape, shown, found⟩ := token?_layout_number level n ends
      exact ⟨first, others, _, rest, shape, shown, found, by simp⟩
  | string text =>
      cases text with
      | none => exact absurd rfl written
      | some s => exact ⟨_, _, _, rest, rfl, rfl, token?_quote s.toList rest, by simp⟩
  | array items => cases items <;> exact ⟨_, _, _, _, rfl, rfl, rfl, by decide⟩
  | object members => cases members <;> exact ⟨_, _, _, _, rfl, rfl, rfl, by decide⟩

theorem scan?_firstItem (level : Nat) {value : Json} (written : value.IsWritten) {rest : List Char}
    (ends : EndsNumber rest) (frames : List Frame) :
    scan? (.firstItem frames) (layout level value ++ rest) =
      scan? (.value (.array [] :: frames)) (layout level value ++ rest) := by
  obtain ⟨c, others, token, after, shape, shown, found, begins⟩ := token?_layout level written ends
  rw [shape, scan?_token shown found, scan?_token shown found]
  congr 1
  cases token with
  | closeBracket => exact absurd rfl begins
  | _ => rfl

theorem scan?_key {key : Option String} {before : List (Option String × Json)} {frames : List Frame}
    (named : key ≠ none)
    (awaited : reading.feed (.string key) = some (.colon before key frames)) (rest : List Char) :
    scan? reading (quote (key.getD "").toList ++ ([':', ' '] ++ rest)) =
      scan? (.value (.object before key :: frames)) rest := by
  obtain ⟨name, rfl⟩ := Option.ne_none_iff_exists'.mp named
  rw [scan?_quote, Option.getD_some, String.ofList_toList, awaited, Option.bind_some]
  refine Eq.trans (scan?_step rfl rfl rfl) ?_
  exact scan?_space rfl rest

mutual

theorem scan?_layout (level : Nat) (frames : List Frame) {rest : List Char} (ends : EndsNumber rest) :
    (value : Json) → value.IsWritten →
      scan? (.value frames) (layout level value ++ rest) = scan? (.complete value frames) rest
  | null, _ => scan?_step rfl rfl rfl
  | boolean b, _ => by
      cases b with
      | true => exact scan?_step rfl rfl rfl
      | false => exact scan?_step rfl rfl rfl
  | number literal, written => by
      obtain ⟨n, rfl⟩ := written
      obtain ⟨first, others, shape, shown, found⟩ := token?_layout_number level n ends
      rw [shape]
      exact scan?_step shown found rfl
  | string none, written => absurd rfl written
  | string (some s), _ => by
      rw [layout, scan?_quote, String.ofList_toList]
      rfl
  | array [], _ => Eq.trans (scan?_step rfl rfl rfl) (scan?_step rfl rfl rfl)
  | array (item :: items), ⟨here, later⟩ => by
      have ended := endsNumber_layoutItems level items rest
      rw [layout, List.cons_append, List.append_assoc, List.append_assoc]
      refine Eq.trans (scan?_step rfl rfl rfl) ?_
      rw [scan?_newLine, scan?_firstItem _ here ended, scan?_layout (level + 1) _ ended item here,
        scan?_layoutItems level frames [] item rest items later]
      rfl
  | object [], _ => Eq.trans (scan?_step rfl rfl rfl) (scan?_step rfl rfl rfl)
  | object ((key, value) :: members), ⟨named, here, later⟩ => by
      rw [layout, List.cons_append, List.append_assoc, List.append_assoc, List.append_assoc,
        List.append_assoc]
      refine Eq.trans (scan?_step rfl rfl rfl) ?_
      rw [scan?_newLine, scan?_key named rfl]
      have ended := endsNumber_layoutMembers level members rest
      rw [scan?_layout (level + 1) _ ended value here,
        scan?_layoutMembers level frames [] key value rest members later]
      rfl

theorem scan?_layoutItems (level : Nat) (frames : List Frame) (before : List Json) (last : Json)
    (rest : List Char) : (items : List Json) → AreWritten items →
      scan? (.complete last (.array before :: frames)) (layoutItems level items ++ rest) =
        scan? (.complete (.array (before ++ last :: items)) frames) rest
  | [], _ => by
      rw [layoutItems, List.append_assoc, scan?_newLine]
      exact scan?_step rfl rfl rfl
  | item :: items, ⟨here, later⟩ => by
      have ended := endsNumber_layoutItems level items rest
      rw [layoutItems, List.cons_append, List.append_assoc, List.append_assoc]
      refine Eq.trans (scan?_step rfl rfl rfl) ?_
      rw [scan?_newLine, scan?_layout (level + 1) _ ended item here,
        scan?_layoutItems level frames (before ++ [last]) item rest items later, List.append_assoc]
      rfl

theorem scan?_layoutMembers (level : Nat) (frames : List Frame)
    (before : List (Option String × Json)) (key : Option String) (last : Json) (rest : List Char) :
    (members : List (Option String × Json)) → MembersWritten members →
      scan? (.complete last (.object before key :: frames)) (layoutMembers level members ++ rest) =
        scan? (.complete (.object (before ++ (key, last) :: members)) frames) rest
  | [], _ => by
      rw [layoutMembers, List.append_assoc, scan?_newLine]
      exact scan?_step rfl rfl rfl
  | (next, value) :: members, ⟨named, here, later⟩ => by
      rw [layoutMembers, List.cons_append, List.append_assoc, List.append_assoc, List.append_assoc,
        List.append_assoc]
      refine Eq.trans (scan?_step rfl rfl rfl) ?_
      rw [scan?_newLine, scan?_key named rfl]
      have ended := endsNumber_layoutMembers level members rest
      rw [scan?_layout (level + 1) _ ended value here,
        scan?_layoutMembers level frames (before ++ [(key, last)]) next value rest members later,
        List.append_assoc]
      rfl

end

theorem read?_pretty {value : Json} (written : value.IsWritten) : read? (pretty value) = some value := by
  have ends : EndsNumber [] := fun c first => by cases first
  have whole := scan?_layout 0 [] ends value written
  rw [List.append_nil, scan?_nil] at whole
  rw [read?, pretty, String.toList_ofList]
  rw [scan?] at whole
  rw [whole]

end CodeAtlas.Json

import CodeAtlas.Json
import CodeAtlas.Proofs.Text.Decimal

namespace CodeAtlas.Json

/-! ## Strings -/

def consUnit (c : Char) (read : Option (List Unit16 × List Char)) : Option (List Unit16 × List Char) :=
  read.map fun (units, after) => (.char c :: units, after)

theorem stringUnits?_escape {e c : Char} (named : escaped? e = some c) (rest : List Char) :
    stringUnits? ('\\' :: e :: rest) = consUnit c (stringUnits? rest) := by
  have unnumbered : e ≠ 'u' := by
    rintro rfl
    cases named
  rw [stringUnits?, named]
  · cases stringUnits? rest with
    | none => rfl
    | some read => rfl
  · intro _ _ _ _ _ marked
    exact absurd marked unnumbered

theorem stringUnits?_control {c : Char} (control : c < ' ') (rest : List Char) :
    stringUnits? ('\\' :: 'u' :: '0' :: '0' :: Text.hexDigit (c.toNat / 16) ::
        Text.hexDigit (c.toNat % 16) :: rest) = consUnit c (stringUnits? rest) := by
  have read : ∀ n, n < 32 →
      Text.natOfBase? 16 ['0', '0', Text.hexDigit (n / 16), Text.hexDigit (n % 16)] = some n := by
    decide
  have small : c.toNat < 32 := control
  have unit : Unit16.ofNat c.toNat = .char c := by
    have single : ∀ n, n < 32 → (0xD800 ≤ n && n < 0xDC00) = false ∧ (0xDC00 ≤ n && n < 0xE000) = false := by
      decide
    rw [Unit16.ofNat, (single _ small).1, (single _ small).2, Char.ofNat_toNat]
    rfl
  rw [stringUnits?, read _ small]
  cases stringUnits? rest with
  | none => rfl
  | some found =>
      change some (Unit16.ofNat c.toNat :: found.1, found.2) = _
      rw [unit]
      rfl

theorem stringUnits?_plain {c : Char} (quote : c ≠ '"') (backslash : c ≠ '\\') (printed : ¬ c < ' ')
    (rest : List Char) : stringUnits? (c :: rest) = consUnit c (stringUnits? rest) := by
  rw [stringUnits?, if_neg printed]
  · rfl
  · intro same
    exact absurd same quote
  · intro _ _ _ _ _ same
    exact absurd same backslash
  · intro _ _ same
    exact absurd same backslash

theorem stringUnits?_escapeChar (c : Char) (rest : List Char) :
    stringUnits? (escapeChar c ++ rest) = consUnit c (stringUnits? rest) := by
  unfold escapeChar
  split
  · rename_i same
    subst same
    exact stringUnits?_escape rfl rest
  rename_i quote
  split
  · rename_i same
    subst same
    exact stringUnits?_escape rfl rest
  rename_i backslash
  split
  · rename_i same
    subst same
    exact stringUnits?_escape rfl rest
  split
  · rename_i same
    subst same
    exact stringUnits?_escape rfl rest
  split
  · rename_i same
    subst same
    exact stringUnits?_escape rfl rest
  split
  · rename_i same
    subst same
    exact stringUnits?_escape rfl rest
  split
  · rename_i same
    subst same
    exact stringUnits?_escape rfl rest
  split
  · rename_i control
    exact stringUnits?_control control rest
  · rename_i printed
    exact stringUnits?_plain quote backslash printed rest

theorem stringUnits?_escaped (s after : List Char) :
    stringUnits? (s.flatMap escapeChar ++ '"' :: after) = some (s.map .char, after) := by
  induction s with
  | nil => rfl
  | cons c rest ih =>
      rw [List.flatMap_cons, List.append_assoc, stringUnits?_escapeChar, ih]
      rfl

theorem assemble?_chars (s : List Char) : assemble? (s.map .char) = some s := by
  induction s with
  | nil => rfl
  | cons c rest ih => rw [List.map_cons, assemble?, ih, Option.map_some]

theorem token?_quote (s after : List Char) :
    token? (quote s ++ after) = some (.string (some (String.ofList s)), after) := by
  have shape : quote s ++ after = '"' :: (s.flatMap escapeChar ++ '"' :: after) := by
    simp [quote]
  rw [shape, token?, stringUnits?_escaped, Option.map_some]
  simp only [assemble?_chars, Option.map_some]

/-! ## Numbers -/

def EndsNumber (s : List Char) : Prop :=
  ∀ c ∈ s.head?, Text.isDigit c = false ∧ c ≠ '.' ∧ c ≠ 'e' ∧ c ≠ 'E'

theorem whole?_digitsOf (n : Nat) {rest : List Char} (stop : Text.NoDigit rest) :
    whole? (Text.digitsOf n ++ rest) = some (Text.digitsOf n, rest) := by
  cases shape : Text.digitsOf n with
  | nil => exact absurd shape (Text.digitsOf_ne_nil n)
  | cons first others =>
      by_cases zero : first = '0'
      · subst zero
        obtain rfl := Text.eq_zero_of_digitsOf shape
        have single : Text.digitsOf 0 = ['0'] := rfl
        rw [single, List.cons.injEq] at shape
        rw [← shape.2]
        rfl
      · rw [List.cons_append, whole?, ← List.cons_append, ← shape, digits?,
          Text.takeWhile_digitsOf n stop, Text.dropWhile_digitsOf n stop, if_neg]
        · simp [Text.digitsOf_ne_nil]
        · intro _ same
          exact absurd (List.cons.inj same).1 zero

theorem unsigned?_digitsOf (n : Nat) {rest : List Char} (stop : EndsNumber rest) :
    unsigned? (Text.digitsOf n ++ rest) = some (Text.digitsOf n, rest) := by
  have noDigit : Text.NoDigit rest := fun c first => (stop c first).1
  have noFraction : fraction? rest = some ([], rest) := by
    unfold fraction?
    split
    · exact absurd rfl (stop '.' rfl).2.1
    · rfl
  have noExponent : exponent? rest = some ([], rest) := by
    unfold exponent?
    split
    · rfl
    · rename_i c others
      obtain ⟨-, -, small, capital⟩ := stop c rfl
      rw [if_neg (not_or.mpr ⟨small, capital⟩)]
  rw [unsigned?, whole?_digitsOf n noDigit]
  simp [noFraction, noExponent]

theorem token?_digitsOf (n : Nat) {rest : List Char} (stop : EndsNumber rest) :
    token? (Text.digitsOf n ++ rest) = some (.number (toString n), rest) := by
  obtain ⟨first, others, shape, digit⟩ := Text.digitsOf_cons n
  have literal : String.ofList (first :: others) = toString n := by
    rw [← shape, ← Text.toList_toString, String.ofList_toList]
  have read := unsigned?_digitsOf n stop
  rw [shape, List.cons_append] at read ⊢
  unfold token?
  split
  case h_12 => rw [read, ← literal]; rfl
  -- No other token begins with a digit.
  all_goals
    rename_i same
    obtain ⟨rfl, -⟩ := List.cons.inj same
    cases digit

theorem isSpace_of_isDigit {c : Char} (digit : Text.isDigit c = true) : isSpace c = false := by
  rw [Bool.eq_false_iff]
  intro space
  simp only [isSpace, Bool.or_eq_true, beq_iff_eq] at space
  rcases space with ((rfl | rfl) | rfl) | rfl <;> cases digit

end CodeAtlas.Json

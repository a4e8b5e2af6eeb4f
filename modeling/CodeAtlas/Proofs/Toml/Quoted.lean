import CodeAtlas.Toml.Printer
import CodeAtlas.Toml.Quoted

namespace CodeAtlas.Toml

/-! ## Characters -/

inductive Escaped : Char → List Char → Prop where
  | named {c e : Char} (name : escaped? e = some c) : Escaped c ['\\', e]
  | numbered {c a b d e : Char} (number : numbered? [a, b, d, e] = some c) :
      Escaped c ['\\', 'u', a, b, d, e]
  | plain {c : Char} (plain : isPlain c = true) (quote : c ≠ '"') (backslash : c ≠ '\\') : Escaped c [c]

theorem isPlain_of_no_escape {c : Char} (clean : needsEscape c = false) (inline : c ≠ '\n') :
    isPlain c = true := by
  simp only [needsEscape, Bool.or_eq_false_iff, Bool.and_eq_false_iff, decide_eq_false_iff_not,
    bne_eq_false_iff_eq, beq_eq_false_iff_ne] at clean
  simp only [isPlain, Bool.or_eq_true, Bool.and_eq_true, decide_eq_true_eq, beq_iff_eq, bne_iff_ne]
  obtain ⟨(printed | tab) | feed, mark⟩ := clean
  · exact Or.inr ⟨Char.not_lt.mp printed, mark⟩
  · exact Or.inl tab
  · exact absurd feed inline

theorem escaped_escapeChar (c : Char) : Escaped c (escapeChar c) := by
  unfold escapeChar
  split
  · rename_i same
    subst same
    exact .named rfl
  split
  · rename_i same
    subst same
    exact .named rfl
  split
  · rename_i same
    subst same
    exact .named rfl
  rename_i inline
  split
  · rename_i same
    subst same
    exact .named rfl
  split
  · rename_i same
    subst same
    exact .named rfl
  split
  · rename_i same
    subst same
    exact .named rfl
  rename_i quote
  split
  · rename_i same
    subst same
    exact .named rfl
  rename_i backslash
  split
  · rename_i marked
    have small : c.toNat < 128 := by
      simp only [needsEscape, Bool.or_eq_true, Bool.and_eq_true, decide_eq_true_eq, beq_iff_eq] at marked
      rcases marked with ⟨⟨control, -⟩, -⟩ | delete
      · exact Nat.lt_trans control (by decide)
      · omega
    have numbered : ∀ n, n < 128 →
        numbered? ['0', '0', Text.capitalDigit (n / 16), Text.capitalDigit (n % 16)] =
          some (Char.ofNat n) := by
      decide
    refine .numbered ?_
    rw [numbered _ small, Char.ofNat_toNat]
  · rename_i clean
    exact .plain (isPlain_of_no_escape (Bool.not_eq_true _ ▸ clean) inline) quote backslash

theorem not_line_end_of_plain {c : Char} (plain : isPlain c = true) : c ≠ '\n' ∧ c ≠ '\r' := by
  constructor
  · rintro rfl
    cases plain
  · rintro rfl
    cases plain

theorem Escaped.head {c : Char} {written : List Char} (shown : Escaped c written) :
    ∃ x others, written = x :: others ∧ x ≠ '"' ∧ x ≠ '\n' ∧ x ≠ '\r' := by
  cases shown with
  | named name => exact ⟨_, _, rfl, by decide, by decide, by decide⟩
  | numbered number => exact ⟨_, _, rfl, by decide, by decide, by decide⟩
  | plain plain quote backslash => exact ⟨_, _, rfl, quote, not_line_end_of_plain plain⟩

/-! ## One line -/

theorem basic?_escaped {c : Char} {written : List Char} (shown : Escaped c written)
    (rest : List Char) : basic? (written ++ rest) = consRead (some c) (basic? rest) := by
  cases shown with
  | named name =>
      rw [← name]
      simp only [List.cons_append, List.nil_append]
      rw [basic?]
      · rintro _ _ _ _ _ rfl
        cases name
      · rintro _ _ _ _ _ _ _ _ _ rfl
        cases name
  | numbered number => rw [← number]; rfl
  | plain plain quote backslash =>
      simp only [List.cons_append, List.nil_append]
      rw [basic?, if_pos plain]
      · exact quote
      · intro _ _ _ _ _ same
        exact absurd same backslash
      · intro _ _ _ _ _ _ _ _ _ same
        exact absurd same backslash
      · intro _ _ same
        exact absurd same backslash

theorem basic?_escapeChars (s rest : List Char) :
    basic? (s.flatMap escapeChar ++ '"' :: rest) = some (s, rest) := by
  induction s with
  | nil => rfl
  | cons c s ih =>
      rw [List.flatMap_cons, List.append_assoc, basic?_escaped (escaped_escapeChar c), ih]
      rfl

theorem literal?_plain {s : List Char} (plain : ∀ c ∈ s, isPlain c = true) (clear : '\'' ∉ s)
    (rest : List Char) : literal? (s ++ '\'' :: rest) = some (s, rest) := by
  induction s with
  | nil => rfl
  | cons c s ih =>
      rw [List.forall_mem_cons] at plain
      rw [List.mem_cons, not_or] at clear
      rw [List.cons_append, literal?, if_pos plain.1, ih plain.2 clear.2]
      · rfl
      · exact fun same => clear.1 same.symm

/-! ## Several lines -/

theorem longBasic?_plain {c : Char} (plain : isPlain c = true) (backslash : c ≠ '\\')
    {rest : List Char} (apart : c = '"' → ¬ ['"', '"'] <+: rest) :
    longBasic? false (c :: rest) = consRead (some c) (longBasic? false rest) := by
  obtain ⟨feed, carriage⟩ := not_line_end_of_plain plain
  rw [longBasic?, if_pos plain]
  · rintro more quote rfl
    exact apart quote (by simp)
  · rintro more quote rfl
    exact apart quote (by simp)
  · rintro more quote rfl
    exact apart quote (by simp)
  · exact feed
  · exact fun _ same _ => carriage same
  · exact fun _ _ _ _ _ same _ => backslash same
  · exact fun _ _ _ _ _ _ _ _ _ same _ => backslash same
  · exact fun _ _ same _ => backslash same
  all_goals simp

theorem longBasic?_escaped {c : Char} {written : List Char} (shown : Escaped c written)
    (rest : List Char) :
    longBasic? false (written ++ rest) = consRead (some c) (longBasic? false rest) := by
  cases shown with
  | named name =>
      rename_i e
      have stays : endsLine (e :: rest) = false := by
        unfold endsLine
        split
        case h_5 => rfl
        all_goals
          rename_i same
          cases same
          cases name
      have shape : ['\\', e] ++ rest = '\\' :: e :: rest := rfl
      rw [shape, longBasic?, if_neg (Bool.not_eq_true _ ▸ stays), name]
      · rintro _ _ _ _ _ rfl
        cases name
      · rintro _ _ _ _ _ _ _ _ _ rfl
        cases name
  | numbered number => rw [← number]; rfl
  | plain plain quote backslash => exact longBasic?_plain plain backslash (absurd · quote)

theorem longBasic?_close {rest : List Char} (quiet : rest.head? ≠ some '"') :
    longBasic? false ('"' :: '"' :: '"' :: rest) = some ([], rest) ∧
      longBasic? false ('"' :: '"' :: '"' :: '"' :: rest) = some (['"'], rest) := by
  have next : ∀ more, rest = '"' :: more → False := by
    rintro more rfl
    exact quiet rfl
  constructor
  · rw [longBasic?]
    · rintro more rfl
      exact quiet rfl
    · exact next
  · rw [longBasic?]
    exact next

theorem escapeLong_head (run : Nat) {c : Char} (s : List Char) (apart : c ≠ '"' ∨ 2 ≤ run) :
    ∃ x others, escapeLong run (c :: s) = x :: others ∧ x ≠ '"' := by
  rw [escapeLong]
  split
  · rename_i quote
    have many := apart.resolve_left (absurd quote)
    rw [if_neg (Nat.not_lt.mpr many)]
    exact ⟨_, _, rfl, by decide⟩
  split
  · exact ⟨_, _, rfl, by decide⟩
  · obtain ⟨x, others, shape, quote, -⟩ := (escaped_escapeChar c).head
    rw [shape]
    exact ⟨x, _, rfl, quote⟩

theorem escapeLong_inline {c : Char} (inline : c ≠ '\n') (s : List Char) :
    ∃ x others, escapeLong 0 (c :: s) = x :: others ∧ x ≠ '\n' ∧ x ≠ '\r' := by
  rw [escapeLong]
  split
  · exact ⟨_, _, rfl, by decide, by decide⟩
  · obtain ⟨x, others, shape, -, ends⟩ := (escaped_escapeChar c).head
    rw [shape]
    exact ⟨x, _, rfl, ends⟩

theorem escapeLong_apart {run : Nat} {s : List Char} (nonempty : s ≠ []) (longer : run = 0 → s ≠ ['"'])
    (rest : List Char) : ¬ ['"', '"'] <+: escapeLong (run + 1) s ++ rest := by
  intro front
  cases s with
  | nil => exact nonempty rfl
  | cons c s =>
      by_cases second : c = '"' ∧ run + 1 < 2
      · obtain ⟨rfl, few⟩ := second
        cases s with
        | nil => exact longer (by omega) rfl
        | cons d s =>
            obtain ⟨x, others, shape, apart⟩ :=
              escapeLong_head (run + 1 + 1) (c := d) s (Or.inr (by omega))
            rw [escapeLong, if_pos rfl, if_pos few, shape] at front
            simp only [List.cons_append, List.cons_prefix_cons] at front
            exact apart front.2.1.symm
      · obtain ⟨x, others, shape, apart⟩ := escapeLong_head (run + 1) s
          (Decidable.or_iff_not_imp_left.mpr fun quote =>
            Nat.not_lt.mp fun few => second ⟨Decidable.not_not.mp quote, few⟩)
        rw [shape] at front
        simp only [List.cons_append, List.cons_prefix_cons] at front
        exact apart front.1.symm

/-- The quotation marks of a text, also at its end, are told from the marks that close it. -/
theorem longBasic?_escapeLong (run : Nat) (s : List Char) {rest : List Char}
    (quiet : rest.head? ≠ some '"') :
    longBasic? false (escapeLong run s ++ '"' :: '"' :: '"' :: rest) = some (s, rest) := by
  induction s generalizing run with
  | nil => exact (longBasic?_close quiet).1
  | cons c s ih =>
      rw [escapeLong]
      split
      · rename_i quote
        subst quote
        split
        · rename_i few
          -- A mark that stays is the last one or the last but one, or no two marks follow it.
          by_cases last : s = []
          · subst last
            exact (longBasic?_close quiet).2
          by_cases single : run = 0 ∧ s = ['"']
          · obtain ⟨rfl, rfl⟩ := single
            rfl
          · have apart := escapeLong_apart last (not_and.mp single) ('"' :: '"' :: '"' :: rest)
            rw [List.cons_append, longBasic?_plain rfl (by decide) fun _ => apart, ih]
            rfl
        · have shape : '\\' :: '"' :: escapeLong 0 s = ['\\', '"'] ++ escapeLong 0 s := rfl
          rw [shape, List.append_assoc, longBasic?_escaped (.named rfl), ih]
          rfl
      split
      · rename_i feed
        subst feed
        rw [List.cons_append, longBasic?, ih]
        · rfl
        · simp
      · rw [List.append_assoc, longBasic?_escaped (escaped_escapeChar c), ih]
        rfl

theorem le_longestRun (mark : Char) (run : Nat) (s : List Char) : run ≤ longestRun mark run s := by
  induction s generalizing run with
  | nil => exact Nat.le_refl run
  | cons c s ih =>
      rw [longestRun]
      split
      · exact Nat.le_trans (Nat.le_succ run) (ih (run + 1))
      · exact Nat.le_max_left _ _

theorem longestRun_mono (mark : Char) {few many : Nat} (le : few ≤ many) (s : List Char) :
    longestRun mark few s ≤ longestRun mark many s := by
  induction s generalizing few many with
  | nil => exact le
  | cons c s ih =>
      rw [longestRun, longestRun]
      split
      · exact ih (Nat.succ_le_succ le)
      · exact Nat.max_le.mpr ⟨Nat.le_trans le (Nat.le_max_left _ _), Nat.le_max_right _ _⟩

theorem longestRun_tail (mark c : Char) (s : List Char) :
    longestRun mark 0 s ≤ longestRun mark 0 (c :: s) := by
  rw [longestRun]
  split
  · exact longestRun_mono mark (Nat.zero_le 1) s
  · exact Nat.le_max_right _ _

theorem longLiteral?_plain {c : Char} (plain : isPlain c = true) {rest : List Char}
    (apart : c = '\'' → ¬ ['\'', '\''] <+: rest) :
    longLiteral? (c :: rest) = consRead (some c) (longLiteral? rest) := by
  obtain ⟨feed, carriage⟩ := not_line_end_of_plain plain
  rw [longLiteral?, if_pos plain]
  · rintro more quote rfl
    exact apart quote (by simp)
  · rintro more quote rfl
    exact apart quote (by simp)
  · rintro more quote rfl
    exact apart quote (by simp)
  · exact feed
  · exact fun _ same _ => carriage same

theorem longLiteral?_close {rest : List Char} (quiet : rest.head? ≠ some '\'') :
    longLiteral? ('\'' :: '\'' :: '\'' :: rest) = some ([], rest) ∧
      longLiteral? ('\'' :: '\'' :: '\'' :: '\'' :: rest) = some (['\''], rest) := by
  have next : ∀ more, rest = '\'' :: more → False := by
    rintro more rfl
    exact quiet rfl
  constructor
  · rw [longLiteral?]
    · rintro more rfl
      exact quiet rfl
    · exact next
  · rw [longLiteral?]
    exact next

theorem longLiteral?_of_longestRun {s : List Char} (clean : ∀ c ∈ s, needsEscape c = false)
    (few : longestRun '\'' 0 s ≤ 2) {rest : List Char} (quiet : rest.head? ≠ some '\'') :
    longLiteral? (s ++ '\'' :: '\'' :: '\'' :: rest) = some (s, rest) := by
  induction s with
  | nil => exact (longLiteral?_close quiet).1
  | cons c s ih =>
      rw [List.forall_mem_cons] at clean
      have onward := ih clean.2 (Nat.le_trans (longestRun_tail '\'' c s) few)
      by_cases feed : c = '\n'
      · subst feed
        rw [List.cons_append, longLiteral?, onward]
        rfl
      have plain := isPlain_of_no_escape clean.1 feed
      by_cases mark : c = '\''
      · subst mark
        by_cases last : s = []
        · subst last
          exact (longLiteral?_close quiet).2
        by_cases single : s = ['\'']
        · subst single
          rfl
        have apart : ¬ ['\'', '\''] <+: s ++ '\'' :: '\'' :: '\'' :: rest := by
          intro front
          match s, last, single with
          | [d], _, single =>
            rw [List.cons_append, List.cons_prefix_cons] at front
            exact single (by rw [front.1])
          | d :: e :: u, _, _ =>
            simp only [List.cons_append, List.cons_prefix_cons] at front
            obtain ⟨rfl, rfl, -⟩ := front
            have many := le_longestRun '\'' (0 + 1 + 1 + 1) u
            simp only [longestRun, if_true] at few
            omega
        rw [List.cons_append, longLiteral?_plain plain fun _ => apart, onward]
        rfl
      · rw [List.cons_append, longLiteral?_plain plain (absurd · mark), onward]
        rfl

/-! ## Quotes -/

theorem dropNewline_of_head {c : Char} {s : List Char} (feed : c ≠ '\n') (carriage : c ≠ '\r') :
    dropNewline (c :: s) = c :: s := by
  rw [dropNewline]
  · exact fun _ same => feed (List.cons.inj same).1
  · exact fun _ same => carriage (List.cons.inj same).1

theorem leadingNewline_of_mem {s : List Char} (breaks : '\n' ∈ s) : leadingNewline s = ['\n'] := by
  rw [leadingNewline, if_pos (List.contains_iff_mem.mpr breaks)]

theorem leadingNewline_of_not_mem {s : List Char} (inline : '\n' ∉ s) : leadingNewline s = [] := by
  rw [leadingNewline, if_neg (mt List.contains_iff_mem.mp inline)]

theorem dropNewline_leadingNewline {s body : List Char}
    (inline : '\n' ∉ s → ∀ c ∈ body.head?, c ≠ '\n' ∧ c ≠ '\r') :
    dropNewline (leadingNewline s ++ body) = body := by
  by_cases breaks : '\n' ∈ s
  · rw [leadingNewline_of_mem breaks]
    rfl
  rw [leadingNewline_of_not_mem breaks, List.nil_append]
  cases body with
  | nil => rfl
  | cons c rest =>
      obtain ⟨feed, carriage⟩ := inline breaks c rfl
      exact dropNewline_of_head feed carriage

theorem quoted?_quoteBasic (s : List Char) {rest : List Char} (quiet : rest.head? ≠ some '"') :
    quoted? (quoteBasic s ++ rest) = some (s, rest) := by
  have shape : quoteBasic s ++ rest = '"' :: (s.flatMap escapeChar ++ '"' :: rest) := by
    simp [quoteBasic]
  rw [shape, quoted?, basic?_escapeChars]
  -- These are not three marks.
  intro more same
  cases s with
  | nil =>
      obtain rfl := (List.cons.inj same).2
      exact quiet rfl
  | cons c s =>
      obtain ⟨x, others, head, quote, -⟩ := (escaped_escapeChar c).head
      rw [List.flatMap_cons, head] at same
      exact quote (List.cons.inj same).1

theorem quoted?_quoteLiteral {s : List Char} (clean : ∀ c ∈ s, needsEscape c = false)
    (inline : '\n' ∉ s) (clear : '\'' ∉ s) {rest : List Char} (quiet : rest.head? ≠ some '\'') :
    quoted? (quoteLiteral s ++ rest) = some (s, rest) := by
  have shape : quoteLiteral s ++ rest = '\'' :: (s ++ '\'' :: rest) := by
    simp [quoteLiteral]
  have plain : ∀ c ∈ s, isPlain c = true := fun c member =>
    isPlain_of_no_escape (clean c member) fun same => inline (same ▸ member)
  rw [shape, quoted?, literal?_plain plain clear]
  intro more same
  cases s with
  | nil =>
      obtain rfl := (List.cons.inj same).2
      exact quiet rfl
  | cons c s =>
      rw [List.mem_cons, not_or] at clear
      exact clear.1 (List.cons.inj same).1.symm

theorem quoted?_quoteLong (s : List Char) {rest : List Char} (quiet : rest.head? ≠ some '"') :
    quoted? (quoteLong s ++ rest) = some (s, rest) := by
  have shape : quoteLong s ++ rest = '"' :: '"' :: '"' ::
      (leadingNewline s ++ (escapeLong 0 s ++ '"' :: '"' :: '"' :: rest)) := by
    simp [quoteLong]
  have inline : '\n' ∉ s →
      ∀ x ∈ (escapeLong 0 s ++ '"' :: '"' :: '"' :: rest).head?, x ≠ '\n' ∧ x ≠ '\r' := by
    intro breaks x first
    cases s with
    | nil =>
        cases first
        decide
    | cons c s =>
        rw [List.mem_cons, not_or] at breaks
        obtain ⟨y, others, head, ends⟩ := escapeLong_inline (Ne.symm breaks.1) s
        rw [head] at first
        cases first
        exact ends
  rw [shape, quoted?, dropNewline_leadingNewline inline, longBasic?_escapeLong 0 s quiet]

theorem quoted?_quoteLongLiteral {s : List Char} (clean : ∀ c ∈ s, needsEscape c = false)
    (few : longestRun '\'' 0 s ≤ 2) {rest : List Char} (quiet : rest.head? ≠ some '\'') :
    quoted? (quoteLongLiteral s ++ rest) = some (s, rest) := by
  have shape : quoteLongLiteral s ++ rest = '\'' :: '\'' :: '\'' ::
      (leadingNewline s ++ (s ++ '\'' :: '\'' :: '\'' :: rest)) := by
    simp [quoteLongLiteral]
  have inline : '\n' ∉ s →
      ∀ x ∈ (s ++ '\'' :: '\'' :: '\'' :: rest).head?, x ≠ '\n' ∧ x ≠ '\r' := by
    intro breaks x first
    cases s with
    | nil =>
        cases first
        decide
    | cons c s =>
        cases first
        rw [List.mem_cons, not_or] at breaks
        exact not_line_end_of_plain
          (isPlain_of_no_escape (clean _ List.mem_cons_self) (Ne.symm breaks.1))
  rw [shape, quoted?, dropNewline_leadingNewline inline,
    longLiteral?_of_longestRun clean few quiet]

theorem quoted?_quote (s : List Char) {rest : List Char} (quotes : rest.head? ≠ some '"')
    (apostrophes : rest.head? ≠ some '\'') : quoted? (quote s ++ rest) = some (s, rest) := by
  have cleanOf : s.any needsEscape = false → ∀ c ∈ s, needsEscape c = false := fun none_needs c member =>
    by simpa using List.any_eq_false.mp none_needs c member
  unfold quote
  simp only
  split
  · exact quoted?_quoteBasic s quotes
  split
  · rename_i usable
    simp only [Bool.and_eq_true, Bool.not_eq_true', List.contains_eq_mem, decide_eq_false_iff_not]
      at usable
    exact quoted?_quoteLiteral (cleanOf usable.1.1) usable.1.2 usable.2 apostrophes
  split
  · exact quoted?_quoteLong s quotes
  split
  · rename_i usable
    simp only [Bool.and_eq_true, Bool.not_eq_true', decide_eq_true_eq] at usable
    exact quoted?_quoteLongLiteral (cleanOf usable.1) usable.2 apostrophes
  split
  · exact quoted?_quoteLong s quotes
  · exact quoted?_quoteBasic s quotes

end CodeAtlas.Toml

import CodeAtlas.Proofs.Text.Decimal
import CodeAtlas.Proofs.Text.Search
import CodeAtlas.Text
import Mathlib.Data.List.TakeWhile

namespace CodeAtlas.Text

def IsOneLine (s : String) : Prop := '\n' ∉ s.toList

instance (s : String) : Decidable (IsOneLine s) := inferInstanceAs (Decidable ('\n' ∉ s.toList))

@[simp]
theorem isOneLine_append {s t : String} : IsOneLine (s ++ t) ↔ IsOneLine s ∧ IsOneLine t := by
  simp [IsOneLine]

@[simp]
theorem isOneLine_ofList {s : List Char} : IsOneLine (String.ofList s) ↔ '\n' ∉ s := by
  simp [IsOneLine]

@[simp]
theorem isOneLine_toString (n : Nat) : IsOneLine (toString n) := by
  rw [IsOneLine, toList_toString]
  exact fun member => absurd (isDigit_of_mem_digitsOf member) (by decide)

theorem isOneLine_joinStrings {separator : String} {items : List String}
    (between : IsOneLine separator) (each : ∀ item ∈ items, IsOneLine item) :
    IsOneLine (joinStrings separator items) := by
  fun_induction joinStrings separator items with
  | case1 => decide
  | case2 piece => exact each piece (List.mem_singleton_self piece)
  | case3 piece rest nonempty ih =>
      rw [List.forall_mem_cons] at each
      simp [each.1, between, ih each.2]

theorem not_mem_of_mem_linesOf {s line : List Char} (member : line ∈ linesOf s) : '\n' ∉ line := by
  fun_induction linesOf s generalizing line with
  | case1 => cases member
  | case2 rest ih =>
      rcases List.mem_cons.mp member with rfl | member
      · exact List.not_mem_nil
      · exact ih member
  | case3 rest ih =>
      rcases List.mem_cons.mp member with rfl | member
      · exact List.not_mem_nil
      · exact ih member
  | case4 c rest noFeed _ _ _ =>
      rw [List.mem_singleton] at member
      rw [member, List.mem_singleton]
      exact fun feed => noFeed feed.symm
  | case5 c rest noFeed _ first others split ih =>
      rw [split] at ih
      rcases List.mem_cons.mp member with rfl | member
      · rw [List.mem_cons, not_or]
        exact ⟨fun feed => noFeed feed.symm, ih List.mem_cons_self⟩
      · exact ih (List.mem_cons_of_mem first member)

/-! ## Rows -/

def rows (s : String) : List String := (splitOn '\n' s.toList).map String.ofList

theorem toList_unlines_cons (line : String) (rest : List String) :
    (unlines (line :: rest)).toList = line.toList ++ '\n' :: (unlines rest).toList := by
  simp [unlines]

theorem toList_unlines (lines : List String) :
    (unlines lines).toList = lines.flatMap fun line => line.toList ++ ['\n'] := by
  induction lines with
  | nil => rfl
  | cons line rest ih => rw [toList_unlines_cons, ih, List.flatMap_cons, List.append_assoc]; rfl

theorem splitOn_unlines {lines : List String} (each : ∀ line ∈ lines, IsOneLine line) :
    splitOn '\n' (unlines lines).toList = lines.map String.toList ++ [[]] := by
  induction lines with
  | nil => rfl
  | cons line rest ih =>
      rw [List.forall_mem_cons] at each
      rw [toList_unlines_cons, splitOn_append, splitOn_of_not_mem '\n' line.toList each.1, ih each.2]
      rfl

theorem rows_of_isOneLine {line : String} (oneLine : IsOneLine line) : rows line = [line] := by
  rw [rows, splitOn_of_not_mem '\n' line.toList oneLine, List.map_singleton, String.ofList_toList]

theorem rows_unlines_append (front back : List String) :
    rows (unlines (front ++ back)) = front.flatMap rows ++ rows (unlines back) := by
  induction front with
  | nil => rfl
  | cons line front ih =>
      rw [List.flatMap_cons, List.append_assoc, ← ih, List.cons_append, rows, toList_unlines_cons,
        splitOn_append, List.map_append]
      rfl

theorem rows_unlines {lines : List String} (each : ∀ line ∈ lines, IsOneLine line) :
    rows (unlines lines) = lines ++ [""] := by
  rw [rows, splitOn_unlines each, List.map_append, List.map_map]
  simp [Function.comp_def]

theorem head?_rows_unlines {line : String} (oneLine : IsOneLine line) (rest : List String) :
    (rows (unlines (line :: rest))).head? = some line := by
  rw [rows, toList_unlines_cons, splitOn_append, splitOn_of_not_mem '\n' line.toList oneLine]
  simp

/-! ## Lines are rows -/

def chomp : List Char → List Char
  | [] => []
  | ['\r'] => []
  | c :: rest => c :: chomp rest

theorem eq_chomp_or (row : List Char) : row = chomp row ∨ row = chomp row ++ ['\r'] := by
  fun_induction chomp row with
  | case1 => exact .inl rfl
  | case2 => exact .inr rfl
  | case3 c rest _ ih => exact ih.imp (congrArg (c :: ·)) (congrArg (c :: ·))

theorem splitOn_cons {c : Char} {rest row : List Char} {rows : List (List Char)} (noFeed : c ≠ '\n')
    (split : splitOn '\n' rest = row :: rows) : splitOn '\n' (c :: rest) = (c :: row) :: rows := by
  simp [splitOn, noFeed, split]

theorem eq_feed_of_splitOn {rest row : List Char} {rows : List (List Char)}
    (split : splitOn '\n' rest = [] :: row :: rows) : ∃ more, rest = '\n' :: more := by
  cases rest with
  | nil => cases split
  | cons c more =>
      by_cases feed : c = '\n'
      · exact ⟨more, by rw [feed]⟩
      · obtain ⟨first, others, shape⟩ := List.exists_cons_of_ne_nil (splitOn_ne_nil '\n' more)
        rw [splitOn_cons feed shape] at split
        cases split

theorem linesOf_eq (s : List Char) : ∃ rows last, splitOn '\n' s = rows ++ [last] ∧
    linesOf s = rows.map chomp ++ if last.isEmpty then [] else [last] := by
  fun_induction linesOf s with
  | case1 => exact ⟨[], [], rfl, rfl⟩
  | case2 rest ih =>
      obtain ⟨rows, last, split, lines⟩ := ih
      exact ⟨[] :: rows, last, by simp [splitOn, split], by rw [lines]; rfl⟩
  | case3 rest ih =>
      obtain ⟨rows, last, split, lines⟩ := ih
      exact ⟨['\r'] :: rows, last, by simp [splitOn, split], by rw [lines]; rfl⟩
  | case4 c rest noFeed noReturn nothing ih =>
      obtain ⟨rows, last, split, lines⟩ := ih
      rw [nothing, eq_comm, List.append_eq_nil_iff, List.map_eq_nil_iff] at lines
      obtain ⟨rfl, empty⟩ := lines
      cases last with
      | nil => exact ⟨[], [c], splitOn_cons noFeed split, rfl⟩
      | cons first others => cases empty
  | case5 c rest noFeed noReturn first others found ih =>
      obtain ⟨rows, last, split, lines⟩ := ih
      rw [found] at lines
      cases rows with
      | nil =>
          refine ⟨[], c :: last, splitOn_cons noFeed split, ?_⟩
          cases last with
          | nil => cases lines
          | cons next more =>
              cases lines
              rfl
      | cons row rows =>
          rw [List.map_cons, List.cons_append, List.cons.injEq] at lines
          obtain ⟨rfl, rfl⟩ := lines
          refine ⟨(c :: row) :: rows, last, splitOn_cons noFeed split, ?_⟩
          -- A carriage return just before the line feed has a case of its own.
          have kept : chomp (c :: row) = c :: chomp row := by
            rw [chomp]
            rintro rfl rfl
            obtain ⟨next, others, shape⟩ :=
              List.exists_cons_of_ne_nil (List.concat_ne_nil last rows)
            rw [List.cons_append, shape] at split
            obtain ⟨more, feed⟩ := eq_feed_of_splitOn split
            exact noReturn more rfl feed
          rw [List.map_cons, kept, List.cons_append]

theorem length_lines_unlines {lines : List String} (each : ∀ line ∈ lines, IsOneLine line) :
    (Text.lines (unlines lines)).length = lines.length := by
  obtain ⟨rows, last, split, chomped⟩ := linesOf_eq (unlines lines).toList
  rw [splitOn_unlines each] at split
  obtain ⟨front, final⟩ := List.append_inj' split rfl
  rw [Text.lines, List.length_map, chomped, ← front, ← List.singleton_inj.mp final]
  simp

theorem linesOf_append_feed {row : List Char} (oneRow : '\n' ∉ row) (rest : List Char) :
    linesOf (row ++ '\n' :: rest) = chomp row :: linesOf rest := by
  fun_induction chomp row with
  | case1 => rfl
  | case2 => rfl
  | case3 c row inner ih =>
      rw [List.mem_cons, not_or] at oneRow
      rw [List.cons_append, linesOf, ih oneRow.2]
      · exact fun feed => oneRow.1 feed.symm
      · intro more returned begins
        cases row with
        | nil => exact inner returned rfl
        | cons next row =>
            rw [List.cons_append, List.cons.injEq] at begins
            exact oneRow.2 (begins.1 ▸ List.mem_cons_self)

theorem take_linesOf_append {n : Nat} {front : List Char} (enough : n ≤ front.count '\n')
    (back : List Char) : (linesOf (front ++ back)).take n = (linesOf front).take n := by
  induction n generalizing front with
  | zero => rfl
  | succ n ih =>
      have some_feed : '\n' ∈ front := List.count_pos_iff.mp (by omega)
      obtain ⟨row, rest, rfl, oneRow⟩ := List.eq_append_cons_of_mem some_feed
      have fewer : n ≤ rest.count '\n' := by
        rw [List.count_append, List.count_cons_self, List.count_eq_zero.mpr oneRow] at enough
        omega
      rw [List.append_assoc, List.cons_append, linesOf_append_feed oneRow, linesOf_append_feed oneRow,
        List.take_succ_cons, List.take_succ_cons, ih fewer]

theorem filterMap_linesOf {β : Type} {f : List Char → Option β} (nothing : f [] = none)
    (returned : ∀ line, f (line ++ ['\r']) = f line) (s : List Char) :
    (linesOf s).filterMap f = (splitOn '\n' s).filterMap f := by
  obtain ⟨rows, last, split, lines⟩ := linesOf_eq s
  have chomped : f ∘ chomp = f := by
    funext row
    rcases eq_chomp_or row with same | longer
    · exact congrArg f same.symm
    · exact (returned _).symm.trans (congrArg f longer.symm)
  have final : (if last.isEmpty then [] else [last]).filterMap f = [last].filterMap f := by
    split
    · rename_i empty
      rw [List.isEmpty_iff.mp empty, List.filterMap_cons_none nothing, List.filterMap_nil]
    · rfl
  rw [split, lines, List.filterMap_append, List.filterMap_append, List.filterMap_map, chomped, final]

/-! ## Trimming -/

theorem trimRight_concat (s : List Char) {c : Char} (blank : isBlank c = true) :
    trimRight (s ++ [c]) = trimRight s := by
  simp [trimRight, blank]

theorem trim_concat (s : List Char) {c : Char} (blank : isBlank c = true) :
    trim (s ++ [c]) = trim s := by
  rw [trim, trim, trimLeft, trimLeft, List.dropWhile_append]
  split
  · rename_i nothing
    rw [List.isEmpty_iff.mp nothing]
    simp [blank]
  · exact trimRight_concat _ blank

theorem trim_eq_self {s : List Char} (visible : ∀ c ∈ s, isBlank c = false) : trim s = s := by
  have kept : ∀ t : List Char, (∀ c ∈ t, isBlank c = false) → t.dropWhile isBlank = t := by
    intro t each
    cases t with
    | nil => rfl
    | cons c rest => simp [each c List.mem_cons_self]
  rw [trim, trimLeft, kept s visible, trimRight, kept _ (by simpa using visible), List.reverse_reverse]

theorem trim_eq_nil_iff {s : List Char} : trim s = [] ↔ ∀ c ∈ s, isBlank c = true := by
  constructor
  · intro nothing
    rw [trim, trimRight, List.reverse_eq_nil_iff, List.dropWhile_eq_nil_iff] at nothing
    rw [← List.takeWhile_append_dropWhile (p := isBlank) (l := s), List.forall_mem_append]
    refine ⟨List.all_eq_true.mp List.all_takeWhile, fun c member => nothing c ?_⟩
    rwa [List.mem_reverse]
  · intro blank
    rw [trim, trimLeft, List.dropWhile_eq_nil_iff.mpr blank]
    rfl

theorem prefix_trimRight (s : List Char) : trimRight s <+: s := by
  rw [← List.reverse_suffix, trimRight, List.reverse_reverse]
  exact List.dropWhile_suffix _

theorem trim_infix (s : List Char) : trim s <:+: s :=
  (prefix_trimRight _).isInfix.trans (List.dropWhile_suffix _).isInfix

theorem isBlank_getLast?_trim (s : List Char) : ∀ c ∈ (trim s).getLast?, isBlank c = false := by
  intro c last
  rw [trim, trimRight, List.getLast?_reverse] at last
  have first := List.head?_dropWhile_not isBlank (trimLeft s).reverse
  rwa [last] at first

theorem isBlank_head?_trim (s : List Char) : ∀ c ∈ (trim s).head?, isBlank c = false := by
  intro c first
  obtain ⟨rest, shape⟩ := prefix_trimRight (trimLeft s)
  have left : (trimLeft s).head? = some c := by
    rw [← shape, List.head?_append, ← trim, first]
    rfl
  have visible := List.head?_dropWhile_not isBlank s
  rwa [← trimLeft, left] at visible

end CodeAtlas.Text

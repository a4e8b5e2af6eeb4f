import CodeAtlas.Proofs.Text.Decimal
import CodeAtlas.Proofs.Text.Search
import CodeAtlas.Proofs.Toml.Quoted
import CodeAtlas.Toml.Reader

namespace CodeAtlas.Toml

/-! ## Keys -/

def IsBareKey (key : String) : Prop := key.toList ≠ [] ∧ key.toList.all isBareKeyChar = true

instance (key : String) : Decidable (IsBareKey key) := inferInstanceAs (Decidable (_ ∧ _))

theorem ne_of_isBareKeyChar {c : Char} (bare : isBareKeyChar c = true) (other : Char)
    (marked : isBareKeyChar other = false) : c ≠ other := by
  rintro rfl
  rw [bare] at marked
  cases marked

theorem IsBareKey.chars {key : String} (bare : IsBareKey key) :
    ∀ c ∈ key.toList, isBareKeyChar c = true :=
  List.all_eq_true.mp bare.2

theorem IsBareKey.cons {key : String} (bare : IsBareKey key) :
    ∃ first others, key.toList = first :: others ∧ isBareKeyChar first = true := by
  cases shape : key.toList with
  | nil => exact absurd shape bare.1
  | cons first others => exact ⟨first, others, rfl, bare.chars first (shape ▸ List.mem_cons_self)⟩

theorem skipBlanks_key {key : String} (bare : IsBareKey key) (rest : List Char) :
    skipBlanks (key.toList ++ rest) = key.toList ++ rest := by
  obtain ⟨first, others, shape, char⟩ := bare.cons
  have space : first ≠ ' ' := ne_of_isBareKeyChar char _ (by decide)
  have tab : first ≠ '\t' := ne_of_isBareKeyChar char _ (by decide)
  rw [shape, List.cons_append, skipBlanks, List.dropWhile_cons_of_neg]
  simp [space, tab]

theorem simpleKey?_bare {key : String} (bare : IsBareKey key) {c : Char} (stop : isBareKeyChar c = false)
    (rest : List Char) : simpleKey? (key.toList ++ c :: rest) = some (key, c :: rest) := by
  have word : (key.toList ++ c :: rest).takeWhile isBareKeyChar = key.toList := by
    rw [List.takeWhile_append_of_pos bare.chars, List.takeWhile_cons_of_neg (by simp [stop]),
      List.append_nil]
  have after : (key.toList ++ c :: rest).dropWhile isBareKeyChar = c :: rest := by
    rw [List.dropWhile_append_of_pos bare.chars, List.dropWhile_cons_of_neg (by simp [stop])]
  obtain ⟨first, others, shape, char⟩ := bare.cons
  have quote : first ≠ '"' := ne_of_isBareKeyChar char _ (by decide)
  have apostrophe : first ≠ '\'' := ne_of_isBareKeyChar char _ (by decide)
  rw [simpleKey?, word, after, if_neg, String.ofList_toList]
  · simp [shape]
  · intro _ same
    rw [shape] at same
    exact quote (List.cons.inj same).1
  · intro _ same
    rw [shape] at same
    exact apostrophe (List.cons.inj same).1

theorem key?_bare {key : String} (bare : IsBareKey key) (parts : Nat) {c : Char} {rest after : List Char}
    (stop : isBareKeyChar c = false) (skipped : skipBlanks (c :: rest) = after)
    (single : after.head? ≠ some '.') :
    key? (parts + 1) (key.toList ++ c :: rest) = some (([], key), after) := by
  rw [key?, skipBlanks_key bare, simpleKey?_bare bare stop]
  simp only [skipped]
  split
  · rename_i dotted
    exact absurd rfl single
  · rfl

/-! ## Values -/

def Atom.value : Atom → Toml
  | text s => .text s
  | count n => .integer n
  | flag b => .boolean b

def Atom.Fits : Atom → Prop
  | count n => n ≤ maxInteger
  | _ => True

theorem quote_head (s : List Char) : ∃ others, quote s = '"' :: others ∨ quote s = '\'' :: others := by
  unfold quote
  simp only
  split
  · exact ⟨_, Or.inl rfl⟩
  split
  · exact ⟨_, Or.inr rfl⟩
  split
  · exact ⟨_, Or.inl rfl⟩
  split
  · exact ⟨_, Or.inr rfl⟩
  split
  · exact ⟨_, Or.inl rfl⟩
  · exact ⟨_, Or.inl rfl⟩

theorem decimal?_digitsOf (n : Nat) : decimal? (Text.digitsOf n) = some n := by
  have led : ¬ ((Text.digitsOf n).head? = some '0' ∧ Text.digitsOf n ≠ ['0']) := by
    rintro ⟨zero, more⟩
    obtain ⟨rest, shape⟩ := List.head?_eq_some_iff.mp zero
    obtain rfl := Text.eq_zero_of_digitsOf shape
    exact more rfl
  have single : Text.splitOn '_' (Text.digitsOf n) = [Text.digitsOf n] := by
    apply Text.splitOn_of_not_mem
    intro member
    exact absurd (Text.isDigit_of_mem_digitsOf member) (by decide)
  have digits : (Text.digitsOf n).all Text.isDigit = true :=
    List.all_eq_true.mpr fun _ => Text.isDigit_of_mem_digitsOf
  rw [decimal?, if_neg led, ungroup?, single]
  simp [Text.digitsOf_ne_nil, digits, Text.natOfDigits_digitsOf]

theorem integer?_digitsOf {n : Nat} (fits : n ≤ maxInteger) :
    integer? (Text.digitsOf n) = some (Int.ofNat n) := by
  have noDigit : ∀ {c : Char}, c ∈ Text.digitsOf n → Text.isDigit c = false → False := by
    intro c member other
    rw [Text.isDigit_of_mem_digitsOf member] at other
    cases other
  unfold integer?
  split
  case h_6 => rw [decimal?_digitsOf, positive?, Option.bind_some, if_pos fits]
  all_goals
    rename_i shape
    exfalso
    rw [shape] at noDigit
  · exact noDigit (c := 'x') (by simp) (by decide)
  · exact noDigit (c := 'o') (by simp) (by decide)
  · exact noDigit (c := 'b') (by simp) (by decide)
  · exact noDigit (c := '+') (by simp) (by decide)
  · exact noDigit (c := '-') (by simp) (by decide)

theorem isScalarChar_of_isDigit {c : Char} (digit : Text.isDigit c = true) : isScalarChar c = true := by
  rw [Text.isDigit_eq] at digit
  simp [isScalarChar, Char.isAlphanum, digit]

theorem value?_word {first : Char} {others : List Char} {value : Toml}
    (word : (first :: others).all isScalarChar = true)
    (read : scalar? (first :: others) = some value) (fuel levels : Nat) (rest : List Char) :
    value? (fuel + 1) levels (first :: others ++ '\n' :: rest) = some (value, '\n' :: rest) := by
  have chars : ∀ c ∈ first :: others, isScalarChar c = true := List.all_eq_true.mp word
  have before : (first :: others ++ '\n' :: rest).takeWhile isScalarChar = first :: others := by
    rw [List.takeWhile_append_of_pos chars, List.takeWhile_cons_of_neg (by decide), List.append_nil]
  have after : (first :: others ++ '\n' :: rest).dropWhile isScalarChar = '\n' :: rest := by
    rw [List.dropWhile_append_of_pos chars, List.dropWhile_cons_of_neg (by decide)]
  have taken : takeScalar? (first :: others ++ '\n' :: rest) = some (value, '\n' :: rest) := by
    unfold takeScalar?
    simp only [before, after]
    split
    · rename_i blank
      cases blank
    · rw [read, Option.map_some]
  have marked : ∀ mark, isScalarChar mark = false → first ≠ mark := by
    rintro mark other rfl
    rw [chars first List.mem_cons_self] at other
    cases other
  rw [value?, taken]
  · exact fun _ same => marked '[' (by decide) (List.cons.inj same).1
  · exact fun _ same => marked '\x7b' (by decide) (List.cons.inj same).1
  · exact fun _ same => marked '"' (by decide) (List.cons.inj same).1
  · exact fun _ same => marked '\'' (by decide) (List.cons.inj same).1

theorem value?_quote (s : List Char) (fuel levels : Nat) (rest : List Char) :
    value? (fuel + 1) levels (quote s ++ '\n' :: rest) =
      some (.text (String.ofList s), '\n' :: rest) := by
  have read : quoted? (quote s ++ '\n' :: rest) = some (s, '\n' :: rest) :=
    quoted?_quote s (by simp) (by simp)
  obtain ⟨others, shape | shape⟩ := quote_head s
  · rw [shape, List.cons_append] at read ⊢
    rw [value?, read]
    rfl
  · rw [shape, List.cons_append] at read ⊢
    rw [value?, read]
    rfl

theorem value?_write {atom : Atom} (fits : atom.Fits) (fuel levels : Nat) (rest : List Char) :
    value? (fuel + 1) levels (atom.write ++ '\n' :: rest) = some (atom.value, '\n' :: rest) := by
  cases atom with
  | text s =>
      rw [Atom.write, value?_quote, String.ofList_toList]
      rfl
  | count n =>
      obtain ⟨first, others, shape, digit⟩ := Text.digitsOf_cons n
      have digits : (first :: others).all isScalarChar = true :=
        List.all_eq_true.mpr fun c member =>
          isScalarChar_of_isDigit (Text.isDigit_of_mem_digitsOf (shape ▸ member))
      have number : scalar? (first :: others) = some (.integer n) := by
        have yes : first :: others ≠ "true".toList := by
          intro same
          rw [(List.cons.inj same).1] at digit
          cases digit
        have no : first :: others ≠ "false".toList := by
          intro same
          rw [(List.cons.inj same).1] at digit
          cases digit
        rw [scalar?, if_neg yes, if_neg no, ← shape, integer?_digitsOf fits]
        rfl
      rw [Atom.write, shape]
      exact value?_word digits number fuel levels rest
  | flag b =>
      cases b with
      | true => exact value?_word (by decide) rfl fuel levels rest
      | false => exact value?_word (by decide) rfl fuel levels rest

theorem skipBlanks_write (atom : Atom) (rest : List Char) :
    skipBlanks (' ' :: (atom.write ++ rest)) = atom.write ++ rest := by
  have starts : ∃ first others, atom.write = first :: others ∧ (first == ' ' || first == '\t') = false := by
    cases atom with
    | text s =>
        obtain ⟨others, shape | shape⟩ := quote_head s.toList
        · exact ⟨_, _, shape, rfl⟩
        · exact ⟨_, _, shape, rfl⟩
    | count n =>
        obtain ⟨first, others, shape, digit⟩ := Text.digitsOf_cons n
        refine ⟨first, others, shape, ?_⟩
        rw [Bool.eq_false_iff]
        intro blank
        simp only [Bool.or_eq_true, beq_iff_eq] at blank
        rcases blank with rfl | rfl <;> cases digit
    | flag b => cases b <;> exact ⟨_, _, rfl, rfl⟩
  obtain ⟨first, others, shape, shown⟩ := starts
  rw [shape, List.cons_append, skipBlanks, List.dropWhile_cons_of_pos (by decide),
    List.dropWhile_cons_of_neg (by simp [shown])]

/-! ## Lines -/

theorem endLine?_newline (rest : List Char) : endLine? ('\n' :: rest) = some rest := rfl

theorem line?_blank (rest : List Char) : line? (['\n'] ++ rest) = some (.nothing, rest) := rfl

theorem line?_header {name : String} (bare : IsBareKey name) (rest : List Char) :
    line? ('[' :: (name.toList ++ [']', '\n']) ++ rest) = some (.header [] name, rest) := by
  have key : key? (maxNesting - 1) (name.toList ++ ']' :: '\n' :: rest) =
      some (([], name), ']' :: '\n' :: rest) :=
    key?_bare bare _ (by decide) rfl (by simp)
  have header : header? (name.toList ++ ']' :: '\n' :: rest) = some (.header [] name, '\n' :: rest) := by
    rw [header?, key]
    · rfl
    · intro _ same
      obtain ⟨first, others, shape, char⟩ := bare.cons
      rw [shape] at same
      exact ne_of_isBareKeyChar char _ (by decide) (List.cons.inj same).1
  have shape : '[' :: (name.toList ++ [']', '\n']) ++ rest =
      '[' :: (name.toList ++ ']' :: '\n' :: rest) := by simp
  have mark : skipBlanks ('[' :: (name.toList ++ ']' :: '\n' :: rest)) =
      '[' :: (name.toList ++ ']' :: '\n' :: rest) := rfl
  rw [shape, line?, mark]
  simp only [header, endLine?_newline, Option.map_some]

theorem line?_of_key {first : Char} {others rest : List Char} {line : Line}
    (char : isBareKeyChar first = true) (entry : entry? (first :: others) = some (line, '\n' :: rest)) :
    line? (first :: others) = some (line, rest) := by
  have shown : skipBlanks (first :: others) = first :: others := by
    rw [skipBlanks, List.dropWhile_cons_of_neg]
    simp [ne_of_isBareKeyChar char ' ' (by decide),
      ne_of_isBareKeyChar char '\t' (by decide)]
  unfold line?
  simp only [shown]
  have notMark : ∀ (mark : Char) (more : List Char), isBareKeyChar mark = false →
      first :: others ≠ mark :: more := fun mark more marked same =>
    ne_of_isBareKeyChar char mark marked (List.cons.inj same).1
  split
  · rename_i refused
    split at refused
    case h_6 =>
      rw [entry] at refused
      cases refused
    case h_5 => exact absurd ‹_› (notMark '[' _ (by decide))
    all_goals cases refused
  · rename_i content
    split at content
    case h_6 =>
      rw [entry] at content
      cases content
      rfl
    case h_5 => exact absurd ‹_› (notMark '[' _ (by decide))
    case h_4 => exact absurd ‹_› (notMark '\r' _ (by decide))
    case h_3 => exact absurd ‹_› (notMark '\n' _ (by decide))
    case h_2 => exact absurd ‹_› (notMark '#' _ (by decide))
    case h_1 => contradiction

theorem line?_entry {key : String} (bare : IsBareKey key) {atom : Atom} (fits : atom.Fits)
    (rest : List Char) :
    line? (writeEntry (key, atom) ++ rest) = some (.entry [] key atom.value, rest) := by
  have shape : writeEntry (key, atom) ++ rest =
      key.toList ++ ' ' :: '=' :: ' ' :: (atom.write ++ '\n' :: rest) := by
    simp [writeEntry]
  have name : key? (maxNesting - 1) (key.toList ++ ' ' :: '=' :: ' ' :: (atom.write ++ '\n' :: rest)) =
      some (([], key), '=' :: ' ' :: (atom.write ++ '\n' :: rest)) :=
    key?_bare bare _ (by decide) rfl (by simp)
  have entry : entry? (key.toList ++ ' ' :: '=' :: ' ' :: (atom.write ++ '\n' :: rest)) =
      some (.entry [] key atom.value, '\n' :: rest) := by
    unfold entry?
    rw [name]
    simp only [skipBlanks_write, value?_write fits, Option.map_some]
  obtain ⟨first, others, keyShape, char⟩ := bare.cons
  rw [keyShape, List.cons_append] at entry
  rw [shape, keyShape, List.cons_append]
  exact line?_of_key char entry

/-! ## Lines one by one -/

def scan? (reading : Reading) (s : List Char) : Option Reading :=
  (lines? s).bind fun lines => lines.foldlM Reading.feed reading

variable {reading : Reading}

theorem scan?_nil : scan? reading [] = some reading := by
  rw [scan?, lines?]
  rfl

theorem scan?_line {text rest : List Char} {line : Line} (nonempty : text ≠ [])
    (found : line? (text ++ rest) = some (line, rest)) :
    scan? reading (text ++ rest) = (reading.feed line).bind (scan? · rest) := by
  have lines : lines? (text ++ rest) = (lines? rest).map (line :: ·) := by
    cases text with
    | nil => exact absurd rfl nonempty
    | cons c text =>
        have shorter : rest.length < (text ++ rest).length + 1 := by
          rw [List.length_append]
          omega
        rw [List.cons_append] at found ⊢
        rw [lines?, found]
        simp only [shorter, if_true]
  rw [scan?, lines]
  cases later : lines? rest with
  | none => cases reading.feed line <;> simp [scan?, later]
  | some others => cases next : reading.feed line <;> simp [scan?, later, next]

theorem scan?_step {text rest : List Char} {line : Line} {next : Reading} (nonempty : text ≠ [])
    (found : line? (text ++ rest) = some (line, rest)) (taken : reading.feed line = some next) :
    scan? reading (text ++ rest) = scan? next rest := by
  rw [scan?_line nonempty found, taken, Option.bind_some]

/-! ## Tables -/

theorem lookup_of_not_mem {key : String} {entries : Entries} (absent : key ∉ entries.map (·.1)) :
    lookup key entries = none := by
  rw [lookup, List.lookup_eq_none_iff]
  intro entry member
  simp only [bne_iff_ne, ne_eq]
  rintro rfl
  exact absent (List.mem_map_of_mem member)

theorem lookup_concat {key : String} {entries : Entries} (absent : key ∉ entries.map (·.1))
    (value : Toml) : lookup key (entries ++ [(key, value)]) = some value := by
  have missing := lookup_of_not_mem absent
  rw [lookup] at missing ⊢
  rw [List.lookup_append, missing]
  simp

theorem assign_concat {key : String} {entries : Entries} (absent : key ∉ entries.map (·.1))
    (old value : Toml) :
    assign key value (entries ++ [(key, old)]) = entries ++ [(key, value)] := by
  induction entries with
  | nil => simp [assign]
  | cons entry entries ih =>
      obtain ⟨other, content⟩ := entry
      rw [List.map_cons, List.mem_cons, not_or] at absent
      rw [List.cons_append, assign, if_neg (Ne.symm absent.1), ih absent.2]
      rfl

theorem feed_header {name : String} {done : Entries} (absent : name ∉ done.map (·.1))
    (place : List String) :
    Reading.feed ⟨⟨.header, done⟩, place⟩ (.header [] name) =
      some ⟨⟨.header, done ++ [(name, .table .header [])]⟩, [name]⟩ := by
  simp [Reading.feed, Draft.beginTable?, Draft.alter?, lookup_of_not_mem absent]

theorem feed_entry {name key : String} {done entries : Entries} (absent : name ∉ done.map (·.1))
    (fresh : key ∉ entries.map (·.1)) (value : Toml) :
    Reading.feed ⟨⟨.header, done ++ [(name, .table .header entries)]⟩, [name]⟩ (.entry [] key value) =
      some ⟨⟨.header, done ++ [(name, .table .header (entries ++ [(key, value)]))]⟩, [name]⟩ := by
  have add : Draft.add? .dotted [] key value ⟨.header, entries⟩ =
      some ⟨.header, entries ++ [(key, value)]⟩ := by
    simp [Draft.add?, Draft.alter?, Origin.isDotted, lookup_of_not_mem fresh]
  simp [Reading.feed, Draft.alter?, lookup_concat absent, Following.enters, Origin.isInline, add,
    Draft.value, assign_concat absent]

/-! ## Documents -/

def Section.content (part : Section) : Entries :=
  part.entries.map fun entry => (entry.1, entry.2.value)

def Section.table (part : Section) : String × Toml := (part.name, .table .header part.content)

structure Section.Regular (part : Section) : Prop where
  name : IsBareKey part.name
  keys : ∀ entry ∈ part.entries, IsBareKey entry.1
  distinct : (part.entries.map (·.1)).Nodup
  values : ∀ entry ∈ part.entries, entry.2.Fits

theorem scan?_entries {name : String} {done : Entries} (absent : name ∉ done.map (·.1))
    {before : Entries} {entries : List (String × Atom)} (keys : ∀ entry ∈ entries, IsBareKey entry.1)
    (distinct : (before.map (·.1) ++ entries.map (·.1)).Nodup)
    (values : ∀ entry ∈ entries, entry.2.Fits) (rest : List Char) :
    scan? ⟨⟨.header, done ++ [(name, .table .header before)]⟩, [name]⟩
        (entries.flatMap writeEntry ++ rest) =
      scan? ⟨⟨.header, done ++ [(name, .table .header
        (before ++ entries.map fun entry => (entry.1, entry.2.value)))]⟩, [name]⟩ rest := by
  induction entries generalizing before with
  | nil => simp
  | cons entry entries ih =>
      obtain ⟨key, atom⟩ := entry
      rw [List.forall_mem_cons] at keys values
      have fresh : key ∉ before.map (·.1) := fun member =>
        (List.nodup_append.mp distinct).2.2 key member key List.mem_cons_self rfl
      have nonempty : writeEntry (key, atom) ≠ [] := by simp [writeEntry]
      rw [List.flatMap_cons, List.append_assoc,
        scan?_step nonempty (line?_entry keys.1 values.1 _) (feed_entry absent fresh _), ih keys.2 _ values.2]
      · simp
      · simpa using distinct

theorem scan?_section {part : Section} (regular : part.Regular) {done : Entries}
    (absent : part.name ∉ done.map (·.1)) (place : List String) (rest : List Char) :
    scan? ⟨⟨.header, done⟩, place⟩ (part.write ++ rest) =
      scan? ⟨⟨.header, done ++ [part.table]⟩, [part.name]⟩ rest := by
  have shape : part.write ++ rest =
      '[' :: (part.name.toList ++ [']', '\n']) ++ (part.entries.flatMap writeEntry ++ rest) := by
    simp [Section.write]
  rw [shape, scan?_step (by simp) (line?_header regular.name _) (feed_header absent place),
    scan?_entries absent regular.keys (by simpa using regular.distinct) regular.values]
  rfl

theorem scan?_sections {sections : List Section} (regular : ∀ part ∈ sections, part.Regular)
    {done : Entries} (distinct : (done.map (·.1) ++ sections.map (·.name)).Nodup)
    (place : List String) :
    ∃ last, scan? ⟨⟨.header, done⟩, place⟩ (Text.joinWith ['\n'] (sections.map Section.write)) =
      some ⟨⟨.header, done ++ sections.map Section.table⟩, last⟩ := by
  induction sections generalizing done place with
  | nil => exact ⟨place, by simp [Text.joinWith, scan?_nil]⟩
  | cons part sections ih =>
      rw [List.forall_mem_cons] at regular
      have absent : part.name ∉ done.map (·.1) := fun member =>
        (List.nodup_append.mp distinct).2.2 part.name member part.name List.mem_cons_self rfl
      have onward : ((done ++ [part.table]).map (·.1) ++ sections.map (·.name)).Nodup := by
        simpa [Section.table] using distinct
      obtain ⟨last, read⟩ := ih regular.2 onward [part.name]
      rw [List.append_assoc] at read
      refine ⟨last, ?_⟩
      rw [List.map_cons, List.map_cons]
      cases sections with
      | nil =>
          have alone := scan?_section regular.1 absent place []
          rw [List.append_nil] at alone
          exact alone.trans read
      | cons next sections =>
          have separated : Text.joinWith ['\n'] (part.write :: (next :: sections).map Section.write) =
              part.write ++
                (['\n'] ++ Text.joinWith ['\n'] ((next :: sections).map Section.write)) := by
            rw [List.map_cons, Text.joinWith, List.append_assoc]
            simp
          rw [separated, scan?_section regular.1 absent, scan?_step (by simp) (line?_blank _) rfl]
          exact read

theorem joinWith_write_head (part : Section) (sections : List Section) :
    ∃ others, Text.joinWith ['\n'] ((part :: sections).map Section.write) = '[' :: others := by
  cases sections with
  | nil => exact ⟨_, rfl⟩
  | cons next sections => exact ⟨_, rfl⟩

/-- Written sections are read back as their tables, in their order. -/
theorem read?_write {sections : List Section} (regular : ∀ part ∈ sections, part.Regular)
    (distinct : (sections.map (·.name)).Nodup) :
    read? (write sections) = some (sections.map Section.table) := by
  have start : (([] : Entries).map (·.1) ++ sections.map (·.name)).Nodup := by simpa using distinct
  obtain ⟨last, read⟩ := scan?_sections regular start []
  rw [scan?] at read
  rw [read?, write, String.toList_ofList]
  cases sections with
  | nil =>
      rw [List.map_nil] at read ⊢
      simp only [Text.joinWith] at read ⊢
      rw [read]
      rfl
  | cons part sections =>
      obtain ⟨others, shape⟩ := joinWith_write_head part sections
      have unmarked : '[' ≠ byteOrderMark := by decide
      rw [shape] at read ⊢
      simp only [if_neg unmarked, read]
      rfl

end CodeAtlas.Toml

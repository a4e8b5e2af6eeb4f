import CodeAtlas.Diagram
import CodeAtlas.Proofs.Text.Lines
import CodeAtlas.Text.Identifier
import Mathlib.Data.List.Infix

/-!
# The scan for methods

What a line announces is told by its text alone (`methodOfLine_eq_some_iff`): the scan cuts the line at
its first mark, and the name there at the nearest parenthesis or mark. A carriage return makes no
difference, so that the scan of a text is that of its rows (`methodNames_eq`).
-/

namespace CodeAtlas

/-! ## Identifiers -/

namespace Text

def blankPoints : List Nat :=
  [9, 10, 11, 12, 13, 0x20, 0x85, 0xA0, 0x1680, 0x2000, 0x2001, 0x2002, 0x2003, 0x2004, 0x2005, 0x2006,
    0x2007, 0x2008, 0x2009, 0x200A, 0x2028, 0x2029, 0x202F, 0x205F, 0x3000]

theorem toNat_mem_blankPoints {c : Char} (blank : isBlank c = true) : c.toNat ∈ blankPoints := by
  simp only [isBlank, Bool.or_eq_true, Bool.and_eq_true, decide_eq_true_eq, beq_iff_eq] at blank
  simp only [blankPoints, List.mem_cons, List.not_mem_nil, or_false]
  omega

def IsIdentifier : List Char → Prop
  | [] => False
  | first :: rest => isIdentifierStart first = true ∧ ∀ c ∈ rest, isIdentifierPart c = true

theorem isBlank_of_isIdentifierPart {c : Char} (inside : isIdentifierPart c = true) :
    isBlank c = false := by
  have apart : ∀ n ∈ blankPoints, isIdentifierPart (Char.ofNat n) = false := by decide +kernel
  refine Bool.eq_false_iff.mpr fun blank => ?_
  have outside := apart _ (toNat_mem_blankPoints blank)
  rw [Char.ofNat_toNat, inside] at outside
  cases outside

instance : DecidablePred IsIdentifier
  | [] => inferInstanceAs (Decidable False)
  | first :: rest =>
      decidable_of_iff (isIdentifierStart first = true ∧ rest.all isIdentifierPart = true) <| by
        rw [List.all_eq_true, IsIdentifier]

theorem IsIdentifier.ne_nil {name : List Char} (identifier : IsIdentifier name) : name ≠ [] := by
  rintro rfl
  exact identifier

theorem IsIdentifier.isIdentifierPart {name : List Char} (identifier : IsIdentifier name) :
    ∀ c ∈ name, isIdentifierPart c = true := by
  cases name with
  | nil => exact List.forall_mem_nil _
  | cons first rest =>
      rw [List.forall_mem_cons]
      exact ⟨by simp [Text.isIdentifierPart, identifier.1], identifier.2⟩

end Text

namespace Diagram

open Text

/-! ## One line -/

theorem isMark_definitionMark : IsMark definitionMark := ⟨['d', 'e', 'f'], ' ', rfl, by decide⟩

theorem isMark_parenthesis : IsMark ['('] := isMark_singleton '('

def EndsName (rest : List Char) : Prop := rest = [] ∨ rest.head? = some '(' ∨ definitionMark <+: rest

/-- The line with its first mark, and the text between this and what ends the name. -/
structure Cuts (line front between rest : List Char) : Prop where
  shape : line = front ++ definitionMark ++ between ++ rest
  first : ¬ definitionMark <:+: front
  noParenthesis : '(' ∉ between
  noMark : ¬ definitionMark <:+: between
  ends : EndsName rest

def Announces (line name : List Char) : Prop :=
  '(' ∈ line ∧ name ≠ [] ∧ name.head? ≠ some '_' ∧
    ∃ front between rest, Cuts line front between rest ∧ name = trim between

def nameBefore (after : List Char) : List Char := before ['('] (before definitionMark after)

theorem nameBefore_eq {between rest : List Char} (noParenthesis : '(' ∉ between)
    (noMark : ¬ definitionMark <:+: between) (ends : EndsName rest) :
    nameBefore (between ++ rest) = between := by
  have free : ¬ ['('] <:+: between := mt (List.singleton_infix_iff _ _).mp noParenthesis
  rw [nameBefore, isMark_parenthesis.before_eq_iff]
  refine ⟨free, ?_⟩
  rcases ends with rfl | begins | again
  · refine ⟨[], ?_, .inl rfl⟩
    rw [isMark_definitionMark.before_eq_iff, List.append_nil]
    exact ⟨noMark, [], (List.append_nil _).symm, .inl rfl⟩
  · obtain ⟨more, rfl⟩ := List.head?_eq_some_iff.mp begins
    obtain ⟨rest, shape⟩ := isMark_definitionMark.before_append (x := '(') (by decide) noMark more
    exact ⟨'(' :: rest, shape, .inr ⟨rest, rfl⟩⟩
  · refine ⟨[], ?_, .inl rfl⟩
    rw [isMark_definitionMark.before_eq_iff, List.append_nil]
    exact ⟨noMark, rest, rfl, .inr again⟩

theorem exists_nameBefore (after : List Char) : ∃ rest, after = nameBefore after ++ rest ∧
    '(' ∉ nameBefore after ∧ ¬ definitionMark <:+: nameBefore after ∧ EndsName rest := by
  obtain ⟨noMark, later, whole, stop⟩ := (isMark_definitionMark.before_eq_iff (s := after)).mp rfl
  obtain ⟨free, rest, inner, ends⟩ :=
    (isMark_parenthesis.before_eq_iff (s := before definitionMark after)).mp rfl
  rw [← nameBefore] at free inner
  refine ⟨rest ++ later, ?_, mt (List.singleton_infix_iff _ _).mpr free, ?_, ?_⟩
  · rw [← List.append_assoc, ← inner, ← whole]
  · exact fun inside => noMark (inner ▸ inside.trans (List.prefix_append _ _).isInfix)
  · rcases ends with rfl | ⟨more, rfl⟩
    · exact stop.imp_right .inr
    · exact .inr (.inl rfl)

def publicName? (name : List Char) : Option (List Char) :=
  if name.isEmpty || name.head? == some '_' then none else some name

theorem publicName?_eq_some_iff {text name : List Char} :
    publicName? text = some name ↔ name = text ∧ name ≠ [] ∧ name.head? ≠ some '_' := by
  constructor
  · intro found
    unfold publicName? at found
    split at found
    · cases found
    · rename_i visible
      cases found
      simpa using visible
  · rintro ⟨rfl, nonempty, visible⟩
    simp [publicName?, nonempty, visible]

theorem methodOfLine_eq_none {line : List Char} (absent : '(' ∉ line ∨ ¬ definitionMark <:+: line) :
    methodOfLine line = none := by
  unfold methodOfLine
  split
  · rfl
  · rename_i parenthesis
    have free := absent.resolve_left (by simpa using parenthesis)
    rw [isMark_definitionMark.splitOnce?_eq_none_iff.mpr free]

theorem methodOfLine_of_split {line front after : List Char} (parenthesis : '(' ∈ line)
    (split : splitOnce? definitionMark line = some (front, after)) :
    methodOfLine line = publicName? (trim (nameBefore after)) := by
  rw [methodOfLine, if_neg (by simpa using parenthesis), split]
  rfl

theorem methodOfLine_of_cuts {line front between rest : List Char} (parenthesis : '(' ∈ line)
    (cuts : Cuts line front between rest) : methodOfLine line = publicName? (trim between) := by
  have split : splitOnce? definitionMark line = some (front, between ++ rest) := by
    rw [isMark_definitionMark.splitOnce?_eq_some_iff, ← List.append_assoc]
    exact ⟨cuts.shape, cuts.first⟩
  rw [methodOfLine_of_split parenthesis split,
    nameBefore_eq cuts.noParenthesis cuts.noMark cuts.ends]

theorem cuts_or_absent (line : List Char) :
    (∃ front between rest, Cuts line front between rest) ∨ ¬ definitionMark <:+: line := by
  cases split : splitOnce? definitionMark line with
  | none => exact .inr (isMark_definitionMark.splitOnce?_eq_none_iff.mp split)
  | some parts =>
      obtain ⟨front, after⟩ := parts
      obtain ⟨shape, first⟩ := isMark_definitionMark.splitOnce?_eq_some_iff.mp split
      obtain ⟨rest, whole, noParenthesis, noMark, ends⟩ := exists_nameBefore after
      refine .inl ⟨front, nameBefore after, rest, ?_, first, noParenthesis, noMark, ends⟩
      rw [shape, List.append_assoc _ _ rest, ← whole]

theorem methodOfLine_eq_some_iff {line name : List Char} :
    methodOfLine line = some name ↔ Announces line name := by
  constructor
  · intro found
    have parenthesis : '(' ∈ line := by
      by_contra absent
      rw [methodOfLine_eq_none (.inl absent)] at found
      cases found
    rcases cuts_or_absent line with ⟨front, between, rest, cuts⟩ | absent
    · rw [methodOfLine_of_cuts parenthesis cuts, publicName?_eq_some_iff] at found
      exact ⟨parenthesis, found.2.1, found.2.2, front, between, rest, cuts, found.1⟩
    · rw [methodOfLine_eq_none (.inr absent)] at found
      cases found
  · rintro ⟨parenthesis, nonempty, visible, front, between, rest, cuts, rfl⟩
    rw [methodOfLine_of_cuts parenthesis cuts, publicName?_eq_some_iff]
    exact ⟨rfl, nonempty, visible⟩

/-! ## Many lines -/

theorem nameBefore_concat (after : List Char) : nameBefore (after ++ ['\r']) = nameBefore after ∨
    nameBefore (after ++ ['\r']) = nameBefore after ++ ['\r'] := by
  rcases isMark_definitionMark.before_concat (s := after) (x := '\r') (by decide) with same | longer
  · exact .inl (by rw [nameBefore, same, nameBefore])
  · rw [nameBefore, longer, nameBefore]
    exact isMark_parenthesis.before_concat (by decide)

theorem methodOfLine_return (line : List Char) : methodOfLine (line ++ ['\r']) = methodOfLine line := by
  by_cases parenthesis : '(' ∈ line
  · have still : '(' ∈ line ++ ['\r'] := List.mem_append_left _ parenthesis
    have longer := isMark_definitionMark.splitOnce?_concat (s := line) (x := '\r') (by decide)
    cases split : splitOnce? definitionMark line with
    | none =>
        rw [split, Option.map_none, isMark_definitionMark.splitOnce?_eq_none_iff] at longer
        rw [isMark_definitionMark.splitOnce?_eq_none_iff] at split
        rw [methodOfLine_eq_none (.inr longer), methodOfLine_eq_none (.inr split)]
    | some parts =>
        obtain ⟨front, after⟩ := parts
        rw [split, Option.map_some] at longer
        rw [methodOfLine_of_split still longer, methodOfLine_of_split parenthesis split]
        rcases nameBefore_concat after with same | longer
        · rw [same]
        · rw [longer, trim_concat _ (by decide)]
  · have absent : '(' ∉ line ++ ['\r'] := by simp [parenthesis]
    rw [methodOfLine_eq_none (.inl absent), methodOfLine_eq_none (.inl parenthesis)]

theorem methodNames_eq (source : String) : methodNames source =
    ((splitOn '\n' source.toList).filterMap methodOfLine).map String.ofList := by
  have nothing : methodOfLine [] = none := rfl
  rw [methodNames, filterMap_linesOf nothing methodOfLine_return]

theorem methodNames_append (a b : String) :
    methodNames (a ++ "\n" ++ b) = methodNames a ++ methodNames b := by
  have whole : (a ++ "\n" ++ b).toList = a.toList ++ '\n' :: b.toList := by simp
  rw [methodNames_eq, methodNames_eq, methodNames_eq, whole, splitOn_append, List.filterMap_append,
    List.map_append]

theorem methodNames_of_oneLine {line : String} (oneLine : IsOneLine line) :
    methodNames line = ((methodOfLine line.toList).map String.ofList).toList := by
  rw [methodNames_eq, splitOn_of_not_mem _ _ oneLine]
  cases found : methodOfLine line.toList with
  | none => rw [List.filterMap_cons_none found]; rfl
  | some name => rw [List.filterMap_cons_some found]; rfl

theorem mem_methodNames_iff {source name : String} : name ∈ methodNames source ↔
    ∃ line ∈ lines source, Announces line.toList name.toList := by
  simp only [methodNames, lines, List.mem_map, List.mem_filterMap, methodOfLine_eq_some_iff]
  constructor
  · rintro ⟨method, ⟨line, listed, announces⟩, rfl⟩
    exact ⟨_, ⟨line, listed, rfl⟩, by simpa using announces⟩
  · rintro ⟨_, ⟨line, listed, rfl⟩, announces⟩
    exact ⟨name.toList, ⟨line, listed, by simpa using announces⟩, String.ofList_toList⟩

/-! ## Clean names -/

/-- A name that a diagram can show: some text of one line without blanks around it that does not look
private and holds nothing that ends a name. -/
structure IsMethodName (name : List Char) : Prop where
  nonempty : name ≠ []
  begins : ∀ c ∈ name.head?, isBlank c = false
  ends : ∀ c ∈ name.getLast?, isBlank c = false
  visible : name.head? ≠ some '_'
  oneLine : '\n' ∉ name
  noParenthesis : '(' ∉ name
  noMark : ¬ definitionMark <:+: name

theorem Announces.isMethodName {line name : List Char} (oneLine : '\n' ∉ line)
    (announces : Announces line name) : IsMethodName name := by
  obtain ⟨-, nonempty, visible, front, between, rest, cuts, rfl⟩ := announces
  have inside := trim_infix between
  refine ⟨nonempty, isBlank_head?_trim between, isBlank_getLast?_trim between, visible, ?_, ?_, ?_⟩
  · intro feed
    refine oneLine (cuts.shape ▸ ?_)
    exact List.mem_append_left _ (List.mem_append_right _ (inside.subset feed))
  · exact fun parenthesis => cuts.noParenthesis (inside.subset parenthesis)
  · exact fun mark => cuts.noMark (mark.trans inside)

theorem isMethodName_of_mem {source name : String} (member : name ∈ methodNames source) :
    IsMethodName name.toList := by
  obtain ⟨line, listed, announces⟩ := mem_methodNames_iff.mp member
  obtain ⟨row, among, rfl⟩ := List.mem_map.mp listed
  rw [String.toList_ofList] at announces
  exact announces.isMethodName (not_mem_of_mem_linesOf among)

theorem methodOfLine_of_identifier {indent keyword name rest : List Char}
    (blank : ∀ c ∈ indent, isBlank c = true) (among : keyword ∈ [[], "async ".toList])
    (identifier : IsIdentifier name) :
    methodOfLine (indent ++ keyword ++ definitionMark ++ name ++ '(' :: rest) = publicName? name := by
  have letters : ∀ c ∈ name, isBlank c = false ∧ c ≠ '(' := fun c inside => by
    have part := identifier.isIdentifierPart c inside
    refine ⟨isBlank_of_isIdentifierPart part, ?_⟩
    rintro rfl
    exact absurd part (by decide)
  have plain : ∀ word ∈ [[], "async ".toList], 'd' ∉ word := by decide
  have cuts : Cuts (indent ++ keyword ++ definitionMark ++ name ++ '(' :: rest)
      (indent ++ keyword) name ('(' :: rest) := by
    refine ⟨rfl, fun inside => ?_, fun inside => (letters _ inside).2 rfl, fun inside => ?_,
      .inr (.inl rfl)⟩
    · have marked : 'd' ∈ indent ++ keyword := inside.subset (by decide)
      rcases List.mem_append.mp marked with early | late
      · exact absurd (blank _ early) (by decide)
      · exact plain keyword among late
    · exact absurd (letters ' ' (inside.subset (by decide))).1 (by decide)
  rw [methodOfLine_of_cuts (List.mem_append_right _ List.mem_cons_self) cuts,
    trim_eq_self fun c inside => (letters c inside).1]

/-- The scan goes line by line, every name it finds is clean, and it finds the name of a definition that
is written on one line. -/
theorem methodNames_scan :
    (∀ a b : String, methodNames (a ++ "\n" ++ b) = methodNames a ++ methodNames b) ∧
      (∀ source : String, ∀ name ∈ methodNames source, IsMethodName name.toList) ∧
      ∀ indent keyword name rest : String,
        (∀ c ∈ indent.toList, isBlank c = true ∧ c ≠ '\n') → keyword ∈ ["", "async "] →
          IsIdentifier name.toList → IsOneLine rest →
            methodNames (indent ++ keyword ++ "def " ++ name ++ "(" ++ rest) =
              if name.toList.head? = some '_' then [] else [name] := by
  refine ⟨methodNames_append, fun source name => isMethodName_of_mem, ?_⟩
  intro indent keyword name rest blank among identifier oneLine
  have words : ∀ word ∈ ["", "async "], IsOneLine word ∧ word.toList ∈ [[], "async ".toList] := by
    decide
  obtain ⟨oneWord, among⟩ := words keyword among
  have flat : IsOneLine (indent ++ keyword ++ "def " ++ name ++ "(" ++ rest) := by
    have front : IsOneLine indent := fun feed => (blank _ feed).2 rfl
    have own : IsOneLine name := fun feed =>
      absurd (isBlank_of_isIdentifierPart (identifier.isIdentifierPart _ feed)) (by decide)
    simp only [isOneLine_append, front, oneWord, own, oneLine]
    decide
  have shape : (indent ++ keyword ++ "def " ++ name ++ "(" ++ rest).toList =
      indent.toList ++ keyword.toList ++ definitionMark ++ name.toList ++ '(' :: rest.toList := by
    simp [definitionMark]
  rw [methodNames_of_oneLine flat, shape,
    methodOfLine_of_identifier (fun c inside => (blank c inside).1) among identifier, publicName?]
  by_cases hidden : name.toList.head? = some '_'
  · simp [hidden]
  · simp [hidden, identifier.ne_nil]

theorem methodNames_scan_async :
    methodNames "\t async def na\u00efve(self, f=(1)):\r" = ["na\u00efve"] ∧
      methodNames "def a(\r\n  def _b()" = methodNames "def a(\r" ++ methodNames "  def _b()" := by
  obtain ⟨append, -, single⟩ := methodNames_scan
  have blank : ∀ c ∈ "\t ".toList, isBlank c = true ∧ c ≠ '\n' := by simp [isBlank]
  have identifier : IsIdentifier "na\u00efve".toList := by decide
  have oneLine : IsOneLine "self, f=(1)):\r" := by decide
  refine ⟨?_, append "def a(\r" "  def _b()"⟩
  exact single "\t " "async " "na\u00efve" "self, f=(1)):\r" blank (by decide) identifier oneLine

/-! ## Where names stand -/

/-- The name is the trimmed text between a mark and the first parenthesis after it. -/
def SitsBetween (line name : List Char) : Prop :=
  ∃ front between rest, line = front ++ definitionMark ++ between ++ '(' :: rest ∧
    '(' ∉ between ∧ name = trim between

/-- A parenthesis follows the first mark, with no other mark between them. -/
def ClosesName (line : List Char) : Prop :=
  ∀ front after, line = front ++ definitionMark ++ after → ¬ definitionMark <:+: front →
    ∃ between rest, after = between ++ '(' :: rest ∧ ¬ definitionMark <:+: between

theorem closesName_iff {line : List Char} : ClosesName line ↔
    ∀ parts ∈ splitOnce? definitionMark line, '(' ∈ before definitionMark parts.2 := by
  constructor
  · rintro closes ⟨front, after⟩ split
    obtain ⟨shape, first⟩ := isMark_definitionMark.splitOnce?_eq_some_iff.mp split
    obtain ⟨between, rest, rfl, free⟩ := closes front after shape first
    obtain ⟨inner, kept⟩ := isMark_definitionMark.before_append (x := '(') (by decide) free rest
    exact kept ▸ List.mem_append_right _ List.mem_cons_self
  · intro closed front after shape first
    have split := isMark_definitionMark.splitOnce?_eq_some_iff.mpr ⟨shape, first⟩
    obtain ⟨between, rest, kept⟩ := List.append_of_mem (closed _ split)
    obtain ⟨free, later, whole, -⟩ := (isMark_definitionMark.before_eq_iff (s := after)).mp rfl
    rw [kept] at free whole
    refine ⟨between, rest ++ later, by rw [whole, List.append_assoc]; rfl, fun inside => free ?_⟩
    exact inside.trans (List.prefix_append _ _).isInfix

instance (line : List Char) : Decidable (ClosesName line) := decidable_of_iff _ closesName_iff.symm

theorem Announces.sitsBetween {line name : List Char} (closes : ClosesName line)
    (announces : Announces line name) : SitsBetween line name := by
  obtain ⟨-, -, -, front, between, rest, cuts, rfl⟩ := announces
  obtain ⟨shape, first, noParenthesis, -, ends⟩ := cuts
  obtain ⟨other, more, after, free⟩ := closes front (between ++ rest) (by rw [shape, List.append_assoc]) first
  rcases ends with rfl | begins | ⟨further, rfl⟩
  · rw [List.append_nil] at after
    exact absurd (after ▸ List.mem_append_right _ List.mem_cons_self) noParenthesis
  · obtain ⟨more, rfl⟩ := List.head?_eq_some_iff.mp begins
    exact ⟨front, between, more, shape, noParenthesis, rfl⟩
  · have absent : '(' ∉ between ++ definitionMark := by
      rw [List.mem_append, not_or]
      exact ⟨noParenthesis, by decide⟩
    have early : between ++ definitionMark <+: other :=
      prefix_of_not_mem absent ⟨further, by rw [← after, List.append_assoc]⟩
    exact absurd ((List.suffix_append between definitionMark).isInfix.trans early.isInfix) free

/-- A line announces the text from its first mark to the nearest parenthesis or mark, or to its end if
there is none, and it announces nothing without a parenthesis somewhere. So where each first mark has its
parenthesis, every name sits between the two. -/
theorem mem_methodNames (source : String) :
    (∀ name, name ∈ methodNames source ↔
        ∃ line ∈ lines source, Announces line.toList name.toList) ∧
      ((∀ line ∈ lines source, ClosesName line.toList) →
        ∀ name ∈ methodNames source, ∃ line ∈ lines source, SitsBetween line.toList name.toList) := by
  refine ⟨fun name => mem_methodNames_iff, fun closes name member => ?_⟩
  obtain ⟨line, listed, announces⟩ := mem_methodNames_iff.mp member
  exact ⟨line, listed, announces.sitsBetween (closes line listed)⟩

theorem mem_methodNames_crowded :
    let source := "call(x)\r\n  undef total (y) # def\n    # def legacy(self) def _a(\n"
    "legacy" ∈ methodNames source ∧
      ∃ line ∈ lines source, SitsBetween line.toList "legacy".toList := by
  intro source
  have member : "legacy" ∈ methodNames source := by decide
  exact ⟨member, (mem_methodNames source).2 (by decide) "legacy" member⟩

def callLine : String := "call(x)  # def helper"

theorem mem_methodNames_unclosed :
    "helper" ∈ methodNames callLine ∧
      ∀ line ∈ lines callLine, ¬ SitsBetween line.toList "helper".toList := by
  refine ⟨by decide, ?_⟩
  have single : lines callLine = [callLine] := by decide
  rw [single, List.forall_mem_singleton]
  rintro ⟨front, between, rest, shape, -⟩
  have early : ∀ n < 21, callLine.toList[n]? = some '(' →
      ¬ definitionMark <:+: callLine.toList.take n := by decide
  have length : callLine.toList.length = 21 := by decide
  rw [shape, List.length_append, List.length_cons] at length
  refine early (front ++ definitionMark ++ between).length (by omega) ?_ ⟨front, between, ?_⟩
  · rw [shape, List.getElem?_append_right (Nat.le_refl _), Nat.sub_self]
    rfl
  · rw [shape, List.take_left]

end Diagram
end CodeAtlas

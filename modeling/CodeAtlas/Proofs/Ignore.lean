import CodeAtlas.Path
import CodeAtlas.Proofs.Text.Lowercase
import CodeAtlas.Proofs.Text.Search

/-!
# Ignored paths, component by component

No token holds a slash, and no character but an ASCII letter of either case becomes a letter of a token.
So a path is ignored exactly where one of its components holds a token in letters of either case
(`isIgnored_by_component`), and a path that goes on from an ignored one is ignored too
(`Path.isIgnored_append`): a walk that does not enter ignored directories misses nothing that the filter
would keep.
-/

namespace CodeAtlas

open Text

/-! ## Tokens -/

/-- These bytes hold the word, in letters of either case. -/
def Bytes.Mentions (b : Bytes) (word : String) : Prop :=
  ∃ spelling : String, ofString spelling <:+: b ∧ lowercaseAscii spelling.toList = word.toList

theorem isPlainWord_token : ∀ token ∈ ignoreTokens, IsPlainWord token.toList := by
  decide

theorem slash_not_mem_token : ∀ token ∈ ignoreTokens, '/' ∉ token.toList := by
  decide

theorem isAscii_of_toLower {c : Char} (ascii : IsAscii c.toLower) : IsAscii c := by
  by_cases plain : IsAscii c
  · exact plain
  · rwa [toLower_of_not_isAscii plain] at ascii

theorem Bytes.mentions_iff {b : Bytes} {word : String} (plain : IsPlainWord word.toList) :
    b.Mentions word ↔ word.toList <:+: lowercase (decodeLossy b) := by
  have ascii : ∀ spelling, lowercaseAscii spelling = word.toList → ∀ c ∈ spelling, IsAscii c := by
    intro spelling same c inside
    apply isAscii_of_toLower
    exact plain.ascii _ (same ▸ List.mem_map_of_mem inside)
  rw [infix_iff_of_lowers plain (lowers_lowercase _)]
  constructor
  · rintro ⟨spelling, inside, same⟩
    rw [← String.ofList_toList (s := spelling), ofString_ofList,
      ← infix_decodeLossy_iff (ascii _ same)] at inside
    exact same ▸ inside.map Char.toLower
  · intro inside
    obtain ⟨spelling, among, same⟩ := List.infix_map_iff.mp inside
    refine ⟨String.ofList spelling, ?_, by rw [String.toList_ofList, same]; rfl⟩
    rwa [ofString_ofList, ← infix_decodeLossy_iff (ascii _ same.symm)]

theorem contains_of_lowers {token : String} (listed : token ∈ ignoreTokens) {text small : List Char}
    (lowers : Lowers text small) :
    contains token.toList small = contains token.toList (lowercaseAscii text) := by
  rw [Bool.eq_iff_iff, contains_iff_infix, contains_iff_infix]
  exact infix_iff_of_lowers (isPlainWord_token token listed) lowers

namespace Path

theorem isIgnored_ofString (text : String) :
    (ofString text).isIgnored = hasIgnoreToken (lowercase text.toList) := by
  rw [isIgnored, ofString, Bytes.decodeLossy_ofString]

/-- Which small sigma a capital one gets makes no difference to what is ignored. -/
theorem isIgnored_of_lowers {p : Path} {small : List Char}
    (lowers : Lowers (Bytes.decodeLossy p.bytes) small) : p.isIgnored = hasIgnoreToken small := by
  rw [isIgnored, Bool.eq_iff_iff, hasIgnoreToken, hasIgnoreToken, List.any_eq_true, List.any_eq_true]
  refine exists_congr fun token => and_congr_right fun listed => ?_
  rw [contains_of_lowers listed lowers, contains_of_lowers listed (lowers_lowercase _)]

theorem isIgnored_iff {p : Path} :
    p.isIgnored = true ↔ ∃ token ∈ ignoreTokens, p.bytes.Mentions token := by
  rw [isIgnored, hasIgnoreToken, List.any_eq_true]
  refine exists_congr fun token => and_congr_right fun listed => ?_
  rw [Bytes.mentions_iff (isPlainWord_token token listed), contains_iff_infix]

/-! ## Components -/

theorem isIgnored_iff_pieces {p : Path} :
    p.isIgnored = true ↔ ∃ piece ∈ p.pieces, (mk piece).isIgnored = true := by
  have within : ∀ token ∈ ignoreTokens,
      p.bytes.Mentions token ↔ ∃ piece ∈ p.pieces, Bytes.Mentions piece token := by
    intro token listed
    have absent : ∀ spelling : String, lowercaseAscii spelling.toList = token.toList →
        slash ∉ Bytes.ofString spelling := by
      intro spelling same inside
      have own : '/' ∈ spelling.toList := Bytes.mem_of_mem_ofString rfl (by decide) inside
      exact slash_not_mem_token token listed (same ▸ List.mem_map_of_mem (f := Char.toLower) own)
    constructor
    · rintro ⟨spelling, inside, same⟩
      obtain ⟨piece, among, found⟩ := (infix_iff_splitOn (absent spelling same)).mp inside
      exact ⟨piece, among, spelling, found, same⟩
    · rintro ⟨piece, among, spelling, found, same⟩
      exact ⟨spelling, (infix_iff_splitOn (absent spelling same)).mpr ⟨piece, among, found⟩, same⟩
  constructor
  · intro ignored
    obtain ⟨token, listed, mentioned⟩ := isIgnored_iff.mp ignored
    obtain ⟨piece, among, found⟩ := (within token listed).mp mentioned
    exact ⟨piece, among, isIgnored_iff.mpr ⟨token, listed, found⟩⟩
  · rintro ⟨piece, among, ignored⟩
    obtain ⟨token, listed, found⟩ := isIgnored_iff.mp ignored
    exact isIgnored_iff.mpr ⟨token, listed, (within token listed).mpr ⟨piece, among, found⟩⟩

theorem isIgnored_of_isTrivial {piece : Name} (trivial : isTrivial piece = true) :
    (mk piece).isIgnored = false := by
  simp only [isTrivial, Bool.or_eq_true, List.isEmpty_iff, beq_iff_eq] at trivial
  rcases trivial with rfl | rfl
  · decide +kernel
  · decide +kernel

theorem isIgnored_nil : (mk []).isIgnored = false := isIgnored_of_isTrivial rfl

theorem name_ofPiece (piece : Name) : (Component.ofPiece piece).name = piece := by
  rw [Component.ofPiece]
  split
  · rename_i double
    exact (beq_iff_eq.mp double).symm
  · rfl

theorem isIgnored_name_ofFirst (first : Name) :
    (mk (Component.ofFirst first).name).isIgnored = (mk first).isIgnored := by
  rw [Component.ofFirst]
  split
  · rename_i empty
    rw [List.isEmpty_iff.mp empty]
    decide +kernel
  · split
    · rename_i single
      rw [beq_iff_eq.mp single]
      rfl
    · rw [name_ofPiece]

theorem isIgnored_iff_components {p : Path} :
    p.isIgnored = true ↔ ∃ step ∈ p.components, (mk step.name).isIgnored = true := by
  by_cases empty : p.isEmpty = true
  · have nothing : p = mk [] := congrArg mk (List.isEmpty_iff.mp empty)
    rw [components, if_pos empty, nothing, isIgnored_nil]
    simp
  rw [isIgnored_iff_pieces, components, if_neg empty]
  cases p.pieces with
  | nil => simp
  | cons first body =>
      have steps : (∃ piece ∈ body, (mk piece).isIgnored = true) ↔
          ∃ step ∈ (body.filter fun piece => !isTrivial piece).map Component.ofPiece,
            (mk step.name).isIgnored = true := by
        constructor
        · rintro ⟨piece, among, ignored⟩
          have kept : isTrivial piece ≠ true := fun trivial => by
            rw [isIgnored_of_isTrivial trivial] at ignored
            cases ignored
          refine ⟨.ofPiece piece, List.mem_map_of_mem ?_, by rwa [name_ofPiece]⟩
          exact List.mem_filter.mpr ⟨among, by simpa using kept⟩
        · rintro ⟨step, among, ignored⟩
          obtain ⟨piece, kept, rfl⟩ := List.mem_map.mp among
          rw [name_ofPiece] at ignored
          exact ⟨piece, (List.mem_filter.mp kept).1, ignored⟩
      simp only [List.mem_cons, exists_eq_or_imp, isIgnored_name_ofFirst, steps]

/-! ## Longer paths -/

theorem isIgnored_append_slash (front back : Bytes) :
    (mk (front ++ slash :: back)).isIgnored = ((mk front).isIgnored || (mk back).isIgnored) := by
  have split : (mk (front ++ slash :: back)).pieces = (mk front).pieces ++ (mk back).pieces :=
    splitOn_append slash front back
  rw [Bool.eq_iff_iff, Bool.or_eq_true, isIgnored_iff_pieces, split, isIgnored_iff_pieces (p := mk front),
    isIgnored_iff_pieces (p := mk back)]
  simp only [List.mem_append, or_and_right, exists_or]

theorem isIgnored_append {front : List Name} (ignored : (ofNames front).isIgnored = true)
    (back : List Name) : (ofNames (front ++ back)).isIgnored = true := by
  by_cases nothing : front = []
  · rw [nothing, ofNames, joinWith, isIgnored_nil] at ignored
    cases ignored
  by_cases last : back = []
  · rwa [last, List.append_nil]
  have whole : ofNames (front ++ back) = mk ((ofNames front).bytes ++ slash :: (ofNames back).bytes) := by
    rw [ofNames, joinWith_append _ nothing last, List.append_assoc]
    rfl
  rw [whole, isIgnored_append_slash, ignored, Bool.true_or]

theorem isIgnored_join (p : Path) {q : Path} (relative : q.isAbsolute = false) :
    (p.join q).isIgnored = (p.isIgnored || q.isIgnored) := by
  rw [join, relative, Bool.false_or]
  split
  · rename_i empty
    have nothing : p = mk [] := congrArg mk (List.isEmpty_iff.mp empty)
    rw [nothing, isIgnored_nil, Bool.false_or]
  · split
    · rename_i ends
      obtain ⟨front, shape⟩ := List.getLast?_eq_some_iff.mp (beq_iff_eq.mp ends)
      have own : p.isIgnored = (mk front).isIgnored := by
        have split := isIgnored_append_slash front []
        rwa [isIgnored_nil, Bool.or_false, ← shape] at split
      rw [own, shape, List.append_assoc, List.singleton_append, isIgnored_append_slash]
    · exact isIgnored_append_slash p.bytes q.bytes

/-- A path is ignored if one of its components holds a token, in letters of either case; the small
letters beyond ASCII make no difference. Paths that are joined are ignored if one of them is. -/
theorem isIgnored_by_component :
    (∀ p : Path, p.isIgnored = true ↔
        ∃ step ∈ p.components, ∃ token ∈ ignoreTokens, step.name.Mentions token) ∧
      (∀ token ∈ ignoreTokens, ∀ text,
        contains token.toList (lowercase text) = contains token.toList (lowercaseAscii text)) ∧
      ∀ p q : Path, p.isAbsolute = false → q.isAbsolute = false →
        (p.isIgnored = true → (p.join q).isIgnored = true ∧ (q.join p).isIgnored = true) ∧
          (p.join q).isIgnored = (p.isIgnored || q.isIgnored) := by
  refine ⟨fun p => ?_, fun token listed text => contains_of_lowers listed (lowers_lowercase text),
    fun p q first second => ?_⟩
  · rw [isIgnored_iff_components]
    simp only [isIgnored_iff]
  · refine ⟨fun ignored => ?_, isIgnored_join p second⟩
    rw [isIgnored_join p second, isIgnored_join q first, ignored, Bool.true_or, Bool.or_true]
    exact ⟨rfl, rfl⟩

theorem isIgnored_by_component_mixed :
    let tools : Path := ⟨0xFF :: Bytes.ofString "my_VEnv"⟩
    let lookalike : Path := ofString "a/.g\u0130t"
    tools.isAbsolute = false ∧ lookalike.isAbsolute = false ∧ tools.isIgnored = true ∧
      lookalike.isIgnored = false ∧ (tools.join lookalike).isIgnored = true ∧
        (lookalike.join tools).isIgnored = true := by
  intro tools lookalike
  have ignored : tools.isIgnored = true := by decide +kernel
  obtain ⟨-, -, joined⟩ := isIgnored_by_component
  obtain ⟨either, -⟩ := joined tools lookalike rfl rfl
  exact ⟨rfl, rfl, ignored, by decide +kernel, either ignored⟩

end Path
end CodeAtlas

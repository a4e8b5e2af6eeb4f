import CodeAtlas.Proofs.Document.Lines

namespace CodeAtlas.Document

open Text

def unquoted (line : String) : String :=
  match line.toList with
  | '>' :: ' ' :: text => String.ofList text
  | ['>'] => ""
  | _ => line

def cleared (line : String) : String := if line.toList.all isBlank then "" else line

theorem unquoted_quoted (line : List Char) : unquoted (quoted line) = cleared (String.ofList line) := by
  rw [quoted, cleared, String.toList_ofList]
  by_cases blank : ∀ c ∈ line, isBlank c = true
  · rw [if_pos (List.isEmpty_iff.mpr (trim_eq_nil_iff.mpr blank)), if_pos (List.all_eq_true.mpr blank)]
    rfl
  · rw [if_neg (mt List.isEmpty_iff.mp (mt trim_eq_nil_iff.mp blank)),
      if_neg (mt List.all_eq_true.mp blank)]
    simp [unquoted]

theorem mark_prefix_quoted (line : List Char) : ">".toList <+: (quoted line).toList := by
  rw [quoted]
  split
  · exact List.prefix_rfl
  · rw [String.toList_append]
    have begins : ">".toList <+: "> ".toList := by decide
    exact begins.trans (List.prefix_append _ _)

def linesBefore (survey : Survey) (options : DocumentOptions) : List String :=
  ("# " ++ options.title) :: "" :: (statistics survey).lines

def linesAfter (survey : Survey) (options : DocumentOptions) : List String :=
  ((if options.diagrams then diagramSections survey options.treeDepth else []) ++
    errorSections survey).flatMap Section.lines

theorem lines_eq (survey : Survey) (readme : Option String) (options : DocumentOptions) :
    lines survey readme options = linesBefore survey options ++
      ((readme.map overview).toList.flatMap Section.lines ++ linesAfter survey options) := by
  simp [lines, sections, linesBefore, linesAfter]

theorem render_take {readme other : String}
    (same : (linesOf readme.toList).take maxExcerptLines = (linesOf other.toList).take maxExcerptLines)
    (survey : Survey) (options : DocumentOptions) :
    render survey (some readme) options = render survey (some other) options := by
  have quotes : overview readme = overview other := by rw [overview, overview, same]
  rw [render, render, lines_eq, lines_eq, Option.map_some, Option.map_some, quotes]

/-- A README adds one section to a document and leaves the rest as it is. The section has a quoted line
for each of the first 20 lines of the README, which are read back from the quotes, and the document is
the same whatever follows these lines. -/
theorem render_overview (survey : Survey) (options : DocumentOptions) :
    ∃ front back : List String, rows (render survey none options) = front ++ back ∧
      (∀ readme : String, ∃ quotes : List String,
        rows (render survey (some readme) options) =
            front ++ ("## Overview" :: "" :: quotes ++ "" :: back) ∧
          quotes.length = min 20 (Text.lines readme).length ∧
          (∀ quote ∈ quotes, ">".toList <+: quote.toList) ∧
          quotes.map unquoted = ((Text.lines readme).take 20).map cleared) ∧
      ∀ kept rest other : String, 20 ≤ kept.toList.count '\n' →
        render survey (some (kept ++ rest)) options = render survey (some (kept ++ other)) options := by
  refine ⟨(linesBefore survey options).flatMap rows, rows (unlines (linesAfter survey options)), ?_,
    fun readme => ⟨((linesOf readme.toList).take maxExcerptLines).map quoted, ?_, ?_, ?_, ?_⟩, ?_⟩
  · rw [render, lines_eq, rows_unlines_append]
    rfl
  · have oneLine : (overview readme).lines.flatMap rows = (overview readme).lines := by
      have each := (lays_overview readme).oneLine
      rw [List.flatMap_congr fun line member => rows_of_isOneLine (each line member)]
      exact List.flatMap_singleton' _
    rw [render, lines_eq, rows_unlines_append, rows_unlines_append, Option.map_some, Option.toList_some,
      List.flatMap_singleton, oneLine]
    simp [Section.lines, overview]
  · rw [List.length_map, List.length_take, Text.lines, List.length_map]
    rfl
  · rw [List.forall_mem_map]
    exact fun line _ => mark_prefix_quoted line
  · rw [Text.lines, ← List.map_take, List.map_map, List.map_map]
    exact List.map_congr_left fun line _ => unquoted_quoted line
  · intro kept rest other enough
    apply render_take
    rw [String.toList_append, String.toList_append, maxExcerptLines, take_linesOf_append enough,
      take_linesOf_append enough]

theorem render_overview_cut :
    let survey := (lonely "main.py" "def f(): pass").survey (.ofString "p") 3
    let kept := unlines (List.replicate 20 "# a\r")
    20 ≤ kept.toList.count '\n' ∧ render survey (some (kept ++ "```\n")) { title := "T" } =
      render survey (some (kept ++ "")) { title := "T" } := by
  intro survey kept
  have enough : 20 ≤ kept.toList.count '\n' := by decide +kernel
  obtain ⟨front, back, -, -, cut⟩ := render_overview survey { title := "T" }
  exact ⟨enough, cut kept "```\n" "" enough⟩

end CodeAtlas.Document

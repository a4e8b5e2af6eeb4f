import CodeAtlas.Proofs.Python.Item
import CodeAtlas.Proofs.Text.Lines
import CodeAtlas.Proofs.Text.Utf8
import CodeAtlas.Survey.Walk

namespace CodeAtlas

open Text

def lineFeed : UInt8 := 0x0A

theorem utf8EncodeChar_lineFeed : String.utf8EncodeChar '\n' = [lineFeed] := rfl

theorem Bytes.isOneLine_display {b : Bytes} (free : lineFeed ∉ b) : IsOneLine b.display := by
  rw [display, isOneLine_ofList]
  exact fun member => free (mem_of_mem_decodeLossy utf8EncodeChar_lineFeed member)

theorem Bytes.isOneLine_of_decode? {b : Bytes} {s : String} (text : b.decode? = some s)
    (free : lineFeed ∉ b) : IsOneLine s :=
  fun member => free (mem_of_mem_decode? utf8EncodeChar_lineFeed text member)

/-! ## Names of modules -/

namespace Path

theorem mem_of_mem_components {p : Path} {step : Component} {x : UInt8} (among : step ∈ p.components)
    (member : x ∈ step.name) (noSlash : x ≠ slash) (noDot : x ≠ dot) : x ∈ p.bytes := by
  have inside : ∀ piece ∈ p.pieces, x ∈ piece → x ∈ p.bytes := fun piece listed own =>
    (Text.of_mem_splitOn listed).2 x own
  have ofPiece : ∀ piece, x ∈ (Component.ofPiece piece).name → x ∈ piece := by
    intro piece own
    unfold Component.ofPiece at own
    split at own
    · simp [Component.name, noDot] at own
    · exact own
  have ofFirst : ∀ first, x ∈ (Component.ofFirst first).name → x ∈ first := by
    intro first own
    unfold Component.ofFirst at own
    split at own
    · simp [Component.name, noSlash] at own
    · split at own
      · simp [Component.name, noDot] at own
      · exact ofPiece first own
  unfold components at among
  split at among
  · cases among
  · cases split : p.pieces with
    | nil => simp [split] at among
    | cons first body =>
        rw [split] at among inside
        rw [List.forall_mem_cons] at inside
        rcases List.mem_cons.mp among with rfl | among
        · exact inside.1 (ofFirst first member)
        · obtain ⟨piece, kept, rfl⟩ := List.mem_map.mp among
          exact inside.2 piece (List.mem_filter.mp kept).1 (ofPiece piece member)

theorem dropLastWhile_subset (p : Name → Bool) (pieces : List Name) : dropLastWhile p pieces ⊆ pieces := by
  intro piece member
  rw [dropLastWhile, List.mem_reverse] at member
  exact List.mem_reverse.mp ((List.dropWhile_sublist p).subset member)

theorem dropSteps_subset (n : Nat) (body : List Name) : dropSteps n body ⊆ body := by
  induction n generalizing body with
  | zero => exact List.Subset.refl body
  | succ n ih =>
      rw [dropSteps]
      exact List.Subset.trans (ih _) ((List.tail_sublist _).trans (List.dropWhile_sublist _)).subset

theorem mem_of_mem_relativeTo {p base : Path} {x : UInt8} (member : x ∈ (p.relativeTo base).bytes)
    (noSlash : x ≠ slash) : x ∈ p.bytes := by
  have inside : ∀ pieces : List Name, pieces ⊆ p.pieces → x ∈ Text.joinWith [slash] pieces →
      x ∈ p.bytes := by
    intro pieces kept joined
    rcases Text.mem_joinWith joined with between | ⟨piece, among, own⟩
    · exact absurd (List.mem_singleton.mp between) noSlash
    · exact (Text.of_mem_splitOn (kept among)).2 x own
  rw [relativeTo, strip?] at member
  split at member
  · split at member
    · exact member
    · rename_i first body pieces _
      rw [Option.getD_some] at member
      split at member
      · exact member
      · rw [ofPieces] at member
        split at member
        · exact absurd (List.mem_singleton.mp member) noSlash
        · refine inside _ ?_ member
          rw [pieces]
          exact List.cons_subset_cons first (dropLastWhile_subset _ _)
    · rename_i first body n pieces _
      rw [Option.getD_some] at member
      refine inside _ ?_ member
      rw [pieces]
      have steps := List.Subset.trans (dropLastWhile_subset isTrivial _)
        (List.Subset.trans (List.dropWhile_sublist isTrivial).subset (dropSteps_subset n body))
      exact List.Subset.trans steps (List.subset_cons_self first body)
  · exact member

end Path

theorem not_mem_dropBack? {back s stem : List Char} {c : Char} (cut : dropBack? back s = some stem)
    (absent : c ∉ s) : c ∉ stem := by
  unfold dropBack? at cut
  split at cut
  · cases cut
    exact fun member => absent (List.mem_of_mem_take member)
  · cases cut

theorem isOneLine_moduleName {path root : Path} (free : lineFeed ∉ (path.relativeTo root).bytes) :
    IsOneLine (moduleName path root) := by
  have parts : ∀ part ∈ (path.relativeTo root).components.filterMap fun step =>
      Bytes.decode? step.name, IsOneLine part := by
    intro part member
    obtain ⟨step, among, text⟩ := List.mem_filterMap.mp member
    exact Bytes.isOneLine_of_decode? text fun inside =>
      free (Path.mem_of_mem_components among inside (by decide) (by decide))
  unfold moduleName
  generalize (path.relativeTo root).components.filterMap _ = all at parts ⊢
  have shortened : ∀ part ∈ all.dropLast, IsOneLine part := fun part member =>
    parts part ((List.dropLast_prefix all).subset member)
  have joined : ∀ names : List String, (∀ name ∈ names, IsOneLine name) →
      IsOneLine (joinStrings "." (if names.getLast? == some "__init__" then names.dropLast else names)) := by
    intro names each
    refine isOneLine_joinStrings (by decide) ?_
    split
    · exact fun name member => each name ((List.dropLast_prefix names).subset member)
    · exact each
  refine joined _ ?_
  split
  · exact parts
  · rename_i last ends
    split
    · rename_i stem cut
      rw [List.forall_mem_append, List.forall_mem_singleton, isOneLine_ofList]
      exact ⟨shortened, not_mem_dropBack? cut (parts last (List.mem_of_getLast? ends))⟩
    · exact parts

/-! ## Failures -/

namespace FileSystem

variable {fs : FileSystem} {followLast : Bool}

theorem isOneLine_of_advance {place : Place} {pieces : List Name} {fault : Fault}
    (refused : fs.advance followLast place pieces = .refused fault) : IsOneLine fault.message := by
  fun_induction fs.advance followLast place pieces with
  | case1 => cases refused
  | case2 _ _ _ _ ih => exact ih refused
  | case3 _ _ _ ih => exact ih refused
  | case4 => cases refused
  | case5 =>
      cases refused
      split <;> decide
  | case6 _ _ _ _ _ _ _ ih => exact ih refused
  | case7 => cases refused
  | case8 =>
      cases refused
      decide
  | case9 => cases refused
  | case10 =>
      cases refused
      decide
  | case11 => cases refused
  | case12 => cases refused

theorem isOneLine_of_follow {links : Nat} {place : Place} {pieces : List Name} {fault : Fault}
    (failed : fs.follow followLast links place pieces = .error fault) : IsOneLine fault.message := by
  induction links generalizing place pieces with
  | zero =>
      unfold follow at failed
      split at failed
      · cases failed
      · rename_i refused
        cases failed
        exact isOneLine_of_advance refused
      · cases failed
        decide
  | succ links ih =>
      unfold follow at failed
      split at failed
      · cases failed
      · rename_i refused
        cases failed
        exact isOneLine_of_advance refused
      · exact ih failed

theorem isOneLine_of_find {path : Path} {fault : Fault}
    (failed : fs.find followLast path = .error fault) : IsOneLine fault.message := by
  unfold find at failed
  split at failed
  · rename_i refused
    cases failed
    unfold resolve at refused
    split at refused
    · cases refused
      decide
    split at refused
    · cases refused
      decide
    split at refused
    · cases refused
      decide
    exact isOneLine_of_follow refused
  · cases failed
    split <;> decide
  · split at failed
    · cases failed
    · cases failed
      decide

theorem isOneLine_of_readText {path : Path} {fault : Fault} (failed : fs.readText path = .error fault) :
    IsOneLine fault.message := by
  unfold readText at failed
  split at failed
  · rename_i unread
    cases failed
    unfold readBytes at unread
    split at unread
    · rename_i missing
      cases unread
      exact isOneLine_of_find missing
    · cases unread
    · cases unread
      decide
    · cases unread
      decide
    · cases unread
      decide
  · split at failed
    · cases failed
    · cases failed
      decide

theorem isOneLine_errors (path : Path) : ∀ error ∈ (fs.outline path).errors, IsOneLine error := by
  unfold outline
  split
  · rw [Python.errors_ofSource]
    exact List.forall_mem_nil _
  · rename_i fault failed
    have words : IsOneLine (Failure.io fault).message :=
      isOneLine_append.mpr ⟨by decide, isOneLine_of_readText failed⟩
    simpa using words

/-! ## Names of definitions -/

theorem isOneLine_of_isIdentifierPart {s : String}
    (each : ∀ c ∈ s.toList, isIdentifierPart c = true) : IsOneLine s := by
  have other : isIdentifierPart '\n' = false := by decide
  intro feed
  have own := each '\n' feed
  simp [other] at own

theorem isOneLine_declaration (path : Path) :
    ∀ declaration ∈ (fs.outline path).functions ++ (fs.outline path).classes,
      IsOneLine declaration.name := by
  unfold outline
  split
  · exact fun _ member => isOneLine_of_isIdentifierPart (Python.isIdentifierPart_of_declaration member)
  · exact List.forall_mem_nil _

end FileSystem
end CodeAtlas

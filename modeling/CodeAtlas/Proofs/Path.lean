import CodeAtlas.FileSystem.Write
import CodeAtlas.Path
import CodeAtlas.Proofs.Text.Search

namespace CodeAtlas

structure IsEntryName (name : Name) : Prop where
  nonempty : name ≠ []
  no_slash : Path.slash ∉ name
  no_nul : (0 : UInt8) ∉ name
  not_current : name ≠ [Path.dot]
  not_parent : name ≠ [Path.dot, Path.dot]

instance (name : Name) : Decidable (IsEntryName name) :=
  decidable_of_iff
    (name ≠ [] ∧ Path.slash ∉ name ∧ (0 : UInt8) ∉ name ∧ name ≠ [Path.dot] ∧
      name ≠ [Path.dot, Path.dot])
    ⟨fun ⟨h₁, h₂, h₃, h₄, h₅⟩ => ⟨h₁, h₂, h₃, h₄, h₅⟩, fun ⟨h₁, h₂, h₃, h₄, h₅⟩ => ⟨h₁, h₂, h₃, h₄, h₅⟩⟩

theorem IsEntryName.not_trivial {name : Name} (regular : IsEntryName name) :
    Path.isTrivial name = false := by
  simp [Path.isTrivial, regular.nonempty, regular.not_current]

namespace Path

variable {p : Path} {name : Name}

theorem entry_bytes (regular : IsEntryName name) (nonempty : p.bytes ≠ []) :
    (∃ front, p.bytes = front ++ [slash] ∧ (p.entry name).bytes = front ++ slash :: name) ∨
      (p.entry name).bytes = p.bytes ++ slash :: name := by
  have relative : (Path.mk name).isAbsolute = false := by
    cases name with
    | nil => exact absurd rfl regular.nonempty
    | cons first rest =>
        have different := regular.no_slash
        rw [List.mem_cons, not_or] at different
        simpa [isAbsolute] using fun equal : first = slash => different.1 equal.symm
  have full : p.isEmpty = false := by simpa [isEmpty] using nonempty
  simp only [entry, join, relative, full, Bool.or_self, Bool.false_eq_true, if_false]
  split
  · rename_i ends
    rw [beq_iff_eq] at ends
    obtain ⟨front, shape⟩ := List.getLast?_eq_some_iff.mp ends
    exact Or.inl ⟨front, shape, by simp [shape]⟩
  · exact Or.inr rfl

theorem pieces_entry (regular : IsEntryName name) (nonempty : p.bytes ≠ []) :
    ∃ first body last, p.pieces = first :: (body ++ last) ∧ (∀ piece ∈ last, piece = []) ∧
      (p.entry name).pieces = first :: (body ++ [name]) := by
  have own := Text.splitOn_of_not_mem slash name regular.no_slash
  rcases entry_bytes regular nonempty with ⟨front, shape, bytes⟩ | bytes
  · cases pieces : Text.splitOn slash front with
    | nil => exact absurd pieces (Text.splitOn_ne_nil slash front)
    | cons first body =>
        refine ⟨first, body, [[]], ?_, by simp, ?_⟩
        · rw [Path.pieces, shape, Text.splitOn_append, pieces]
          rfl
        · rw [Path.pieces, bytes, Text.splitOn_append, pieces, own]
          rfl
  · cases pieces : Text.splitOn slash p.bytes with
    | nil => exact absurd pieces (Text.splitOn_ne_nil slash p.bytes)
    | cons first body =>
        refine ⟨first, body, [], ?_, by simp, ?_⟩
        · rw [Path.pieces, pieces, List.append_nil]
        · rw [Path.pieces, bytes, Text.splitOn_append, pieces, own]
          rfl

theorem entry_ne_nil (regular : IsEntryName name) (nonempty : p.bytes ≠ []) :
    (p.entry name).bytes ≠ [] := by
  rcases entry_bytes regular nonempty with ⟨front, -, bytes⟩ | bytes <;> simp [bytes]

theorem isAbsolute_entry (regular : IsEntryName name) (nonempty : p.bytes ≠ []) :
    (p.entry name).isAbsolute = p.isAbsolute := by
  rcases entry_bytes regular nonempty with ⟨front, shape, bytes⟩ | bytes
  · cases front <;> simp [isAbsolute, bytes, shape]
  · cases shape : p.bytes with
    | nil => exact absurd shape nonempty
    | cons first rest => simp [isAbsolute, bytes, shape]

theorem no_nul_entry (regular : IsEntryName name) (nonempty : p.bytes ≠ [])
    (clean : (0 : UInt8) ∉ p.bytes) : (0 : UInt8) ∉ (p.entry name).bytes := by
  have own := regular.no_nul
  rcases entry_bytes regular nonempty with ⟨front, shape, bytes⟩ | bytes
  · rw [shape] at clean
    simp_all [slash]
  · simp_all [slash]

theorem filter_of_all_nil {pieces : List Name} (empty : ∀ piece ∈ pieces, piece = []) :
    pieces.filter (fun piece => !isTrivial piece) = [] := by
  rw [List.filter_eq_nil_iff]
  intro piece member
  simp [empty piece member, isTrivial]

theorem components_entry (regular : IsEntryName name) (nonempty : p.bytes ≠ []) :
    (p.entry name).components = p.components ++ [.normal name] := by
  obtain ⟨first, body, last, before, empty, after⟩ := pieces_entry regular nonempty
  have full : p.isEmpty = false := by simpa [isEmpty] using nonempty
  have full' : (p.entry name).isEmpty = false := by
    simpa [isEmpty] using entry_ne_nil regular nonempty
  have dropped := filter_of_all_nil empty
  simp [components, full, full', before, after, dropped, regular.not_trivial, Component.ofPiece,
    regular.not_parent]

theorem pieces_append_slashes (bytes : Bytes) (n : Nat) :
    (⟨bytes ++ List.replicate n slash⟩ : Path).pieces =
      (⟨bytes⟩ : Path).pieces ++ List.replicate n [] := by
  induction n with
  | zero => simp
  | succ n ih =>
      have longer : bytes ++ List.replicate (n + 1) slash =
          (bytes ++ List.replicate n slash) ++ [slash] := by
        rw [List.replicate_succ', List.append_assoc]
      rw [pieces] at ih ⊢
      rw [longer, Text.splitOn_append, ih, List.replicate_succ', ← List.append_assoc]
      rfl

theorem bytes_withoutLastSlash {p : Path} (nonempty : p.bytes ≠ []) :
    (FileSystem.withoutLastSlash p).bytes ≠ [] ∧
      ∃ n, p.bytes = (FileSystem.withoutLastSlash p).bytes ++ List.replicate n slash := by
  have whole := Text.joinWith_splitOn slash p.bytes
  cases pieces : Text.splitOn slash p.bytes with
  | nil => exact absurd pieces (Text.splitOn_ne_nil slash p.bytes)
  | cons first body =>
      obtain ⟨n, split⟩ : ∃ n, body = dropLastWhile List.isEmpty body ++ List.replicate n [] := by
        have back := List.takeWhile_append_dropWhile (p := List.isEmpty) (l := body.reverse)
        refine ⟨(body.reverse.takeWhile List.isEmpty).length, ?_⟩
        have blanks : body.reverse.takeWhile List.isEmpty =
            List.replicate (body.reverse.takeWhile List.isEmpty).length [] := by
          rw [List.eq_replicate_iff]
          refine ⟨rfl, fun piece member => ?_⟩
          simpa using List.all_eq_true.mp List.all_takeWhile piece member
        rw [← List.reverse_inj, dropLastWhile, List.reverse_append, List.reverse_reverse,
          List.reverse_replicate, ← blanks, back]
      have stripped : FileSystem.withoutLastSlash p =
          ofPieces first (dropLastWhile List.isEmpty body) := by
        rw [FileSystem.withoutLastSlash, Path.pieces, pieces]
      rw [pieces, split, Text.joinWith_append_nils] at whole
      rw [stripped, ofPieces, ← whole]
      by_cases lone : first.isEmpty && (dropLastWhile List.isEmpty body).isEmpty
      · rw [if_pos lone]
        simp only [Bool.and_eq_true, List.isEmpty_iff] at lone
        rw [lone.1, lone.2] at whole ⊢
        cases n with
        | zero => exact absurd whole.symm nonempty
        | succ n => exact ⟨by simp, n, rfl⟩
      · rw [if_neg lone]
        refine ⟨fun empty => lone ?_, n, rfl⟩
        cases others : dropLastWhile List.isEmpty body with
        | nil => simpa [others, Text.joinWith] using empty
        | cons next rest => simp [others, Text.joinWith] at empty

/-! ## Paths below a path -/

def descend (p : Path) (names : List Name) : Path := names.foldl entry p

variable {p : Path} {names : List Name}

theorem descend_append (p : Path) (front back : List Name) :
    p.descend (front ++ back) = (p.descend front).descend back := List.foldl_append

theorem descend_concat (p : Path) (names : List Name) (name : Name) :
    p.descend (names ++ [name]) = (p.descend names).entry name := descend_append p names [name]

theorem descend_ne_nil (regular : ∀ name ∈ names, IsEntryName name) (nonempty : p.bytes ≠ []) :
    (p.descend names).bytes ≠ [] := by
  induction names generalizing p with
  | nil => exact nonempty
  | cons name rest ih =>
      rw [List.forall_mem_cons] at regular
      exact ih regular.2 (entry_ne_nil regular.1 nonempty)

theorem components_descend (regular : ∀ name ∈ names, IsEntryName name) (nonempty : p.bytes ≠ []) :
    (p.descend names).components = p.components ++ names.map .normal := by
  induction names generalizing p with
  | nil => exact (List.append_nil _).symm
  | cons name rest ih =>
      rw [List.forall_mem_cons] at regular
      change ((p.entry name).descend rest).components = _
      rw [ih regular.2 (entry_ne_nil regular.1 nonempty), components_entry regular.1 nonempty,
        List.append_assoc]
      rfl

theorem eq_of_components_descend {first second : List Name}
    (firstRegular : ∀ name ∈ first, IsEntryName name) (secondRegular : ∀ name ∈ second, IsEntryName name)
    (nonempty : p.bytes ≠ [])
    (same : (p.descend first).components = (p.descend second).components) : first = second := by
  rw [components_descend firstRegular nonempty, components_descend secondRegular nonempty,
    List.append_cancel_left_eq] at same
  exact (List.map_inj_right fun _ _ => Component.normal.inj).mp same

theorem length_descend_le (regular : ∀ name ∈ names, IsEntryName name) (nonempty : p.bytes ≠ []) :
    p.bytes.length ≤ (p.descend names).bytes.length := by
  induction names generalizing p with
  | nil => exact Nat.le_refl _
  | cons name rest ih =>
      rw [List.forall_mem_cons] at regular
      refine Nat.le_trans ?_ (ih regular.2 (entry_ne_nil regular.1 nonempty))
      rcases entry_bytes regular.1 nonempty with ⟨front, shape, bytes⟩ | bytes
      · rw [bytes, shape]
        simp
      · rw [bytes]
        simp

theorem pieces_descend (regular : ∀ name ∈ names, IsEntryName name) (nonempty : p.bytes ≠ []) :
    ∃ first body last, p.pieces = first :: (body ++ last) ∧ (∀ piece ∈ last, piece = []) ∧
      (p.descend names).pieces = first :: (body ++ names) := by
  induction names generalizing p with
  | nil =>
      cases pieces : p.pieces with
      | nil => exact absurd pieces (Text.splitOn_ne_nil slash p.bytes)
      | cons first body => exact ⟨first, body, [], by simp, by simp, by simp [descend, pieces]⟩
  | cons name rest ih =>
      rw [List.forall_mem_cons] at regular
      obtain ⟨first, body, last, before, empty, after⟩ := pieces_entry regular.1 nonempty
      obtain ⟨first', body', last', before', empty', after'⟩ :=
        ih regular.2 (entry_ne_nil regular.1 nonempty)
      rw [after, List.cons.injEq] at before'
      obtain ⟨rfl, whole⟩ := before'
      refine ⟨first, body, last, before, empty, ?_⟩
      -- The name is not empty, so it is no piece that the rest replaces.
      have kept : last' = [] := by
        rcases List.eq_nil_or_concat last' with none_left | ⟨front, piece, rfl⟩
        · exact none_left
        · rw [List.concat_eq_append, ← List.append_assoc] at whole
          have same := (List.append_inj' whole rfl).2
          rw [List.cons.injEq] at same
          exact absurd (same.1.trans (empty' piece (by simp))) regular.1.nonempty
      rw [kept, List.append_nil] at whole
      change ((p.entry name).descend rest).pieces = _
      rw [after', ← whole, List.append_assoc]
      rfl

/-! ## Cutting the front off -/

theorem dropSteps_filter (body rest : List Name) :
    ∃ blanks, (∀ piece ∈ blanks, isTrivial piece = true) ∧
      dropSteps (body.filter fun piece => !isTrivial piece).length (body ++ rest) = blanks ++ rest := by
  induction body with
  | nil => exact ⟨[], by simp, rfl⟩
  | cons piece body ih =>
      obtain ⟨blanks, trivial, dropped⟩ := ih
      by_cases blank : isTrivial piece = true
      · cases count : (body.filter fun piece => !isTrivial piece).length with
        | zero =>
            rw [count] at dropped
            refine ⟨piece :: blanks, List.forall_mem_cons.mpr ⟨blank, trivial⟩, ?_⟩
            simp only [List.filter_cons, blank, Bool.not_true, Bool.false_eq_true, if_false, count]
            exact congrArg (piece :: ·) dropped
        | succ n =>
            rw [count] at dropped
            refine ⟨blanks, trivial, ?_⟩
            simp only [List.filter_cons, blank, Bool.not_true, Bool.false_eq_true, if_false, count]
            rw [← dropped, dropSteps, dropSteps, List.cons_append, List.dropWhile_cons_of_pos blank]
      · refine ⟨blanks, trivial, ?_⟩
        rw [Bool.not_eq_true] at blank
        simp only [List.filter_cons, blank, Bool.not_false, if_true, List.length_cons, dropSteps,
          List.cons_append, List.dropWhile_cons, Bool.false_eq_true, if_false, List.tail_cons]
        exact dropped

theorem dropWhile_isTrivial {blanks : List Name} (trivial : ∀ piece ∈ blanks, isTrivial piece = true)
    (regular : ∀ name ∈ names, IsEntryName name) :
    (blanks ++ names).dropWhile isTrivial = names := by
  rw [List.dropWhile_append_of_pos trivial]
  cases names with
  | nil => rfl
  | cons name rest =>
      rw [List.dropWhile_cons_of_neg]
      simp [(regular name List.mem_cons_self).not_trivial]

theorem dropLastWhile_isTrivial (regular : ∀ name ∈ names, IsEntryName name) :
    dropLastWhile isTrivial names = names := by
  have back : ∀ name ∈ names.reverse, IsEntryName name := fun name member =>
    regular name (List.mem_reverse.mp member)
  have kept : names.reverse.dropWhile isTrivial = names.reverse :=
    dropWhile_isTrivial (List.forall_mem_nil _) back
  rw [dropLastWhile, kept, List.reverse_reverse]

/-- However a directory is spelled, the path of an entry below it without the directory is made of the
names that lead to the entry. -/
theorem strip?_descend (regular : ∀ name ∈ names, IsEntryName name) (nonempty : p.bytes ≠ []) :
    strip? p (p.descend names) = some (ofNames names) := by
  obtain ⟨first, body, last, before, empty, after⟩ := pieces_descend regular nonempty
  have steps : p.components.length = (body.filter fun piece => !isTrivial piece).length + 1 := by
    have full : p.isEmpty = false := by simpa [isEmpty] using nonempty
    have dropped := filter_of_all_nil empty
    simp [components, full, before, dropped]
  have leads : p.components.isPrefixOf (p.descend names).components = true := by
    rw [List.isPrefixOf_iff_prefix, components_descend regular nonempty]
    exact List.prefix_append _ _
  obtain ⟨blanks, trivial, dropped⟩ := dropSteps_filter body names
  rw [strip?, if_pos leads, after, steps]
  simp only [dropped, dropWhile_isTrivial trivial regular, dropLastWhile_isTrivial regular]
  rfl

theorem relativeTo_descend (regular : ∀ name ∈ names, IsEntryName name) (nonempty : p.bytes ≠ []) :
    (p.descend names).relativeTo p = ofNames names := by
  rw [relativeTo, strip?_descend regular nonempty, Option.getD_some]

theorem fileName?_descend {name : Name} (regular : ∀ other ∈ names ++ [name], IsEntryName other)
    (nonempty : p.bytes ≠ []) : (p.descend (names ++ [name])).fileName? = some name := by
  rw [fileName?, components_descend regular nonempty]
  simp

end Path
end CodeAtlas

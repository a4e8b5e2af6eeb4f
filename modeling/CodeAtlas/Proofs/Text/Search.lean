import CodeAtlas.Text

namespace CodeAtlas.Text

variable {α : Type}

/-! ## Joining -/

theorem mem_joinWith {separator : List α} {items : List (List α)} {x : α}
    (member : x ∈ joinWith separator items) : x ∈ separator ∨ ∃ item ∈ items, x ∈ item := by
  fun_induction joinWith separator items with
  | case1 => simp at member
  | case2 piece => exact .inr ⟨piece, List.mem_singleton_self _, member⟩
  | case3 piece rest nonempty ih =>
      rcases List.mem_append.mp member with front | back
      · rcases List.mem_append.mp front with here | between
        · exact .inr ⟨piece, List.mem_cons_self, here⟩
        · exact .inl between
      · rcases ih back with between | ⟨item, among, inside⟩
        · exact .inl between
        · exact .inr ⟨item, List.mem_cons_of_mem _ among, inside⟩

theorem filter_joinWith (p : α → Bool) (separator : List α) (items : List (List α)) :
    (joinWith separator items).filter p =
      joinWith (separator.filter p) (items.map (·.filter p)) := by
  fun_induction joinWith separator items with
  | case1 => rfl
  | case2 piece => rfl
  | case3 piece rest nonempty ih =>
      cases rest with
      | nil => exact absurd rfl (nonempty · )
      | cons second rest => simp [joinWith, ih]

theorem joinWith_cons (separator first : List α) (others : List (List α)) :
    ∃ rest, joinWith separator (first :: others) = first ++ rest := by
  cases others with
  | nil => exact ⟨[], (List.append_nil first).symm⟩
  | cons second others => exact ⟨_, List.append_assoc _ _ _⟩

theorem joinWith_append_nils (separator : α) (first : List α) (others : List (List α)) (n : Nat) :
    joinWith [separator] (first :: (others ++ List.replicate n [])) =
      joinWith [separator] (first :: others) ++ List.replicate n separator := by
  induction others generalizing first with
  | nil =>
      induction n generalizing first with
      | zero => simp
      | succ n ih =>
          have rest := ih []
          rw [List.nil_append] at rest ⊢
          have step : joinWith [separator] (first :: [] :: List.replicate n []) =
              first ++ [separator] ++ joinWith [separator] ([] :: List.replicate n []) := rfl
          rw [List.replicate_succ, step, rest]
          simp [joinWith, List.replicate_succ]
  | cons second others ih => simp [joinWith, ih second]

theorem joinWith_append (separator : List α) {front back : List (List α)} (front_nonempty : front ≠ [])
    (back_nonempty : back ≠ []) :
    joinWith separator (front ++ back) =
      joinWith separator front ++ separator ++ joinWith separator back := by
  induction front with
  | nil => exact absurd rfl front_nonempty
  | cons first rest ih =>
      cases rest with
      | nil =>
          cases back with
          | nil => exact absurd rfl back_nonempty
          | cons next back => simp [joinWith]
      | cons second rest =>
          have step := ih (List.cons_ne_nil second rest)
          rw [List.cons_append] at step
          simp [joinWith, step]

/-! ## Marks -/

def IsMark (mark : List α) : Prop := ∃ init last, mark = init ++ [last] ∧ last ∉ init

theorem isMark_singleton (x : α) : IsMark [x] := ⟨[], x, rfl, List.not_mem_nil⟩

theorem infix_of_not_mem {init front tail : List α} {last : α} (absent : last ∉ tail)
    (inside : init ++ [last] <:+: front ++ tail) : init ++ [last] <:+: front := by
  induction tail generalizing front with
  | nil => rwa [List.append_nil] at inside
  | cons x tail ih =>
      rw [List.mem_cons, not_or] at absent
      rw [List.append_cons front x tail] at inside
      rcases List.infix_concat_iff.mp (ih absent.2 inside) with ⟨before, shape⟩ | inside
      · rw [← List.append_assoc] at shape
        exact absurd (List.singleton_inj.mp (List.append_inj_right' shape rfl)) absent.1
      · exact inside

theorem prefix_of_not_mem {mark front tail : List α} {x : α} (absent : x ∉ mark)
    (begins : mark <+: front ++ x :: tail) : mark <+: front := by
  induction front generalizing mark with
  | nil =>
      cases mark with
      | nil => exact List.prefix_rfl
      | cons y rest =>
          rw [List.nil_append, List.cons_prefix_cons] at begins
          exact absurd List.mem_cons_self (begins.1 ▸ absent)
  | cons y front ih =>
      cases mark with
      | nil => exact List.nil_prefix
      | cons z rest =>
          rw [List.mem_cons, not_or] at absent
          rw [List.cons_append, List.cons_prefix_cons] at begins
          exact List.cons_prefix_cons.mpr ⟨begins.1, ih absent.2 begins.2⟩

theorem infix_append_cons_iff {part front back : List α} {x : α} (absent : x ∉ part) :
    part <:+: front ++ x :: back ↔ part <:+: front ∨ part <:+: back := by
  constructor
  · intro inside
    induction front with
    | nil =>
        rcases List.infix_cons_iff.mp inside with begins | later
        · rw [← List.nil_append (x :: back)] at begins
          exact .inl (prefix_of_not_mem absent begins).isInfix
        · exact .inr later
    | cons y front ih =>
        rcases List.infix_cons_iff.mp inside with begins | later
        · exact .inl (prefix_of_not_mem absent begins).isInfix
        · exact (ih later).imp_left fun here => here.trans (List.suffix_cons y front).isInfix
  · rintro (here | later)
    · exact here.trans (List.prefix_append _ _).isInfix
    · exact later.trans ⟨front ++ [x], [], by simp⟩

theorem infix_joinWith_iff {part : List α} {separator : α} {items : List (List α)}
    (absent : separator ∉ part) (nonempty : items ≠ []) :
    part <:+: joinWith [separator] items ↔ ∃ item ∈ items, part <:+: item := by
  fun_induction joinWith [separator] items with
  | case1 => exact absurd rfl nonempty
  | case2 piece => simp
  | case3 piece rest further ih =>
      rw [List.append_assoc, List.singleton_append, infix_append_cons_iff absent, ih further]
      simp only [List.mem_cons, exists_eq_or_imp]

namespace IsMark

variable {mark s front back : List α} (isMark : IsMark mark)

include isMark

theorem ne_nil : mark ≠ [] := by
  obtain ⟨init, last, rfl, -⟩ := isMark
  simp

theorem infix_of_prefix (nonempty : front ≠ []) (begins : mark <+: front ++ mark ++ back) :
    mark <:+: front := by
  have length := List.length_pos_iff.mpr nonempty
  obtain ⟨init, last, rfl, once⟩ := isMark
  have ahead : front ++ init <+: front ++ (init ++ [last]) ++ back :=
    ⟨[last] ++ back, by simp⟩
  refine infix_of_not_mem once ?_
  refine (List.prefix_of_prefix_length_le begins ahead ?_).isInfix
  simp only [List.length_append, List.length_singleton]
  omega

theorem infix_concat_iff {x : α} (other : x ∉ mark) : mark <:+: s ++ [x] ↔ mark <:+: s := by
  obtain ⟨init, last, rfl, -⟩ := isMark
  constructor
  · refine infix_of_not_mem ?_
    rw [List.mem_singleton]
    rintro rfl
    exact other (List.mem_append_right _ (List.mem_singleton_self _))
  · exact fun inside => inside.trans (List.prefix_append _ _).isInfix

end IsMark

/-! ## Splitting -/

variable [BEq α]

theorem splitOn_ne_nil (separator : α) (s : List α) : splitOn separator s ≠ [] := by
  induction s with
  | nil => simp [splitOn]
  | cons x rest ih =>
      unfold splitOn
      split
      · simp
      · split <;> simp

variable [LawfulBEq α]

theorem splitOn_append (separator : α) (s t : List α) :
    splitOn separator (s ++ separator :: t) = splitOn separator s ++ splitOn separator t := by
  induction s with
  | nil => simp [splitOn]
  | cons x rest ih =>
      by_cases same : x == separator
      · simp [splitOn, same, ih]
      · simp only [List.cons_append, splitOn, same, ih]
        cases pieces : splitOn separator rest with
        | nil => exact absurd pieces (splitOn_ne_nil separator rest)
        | cons piece pieces => simp

theorem splitOn_of_not_mem (separator : α) (s : List α) (absent : separator ∉ s) :
    splitOn separator s = [s] := by
  induction s with
  | nil => rfl
  | cons x rest ih =>
      rw [List.mem_cons, not_or] at absent
      have different : (x == separator) = false := by
        rw [beq_eq_false_iff_ne]
        exact fun equal => absent.1 equal.symm
      simp [splitOn, different, ih absent.2]

theorem splitOn_joinWith (separator : α) (first : List α)
    (others : List (List α)) (absent : ∀ item ∈ first :: others, separator ∉ item) :
    splitOn separator (joinWith [separator] (first :: others)) = first :: others := by
  induction others generalizing first with
  | nil => exact splitOn_of_not_mem separator first (absent first List.mem_cons_self)
  | cons second others ih =>
      have rest := ih second fun item member => absent item (List.mem_cons_of_mem _ member)
      rw [joinWith, List.append_assoc, List.cons_append, List.nil_append, splitOn_append, rest,
        splitOn_of_not_mem separator first (absent first List.mem_cons_self)]
      · rfl
      · simp

theorem joinWith_splitOn (separator : α) (s : List α) :
    joinWith [separator] (splitOn separator s) = s := by
  induction s with
  | nil => rfl
  | cons x rest ih =>
      unfold splitOn
      cases pieces : splitOn separator rest with
      | nil => exact absurd pieces (splitOn_ne_nil separator rest)
      | cons piece others =>
          rw [pieces] at ih
          split
          · rename_i same
            rw [beq_iff_eq] at same
            simp [joinWith, ih, same]
          · cases others with
            | nil => simpa [joinWith] using ih
            | cons next others => simpa [joinWith] using ih

theorem infix_iff_splitOn {part s : List α} {separator : α} (absent : separator ∉ part) :
    part <:+: s ↔ ∃ piece ∈ splitOn separator s, part <:+: piece := by
  rw [← infix_joinWith_iff absent (splitOn_ne_nil separator s), joinWith_splitOn]

theorem of_mem_splitOn {separator : α} {s piece : List α} (member : piece ∈ splitOn separator s) :
    separator ∉ piece ∧ ∀ x ∈ piece, x ∈ s := by
  induction s generalizing piece with
  | nil =>
      rw [splitOn, List.mem_singleton] at member
      simp [member]
  | cons x rest ih =>
      unfold splitOn at member
      split at member
      · rcases List.mem_cons.mp member with rfl | member
        · simp
        · exact ⟨(ih member).1, fun y inside => List.mem_cons_of_mem _ ((ih member).2 y inside)⟩
      · rename_i different
        rw [beq_iff_eq] at different
        cases pieces : splitOn separator rest with
        | nil => exact absurd pieces (splitOn_ne_nil separator rest)
        | cons first others =>
            rw [pieces] at member ih
            rcases List.mem_cons.mp member with rfl | member
            · have begins := ih List.mem_cons_self
              simp only [List.mem_cons, not_or]
              refine ⟨⟨fun same => different same.symm, begins.1⟩, ?_⟩
              exact fun y inside => inside.imp_right (begins.2 y)
            · have later := ih (List.mem_cons_of_mem _ member)
              exact ⟨later.1, fun y inside => List.mem_cons_of_mem _ (later.2 y inside)⟩

theorem splitOn_concat (separator : α) (s : List α) {x : α} (different : x ≠ separator) :
    ∃ init piece, splitOn separator (s ++ [x]) = init ++ [piece ++ [x]] := by
  induction s with
  | nil => exact ⟨[], [], by simp [splitOn, different]⟩
  | cons y rest ih =>
      obtain ⟨init, piece, split⟩ := ih
      rw [List.cons_append]
      unfold splitOn
      split
      · exact ⟨[] :: init, piece, by rw [split]; rfl⟩
      · rw [split]
        cases init with
        | nil => exact ⟨[], y :: piece, rfl⟩
        | cons first init => exact ⟨(y :: first) :: init, piece, rfl⟩

theorem splitOnce?_eq_some {mark s front back : List α} (split : splitOnce? mark s = some (front, back)) :
    s = front ++ mark ++ back := by
  induction s generalizing front with
  | nil =>
      unfold splitOnce? at split
      split at split
      · rename_i blank
        cases split
        rw [List.isEmpty_iff.mp blank]
        rfl
      · cases split
  | cons x rest ih =>
      unfold splitOnce? at split
      split at split
      · rename_i begins
        cases split
        rw [List.nil_append]
        exact List.prefix_iff_eq_append.mp (List.isPrefixOf_iff_prefix.mp begins) |>.symm
      · obtain ⟨⟨inner, _⟩, later, same⟩ := Option.map_eq_some_iff.mp split
        cases same
        rw [ih later]
        rfl

theorem prefix_before (mark s : List α) : before mark s <+: s := by
  unfold before
  split
  · rename_i front back split
    exact ⟨mark ++ back, by rw [splitOnce?_eq_some split, List.append_assoc]⟩
  · exact List.prefix_rfl

/-! ## Occurrence -/

theorem dropBack?_append (back s : List α) : dropBack? back (s ++ back) = some s := by
  rw [dropBack?, if_pos (List.isSuffixOf_iff_suffix.mpr (List.suffix_append s back)),
    List.length_append, Nat.add_sub_cancel, List.take_left]

theorem contains_iff_infix {part s : List α} : contains part s = true ↔ part <:+: s := by
  induction s with
  | nil => simp [contains]
  | cons x rest ih =>
      rw [contains, Bool.or_eq_true, List.isPrefixOf_iff_prefix, ih, List.infix_cons_iff]

/-! ## The first occurrence -/

namespace IsMark

variable {mark s front back : List α} (isMark : IsMark mark)

include isMark

theorem splitOnce?_eq_some_iff :
    splitOnce? mark s = some (front, back) ↔ s = front ++ mark ++ back ∧ ¬ mark <:+: front := by
  constructor
  · intro split
    refine ⟨splitOnce?_eq_some split, ?_⟩
    induction s generalizing front with
    | nil => simp [splitOnce?, isMark.ne_nil] at split
    | cons x rest ih =>
        unfold splitOnce? at split
        split at split
        · cases split
          simpa using isMark.ne_nil
        · rename_i apart
          obtain ⟨⟨inner, _⟩, later, same⟩ := Option.map_eq_some_iff.mp split
          cases same
          rw [List.infix_cons_iff]
          rintro (begins | inside)
          · rw [List.isPrefixOf_iff_prefix, splitOnce?_eq_some later] at apart
            exact apart (begins.trans ⟨mark ++ back, by simp⟩)
          · exact ih later inside
  · rintro ⟨rfl, first⟩
    induction front with
    | nil =>
        cases mark with
        | nil => exact absurd rfl isMark.ne_nil
        | cons x rest => simp [splitOnce?]
    | cons x front ih =>
        have apart : ¬ mark.isPrefixOf (x :: (front ++ mark ++ back)) = true := fun begins =>
          first (isMark.infix_of_prefix (List.cons_ne_nil x front) (List.isPrefixOf_iff_prefix.mp begins))
        have later := ih fun inside => first (inside.trans (List.suffix_cons x front).isInfix)
        rw [List.cons_append, List.cons_append, splitOnce?, if_neg apart, later]
        rfl

theorem splitOnce?_eq_none_iff : splitOnce? mark s = none ↔ ¬ mark <:+: s := by
  induction s with
  | nil => simp [splitOnce?, isMark.ne_nil]
  | cons x rest ih =>
      rw [splitOnce?, List.infix_cons_iff, not_or, ← ih, ← List.isPrefixOf_iff_prefix]
      split <;> simp_all

theorem before_eq_iff : before mark s = front ↔
    ¬ mark <:+: front ∧ ∃ rest, s = front ++ rest ∧ (rest = [] ∨ mark <+: rest) := by
  unfold before
  split
  · rename_i first back split
    obtain ⟨shape, absent⟩ := isMark.splitOnce?_eq_some_iff.mp split
    constructor
    · rintro rfl
      exact ⟨absent, mark ++ back, by rw [shape, List.append_assoc], .inr (List.prefix_append _ _)⟩
    · rintro ⟨free, rest, rfl, rfl | ⟨others, rfl⟩⟩
      · rw [List.append_nil] at shape
        exact absurd ⟨first, back, shape.symm⟩ free
      · have other : splitOnce? mark (front ++ (mark ++ others)) = some (front, others) :=
          isMark.splitOnce?_eq_some_iff.mpr ⟨(List.append_assoc _ _ _).symm, free⟩
        rw [other] at split
        cases split
        rfl
  · rename_i split
    have absent := isMark.splitOnce?_eq_none_iff.mp split
    constructor
    · rintro rfl
      exact ⟨absent, [], by rw [List.append_nil], .inl rfl⟩
    · rintro ⟨-, rest, rfl, rfl | begins⟩
      · rw [List.append_nil]
      · exact absurd (begins.isInfix.trans (List.suffix_append _ _).isInfix) absent

theorem before_append {x : α} (other : x ∉ mark) (absent : ¬ mark <:+: front) (tail : List α) :
    ∃ rest, before mark (front ++ x :: tail) = front ++ x :: rest := by
  obtain ⟨-, later, whole, stop⟩ := (isMark.before_eq_iff (s := front ++ x :: tail)).mp rfl
  have ahead : front ++ [x] <+: before mark (front ++ x :: tail) := by
    have start : front ++ [x] <+: front ++ x :: tail := ⟨tail, by simp⟩
    refine List.prefix_of_prefix_length_le start (prefix_before _ _) ?_
    rw [List.length_append, List.length_singleton, Nat.succ_le_iff, ← Nat.not_le]
    intro short
    -- Otherwise the mark begins before the item, and it would have to hold the item.
    obtain ⟨inner, shape⟩ : before mark (front ++ x :: tail) <+: front :=
      List.prefix_of_prefix_length_le (prefix_before _ _) (List.prefix_append _ _) short
    have rest : later = inner ++ x :: tail := by
      rw [← List.append_cancel_left_eq (before mark (front ++ x :: tail)), ← whole, ← List.append_assoc,
        shape]
    rcases stop with rfl | begins
    · simp at rest
    · rw [rest] at begins
      have inside := prefix_of_not_mem other begins
      exact absent (shape ▸ inside.isInfix.trans (List.suffix_append _ _).isInfix)
  obtain ⟨rest, shape⟩ := ahead
  exact ⟨rest, by rw [← shape, List.append_assoc]; rfl⟩

theorem splitOnce?_concat {x : α} (other : x ∉ mark) : splitOnce? mark (s ++ [x]) =
    (splitOnce? mark s).map fun (front, back) => (front, back ++ [x]) := by
  cases split : splitOnce? mark s with
  | none =>
      rw [isMark.splitOnce?_eq_none_iff] at split
      rw [Option.map_none, isMark.splitOnce?_eq_none_iff, isMark.infix_concat_iff other]
      exact split
  | some parts =>
      obtain ⟨front, back⟩ := parts
      obtain ⟨rfl, absent⟩ := isMark.splitOnce?_eq_some_iff.mp split
      rw [Option.map_some, isMark.splitOnce?_eq_some_iff]
      exact ⟨List.append_assoc _ _ _, absent⟩

theorem before_concat {x : α} (other : x ∉ mark) : before mark (s ++ [x]) = before mark s ∨
    before mark (s ++ [x]) = before mark s ++ [x] := by
  rw [before, before, isMark.splitOnce?_concat other]
  cases splitOnce? mark s with
  | none => exact .inr rfl
  | some parts => exact .inl rfl

end IsMark
end CodeAtlas.Text

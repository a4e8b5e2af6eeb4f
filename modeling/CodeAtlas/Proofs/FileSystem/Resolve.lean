import CodeAtlas.FileSystem.Resolve
import CodeAtlas.Proofs.FileSystem.Place

/-!
# Following paths step by step

`Leads` says how pieces of a path are used up one after the other, and `Stops` what happens where no
piece can be used up any more. Every path leads to such a place (`follow_leads`), so that what is known
of the steps is known of `FileSystem.follow`.
-/

namespace CodeAtlas

def IsStep (piece : Name) : Prop := Path.isTrivial piece = false ∧ piece ≠ [Path.dot, Path.dot]

theorem IsEntryName.isStep {name : Name} (regular : IsEntryName name) : IsStep name :=
  ⟨regular.not_trivial, regular.not_parent⟩

namespace FileSystem

/-- The pieces from a place on lead to another place with the rest of them, over some links. -/
inductive Leads (fs : FileSystem) (followLast : Bool) :
    Nat → Place → List Name → Place → List Name → Prop
  | stay {place : Place} {pieces : List Name} : Leads fs followLast 0 place pieces place pieces
  | skip {links : Nat} {place last : Place} {piece : Name} {pieces rest : List Name}
      (trivial : Path.isTrivial piece = true) (onward : Leads fs followLast links place pieces last rest) :
      Leads fs followLast links place (piece :: pieces) last rest
  | up {links : Nat} {place last : Place} {pieces rest : List Name}
      (onward : Leads fs followLast links place.dropLast pieces last rest) :
      Leads fs followLast links place ([Path.dot, Path.dot] :: pieces) last rest
  | down {links : Nat} {place last : Place} {piece : Name} {pieces rest : List Name}
      {entries : List (Name × Entry)} (step : IsStep piece)
      (found : fs.get? (place ++ [piece]) = some (.directory entries))
      (onward : Leads fs followLast links (place ++ [piece]) pieces last rest) :
      Leads fs followLast links place (piece :: pieces) last rest
  | link {links : Nat} {place last : Place} {piece : Name} {pieces rest : List Name} {target : Path}
      (step : IsStep piece) (found : fs.get? (place ++ [piece]) = some (.symlink target))
      (mode : followLast = true ∨ pieces ≠ [])
      (onward : Leads fs followLast links (if target.isAbsolute then [] else place)
        (target.pieces ++ pieces) last rest) :
      Leads fs followLast (links + 1) place (piece :: pieces) last rest

inductive Stops (fs : FileSystem) (followLast : Bool) :
    Nat → Place → List Name → Except Fault Arrival → Prop
  | arrived {links : Nat} {place : Place} : Stops fs followLast links place [] (.ok (.found place))
  | file {links : Nat} {place : Place} {piece : Name} {content : Bytes} (step : IsStep piece)
      (found : fs.get? (place ++ [piece]) = some (.file content)) :
      Stops fs followLast links place [piece] (.ok (.found (place ++ [piece])))
  | link {links : Nat} {place : Place} {piece : Name} {target : Path} (step : IsStep piece)
      (found : fs.get? (place ++ [piece]) = some (.symlink target)) (mode : followLast = false) :
      Stops fs followLast links place [piece] (.ok (.found (place ++ [piece])))
  | locked {links : Nat} {place : Place} {piece : Name} {rest : List Name}
      {entries : List (Name × Entry)} (step : IsStep piece)
      (found : fs.get? (place ++ [piece]) = some (.locked entries)) (empty : ∀ piece ∈ rest, piece = []) :
      Stops fs followLast links place (piece :: rest) (.ok (.found (place ++ [piece])))
  | vacant {links : Nat} {place : Place} {piece : Name} {rest : List Name} (step : IsStep piece)
      (missing : fs.get? (place ++ [piece]) = none) (empty : ∀ piece ∈ rest, piece = []) :
      Stops fs followLast links place (piece :: rest) (.ok (.vacant place piece (!rest.isEmpty)))
  | refused {links : Nat} {place : Place} {pieces : List Name} {fault : Fault} :
      Stops fs followLast links place pieces (.error fault)

variable {fs : FileSystem} {followLast : Bool}

/-! ## The steps of `advance` -/

section Advance

variable {place : Place} {piece : Name} {pieces : List Name}

theorem advance_skip (trivial : Path.isTrivial piece = true) :
    fs.advance followLast place (piece :: pieces) = fs.advance followLast place pieces :=
  if_pos trivial

theorem advance_up : fs.advance followLast place ([Path.dot, Path.dot] :: pieces) =
    fs.advance followLast place.dropLast pieces :=
  (if_neg (by decide)).trans (if_pos rfl)

variable (step : IsStep piece)

include step

theorem advance_down {entries : List (Name × Entry)}
    (found : fs.get? (place ++ [piece]) = some (.directory entries)) :
    fs.advance followLast place (piece :: pieces) =
      fs.advance followLast (place ++ [piece]) pieces := by
  refine (if_neg (Bool.eq_false_iff.mp step.1)).trans ((if_neg step.2).trans ?_)
  rw [found]

theorem advance_file {content : Bytes} (found : fs.get? (place ++ [piece]) = some (.file content)) :
    fs.advance followLast place (piece :: pieces) =
      if pieces.isEmpty then .arrived (.found (place ++ [piece])) else .refused .notADirectory := by
  refine (if_neg (Bool.eq_false_iff.mp step.1)).trans ((if_neg step.2).trans ?_)
  rw [found]

theorem advance_symlink {target : Path}
    (found : fs.get? (place ++ [piece]) = some (.symlink target)) :
    fs.advance followLast place (piece :: pieces) =
      if pieces.isEmpty && !followLast then .arrived (.found (place ++ [piece]))
      else .atLink place target pieces := by
  refine (if_neg (Bool.eq_false_iff.mp step.1)).trans ((if_neg step.2).trans ?_)
  rw [found]

theorem advance_locked {entries : List (Name × Entry)}
    (found : fs.get? (place ++ [piece]) = some (.locked entries)) :
    fs.advance followLast place (piece :: pieces) =
      if pieces.all List.isEmpty then .arrived (.found (place ++ [piece]))
      else .refused .permissionDenied := by
  refine (if_neg (Bool.eq_false_iff.mp step.1)).trans ((if_neg step.2).trans ?_)
  rw [found]

theorem advance_missing (missing : fs.get? (place ++ [piece]) = none) :
    fs.advance followLast place (piece :: pieces) =
      if pieces.all List.isEmpty then .arrived (.vacant place piece (!pieces.isEmpty))
      else .refused (if piece.length > maxNameLength then .nameTooLong else .notFound) := by
  refine (if_neg (Bool.eq_false_iff.mp step.1)).trans ((if_neg step.2).trans ?_)
  rw [missing]

end Advance

/-! ## The steps of `follow` -/

/-- What comes of a path is what comes of its pieces up to the first link, and of the target there. -/
theorem follow_advance (fs : FileSystem) (followLast : Bool) (links : Nat) (place : Place)
    (pieces : List Name) :
    (∀ arrival, fs.advance followLast place pieces = .arrived arrival →
        fs.follow followLast links place pieces = .ok arrival) ∧
      (∀ fault, fs.advance followLast place pieces = .refused fault →
        fs.follow followLast links place pieces = .error fault) ∧
      (∀ directory target rest, fs.advance followLast place pieces = .atLink directory target rest →
        fs.follow followLast 0 place pieces = .error .tooManyLinks ∧
          fs.follow followLast (links + 1) place pieces =
            fs.follow followLast links (if target.isAbsolute then [] else directory)
              (target.pieces ++ rest)) ∧
      ∀ other rest, fs.advance followLast place pieces = fs.advance followLast other rest →
        fs.follow followLast links place pieces = fs.follow followLast links other rest := by
  refine ⟨fun arrival reached => ?_, fun fault reached => ?_, fun directory target rest reached => ?_,
    fun other rest same => ?_⟩
  · unfold follow
    rw [reached]
  · unfold follow
    rw [reached]
  · constructor
    · rw [follow, reached]
    · rw [follow, reached]
  · unfold follow
    rw [same]

theorem follow_congr {place other : Place} {pieces rest : List Name}
    (same : fs.advance followLast place pieces = fs.advance followLast other rest) (links : Nat) :
    fs.follow followLast links place pieces = fs.follow followLast links other rest :=
  (follow_advance fs followLast links place pieces).2.2.2 other rest same

theorem follow_nil (links : Nat) (place : Place) :
    fs.follow followLast links place [] = .ok (.found place) :=
  (follow_advance fs followLast links place []).1 (.found place) rfl

theorem follow_skip {piece : Name} (trivial : Path.isTrivial piece = true) (links : Nat) (place : Place)
    (pieces : List Name) :
    fs.follow followLast links place (piece :: pieces) = fs.follow followLast links place pieces :=
  follow_congr (advance_skip trivial) links

theorem follow_up (links : Nat) (place : Place) (pieces : List Name) :
    fs.follow followLast links place ([Path.dot, Path.dot] :: pieces) =
      fs.follow followLast links place.dropLast pieces :=
  follow_congr advance_up links

theorem follow_down {piece : Name} {place : Place} {entries : List (Name × Entry)} (step : IsStep piece)
    (found : fs.get? (place ++ [piece]) = some (.directory entries)) (links : Nat)
    (pieces : List Name) :
    fs.follow followLast links place (piece :: pieces) =
      fs.follow followLast links (place ++ [piece]) pieces :=
  follow_congr (advance_down step found) links

theorem advance_link {piece : Name} {place : Place} {target : Path} {pieces : List Name}
    (step : IsStep piece) (found : fs.get? (place ++ [piece]) = some (.symlink target))
    (mode : followLast = true ∨ pieces ≠ []) :
    fs.advance followLast place (piece :: pieces) = .atLink place target pieces := by
  have onward : (pieces.isEmpty && !followLast) = false := by
    rcases mode with rfl | nonempty
    · simp
    · simp [nonempty]
  rw [advance_symlink step found, onward, if_neg Bool.false_ne_true]

theorem follow_link {piece : Name} {place : Place} {target : Path} {pieces : List Name}
    (step : IsStep piece) (found : fs.get? (place ++ [piece]) = some (.symlink target))
    (mode : followLast = true ∨ pieces ≠ []) (links : Nat) :
    fs.follow followLast (links + 1) place (piece :: pieces) =
      fs.follow followLast links (if target.isAbsolute then [] else place)
        (target.pieces ++ pieces) :=
  ((follow_advance fs followLast links place _).2.2.1 _ _ _ (advance_link step found mode)).2

theorem follow_file {piece : Name} {place : Place} {content : Bytes} (step : IsStep piece)
    (found : fs.get? (place ++ [piece]) = some (.file content)) (links : Nat) :
    fs.follow followLast links place [piece] = .ok (.found (place ++ [piece])) :=
  (follow_advance fs followLast links place _).1 _ (advance_file step found)

theorem follow_last {piece : Name} {place : Place} {target : Path} (step : IsStep piece)
    (found : fs.get? (place ++ [piece]) = some (.symlink target)) (links : Nat) :
    fs.follow false links place [piece] = .ok (.found (place ++ [piece])) :=
  (follow_advance fs false links place _).1 _ (advance_symlink step found)

theorem all_isEmpty_iff {rest : List Name} : rest.all List.isEmpty = true ↔ ∀ piece ∈ rest, piece = [] := by
  simp [List.all_eq_true]

theorem follow_locked {piece : Name} {place : Place} {entries : List (Name × Entry)}
    (step : IsStep piece) (found : fs.get? (place ++ [piece]) = some (.locked entries))
    {rest : List Name} (empty : ∀ piece ∈ rest, piece = []) (links : Nat) :
    fs.follow followLast links place (piece :: rest) = .ok (.found (place ++ [piece])) := by
  refine (follow_advance fs followLast links place _).1 _ ?_
  rw [advance_locked step found, if_pos (all_isEmpty_iff.mpr empty)]

theorem follow_vacant {piece : Name} {place : Place} (step : IsStep piece)
    (missing : fs.get? (place ++ [piece]) = none) {rest : List Name}
    (empty : ∀ piece ∈ rest, piece = []) (links : Nat) :
    fs.follow followLast links place (piece :: rest) =
      .ok (.vacant place piece (!rest.isEmpty)) := by
  refine (follow_advance fs followLast links place _).1 _ ?_
  rw [advance_missing step missing, if_pos (all_isEmpty_iff.mpr empty)]

theorem Leads.follow {used links : Nat} {place last : Place} {pieces rest : List Name}
    (leads : Leads fs followLast used place pieces last rest) (enough : used ≤ links) :
    fs.follow followLast links place pieces =
      fs.follow followLast (links - used) last rest := by
  induction leads generalizing links with
  | stay => rfl
  | skip trivial onward ih => rw [follow_skip trivial, ih enough]
  | up onward ih => rw [follow_up, ih enough]
  | down step found onward ih => rw [follow_down step found, ih enough]
  | @link used place last piece pieces rest target step found mode onward ih =>
      obtain ⟨left, rfl⟩ : ∃ left, links = left + 1 := ⟨links - 1, by omega⟩
      rw [follow_link step found mode, ih (by omega), Nat.add_sub_add_right]

theorem Leads.trans {first second : Nat} {place middle last : Place} {pieces between rest : List Name}
    (front : Leads fs followLast first place pieces middle between)
    (back : Leads fs followLast second middle between last rest) :
    Leads fs followLast (first + second) place pieces last rest := by
  induction front with
  | stay => rwa [Nat.zero_add]
  | skip trivial onward ih => exact .skip trivial (ih back)
  | up onward ih => exact .up (ih back)
  | down step found onward ih => exact .down step found (ih back)
  | link step found mode onward ih =>
      rw [Nat.add_right_comm]
      exact .link step found mode (ih back)

theorem Leads.extend {used : Nat} {place last : Place} {pieces rest : List Name}
    (leads : Leads fs followLast used place pieces last rest) (mode : Bool) (more : List Name)
    (allowed : followLast = true → mode = true ∨ more ≠ []) :
    Leads fs mode used place (pieces ++ more) last (rest ++ more) := by
  induction leads with
  | stay => exact .stay
  | skip trivial onward ih => exact .skip trivial ih
  | up onward ih => exact .up ih
  | down step found onward ih => exact .down step found ih
  | link step found followed onward ih =>
      refine .link step found ?_ ?_
      · rcases followed with always | nonempty
        · exact (allowed always).imp_right fun nonempty => by simp [nonempty]
        · exact .inr (by simp [nonempty])
      · rwa [List.append_assoc] at ih

theorem Leads.of_empty {place : Place} {pieces : List Name} (empty : ∀ piece ∈ pieces, piece = []) :
    Leads fs followLast 0 place pieces place [] := by
  induction pieces with
  | nil => exact .stay
  | cons piece pieces ih =>
      rw [List.forall_mem_cons] at empty
      obtain ⟨rfl, empty⟩ := empty
      exact .skip rfl (ih empty)

/-! ## Where every path leads -/

theorem follow_refused {links : Nat} {place : Place} {pieces : List Name} {fault : Fault}
    (refused : fs.advance followLast place pieces = .refused fault) :
    Stops fs followLast links place pieces (fs.follow followLast links place pieces) := by
  rw [(follow_advance fs followLast links place pieces).2.1 fault refused]
  exact .refused

section Stops

variable {piece : Name} {place : Place} (step : IsStep piece) (links : Nat) (pieces : List Name)

include step

theorem stops_missing (missing : fs.get? (place ++ [piece]) = none) :
    Stops fs followLast links place (piece :: pieces)
      (fs.follow followLast links place (piece :: pieces)) := by
  by_cases empty : ∀ piece ∈ pieces, piece = []
  · rw [follow_vacant step missing empty]
    exact .vacant step missing empty
  · exact follow_refused ((advance_missing step missing).trans (if_neg (mt all_isEmpty_iff.mp empty)))

theorem stops_locked {entries : List (Name × Entry)}
    (found : fs.get? (place ++ [piece]) = some (.locked entries)) :
    Stops fs followLast links place (piece :: pieces)
      (fs.follow followLast links place (piece :: pieces)) := by
  by_cases empty : ∀ piece ∈ pieces, piece = []
  · rw [follow_locked step found empty]
    exact .locked step found empty
  · exact follow_refused ((advance_locked step found).trans (if_neg (mt all_isEmpty_iff.mp empty)))

theorem stops_file {content : Bytes} (found : fs.get? (place ++ [piece]) = some (.file content)) :
    Stops fs followLast links place (piece :: pieces)
      (fs.follow followLast links place (piece :: pieces)) := by
  cases pieces with
  | nil =>
      rw [follow_file step found]
      exact .file step found
  | cons next pieces =>
      exact follow_refused ((advance_file step found).trans (if_neg Bool.false_ne_true))

theorem stops_link {target : Path} (found : fs.get? (place ++ [piece]) = some (.symlink target))
    (last : links = 0 ∨ ¬ (followLast = true ∨ pieces ≠ [])) :
    Stops fs followLast links place (piece :: pieces)
      (fs.follow followLast links place (piece :: pieces)) := by
  by_cases mode : followLast = true ∨ pieces ≠ []
  · obtain rfl := last.resolve_right (not_not_intro mode)
    have atLink := advance_link step found mode
    rw [((follow_advance fs followLast 0 place _).2.2.1 _ _ _ atLink).1]
    exact .refused
  · rw [not_or, Classical.not_not, Bool.not_eq_true] at mode
    obtain ⟨rfl, rfl⟩ := mode
    rw [follow_last step found]
    exact .link step found rfl

end Stops

theorem follow_leads (fs : FileSystem) (followLast : Bool) (links : Nat) (place : Place)
    (pieces : List Name) :
    ∃ used last rest, used ≤ links ∧ Leads fs followLast used place pieces last rest ∧
      Stops fs followLast (links - used) last rest (fs.follow followLast links place pieces) := by
  -- Every step shortens the pieces, but a link may lengthen them and uses up one of `links`.
  have here {pieces : List Name}
      (stops : Stops fs followLast links place pieces (fs.follow followLast links place pieces)) :
      ∃ used last rest, used ≤ links ∧ Leads fs followLast used place pieces last rest ∧
        Stops fs followLast (links - used) last rest (fs.follow followLast links place pieces) :=
    ⟨0, place, pieces, Nat.zero_le _, .stay, stops⟩
  cases pieces with
  | nil =>
      refine here ?_
      rw [follow_nil]
      exact .arrived
  | cons piece pieces =>
      by_cases trivial : Path.isTrivial piece = true
      · obtain ⟨used, last, rest, enough, leads, stops⟩ :=
          follow_leads fs followLast links place pieces
        rw [follow_skip trivial]
        exact ⟨used, last, rest, enough, .skip trivial leads, stops⟩
      by_cases parent : piece = [Path.dot, Path.dot]
      · obtain ⟨used, last, rest, enough, leads, stops⟩ :=
          follow_leads fs followLast links place.dropLast pieces
        rw [parent, follow_up]
        exact ⟨used, last, rest, enough, .up leads, stops⟩
      have step : IsStep piece := ⟨Bool.eq_false_iff.mpr trivial, parent⟩
      cases found : fs.get? (place ++ [piece]) with
      | none => exact here (stops_missing step links pieces found)
      | some entry =>
          cases entry with
          | directory entries =>
              obtain ⟨used, last, rest, enough, leads, stops⟩ :=
                follow_leads fs followLast links (place ++ [piece]) pieces
              rw [follow_down step found]
              exact ⟨used, last, rest, enough, .down step found leads, stops⟩
          | file content => exact here (stops_file step links pieces found)
          | locked entries => exact here (stops_locked step links pieces found)
          | symlink target =>
              by_cases mode : followLast = true ∨ pieces ≠ []
              · cases links with
                | zero => exact here (stops_link step 0 pieces found (.inl rfl))
                | succ links =>
                    obtain ⟨used, last, rest, enough, leads, stops⟩ :=
                      follow_leads fs followLast links (if target.isAbsolute then [] else place)
                        (target.pieces ++ pieces)
                    rw [follow_link step found mode]
                    refine ⟨used + 1, last, rest, by omega, .link step found mode leads, ?_⟩
                    rwa [Nat.add_sub_add_right]
              · exact here (stops_link step links pieces found (.inr mode))
termination_by (links, pieces.length)

/-! ## Going on from a directory -/

theorem Leads.eq_of_empty {used : Nat} {place last : Place} {pieces : List Name}
    (leads : Leads fs followLast used place pieces last []) (empty : ∀ piece ∈ pieces, piece = []) :
    used = 0 ∧ last = place := by
  induction pieces with
  | nil =>
      cases leads
      exact ⟨rfl, rfl⟩
  | cons piece pieces ih =>
      rw [List.forall_mem_cons] at empty
      obtain ⟨rfl, empty⟩ := empty
      cases leads with
      | skip trivial onward => exact ih onward empty
      | down step found onward => exact absurd step.1 (by decide)
      | link step found mode onward => exact absurd step.1 (by decide)

theorem Leads.split {used : Nat} {place last : Place} {front back pieces rest : List Name}
    (leads : Leads fs followLast used place pieces last rest) (whole : pieces = front ++ back)
    (nothing : rest = []) :
    ∃ first second middle, used = first + second ∧ Leads fs true first place front middle [] ∧
      Leads fs followLast second middle back last [] := by
  -- A link in front puts its target in front of the pieces, so the front may be any list.
  match front, leads with
  | [], leads =>
      subst whole nothing
      exact ⟨0, used, place, (Nat.zero_add _).symm, .stay, leads⟩
  | piece :: front, .stay =>
      rw [nothing] at whole
      cases whole
  | piece :: front, .skip trivial onward =>
      rw [List.cons_append, List.cons.injEq] at whole
      obtain ⟨rfl, whole⟩ := whole
      obtain ⟨first, second, middle, total, front, back⟩ := onward.split whole nothing
      exact ⟨first, second, middle, total, .skip trivial front, back⟩
  | piece :: front, .up onward =>
      rw [List.cons_append, List.cons.injEq] at whole
      obtain ⟨rfl, whole⟩ := whole
      obtain ⟨first, second, middle, total, front, back⟩ := onward.split whole nothing
      exact ⟨first, second, middle, total, .up front, back⟩
  | piece :: front, .down step found onward =>
      rw [List.cons_append, List.cons.injEq] at whole
      obtain ⟨rfl, whole⟩ := whole
      obtain ⟨first, second, middle, total, front, back⟩ := onward.split whole nothing
      exact ⟨first, second, middle, total, .down step found front, back⟩
  | piece :: front, .link step found mode onward =>
      rw [List.cons_append, List.cons.injEq] at whole
      obtain ⟨rfl, rfl⟩ := whole
      obtain ⟨first, second, middle, total, front, back⟩ :=
        onward.split (List.append_assoc _ _ _).symm nothing
      exact ⟨first + 1, second, middle, by omega, .link step found (.inl rfl) front, back⟩

theorem Leads.append {used : Nat} {place last : Place} {pieces back : List Name}
    (leads : Leads fs followLast used place (pieces ++ back) last [])
    (empty : ∀ piece ∈ back, piece = []) (mode : Bool) (more : List Name)
    (allowed : mode = true ∨ more ≠ []) :
    Leads fs mode used place (pieces ++ more) last more := by
  obtain ⟨first, second, middle, rfl, front, onward⟩ := leads.split rfl rfl
  obtain ⟨rfl, rfl⟩ := onward.eq_of_empty empty
  exact front.extend mode more fun _ => allowed

theorem Leads.all_empty {used : Nat} {place last : Place} {pieces rest : List Name}
    (leads : Leads fs followLast used place pieces last rest) (empty : ∀ piece ∈ pieces, piece = []) :
    ∀ piece ∈ rest, piece = [] := by
  have no_step : ¬ IsStep [] := fun step => absurd step.1 (by decide)
  induction leads with
  | stay => exact empty
  | skip trivial onward ih => exact ih (List.forall_mem_cons.mp empty).2
  | up onward ih => exact absurd (List.forall_mem_cons.mp empty).1 (by decide)
  | down step found onward ih => exact absurd ((List.forall_mem_cons.mp empty).1 ▸ step) no_step
  | link step found mode onward ih => exact absurd ((List.forall_mem_cons.mp empty).1 ▸ step) no_step

theorem Leads.front {used : Nat} {place last : Place} {front back pieces ends rest : List Name}
    {piece : Name} (leads : Leads fs true used place pieces last ends) (whole : pieces = front ++ back)
    (stop : ends = piece :: rest) (step : IsStep piece) (empty : ∀ piece ∈ back, piece = []) :
    ∃ own, own ⊆ rest ∧ Leads fs true used place front last (piece :: own) := by
  match front, leads with
  | [], leads =>
      obtain rfl := leads.all_empty (whole ▸ empty) piece (stop ▸ List.mem_cons_self)
      exact absurd step.1 (by decide)
  | next :: front, .stay =>
      obtain ⟨rfl, rfl⟩ := List.cons.inj (whole.symm.trans stop)
      exact ⟨front, List.subset_append_left front back, .stay⟩
  | next :: front, .skip trivial onward =>
      rw [List.cons_append, List.cons.injEq] at whole
      obtain ⟨rfl, whole⟩ := whole
      obtain ⟨own, among, leads⟩ := onward.front whole stop step empty
      exact ⟨own, among, .skip trivial leads⟩
  | next :: front, .up onward =>
      rw [List.cons_append, List.cons.injEq] at whole
      obtain ⟨rfl, whole⟩ := whole
      obtain ⟨own, among, leads⟩ := onward.front whole stop step empty
      exact ⟨own, among, .up leads⟩
  | next :: front, .down entered found onward =>
      rw [List.cons_append, List.cons.injEq] at whole
      obtain ⟨rfl, whole⟩ := whole
      obtain ⟨own, among, leads⟩ := onward.front whole stop step empty
      exact ⟨own, among, .down entered found leads⟩
  | next :: front, .link entered found mode onward =>
      obtain ⟨rfl, rfl⟩ := List.cons.inj whole
      obtain ⟨own, among, leads⟩ := onward.front (List.append_assoc _ _ _).symm stop step empty
      exact ⟨own, among, .link entered found (.inl rfl) leads⟩

theorem Leads.ends {used links : Nat} {place last : Place} {pieces rest : List Name}
    (leads : Leads fs true used place pieces last rest) (enough : used ≤ links)
    (ends : ∀ links, ∃ reached, fs.follow false links last rest = .ok (.found reached) ∧
      fs.get? reached ≠ none) :
    ∃ reached, fs.follow false links place pieces = .ok (.found reached) ∧ fs.get? reached ≠ none := by
  induction leads generalizing links with
  | stay => exact ends links
  | skip trivial onward ih =>
      rw [follow_skip trivial]
      exact ih enough ends
  | up onward ih =>
      rw [follow_up]
      exact ih enough ends
  | down step found onward ih =>
      rw [follow_down step found]
      exact ih enough ends
  | @link used place last piece pieces rest target step found mode onward ih =>
      cases pieces with
      | nil => exact ⟨_, follow_last step found _, by simp [found]⟩
      | cons next pieces =>
          obtain ⟨left, rfl⟩ : ∃ left, links = left + 1 := ⟨links - 1, by omega⟩
          rw [follow_link step found (.inr (List.cons_ne_nil _ _))]
          exact ih (by omega) ends

/-! ## Paths -/

structure Usable (path : Path) : Prop where
  nonempty : path.bytes ≠ []
  no_nul : (0 : UInt8) ∉ path.bytes
  short : path.bytes.length ≤ maxPathLength

def start (fs : FileSystem) (path : Path) : Place :=
  if path.isAbsolute then [] else fs.workingDirectory

theorem resolve_of_usable {path : Path} (usable : Usable path) :
    fs.resolve followLast path = fs.follow followLast maxLinks (fs.start path) path.pieces := by
  have nonempty : path.isEmpty = false := by simpa [Path.isEmpty] using usable.nonempty
  have short : ¬ path.bytes.length > maxPathLength := Nat.not_lt.mpr usable.short
  simp [resolve, nonempty, usable.no_nul, short, start]

theorem usable_of_resolve {path : Path} {arrival : Arrival}
    (resolved : fs.resolve followLast path = .ok arrival) : Usable path := by
  unfold resolve at resolved
  split at resolved
  · cases resolved
  · rename_i nonempty
    split at resolved
    · cases resolved
    · rename_i no_nul
      split at resolved
      · cases resolved
      · rename_i short
        exact ⟨by simpa [Path.isEmpty] using nonempty, by simpa using no_nul, Nat.not_lt.mp short⟩

/-- A path that is resolved leads to where its pieces cannot be used up any more. -/
theorem leads_of_resolve {path : Path} {arrival : Arrival}
    (resolved : fs.resolve followLast path = .ok arrival) :
    Usable path ∧ ∃ used last rest, used ≤ maxLinks ∧
      Leads fs followLast used (fs.start path) path.pieces last rest ∧
      Stops fs followLast (maxLinks - used) last rest (.ok arrival) := by
  have usable := usable_of_resolve resolved
  have leads := follow_leads fs followLast maxLinks (fs.start path) path.pieces
  rw [← resolve_of_usable usable, resolved] at leads
  exact ⟨usable, leads⟩

theorem find_eq_ok_iff {path : Path} {place : Place} {entry : Entry} :
    fs.find followLast path = .ok (place, entry) ↔
      fs.resolve followLast path = .ok (.found place) ∧ fs.get? place = some entry := by
  unfold find
  cases fs.resolve followLast path with
  | error fault => simp
  | ok arrival =>
      cases arrival with
      | vacant directory name withSlash => simp
      | found other =>
          simp only [Except.ok.injEq, Arrival.found.injEq]
          cases found : fs.get? other with
          | none =>
              simp only [reduceCtorEq, false_iff, not_and]
              rintro rfl
              simp [found]
          | some child =>
              simp only [Except.ok.injEq, Prod.mk.injEq]
              constructor
              · rintro ⟨rfl, rfl⟩
                exact ⟨rfl, found⟩
              · rintro ⟨rfl, same⟩
                rw [found, Option.some.injEq] at same
                exact ⟨rfl, same⟩

theorem hasEntry_eq_true_iff {path : Path} :
    fs.hasEntry path = true ↔ ∃ place entry, fs.find true path = .ok (place, entry) := by
  unfold hasEntry
  cases fs.find true path with
  | error fault => simp [Except.isOk, Except.toBool]
  | ok arrival => exact iff_of_true rfl ⟨arrival.1, arrival.2, rfl⟩

theorem leads_of_find {path : Path} {place : Place} {entries : List (Name × Entry)}
    (found : fs.find followLast path = .ok (place, .directory entries)) :
    Usable path ∧ ∃ used, used ≤ maxLinks ∧
      Leads fs followLast used (fs.start path) path.pieces place [] := by
  obtain ⟨resolved, directory⟩ := find_eq_ok_iff.mp found
  obtain ⟨usable, used, last, rest, enough, leads, stops⟩ := leads_of_resolve resolved
  refine ⟨usable, ?_⟩
  cases stops with
  | arrived => exact ⟨used, enough, leads⟩
  | file step content =>
      rw [content] at directory
      cases directory
  | link step target mode =>
      rw [target] at directory
      cases directory
  | locked step locked empty =>
      rw [locked] at directory
      cases directory

theorem find_followed {path : Path} {place : Place} {entry : Entry}
    (found : fs.find followLast path = .ok (place, entry)) (noLink : ∀ target, entry ≠ .symlink target) :
    fs.find true path = .ok (place, entry) := by
  obtain ⟨resolved, here⟩ := find_eq_ok_iff.mp found
  obtain ⟨usable, used, last, rest, enough, leads, stops⟩ := leads_of_resolve resolved
  refine find_eq_ok_iff.mpr ⟨?_, here⟩
  have onward := leads.extend true [] fun _ => .inl rfl
  rw [List.append_nil, List.append_nil] at onward
  rw [resolve_of_usable usable, onward.follow enough]
  cases stops with
  | arrived => exact follow_nil _ _
  | file step file => exact follow_file step file _
  | locked step locked empty => exact follow_locked step locked empty _
  | link step link mode =>
      rw [here, Option.some.injEq] at link
      exact absurd link (noLink _)

theorem find_directory {path : Path} {place : Place} {entries : List (Name × Entry)}
    (found : fs.find followLast path = .ok (place, .directory entries)) :
    fs.find true path = .ok (place, .directory entries) :=
  find_followed found fun _ same => by cases same

theorem find_locked {path : Path} {place : Place} {entries : List (Name × Entry)}
    (found : fs.find followLast path = .ok (place, .locked entries)) :
    fs.find true path = .ok (place, .locked entries) :=
  find_followed found fun _ same => by cases same

theorem find_file {path : Path} {place : Place} {content : Bytes}
    (found : fs.find followLast path = .ok (place, .file content)) :
    fs.find true path = .ok (place, .file content) :=
  find_followed found fun _ same => by cases same

theorem leads_entry {path : Path} {place : Place} {entries : List (Name × Entry)} {name : Name}
    (found : fs.find followLast path = .ok (place, .directory entries)) (regular : IsEntryName name)
    (mode : Bool) : ∃ used, used ≤ maxLinks ∧
      Leads fs mode used (fs.start (path.entry name)) (path.entry name).pieces place [name] := by
  obtain ⟨usable, used, enough, leads⟩ := leads_of_find found
  obtain ⟨first, body, last, before, empty, after⟩ := Path.pieces_entry regular usable.nonempty
  rw [before, ← List.cons_append] at leads
  refine ⟨used, enough, ?_⟩
  rw [after, ← List.cons_append, start, Path.isAbsolute_entry regular usable.nonempty, ← start]
  exact leads.append empty mode [name] (Or.inr (by simp))

theorem Usable.entry {path : Path} {name : Name} (usable : Usable path) (regular : IsEntryName name)
    (short : (path.entry name).bytes.length ≤ maxPathLength) : Usable (path.entry name) :=
  ⟨Path.entry_ne_nil regular usable.nonempty, Path.no_nul_entry regular usable.nonempty usable.no_nul,
    short⟩

/-- The path of an entry of a directory leads to that entry, unless it is a link or the path is too
long. -/
theorem find_below {path : Path} {place : Place} {entries : List (Name × Entry)} {name : Name}
    {child : Entry} (found : fs.find followLast path = .ok (place, .directory entries))
    (regular : IsEntryName name) (here : fs.get? (place ++ [name]) = some child)
    (short : (path.entry name).bytes.length ≤ maxPathLength)
    (linkFree : ∀ target, child ≠ .symlink target) (mode : Bool) :
    fs.find mode (path.entry name) = .ok (place ++ [name], child) := by
  have usable := (leads_of_find found).1.entry regular short
  obtain ⟨used, enough, leads⟩ := leads_entry found regular mode
  rw [find_eq_ok_iff]
  refine ⟨?_, here⟩
  rw [resolve_of_usable usable, leads.follow enough]
  cases child with
  | directory inner => rw [follow_down regular.isStep here, follow_nil]
  | file content => exact follow_file regular.isStep here _
  | locked inner => exact follow_locked regular.isStep here (List.forall_mem_nil _) _
  | symlink target => exact absurd rfl (linkFree target)

section Listed

variable {path : Path} {place : Place} {entries : List (Name × Entry)} {name : Name} {child : Entry}
  (found : fs.find followLast path = .ok (place, .directory entries)) (regular : IsEntryName name)
  (looked : Entry.lookup name entries = some child) (linkFree : ∀ target, child ≠ .symlink target)

include found regular looked linkFree

theorem find_entry (short : (path.entry name).bytes.length ≤ maxPathLength) (mode : Bool) :
    fs.find mode (path.entry name) = .ok (place ++ [name], child) := by
  have here : fs.get? (place ++ [name]) = some child := by
    rw [get?, Entry.get?_directory_append (find_eq_ok_iff.mp found).2, looked, Option.bind_some,
      Entry.get?]
  exact find_below found regular here short linkFree mode

theorem isDirectory_entry : fs.isDirectory (path.entry name) =
    (child.isDirectory && decide ((path.entry name).bytes.length ≤ maxPathLength)) := by
  by_cases short : (path.entry name).bytes.length ≤ maxPathLength
  · rw [isDirectory, find_entry found regular looked linkFree short true, decide_eq_true short,
      Bool.and_true]
  · rw [decide_eq_false short, Bool.and_false, isDirectory]
    cases opened : fs.find true (path.entry name) with
    | error fault => rfl
    | ok arrival => exact absurd (usable_of_resolve (find_eq_ok_iff.mp opened).1).short short

end Listed

end FileSystem
end CodeAtlas

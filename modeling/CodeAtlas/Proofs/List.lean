namespace CodeAtlas

variable {α β : Type}

theorem mapM_cons_eq_some_iff {f : α → Option β} {x : α} {xs : List α} {ys : List β} :
    (x :: xs).mapM f = some ys ↔
      ∃ first others, f x = some first ∧ xs.mapM f = some others ∧ ys = first :: others := by
  rw [List.mapM_cons]
  constructor
  · intro found
    obtain ⟨first, here, found⟩ := Option.bind_eq_some_iff.mp found
    obtain ⟨others, later, found⟩ := Option.bind_eq_some_iff.mp found
    exact ⟨first, others, here, later, (Option.some.inj found).symm⟩
  · rintro ⟨first, others, here, later, rfl⟩
    rw [here, later]
    rfl

theorem mapM_eq_some_map {f : α → Option β} {g : α → β} {xs : List α}
    (each : ∀ x ∈ xs, f x = some (g x)) : xs.mapM f = some (xs.map g) := by
  induction xs with
  | nil => rfl
  | cons x xs ih =>
      rw [List.forall_mem_cons] at each
      exact mapM_cons_eq_some_iff.mpr ⟨_, _, each.1, ih each.2, rfl⟩

theorem mapM_congr {f g : α → Option β} {xs : List α} (same : ∀ x ∈ xs, f x = g x) :
    xs.mapM f = xs.mapM g := by
  induction xs with
  | nil => rfl
  | cons x xs ih =>
      rw [List.forall_mem_cons] at same
      rw [List.mapM_cons, List.mapM_cons, same.1, ih same.2]

theorem mapM_eq_none_iff {f : α → Option β} {xs : List α} :
    xs.mapM f = none ↔ ∃ x ∈ xs, f x = none := by
  induction xs with
  | nil => simp
  | cons x xs ih =>
      simp only [List.mapM_cons, List.mem_cons, exists_eq_or_imp, ← ih]
      cases f x with
      | none => simp
      | some first => cases xs.mapM f <;> simp

theorem length_flatMap_le {f : α → List β} {bound : Nat} {xs : List α}
    (each : ∀ x ∈ xs, (f x).length ≤ bound) : (xs.flatMap f).length ≤ xs.length * bound := by
  induction xs with
  | nil => exact Nat.zero_le _
  | cons x xs ih =>
      rw [List.forall_mem_cons] at each
      have first := each.1
      have others := ih each.2
      rw [List.flatMap_cons, List.length_append, List.length_cons, Nat.succ_mul]
      omega

theorem not_concat_prefix_self (xs : List α) (x : α) : ¬ xs ++ [x] <+: xs := by
  intro inside
  have length := inside.length_le
  rw [List.length_append, List.length_singleton] at length
  omega

end CodeAtlas

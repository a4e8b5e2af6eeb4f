import CodeAtlas.Text

namespace CodeAtlas.Text

theorem isDigit_eq (c : Char) : isDigit c = c.isDigit := rfl

theorem isAlphanum_range {c : Char} (plain : c.isAlphanum = true) : 48 ≤ c.toNat ∧ c.toNat ≤ 122 := by
  rcases Bool.or_eq_true_iff.mp plain with letter | digit
  · rcases Bool.or_eq_true_iff.mp letter with upper | lower
    · have range : 65 ≤ c.toNat ∧ c.toNat ≤ 90 := of_decide_eq_true upper
      omega
    · obtain ⟨floor, ceiling⟩ := Bool.and_eq_true_iff.mp lower
      have above : 97 ≤ c.toNat := of_decide_eq_true floor
      have below : c.toNat ≤ 122 := of_decide_eq_true ceiling
      omega
  · obtain ⟨floor, ceiling⟩ := Bool.and_eq_true_iff.mp digit
    have above : 48 ≤ c.toNat := of_decide_eq_true floor
    have below : c.toNat ≤ 57 := of_decide_eq_true ceiling
    omega

theorem isDigit_of_mem_digitsOf {n : Nat} {c : Char} (member : c ∈ digitsOf n) : isDigit c = true :=
  Nat.isDigit_of_mem_toDigits (by decide) (by decide) member

theorem digitsOf_ne_nil (n : Nat) : digitsOf n ≠ [] := Nat.toDigits_ne_nil

theorem digitsOf_cons (n : Nat) :
    ∃ first others, digitsOf n = first :: others ∧ isDigit first = true := by
  cases shape : digitsOf n with
  | nil => exact absurd shape (digitsOf_ne_nil n)
  | cons first others =>
      exact ⟨first, others, rfl, isDigit_of_mem_digitsOf (shape ▸ List.mem_cons_self)⟩

theorem toList_toString (n : Nat) : (toString n).toList = digitsOf n := Nat.toList_repr

theorem natOfDigits_digitsOf (n : Nat) : natOfDigits (digitsOf n) = n :=
  Nat.ofDigitChars_ten_toDigits

theorem eq_zero_of_digitsOf {n : Nat} {rest : List Char} (shape : digitsOf n = '0' :: rest) :
    n = 0 := by
  induction n using Nat.strongRecOn generalizing rest with
  | ind n ih =>
      by_cases small : n < 10
      · rw [digitsOf, Nat.toDigits_of_lt_base small, List.cons.injEq] at shape
        have digit : ∀ m, m < 10 → m.digitChar = '0' → m = 0 := by decide
        exact digit n small shape.1
      · have large : 10 ≤ n := Nat.not_lt.mp small
        rw [digitsOf, Nat.toDigits_of_base_le (by decide) large] at shape
        cases front : Nat.toDigits 10 (n / 10) with
        | nil => exact absurd front Nat.toDigits_ne_nil
        | cons first others =>
            rw [front, List.cons_append, List.cons.injEq] at shape
            rw [shape.1] at front
            have zero := ih (n / 10) (by omega) front
            omega

/-! ## Runs of digits -/

def NoDigit (s : List Char) : Prop := ∀ c ∈ s.head?, isDigit c = false

theorem takeWhile_digitsOf (n : Nat) {rest : List Char} (stop : NoDigit rest) :
    (digitsOf n ++ rest).takeWhile isDigit = digitsOf n := by
  rw [List.takeWhile_append_of_pos fun c => isDigit_of_mem_digitsOf]
  cases rest with
  | nil => simp
  | cons c rest => simp [stop c rfl]

theorem dropWhile_digitsOf (n : Nat) {rest : List Char} (stop : NoDigit rest) :
    (digitsOf n ++ rest).dropWhile isDigit = rest := by
  rw [List.dropWhile_append_of_pos fun c => isDigit_of_mem_digitsOf]
  cases rest with
  | nil => rfl
  | cons c rest => simp [stop c rfl]

end CodeAtlas.Text

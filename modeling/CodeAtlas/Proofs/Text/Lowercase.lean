import CodeAtlas.Proofs.Text.Utf8
import CodeAtlas.Text.Lowercase

/-!
# Words in small letters

Two characters beyond ASCII have a small form that begins with an ASCII letter: the Kelvin sign has `k`,
and the capital I with dot above has `i` and a combining dot. So an ASCII word without `k` that does not
end with `i` stands in the small form of a text exactly where it stands when ASCII letters alone are
made small (`infix_iff_of_lowers`). This holds for either small form of the capital sigma.
-/

namespace CodeAtlas.Text

/-- A word that no character beyond ASCII has a part in, also when letters are made small. -/
structure IsPlainWord (word : List Char) : Prop where
  ascii : ∀ c ∈ word, IsAscii c
  kelvin : 'k' ∉ word
  dotted : word.getLast? ≠ some 'i'

-- The characters of the word are gone through by `List.all`, and not all characters there are.
instance (word : List Char) : Decidable (IsPlainWord word) :=
  decidable_of_iff
    (word.all (decide <| IsAscii ·) = true ∧ 'k' ∉ word ∧ word.getLast? ≠ some 'i')
    ⟨fun ⟨ascii, kelvin, dotted⟩ => ⟨by simpa using ascii, kelvin, dotted⟩,
      fun plain => ⟨by simpa using plain.ascii, plain.kelvin, plain.dotted⟩⟩

theorem IsPlainWord.tail {c : Char} {word : List Char} (plain : IsPlainWord (c :: word)) :
    IsPlainWord word where
  ascii := (List.forall_mem_cons.mp plain.ascii).2
  kelvin inside := plain.kelvin (List.mem_cons_of_mem c inside)
  dotted last := plain.dotted (by rw [List.getLast?_cons, last]; rfl)

/-! ## Characters -/

theorem lowerChar_of_isAscii {c : Char} (ascii : IsAscii c) : lowerChar c = [c.toLower] := by
  have each : ∀ n < 128, lowerChar (Char.ofNat n) = [(Char.ofNat n).toLower] := by decide +kernel
  have own := each c.toNat ascii
  rwa [Char.ofNat_toNat] at own

theorem toLower_of_not_isAscii {c : Char} (other : ¬ IsAscii c) : c.toLower = c := by
  have upper : ¬ (c.val ≥ 'A'.val ∧ c.val ≤ 'Z'.val) := fun letter => by
    have range : c.toNat ≤ 90 := letter.2
    exact other (Nat.lt_of_le_of_lt range (by decide))
  exact dif_neg upper

theorem caseRuns_beyond : ∀ run ∈ caseRuns, run.last < 128 ∨
    (run.first = run.last ∧ run.first + run.offset = 'k'.toNat) ∨
    (128 ≤ run.first + run.offset ∧ run.last + run.offset < 0xD800) ∨
    (0xDFFF < run.first + run.offset ∧ run.last + run.offset < 0x110000) := by
  decide +kernel

theorem lowerChar_of_not_isAscii {c : Char} (other : ¬ IsAscii c) (undotted : c.toNat ≠ 0x130) :
    ∃ d, lowerChar c = [d] ∧ (d = 'k' ∨ ¬ IsAscii d) := by
  have beyond : 128 ≤ c.toNat := Nat.not_lt.mp other
  rw [lowerChar, if_neg (by simpa using undotted)]
  split
  · rename_i run found
    refine ⟨_, rfl, ?_⟩
    have listed := List.find?_some found
    simp only [CaseRun.lists, Bool.and_eq_true, decide_eq_true_eq] at listed
    obtain ⟨⟨above, below⟩, -⟩ := listed
    rcases caseRuns_beyond run (List.mem_of_find?_eq_some found) with low | ⟨single, kelvin⟩ | valid
    · omega
    · have same : (c.toNat + run.offset).toNat = 'k'.toNat := by omega
      exact .inl (by rw [same, Char.ofNat_toNat])
    · have small : (c.toNat + run.offset).toNat.isValidChar := by
        rw [Nat.isValidChar]
        omega
      rw [Char.ofNat, dif_pos small]
      refine .inr fun ascii => ?_
      have floor : (c.toNat + run.offset).toNat < 128 := ascii
      omega
  · exact ⟨c, rfl, .inr other⟩

/-! ## Texts -/

/-- The second text is the first in small letters, with either small sigma for a capital one: which of them
is right depends on the word around it. -/
inductive Lowers : List Char → List Char → Prop where
  | nil : Lowers [] []
  | char (c : Char) {s small : List Char} (rest : Lowers s small) : Lowers (c :: s) (lowerChar c ++ small)
  | finalSigma {s small : List Char} (rest : Lowers s small) : Lowers ('Σ' :: s) ('ς' :: small)

theorem lowers_lowercase (s : List Char) : Lowers s (lowercase s) := by
  induction s with
  | nil => exact .nil
  | cons c rest ih => exact .char c ih

theorem lowerChar_dotted {c : Char} (dotted : c.toNat = 0x130) : lowerChar c = ['i', '\u0307'] := by
  rw [lowerChar, if_pos (by simpa using dotted)]

variable {word : List Char} (plain : IsPlainWord word)

include plain

theorem IsPlainWord.not_prefix {c : Char} (nonempty : word ≠ []) (other : ¬ IsAscii c)
    (rest : List Char) : ¬ word <+: c :: rest := by
  cases word with
  | nil => exact absurd rfl nonempty
  | cons first word =>
      rw [List.cons_prefix_cons]
      rintro ⟨rfl, -⟩
      exact other (plain.ascii first List.mem_cons_self)

theorem IsPlainWord.not_prefix_lowerChar {c : Char} (nonempty : word ≠ []) (other : ¬ IsAscii c)
    (rest : List Char) : ¬ word <+: lowerChar c ++ rest := by
  cases word with
  | nil => exact absurd rfl nonempty
  | cons first word =>
      by_cases dotted : c.toNat = 0x130
      · rw [lowerChar_dotted dotted, List.cons_append, List.cons_prefix_cons]
        rintro ⟨rfl, later⟩
        by_cases last : word = []
        · exact plain.dotted (by rw [last]; rfl)
        · exact plain.tail.not_prefix last (by decide) _ later
      · obtain ⟨d, small, apart⟩ := lowerChar_of_not_isAscii other dotted
        rw [small, List.singleton_append, List.cons_prefix_cons]
        rintro ⟨rfl, -⟩
        rcases apart with rfl | apart
        · exact plain.kelvin List.mem_cons_self
        · exact apart (plain.ascii first List.mem_cons_self)

theorem IsPlainWord.infix_lowerChar_iff (nonempty : word ≠ []) (c : Char) (rest : List Char) :
    word <:+: lowerChar c ++ rest ↔ word <+: lowerChar c ++ rest ∨ word <:+: rest := by
  by_cases dotted : c.toNat = 0x130
  · have inner : ¬ word <+: '\u0307' :: rest := plain.not_prefix nonempty (by decide) _
    rw [lowerChar_dotted dotted, List.cons_append, List.singleton_append, List.infix_cons_iff,
      List.infix_cons_iff, or_iff_right inner]
  · obtain ⟨d, small⟩ : ∃ d, lowerChar c = [d] := by
      by_cases ascii : IsAscii c
      · exact ⟨_, lowerChar_of_isAscii ascii⟩
      · exact (lowerChar_of_not_isAscii ascii dotted).imp fun _ => And.left
    rw [small, List.singleton_append, List.infix_cons_iff]

variable {s small : List Char} (lowers : Lowers s small)

include lowers

theorem prefix_iff_of_lowers : word <+: small ↔ word <+: lowercaseAscii s := by
  induction lowers generalizing word with
  | nil => rfl
  | char c rest ih =>
      by_cases nothing : word = []
      · rw [nothing]
        exact iff_of_true List.nil_prefix List.nil_prefix
      by_cases ascii : IsAscii c
      · cases word with
        | nil => exact absurd rfl nothing
        | cons first word =>
            rw [lowerChar_of_isAscii ascii, List.singleton_append, lowercaseAscii, List.map_cons,
              List.cons_prefix_cons, List.cons_prefix_cons, ih plain.tail, lowercaseAscii]
      · refine iff_of_false (plain.not_prefix_lowerChar nothing ascii _) ?_
        rw [lowercaseAscii, List.map_cons, toLower_of_not_isAscii ascii]
        exact plain.not_prefix nothing ascii _
  | finalSigma rest ih =>
      by_cases nothing : word = []
      · rw [nothing]
        exact iff_of_true List.nil_prefix List.nil_prefix
      exact iff_of_false (plain.not_prefix nothing (by decide) _)
        (plain.not_prefix nothing (by decide) _)

theorem infix_iff_of_lowers : word <:+: small ↔ word <:+: lowercaseAscii s := by
  by_cases nothing : word = []
  · rw [nothing]
    exact iff_of_true List.nil_infix List.nil_infix
  induction lowers with
  | nil => rfl
  | @char c s small rest ih =>
      have step : word <:+: lowercaseAscii (c :: s) ↔
          word <+: lowercaseAscii (c :: s) ∨ word <:+: lowercaseAscii s := List.infix_cons_iff
      rw [plain.infix_lowerChar_iff nothing, step, ih, prefix_iff_of_lowers plain (.char c rest)]
  | @finalSigma s small rest ih =>
      have step : word <:+: lowercaseAscii ('Σ' :: s) ↔
          word <+: lowercaseAscii ('Σ' :: s) ∨ word <:+: lowercaseAscii s := List.infix_cons_iff
      rw [List.infix_cons_iff, step, ih, prefix_iff_of_lowers plain (.finalSigma rest)]

end CodeAtlas.Text

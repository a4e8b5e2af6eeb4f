import CodeAtlas.Text.Utf8

namespace CodeAtlas

namespace Bytes

theorem firstChar?_eq_some_iff {b : Bytes} {c : Char} :
    firstChar? b = some c ↔ String.utf8EncodeChar c <+: b := by
  constructor
  · intro first
    obtain ⟨rest, whole⟩ := ByteArray.exists_of_utf8DecodeChar?_eq_some first
    have front : b.take 4 = String.utf8EncodeChar c ++ rest.data.toList := by
      have := congrArg (fun bytes => bytes.data.toList) whole
      simpa using this
    exact List.IsPrefix.trans ⟨_, front.symm⟩ (List.take_prefix 4 b)
  · rintro ⟨rest, rfl⟩
    have short : (String.utf8EncodeChar c).length ≤ 4 := by
      rw [String.length_utf8EncodeChar]
      exact c.utf8Size_le_four
    rw [firstChar?, List.take_append, List.take_of_length_le short, List.toByteArray_append]
    exact ByteArray.utf8DecodeChar?_utf8EncodeChar_append

theorem utf8EncodeChar_of_ascii {c : Char} {x : UInt8} (ascii : x < 0x80)
    (member : x ∈ String.utf8EncodeChar c) : String.utf8EncodeChar c = [x] := by
  simp only [String.utf8EncodeChar] at member ⊢
  split at member
  · rename_i small
    rw [List.mem_singleton] at member
    rw [if_pos small, member]
  · -- The other encodings have marked bytes only.
    exfalso
    have unmarked : x.toNat < 128 := UInt8.lt_iff_toNat_lt.mp ascii
    have marked : 128 ≤ x.toNat := by
      (repeat' split at member) <;> simp only [List.mem_cons, List.not_mem_nil, or_false] at member
      · rcases member with rfl | rfl <;> simp <;> omega
      · rcases member with rfl | rfl | rfl <;> simp <;> omega
      · rcases member with rfl | rfl | rfl | rfl <;> simp <;> omega
    omega

theorem firstChar?_append {b : Bytes} (nonempty : b ≠ []) {x : UInt8} (ascii : x < 0x80)
    (rest : Bytes) : firstChar? (b ++ x :: rest) = firstChar? b := by
  -- A character that goes on after `b` would have `x` among its bytes.
  apply Option.ext
  intro c
  rw [firstChar?_eq_some_iff, firstChar?_eq_some_iff]
  constructor
  · intro front
    by_cases short : (String.utf8EncodeChar c).length ≤ b.length
    · exact List.prefix_of_prefix_length_le front (List.prefix_append b _) short
    · have longer : b ++ [x] <+: String.utf8EncodeChar c := by
        refine List.prefix_of_prefix_length_le ⟨rest, by simp⟩ front ?_
        rw [List.length_append, List.length_singleton]
        omega
      have single := utf8EncodeChar_of_ascii ascii (longer.subset (by simp))
      rw [single] at longer
      have := longer.length_le
      simp_all
  · exact fun front => front.trans (List.prefix_append b _)

theorem firstLength_append {b : Bytes} (nonempty : b ≠ []) {x : UInt8} (ascii : x < 0x80)
    (rest : Bytes) : firstLength (b ++ x :: rest) = firstLength b := by
  rw [firstLength, firstLength, firstChar?_append nonempty ascii, brokenLength_append nonempty ascii]

theorem firstLength_le {b : Bytes} (nonempty : b ≠ []) : firstLength b ≤ b.length := by
  unfold firstLength
  split
  · rename_i c first
    rw [← String.length_utf8EncodeChar]
    exact (firstChar?_eq_some_iff.mp first).length_le
  · exact brokenLength_le nonempty

theorem decodeLossy_append (b : Bytes) {x : UInt8} (ascii : x < 0x80) (rest : Bytes) :
    decodeLossy (b ++ x :: rest) = decodeLossy b ++ decodeLossy (x :: rest) := by
  cases b with
  | nil => simp [decodeLossy]
  | cons first more =>
      have nonempty : first :: more ≠ [] := List.cons_ne_nil _ _
      have inside := firstLength_le nonempty
      have shorter := firstLength_pos (first :: more)
      have ih := decodeLossy_append ((first :: more).drop (firstLength (first :: more))) ascii rest
      rw [List.cons_append, decodeLossy, decodeLossy, ← List.cons_append,
        firstChar?_append nonempty ascii, firstLength_append nonempty ascii,
        List.drop_append_of_le_length inside, ih, List.cons_append]
termination_by b.length
decreasing_by
  simp only [List.length_drop, List.length_cons] at *
  omega

theorem ofString_of_decode? {b : Bytes} {s : String} (text : decode? b = some s) : ofString s = b := by
  rw [decode?, String.fromUTF8?] at text
  split at text
  · cases text
    simp [ofString, String.fromUTF8]
  · cases text

theorem ofString_append (s t : String) : ofString (s ++ t) = ofString s ++ ofString t := by
  simp [ofString]

theorem ofString_injective {s t : String} (same : ofString s = ofString t) : s = t := by
  have read := congrArg decode? same
  rwa [decode?_ofString, decode?_ofString, Option.some.injEq] at read

theorem ofString_ofList (chars : List Char) :
    ofString (String.ofList chars) = chars.flatMap String.utf8EncodeChar := by
  simp [ofString, List.utf8Encode]

theorem decodeLossy_encode (c : Char) (rest : Bytes) :
    decodeLossy (String.utf8EncodeChar c ++ rest) = c :: decodeLossy rest := by
  have first := firstChar?_eq_some_iff.mpr (List.prefix_append (String.utf8EncodeChar c) rest)
  have length : firstLength (String.utf8EncodeChar c ++ rest) = (String.utf8EncodeChar c).length := by
    rw [firstLength, first, String.length_utf8EncodeChar]
  cases shape : String.utf8EncodeChar c ++ rest with
  | nil =>
      rw [shape] at first
      cases first
  | cons byte more =>
      rw [decodeLossy, ← shape, first, length, List.drop_left]
      rfl

theorem decodeLossy_ofString (s : String) : decodeLossy (ofString s) = s.toList := by
  rw [← String.ofList_toList (s := s), ofString_ofList, String.toList_ofList]
  induction s.toList with
  | nil => simp [decodeLossy]
  | cons c rest ih => rw [List.flatMap_cons, decodeLossy_encode, ih]

/-! ## Characters of one byte -/

theorem mem_of_mem_decodeLossy {b : Bytes} {c : Char} {x : UInt8}
    (single : String.utf8EncodeChar c = [x]) (member : c ∈ decodeLossy b) : x ∈ b := by
  fun_induction decodeLossy b with
  | case1 => cases member
  | case2 first rest ih =>
      rcases List.mem_cons.mp member with same | later
      · cases front : firstChar? (first :: rest) with
        | none =>
            rw [front, Option.getD_none] at same
            subst same
            cases single
        | some d =>
            rw [front, Option.getD_some] at same
            subst same
            exact (firstChar?_eq_some_iff.mp front).subset (single ▸ List.mem_singleton_self x)
      · exact List.mem_of_mem_drop (ih later)

theorem mem_of_mem_ofString {s : String} {c : Char} {x : UInt8}
    (single : String.utf8EncodeChar c = [x]) (ascii : x < 0x80) (member : x ∈ ofString s) :
    c ∈ s.toList := by
  rw [← String.ofList_toList (s := s), ofString_ofList, List.mem_flatMap] at member
  obtain ⟨d, among, inside⟩ := member
  have begins : ∀ {e : Char}, String.utf8EncodeChar e = [x] → firstChar? [x] = some e :=
    fun own => firstChar?_eq_some_iff.mpr (own ▸ List.prefix_rfl)
  have same := (begins (utf8EncodeChar_of_ascii ascii inside)).symm.trans (begins single)
  exact Option.some.inj same ▸ among

theorem mem_of_mem_decode? {b : Bytes} {s : String} {c : Char} {x : UInt8}
    (single : String.utf8EncodeChar c = [x]) (text : decode? b = some s) (member : c ∈ s.toList) :
    x ∈ b := by
  rw [← ofString_of_decode? text, ← String.ofList_toList (s := s), ofString_ofList, List.mem_flatMap]
  exact ⟨c, member, single ▸ List.mem_singleton_self x⟩

/-! ## Words of ASCII characters -/

end Bytes

def Text.IsAscii (c : Char) : Prop := c.toNat < 128

instance (c : Char) : Decidable (Text.IsAscii c) := inferInstanceAs (Decidable (c.toNat < 128))

namespace Bytes

open Text

theorem utf8EncodeChar_of_isAscii {c : Char} (ascii : IsAscii c) :
    ∃ x < (0x80 : UInt8), String.utf8EncodeChar c = [x] := by
  have each : ∀ n < 128, UInt8.ofNat n < 0x80 ∧
      String.utf8EncodeChar (Char.ofNat n) = [UInt8.ofNat n] := by decide
  have own := each c.toNat ascii
  rw [Char.ofNat_toNat] at own
  exact ⟨_, own⟩

theorem decodeLossy_flatMap_append (word : List Char) (rest : Bytes) :
    decodeLossy (word.flatMap String.utf8EncodeChar ++ rest) = word ++ decodeLossy rest := by
  induction word with
  | nil => rfl
  | cons c word ih => rw [List.flatMap_cons, List.append_assoc, decodeLossy_encode, ih, List.cons_append]

variable {word : List Char} {b : Bytes}

theorem prefix_of_prefix_decodeLossy (ascii : ∀ c ∈ word, IsAscii c) (begins : word <+: decodeLossy b) :
    word.flatMap String.utf8EncodeChar <+: b := by
  induction word generalizing b with
  | nil => exact List.nil_prefix
  | cons c word ih =>
      rw [List.forall_mem_cons] at ascii
      cases b with
      | nil => simp [decodeLossy] at begins
      | cons first rest =>
          cases front : firstChar? (first :: rest) with
          | none =>
              rw [decodeLossy, front, List.cons_prefix_cons] at begins
              exact absurd ascii.1 (begins.1 ▸ by decide)
          | some d =>
              obtain ⟨more, whole⟩ := firstChar?_eq_some_iff.mp front
              rw [← whole, decodeLossy_encode, List.cons_prefix_cons] at begins
              obtain ⟨rfl, later⟩ := begins
              rw [← whole, List.flatMap_cons, List.prefix_append_right_inj]
              exact ih ascii.2 later

/-- A word of ASCII characters stands in a text exactly where its bytes stand, also among bytes that are
no text. -/
theorem infix_decodeLossy_iff (ascii : ∀ c ∈ word, IsAscii c) :
    word <:+: decodeLossy b ↔ word.flatMap String.utf8EncodeChar <:+: b := by
  constructor
  · intro inside
    fun_induction decodeLossy b with
    | case1 =>
        rw [List.infix_nil.mp inside]
        exact List.nil_infix
    | case2 first rest ih =>
        rcases List.infix_cons_iff.mp inside with begins | later
        · refine (prefix_of_prefix_decodeLossy ascii ?_).isInfix
          rwa [decodeLossy]
        · exact (ih later).trans (List.drop_suffix _ _).isInfix
  · rintro ⟨front, back, rfl⟩
    cases word with
    | nil => exact List.nil_infix
    | cons c word =>
        have tail := decodeLossy_flatMap_append (c :: word) back
        obtain ⟨x, small, single⟩ := utf8EncodeChar_of_isAscii (ascii c List.mem_cons_self)
        rw [List.flatMap_cons, single, List.append_assoc, List.singleton_append] at tail
        rw [List.flatMap_cons, single, List.append_assoc, List.append_assoc, List.singleton_append,
          decodeLossy_append front small, tail]
        exact ⟨_, _, (List.append_assoc _ _ _)⟩

end Bytes
end CodeAtlas

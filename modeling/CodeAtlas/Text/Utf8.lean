namespace CodeAtlas

abbrev Bytes := List UInt8

namespace Bytes

def ofString (s : String) : Bytes := s.toUTF8.data.toList

def decode? (b : Bytes) : Option String := String.fromUTF8? b.toByteArray

def firstChar? (b : Bytes) : Option Char := (b.take 4).toByteArray.utf8DecodeChar? 0

private def isContinuation (b : UInt8) : Bool := 0x80 ≤ b && b ≤ 0xBF

private def isSecondAfter (first second : UInt8) : Bool :=
  if first == 0xE0 then 0xA0 ≤ second && second ≤ 0xBF
  else if first == 0xED then 0x80 ≤ second && second ≤ 0x9F
  else if first == 0xF0 then 0x90 ≤ second && second ≤ 0xBF
  else if first == 0xF4 then 0x80 ≤ second && second ≤ 0x8F
  else isContinuation second

/-- How many bytes one replacement character stands for when no character begins here: the longest
beginning of a character, and at least one byte. -/
def brokenLength : Bytes → Nat
  | first :: second :: third :: _ =>
    if 0xE0 ≤ first && first ≤ 0xF4 && isSecondAfter first second then
      if 0xF0 ≤ first && isContinuation third then 3 else 2
    else 1
  | [first, second] => if 0xE0 ≤ first && first ≤ 0xF4 && isSecondAfter first second then 2 else 1
  | _ => 1

def firstLength (b : Bytes) : Nat :=
  match firstChar? b with
  | some c => c.utf8Size
  | none => brokenLength b

theorem brokenLength_pos (b : Bytes) : 0 < brokenLength b := by
  unfold brokenLength
  split <;> (repeat' split) <;> decide

theorem brokenLength_le {b : Bytes} (nonempty : b ≠ []) : brokenLength b ≤ b.length := by
  unfold brokenLength
  split
  · simp only [List.length_cons]
    (repeat' split) <;> omega
  · simp only [List.length_cons, List.length_nil]
    split <;> omega
  · exact List.length_pos_iff.mpr nonempty

private theorem isContinuation_of_ascii {x : UInt8} (ascii : x < 0x80) : isContinuation x = false := by
  simp [isContinuation, UInt8.not_le.mpr ascii]

private theorem isSecondAfter_of_ascii (first : UInt8) {x : UInt8} (ascii : x < 0x80) :
    isSecondAfter first x = false := by
  have low : ∀ {bound : UInt8}, 0x80 ≤ bound → decide (bound ≤ x) = false := fun above =>
    decide_eq_false (UInt8.not_le.mpr (UInt8.lt_of_lt_of_le ascii above))
  unfold isSecondAfter
  rw [low (by decide), low (by decide), low (by decide),
    isContinuation_of_ascii ascii]
  simp

theorem brokenLength_append {b : Bytes} (nonempty : b ≠ []) {x : UInt8} (ascii : x < 0x80)
    (rest : Bytes) : brokenLength (b ++ x :: rest) = brokenLength b := by
  match b, nonempty with
  | [first], _ =>
    cases rest <;> simp [brokenLength, isSecondAfter_of_ascii first ascii]
  | [first, second], _ => simp [brokenLength, isContinuation_of_ascii ascii]
  | first :: second :: third :: more, _ => rfl

theorem firstLength_pos (b : Bytes) : 0 < firstLength b := by
  unfold firstLength
  split
  · exact Char.utf8Size_pos _
  · exact brokenLength_pos b

def decodeLossy (b : Bytes) : List Char :=
  match b with
  | [] => []
  | first :: rest =>
    (firstChar? (first :: rest)).getD '\uFFFD' ::
      decodeLossy ((first :: rest).drop (firstLength (first :: rest)))
termination_by b.length
decreasing_by
  have := firstLength_pos (first :: rest)
  simp only [List.length_drop, List.length_cons]
  omega

def display (b : Bytes) : String := String.ofList (decodeLossy b)

/-- Why bytes are no text: where the first bytes stand that are no character, or, where the bytes end
within a character, where this one begins. -/
def brokenAt (index : Nat) (b : Bytes) : String :=
  match b with
  | [] => ""
  | first :: rest =>
    let length := firstLength (first :: rest)
    if (firstChar? (first :: rest)).isSome then brokenAt (index + length) ((first :: rest).drop length)
    else if 0xC2 ≤ first && first ≤ 0xF4 && length == rest.length + 1 then
      "incomplete utf-8 byte sequence from index " ++ toString index
    else "invalid utf-8 sequence of " ++ toString length ++ " bytes from index " ++ toString index
termination_by b.length
decreasing_by
  have := firstLength_pos (first :: rest)
  simp only [List.length_drop, List.length_cons]
  omega

def precedes : Bytes → Bytes → Bool
  | [], [] => false
  | [], _ :: _ => true
  | _ :: _, [] => false
  | a :: as, b :: bs => a < b || (a == b && precedes as bs)

theorem decode?_ofString (s : String) : decode? (ofString s) = some s := by
  simp only [decode?, ofString, String.toUTF8_eq_toByteArray]
  have : s.toByteArray.data.toList.toByteArray = s.toByteArray := by
    apply ByteArray.ext
    simp
  rw [this, String.fromUTF8?, dif_pos s.isValidUTF8]
  rfl

end Bytes
end CodeAtlas

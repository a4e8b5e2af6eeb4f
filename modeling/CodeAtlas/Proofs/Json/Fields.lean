import CodeAtlas.Json
import CodeAtlas.Proofs.Json.Reader
import CodeAtlas.Proofs.List
import Mathlib.Data.List.Nodup

namespace CodeAtlas.Json

theorem isWritten_nat (n : Nat) : (nat n).IsWritten := ⟨n, rfl⟩

theorem isWritten_text (s : String) : (text s).IsWritten := Option.some_ne_none s

theorem natural?_nat {n : Nat} (small : n < UInt64.size) : (nat n).natural? = some n := by
  have digits : (Text.digitsOf n).all Text.isDigit = true :=
    List.all_eq_true.mpr fun _ => Text.isDigit_of_mem_digitsOf
  have bound : n ≤ maxCount := Nat.le_sub_one_of_lt small
  rw [nat, natural?, Text.toList_toString, digits, Text.natOfDigits_digitsOf, if_pos (by simpa using bound)]

/-! ## Fields -/

variable {members : List (Option String × Json)} {name : String}

theorem length_membersNamed :
    (membersNamed name members).length = (members.map (·.1)).count (some name) := by
  rw [membersNamed, List.length_map, ← List.countP_eq_length_filter, List.count, List.countP_map]
  rfl

theorem membersNamed_eq_nil_iff : membersNamed name members = [] ↔ some name ∉ members.map (·.1) := by
  rw [← List.length_eq_zero_iff, length_membersNamed, List.count_eq_zero]

theorem membersNamed_append (name : String) (front back : List (Option String × Json)) :
    membersNamed name (front ++ back) = membersNamed name front ++ membersNamed name back := by
  rw [membersNamed, List.filter_append, List.map_append]
  rfl

theorem membersNamed_of_mem {value : Json} (distinct : (members.map (·.1)).Nodup)
    (member : (some name, value) ∈ members) : membersNamed name members = [value] := by
  obtain ⟨front, back, rfl⟩ := List.append_of_mem member
  rw [List.map_append, List.map_cons, List.nodup_middle, List.nodup_cons, List.mem_append,
    not_or] at distinct
  have before : membersNamed name front = [] := membersNamed_eq_nil_iff.mpr distinct.1.1
  have after : membersNamed name back = [] := membersNamed_eq_nil_iff.mpr distinct.1.2
  rw [List.append_cons, membersNamed_append, membersNamed_append, before, after]
  simp [membersNamed]

variable {fields : List (Option String × Json)} {names : List String}

theorem named_of_keys (keys : fields.map (·.1) = names.map some) {field : Option String × Json}
    (known : field ∈ fields) : ∃ name ∈ names, some name = field.1 :=
  List.mem_map.mp (keys ▸ List.mem_map_of_mem known)

theorem fields?_object (keys : fields.map (·.1) = names.map some) (distinct : names.Nodup) :
    (object fields).fields? names = some (fields.map (·.2)) := by
  have named : ∀ field ∈ fields, field.1.isSome = true := by
    intro field known
    obtain ⟨name, -, same⟩ := named_of_keys keys known
    rw [← same, Option.isSome_some]
  have once : (fields.map (·.1)).Nodup := keys ▸ distinct.map fun _ _ => Option.some.inj
  have found : ∀ field ∈ fields,
      single? ((fields.filter fun member => member.1 == field.1).map (·.2)) = some field.2 := by
    rintro ⟨key, value⟩ known
    obtain ⟨name, -, rfl⟩ := named_of_keys keys known
    exact congrArg single? (membersNamed_of_mem once known)
  rw [fields?, if_pos (List.all_eq_true.mpr named)]
  calc
    names.mapM (fun name => single? (membersNamed name fields)) = (names.map some).mapM fun key =>
        single? ((fields.filter fun member => member.1 == key).map (·.2)) := by
      rw [List.mapM_map]
      rfl
    _ = fields.mapM fun field =>
        single? ((fields.filter fun member => member.1 == field.1).map (·.2)) := by
      rw [← keys, List.mapM_map]
      rfl
    _ = some (fields.map (·.2)) := mapM_eq_some_map found

end CodeAtlas.Json

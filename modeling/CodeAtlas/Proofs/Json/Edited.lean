import CodeAtlas.Proofs.Json.Fields
import Mathlib.Data.List.Forall2

/-!
# Edited records

A record can be written with its fields in any order and unknown fields among them, or as an array of its
values. It has a flaw if one of its fields is missing or stands more than once. `Edited` does this to all
objects of a value, at every depth, and tells whether one of them got a flaw. A reader that takes the
fields of its records by their names reads an edited record as the same record, and does not read it if
there is a flaw in it (`encodes_record`).
-/

namespace CodeAtlas.Json

def IsUnknown (fields : List (Option String × Json)) (member : Option String × Json) : Prop :=
  ∃ key content, member = (some key, text content) ∧ some key ∉ fields.map (·.1)

/-- The ways to write a record with these fields, and the objects in which one of them is missing or
stands more than once. -/
inductive Spells (fields : List (Option String × Json)) : (flawed : Bool) → Json → Prop
  | array : Spells fields false (.array (fields.map (·.2)))
  | object {members unknown : List (Option String × Json)}
      (apart : ∀ member ∈ unknown, IsUnknown fields member)
      (order : members.Perm (fields ++ unknown)) : Spells fields false (.object members)
  | miscounted {members : List (Option String × Json)} {field : Option String × Json}
      (known : field ∈ fields) (times : (members.map (·.1)).count field.1 ≠ 1) :
      Spells fields true (.object members)

mutual

/-- A value whose records are written in other ways; `flawed` if there is a flaw in one of them. -/
inductive Edited : (flawed : Bool) → (before after : Json) → Prop
  | null : Edited false .null .null
  | boolean (b : Bool) : Edited false (.boolean b) (.boolean b)
  | number (literal : String) : Edited false (.number literal) (.number literal)
  | string (text : Option String) : Edited false (.string text) (.string text)
  | array {flawed : Bool} {before after : List Json} (items : EditedItems flawed before after) :
      Edited flawed (.array before) (.array after)
  | object {inside here : Bool} {before fields : List (Option String × Json)} {after : Json}
      (members : EditedMembers inside before fields) (spells : Spells fields here after) :
      Edited (inside || here) (.object before) after

inductive EditedItems : (flawed : Bool) → (before after : List Json) → Prop
  | nil : EditedItems false [] []
  | cons {first others : Bool} {item edited : Json} {before after : List Json}
      (here : Edited first item edited) (later : EditedItems others before after) :
      EditedItems (first || others) (item :: before) (edited :: after)

inductive EditedMembers : (flawed : Bool) → (before after : List (Option String × Json)) → Prop
  | nil : EditedMembers false [] []
  | cons {first others : Bool} {key : Option String} {value edited : Json}
      {before after : List (Option String × Json)}
      (here : Edited first value edited) (later : EditedMembers others before after) :
      EditedMembers (first || others) ((key, value) :: before) ((key, edited) :: after)

end

variable {flawed : Bool} {before after : Json} {fields members : List (Option String × Json)}

theorem EditedMembers.keys {flawed : Bool} {before after : List (Option String × Json)} :
    EditedMembers flawed before after → after.map (·.1) = before.map (·.1)
  | .nil => rfl
  | .cons _ later => congrArg (_ :: ·) later.keys

theorem EditedMembers.values {flawed : Bool} {before after : List (Option String × Json)} :
    EditedMembers flawed before after → EditedItems flawed (before.map (·.2)) (after.map (·.2))
  | .nil => .nil
  | .cons here later => .cons here later.values

theorem Spells.refl (fields : List (Option String × Json)) : Spells fields false (.object fields) :=
  .object (List.forall_mem_nil (IsUnknown fields)) (by rw [List.append_nil])

mutual

theorem Edited.refl : (value : Json) → Edited false value value
  | .null => .null
  | .boolean b => .boolean b
  | .number literal => .number literal
  | .string text => .string text
  | .array items => .array (EditedItems.refl items)
  | .object members => .object (EditedMembers.refl members) (Spells.refl members)

theorem EditedItems.refl : (items : List Json) → EditedItems false items items
  | [] => .nil
  | item :: items => .cons (Edited.refl item) (EditedItems.refl items)

theorem EditedMembers.refl : (members : List (Option String × Json)) →
    EditedMembers false members members
  | [] => .nil
  | (_, value) :: members => .cons (Edited.refl value) (EditedMembers.refl members)

end

theorem EditedItems.at {item edited : Json} (front back : List Json) (edit : Edited flawed item edited) :
    EditedItems flawed (front ++ item :: back) (front ++ edited :: back) := by
  induction front with
  | nil => exact Bool.or_false flawed ▸ .cons edit (.refl back)
  | cons other front ih => exact .cons (.refl other) ih

theorem EditedMembers.at {value edited : Json} (front back : List (Option String × Json))
    (key : Option String) (edit : Edited flawed value edited) :
    EditedMembers flawed (front ++ (key, value) :: back) (front ++ (key, edited) :: back) := by
  induction front with
  | nil => exact Bool.or_false flawed ▸ .cons edit (.refl back)
  | cons other front ih => exact .cons (.refl other.2) ih

/-! ## Documents -/

theorem membersWritten_iff :
    MembersWritten members ↔ ∀ member ∈ members, member.1 ≠ none ∧ member.2.IsWritten := by
  induction members with
  | nil => simp [MembersWritten]
  | cons member members ih => rw [MembersWritten, ih, List.forall_mem_cons, and_assoc]

theorem Spells.isWritten (spells : Spells fields false after) (written : MembersWritten fields) :
    after.IsWritten := by
  rw [membersWritten_iff] at written
  cases spells with
  | array =>
      rw [IsWritten, areWritten_iff, List.forall_mem_map]
      exact fun field known => (written field known).2
  | object apart order =>
      rw [IsWritten, membersWritten_iff]
      intro member among
      obtain known | unknown := List.mem_append.mp (order.mem_iff.mp among)
      · exact written member known
      · obtain ⟨key, content, rfl, -⟩ := apart member unknown
        exact ⟨Option.some_ne_none key, isWritten_text content⟩

mutual

theorem Edited.isWritten {flawed : Bool} {before after : Json} :
    Edited flawed before after → flawed = false → before.IsWritten → after.IsWritten
  | .null, _, written | .boolean _, _, written | .number _, _, written | .string _, _, written => written
  | .array items, sound, written => items.areWritten sound written
  | .object members spells, sound, written => by
      obtain ⟨inside, rfl⟩ := Bool.or_eq_false_iff.mp sound
      exact spells.isWritten (members.membersWritten inside written)

theorem EditedItems.areWritten {flawed : Bool} {before after : List Json} :
    EditedItems flawed before after → flawed = false → AreWritten before → AreWritten after
  | .nil, _, written => written
  | .cons here later, sound, ⟨first, others⟩ =>
      have ⟨soundHere, soundLater⟩ := Bool.or_eq_false_iff.mp sound
      ⟨here.isWritten soundHere first, later.areWritten soundLater others⟩

theorem EditedMembers.membersWritten {flawed : Bool} {before after : List (Option String × Json)} :
    EditedMembers flawed before after → flawed = false → MembersWritten before → MembersWritten after
  | .nil, _, written => written
  | .cons here later, sound, ⟨key, first, others⟩ =>
      have ⟨soundHere, soundLater⟩ := Bool.or_eq_false_iff.mp sound
      ⟨key, here.isWritten soundHere first, later.membersWritten soundLater others⟩

end

/-! ## The fields of an edited record -/

section Spells

variable {names : List String} {name : String}

theorem membersNamed_unknown {unknown : List (Option String × Json)}
    (apart : ∀ member ∈ unknown, IsUnknown fields member) (known : some name ∈ fields.map (·.1)) :
    membersNamed name unknown = [] := by
  rw [membersNamed_eq_nil_iff]
  intro among
  obtain ⟨member, given, same⟩ := List.mem_map.mp among
  obtain ⟨key, content, rfl, other⟩ := apart member given
  have equal : some key = some name := same
  exact other (equal ▸ known)

theorem single?_eq_none_iff {values : List Json} : single? values = none ↔ values.length ≠ 1 := by
  cases values with
  | nil => simp [single?]
  | cons first others => cases others <;> simp [single?]

theorem single?_perm {values others : List Json} (order : values.Perm others) :
    single? values = single? others := by
  cases found : single? others with
  | none => exact single?_eq_none_iff.mpr (order.length_eq ▸ single?_eq_none_iff.mp found)
  | some value =>
      unfold single? at found
      split at found
      · obtain rfl := List.perm_singleton.mp order
        exact found
      · cases found

theorem fields?_spells (keys : fields.map (·.1) = names.map some) (distinct : names.Nodup)
    (spells : Spells fields flawed after) :
    after.fields? names = if flawed then none else some (fields.map (·.2)) := by
  cases spells with
  | array =>
      have length : (fields.map (·.2)).length = names.length := by
        rw [List.length_map, ← List.length_map (·.1), keys, List.length_map]
      exact if_pos length
  | @object members unknown apart order =>
      have fieldsNamed : ∀ field ∈ fields, field.1.isSome = true := by
        intro field known
        obtain ⟨name, -, same⟩ := named_of_keys keys known
        rw [← same, Option.isSome_some]
      have allNamed : ∀ member ∈ members, member.1.isSome = true := by
        intro member among
        obtain known | unknown := List.mem_append.mp (order.mem_iff.mp among)
        · exact fieldsNamed member known
        · obtain ⟨key, content, rfl, -⟩ := apart member unknown
          rfl
      -- A name of the record finds no unknown member, and one member alone has no order.
      have plain := fields?_object keys distinct
      rw [fields?, if_pos (List.all_eq_true.mpr fieldsNamed)] at plain
      rw [fields?, if_pos (List.all_eq_true.mpr allNamed), if_neg Bool.false_ne_true, ← plain]
      apply mapM_congr
      intro name isIn
      have others := membersNamed_unknown apart (keys ▸ List.mem_map_of_mem isIn)
      apply single?_perm
      calc
        (membersNamed name members).Perm (membersNamed name (fields ++ unknown)) :=
          (order.filter _).map _
        _ = membersNamed name fields := by rw [membersNamed_append, others, List.append_nil]
  | @miscounted members field known times =>
      obtain ⟨name, isIn, same⟩ := named_of_keys keys known
      have unread : single? (membersNamed name members) = none := by
        rw [single?_eq_none_iff, length_membersNamed, same]
        exact times
      rw [fields?]
      split
      · exact mapM_eq_none_iff.mpr ⟨name, isIn, unread⟩
      · rfl

end Spells

/-! ## Readers -/

variable {α β : Type}

theorem bind_unless (flawed : Bool) (x : α) (next : α → Option β) :
    ((if flawed then none else some x) >>= next) = if flawed then none else next x := by
  cases flawed <;> rfl

theorem unless_or (first others : Bool) (found : Option α) :
    (if first || others then none else found) =
      if first then none else if others then none else found := by
  cases first <;> rfl

/-- A value with a text of its own that stands for the content. Whatever is done to its records, the
reader finds the content, or nothing if there is a flaw. -/
structure Encodes (read : Json → Option α) (value : Json) (content : α) : Prop where
  written : value.IsWritten
  reads : ∀ {flawed edited}, Edited flawed value edited →
    read edited = if flawed then none else some content

theorem encodes_text (s : String) : Encodes text? (text s) s where
  written := isWritten_text s
  reads edit := by
    cases edit
    rfl

theorem encodes_nat {n : Nat} (small : n < UInt64.size) : Encodes natural? (nat n) n where
  written := isWritten_nat n
  reads edit := by
    cases edit
    exact natural?_nat small

/-! ### Lists -/

variable {read : Json → Option α}

theorem encodes_map {write : α → Json} {contents : List α}
    (each : ∀ content ∈ contents, Encodes read (write content) content) :
    List.Forall₂ (Encodes read) (contents.map write) contents := by
  rw [List.forall₂_map_left_iff, List.forall₂_same]
  exact each

theorem encodes_mapM {write : α → Option Json} {contents : List α} {values : List Json}
    (written : contents.mapM write = some values)
    (each : ∀ content ∈ contents, ∀ value, write content = some value → Encodes read value content) :
    List.Forall₂ (Encodes read) values contents := by
  induction contents generalizing values with
  | nil =>
      obtain rfl := Option.some.inj written
      exact .nil
  | cons content contents ih =>
      obtain ⟨first, others, here, later, rfl⟩ := mapM_cons_eq_some_iff.mp written
      rw [List.forall_mem_cons] at each
      exact .cons (each.1 first here) (ih later each.2)

theorem isWritten_array {values : List Json} {contents : List α}
    (each : List.Forall₂ (Encodes read) values contents) : (Json.array values).IsWritten := by
  induction each with
  | nil => trivial
  | cons first _ ih => exact ⟨first.written, ih⟩

theorem mapM_edited {before after : List Json} {contents : List α}
    (each : List.Forall₂ (Encodes read) before contents) (edits : EditedItems flawed before after) :
    after.mapM read = if flawed then none else some contents := by
  induction each generalizing flawed after with
  | nil =>
      cases edits
      rfl
  | cons first others ih =>
      cases edits with
      | cons edit edits =>
          rw [List.mapM_cons, first.reads edit, ih edits, bind_unless, bind_unless, unless_or]
          rfl

theorem items?_edited {before : List Json} {after : Json} {contents : List α}
    (each : List.Forall₂ (Encodes read) before contents) (edit : Edited flawed (.array before) after)
    (next : List α → Option β) :
    (after.items? >>= fun items => items.mapM read >>= next) =
      if flawed then none else next contents := by
  cases edit with
  | @array _ _ items edits =>
      change (items.mapM read >>= next) = _
      rw [mapM_edited each edits, bind_unless]

/-! ### Records -/

theorem encodes_record {build : List Json → Option α} {content : α} {members : List (String × Json)}
    {names : List String} (reads : ∀ value, read value = (value.fields? names).bind build)
    (keys : members.map (·.1) = names) (distinct : names.Nodup)
    (written : ∀ member ∈ members, member.2.IsWritten)
    (builds : ∀ {inside values}, EditedItems inside (members.map (·.2)) values →
      build values = if inside then none else some content) :
    Encodes read (record members) content where
  written := isWritten_record written
  reads edit := by
    cases edit with
    | @object inside here _ fields _ edits spells =>
        have same : fields.map (·.1) = names.map some := by
          rw [edits.keys, ← keys, List.map_map, List.map_map]
          rfl
        have values := edits.values
        rw [List.map_map] at values
        rw [reads, fields?_spells same distinct spells]
        cases here with
        | true => rw [Bool.or_true]; rfl
        | false => rw [Bool.or_false]; exact builds values

end CodeAtlas.Json

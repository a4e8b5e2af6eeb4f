import CodeAtlas.FileSystem.Resolve
import CodeAtlas.Proofs.Path

namespace CodeAtlas

namespace Entry

/-! ## Entries below entries -/

theorem get?_append (entry : Entry) (place rest : Place) :
    entry.get? (place ++ rest) = (entry.get? place).bind (·.get? rest) := by
  induction place generalizing entry with
  | nil => simp [get?]
  | cons name place ih =>
      cases entry with
      | directory entries =>
          simp only [List.cons_append, get?]
          cases lookup name entries with
          | none => rfl
          | some child => exact ih child
      | file content => rfl
      | symlink target => rfl
      | locked entries => rfl

theorem get?_cons_eq_some_iff {entry below : Entry} {name : Name} {rest : Place} :
    entry.get? (name :: rest) = some below ↔ ∃ entries child, entry = directory entries ∧
      lookup name entries = some child ∧ child.get? rest = some below := by
  constructor
  · intro found
    cases entry with
    | directory entries =>
        obtain ⟨child, looked, onward⟩ := Option.bind_eq_some_iff.mp found
        exact ⟨entries, child, rfl, looked, onward⟩
    | file content => cases found
    | symlink target => cases found
    | locked entries => cases found
  · rintro ⟨entries, child, rfl, looked, onward⟩
    exact Option.bind_eq_some_iff.mpr ⟨child, looked, onward⟩

theorem get?_directory_append {entry : Entry} {place : Place} {entries : List (Name × Entry)}
    (found : entry.get? place = some (.directory entries)) (name : Name) (rest : Place) :
    entry.get? (place ++ name :: rest) = (lookup name entries).bind (·.get? rest) := by
  rw [get?_append, found, Option.bind_some, get?]

theorem directory_of_get?_append {entry below : Entry} {place : Place} {name : Name} {rest : Place}
    (found : entry.get? (place ++ name :: rest) = some below) :
    ∃ entries, entry.get? place = some (.directory entries) := by
  rw [get?_append] at found
  obtain ⟨parent, above, onward⟩ := Option.bind_eq_some_iff.mp found
  obtain ⟨entries, -, rfl, -, -⟩ := get?_cons_eq_some_iff.mp onward
  exact ⟨entries, above⟩

/-! ## Well-formed trees -/

mutual

/-- Every name below is the name of an entry, no directory has two entries of one name, and links can be
followed. -/
def WellFormed : Entry → Prop
  | directory entries => WellFormedIn entries
  | file _ => True
  | symlink target => (0 : UInt8) ∉ target.bytes
  | locked entries => WellFormedIn entries

def WellFormedIn : List (Name × Entry) → Prop
  | [] => True
  | (name, entry) :: rest =>
    IsEntryName name ∧ lookup name rest = none ∧ entry.WellFormed ∧ WellFormedIn rest

end

mutual

def decideWellFormed : (entry : Entry) → Decidable entry.WellFormed
  | directory entries => decideWellFormedIn entries
  | file _ => isTrue trivial
  | symlink target => inferInstanceAs (Decidable ((0 : UInt8) ∉ target.bytes))
  | locked entries => decideWellFormedIn entries

def decideWellFormedIn : (entries : List (Name × Entry)) → Decidable (WellFormedIn entries)
  | [] => isTrue trivial
  | (name, entry) :: rest =>
    have := decideWellFormed entry
    have := decideWellFormedIn rest
    inferInstanceAs
      (Decidable (IsEntryName name ∧ lookup name rest = none ∧ entry.WellFormed ∧ WellFormedIn rest))

end

theorem lookup_mem {name : Name} {entry : Entry} {entries : List (Name × Entry)}
    (found : lookup name entries = some entry) : (name, entry) ∈ entries := by
  induction entries with
  | nil => simp [lookup] at found
  | cons first rest ih =>
      obtain ⟨other, child⟩ := first
      by_cases same : other = name
      · simp_all [lookup]
      · simp only [lookup, same, if_false] at found
        exact List.mem_cons_of_mem _ (ih found)

theorem WellFormedIn.of_mem {name : Name} {entry : Entry} {entries : List (Name × Entry)}
    (formed : WellFormedIn entries) (member : (name, entry) ∈ entries) :
    IsEntryName name ∧ lookup name entries = some entry ∧ entry.WellFormed := by
  induction entries with
  | nil => cases member
  | cons first rest ih =>
      obtain ⟨other, child⟩ := first
      obtain ⟨regular, fresh, childFormed, restFormed⟩ := formed
      rcases List.mem_cons.mp member with equal | later
      · cases equal
        exact ⟨regular, by simp [lookup], childFormed⟩
      · obtain ⟨regular', found, entryFormed⟩ := ih restFormed later
        refine ⟨regular', ?_, entryFormed⟩
        have different : other ≠ name := by
          rintro rfl
          rw [fresh] at found
          cases found
        simp [lookup, different, found]

theorem WellFormed.get? {entry below : Entry} {place : Place} (formed : entry.WellFormed)
    (found : entry.get? place = some below) : below.WellFormed := by
  induction place generalizing entry with
  | nil =>
      rw [Entry.get?, Option.some.injEq] at found
      exact found ▸ formed
  | cons name rest ih =>
      obtain ⟨entries, child, rfl, looked, onward⟩ := get?_cons_eq_some_iff.mp found
      exact ih (WellFormedIn.of_mem formed (lookup_mem looked)).2.2 onward

end Entry

/-! ## Byte order -/

theorem mem_insertByName {α : Type} (name : Name) (x : α) (entries : List (Name × α))
    (item : Name × α) : item ∈ insertByName name x entries ↔ item = (name, x) ∨ item ∈ entries := by
  induction entries with
  | nil => simp [insertByName]
  | cons first rest ih =>
      unfold insertByName
      split
      · simp
      · rw [List.mem_cons, ih, List.mem_cons]
        exact or_left_comm

theorem mem_sortByName {α : Type} (entries : List (Name × α)) (item : Name × α) :
    item ∈ sortByName entries ↔ item ∈ entries := by
  induction entries with
  | nil => rfl
  | cons first rest ih => rw [sortByName, mem_insertByName, ih, List.mem_cons]

theorem map_insertByName {α β : Type} (f : α → β) (name : Name) (x : α) (entries : List (Name × α)) :
    (insertByName name x entries).map (fun item => (item.1, f item.2)) =
      insertByName name (f x) (entries.map fun item => (item.1, f item.2)) := by
  induction entries with
  | nil => rfl
  | cons first rest ih =>
      simp only [insertByName, List.map_cons]
      split
      · rfl
      · rw [List.map_cons, ih]

theorem Entry.sortedEntries_eq (entries : List (Name × Entry)) :
    Entry.sortedEntries entries =
      (sortByName entries).map fun item => (item.1, item.2.sorted) := by
  induction entries with
  | nil => rfl
  | cons first rest ih => rw [Entry.sortedEntries, sortByName, map_insertByName, ih]

namespace Entry

theorem lookup_insertByName_eq_none {name other : Name} {entry : Entry}
    {entries : List (Name × Entry)} (different : name ≠ other)
    (missing : lookup other entries = none) :
    lookup other (insertByName name entry entries) = none := by
  induction entries with
  | nil => simp [insertByName, lookup, different]
  | cons first rest ih =>
      obtain ⟨own, child⟩ := first
      have apart : own ≠ other := by
        rintro rfl
        simp [lookup] at missing
      rw [lookup, if_neg apart] at missing
      unfold insertByName
      split
      · simp [lookup, different, apart, missing]
      · simp [lookup, apart, ih missing]

theorem WellFormedIn.insertByName {name : Name} {entry : Entry} {entries : List (Name × Entry)}
    (regular : IsEntryName name) (missing : lookup name entries = none) (formed : entry.WellFormed)
    (others : WellFormedIn entries) : WellFormedIn (insertByName name entry entries) := by
  induction entries with
  | nil => exact ⟨regular, rfl, formed, trivial⟩
  | cons first rest ih =>
      obtain ⟨own, child⟩ := first
      have apart : own ≠ name := by
        rintro rfl
        simp [lookup] at missing
      unfold CodeAtlas.insertByName
      split
      · exact ⟨regular, missing, formed, others⟩
      · rw [lookup, if_neg apart] at missing
        obtain ⟨ownRegular, fresh, childFormed, restFormed⟩ := others
        exact ⟨ownRegular, lookup_insertByName_eq_none (Ne.symm apart) fresh, childFormed,
          ih missing restFormed⟩

theorem lookup_sortedEntries_eq_none {name : Name} {entries : List (Name × Entry)}
    (missing : lookup name entries = none) : lookup name (sortedEntries entries) = none := by
  induction entries with
  | nil => rfl
  | cons first rest ih =>
      obtain ⟨own, child⟩ := first
      have apart : own ≠ name := by
        rintro rfl
        simp [lookup] at missing
      rw [lookup, if_neg apart] at missing
      exact lookup_insertByName_eq_none apart (ih missing)

mutual

theorem WellFormed.sorted : (entry : Entry) → entry.WellFormed → entry.sorted.WellFormed
  | directory entries => WellFormedIn.sortedEntries entries
  | file _ => fun _ => trivial
  | symlink _ => fun formed => formed
  | locked _ => fun formed => formed

theorem WellFormedIn.sortedEntries :
    (entries : List (Name × Entry)) → WellFormedIn entries → WellFormedIn (sortedEntries entries)
  | [], _ => trivial
  | (_, entry) :: rest, ⟨regular, fresh, formed, others⟩ =>
      WellFormedIn.insertByName regular (lookup_sortedEntries_eq_none fresh)
        (WellFormed.sorted entry formed) (WellFormedIn.sortedEntries rest others)

end

end Entry

/-! ## File systems -/

/-- A file system as an operating system keeps it. -/
structure FileSystem.WellFormed (fs : FileSystem) : Prop where
  entries : Entry.WellFormedIn fs.entries
  workingDirectory : ∃ entries, fs.get? fs.workingDirectory = some (.directory entries)

instance (fs : FileSystem) : Decidable fs.WellFormed :=
  have := Entry.decideWellFormedIn fs.entries
  match standing : fs.get? fs.workingDirectory with
  | some (.directory entries) =>
    decidable_of_iff (Entry.WellFormedIn fs.entries)
      ⟨fun formed => ⟨formed, entries, standing⟩, fun formed => formed.entries⟩
  | none | some (.file _) | some (.symlink _) | some (.locked _) =>
    isFalse fun formed => by
      obtain ⟨entries, here⟩ := formed.workingDirectory
      rw [standing] at here
      cases here

theorem FileSystem.WellFormed.get? {fs : FileSystem} {place : Place} {entry : Entry}
    (formed : fs.WellFormed) (found : fs.get? place = some entry) : entry.WellFormed := by
  have top : fs.top.WellFormed := formed.entries
  exact top.get? found

end CodeAtlas

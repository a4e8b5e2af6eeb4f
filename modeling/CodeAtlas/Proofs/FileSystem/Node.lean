import CodeAtlas.FileSystem.Write
import CodeAtlas.Proofs.FileSystem.Place

namespace CodeAtlas

inductive Node where
  | file (content : Bytes)
  | directory
  | symlink (target : Path)
  | locked (entries : List (Name × Entry))

def Node.isDirectory : Node → Bool
  | directory => true
  | locked _ => true
  | _ => false

namespace Entry

def node : Entry → Node
  | file content => .file content
  | directory _ => .directory
  | symlink target => .symlink target
  | locked entries => .locked entries

def node? (entry : Entry) (place : Place) : Option Node := (entry.get? place).map node

theorem isDirectory_node (entry : Entry) : entry.node.isDirectory = entry.isDirectory := by
  cases entry <;> rfl

theorem node?_eq_file {entry : Entry} {place : Place} {content : Bytes} :
    entry.node? place = some (.file content) ↔ entry.get? place = some (file content) := by
  rw [node?, Option.map_eq_some_iff]
  constructor
  · rintro ⟨leaf, found, same⟩
    cases leaf with
    | file own =>
        cases same
        exact found
    | directory entries => cases same
    | symlink target => cases same
    | locked entries => cases same
  · intro found
    exact ⟨file content, found, rfl⟩

/-! ## One directory -/

theorem lookup_alterIn {name other : Name} {f : Option Entry → Option Entry}
    {entries : List (Name × Entry)} (formed : WellFormedIn entries) :
    lookup other (alterIn name f entries) =
      if other = name then f (lookup name entries) else lookup other entries := by
  induction entries with
  | nil =>
      cases made : f none with
      | none => simp [alterIn, lookup, made]
      | some entry => simp [alterIn, lookup, made, eq_comm]
  | cons first rest ih =>
      obtain ⟨own, child⟩ := first
      obtain ⟨_, fresh, _, others⟩ := formed
      by_cases here : own = name
      · subst here
        cases made : f (some child) with
        | none =>
            by_cases same : other = own
            · simp [alterIn, lookup, made, same, fresh]
            · simp [alterIn, lookup, made, same, Ne.symm same]
        | some entry =>
            by_cases same : other = own
            · simp [alterIn, lookup, made, same]
            · simp [alterIn, lookup, made, same, Ne.symm same]
      · by_cases same : own = other
        · subst same
          simp [alterIn, lookup, here]
        · simp [alterIn, lookup, here, same, ih others]

theorem WellFormedIn.alterIn {name : Name} {f : Option Entry → Option Entry}
    {entries : List (Name × Entry)} (formed : WellFormedIn entries) (regular : IsEntryName name)
    (made : ∀ entry, f (lookup name entries) = some entry → entry.WellFormed) :
    WellFormedIn (alterIn name f entries) := by
  induction entries with
  | nil =>
      cases new : f none with
      | none => simp [Entry.alterIn, new, WellFormedIn]
      | some entry =>
          simp only [Entry.alterIn, new, Option.map_some, Option.toList_some]
          exact ⟨regular, rfl, made entry new, trivial⟩
  | cons first rest ih =>
      obtain ⟨own, child⟩ := first
      obtain ⟨ownRegular, fresh, childFormed, others⟩ := formed
      by_cases here : own = name
      · subst here
        simp only [lookup, if_true] at made
        cases new : f (some child) with
        | none => simpa [Entry.alterIn, new] using others
        | some entry =>
            simp only [Entry.alterIn, new, if_true, Option.map_some, Option.toList_some]
            exact ⟨ownRegular, fresh, made entry new, others⟩
      · simp only [lookup, if_neg here] at made
        simp only [Entry.alterIn, if_neg here]
        refine ⟨ownRegular, ?_, childFormed, ih others made⟩
        rw [lookup_alterIn others, if_neg here]
        exact fresh

/-! ## A tree -/

theorem alter_cons {f : Option Entry → Option Entry} {name : Name} {rest : Place}
    (deeper : rest ≠ []) (entries : List (Name × Entry)) :
    alter f (name :: rest) (directory entries) =
      directory (alterIn name (fun child => child.map (alter f rest)) entries) := by
  cases rest with
  | nil => exact absurd rfl deeper
  | cons next rest => rfl

theorem alter_directory (f : Option Entry → Option Entry) (place : Place)
    (entries : List (Name × Entry)) :
    ∃ changed, alter f place (directory entries) = directory changed := by
  cases place with
  | nil => exact ⟨entries, rfl⟩
  | cons name rest =>
      cases rest with
      | nil => exact ⟨_, rfl⟩
      | cons next rest => exact ⟨_, rfl⟩

theorem get?_alter {entry : Entry} {f : Option Entry → Option Entry} {above : Place} {name : Name}
    {entries : List (Name × Entry)} (formed : entry.WellFormed)
    (found : entry.get? above = some (directory entries)) (rest : Place) :
    (alter f (above ++ [name]) entry).get? (above ++ name :: rest) =
      (f (lookup name entries)).bind (·.get? rest) := by
  induction above generalizing entry with
  | nil =>
      rw [get?, Option.some.injEq] at found
      subst found
      simp only [List.nil_append, alter, get?]
      rw [lookup_alterIn formed, if_pos rfl]
  | cons own above ih =>
      obtain ⟨siblings, child, rfl, looked, below⟩ := get?_cons_eq_some_iff.mp found
      have childFormed := (WellFormedIn.of_mem formed (lookup_mem looked)).2.2
      rw [List.cons_append, List.cons_append, alter_cons (by simp), get?, lookup_alterIn formed,
        if_pos rfl, looked]
      exact ih childFormed below

theorem node?_alter {entry : Entry} {f : Option Entry → Option Entry} {above : Place} {name : Name}
    {entries : List (Name × Entry)} (formed : entry.WellFormed)
    (found : entry.get? above = some (directory entries)) {place : Place}
    (outside : ¬ above ++ [name] <+: place) :
    (alter f (above ++ [name]) entry).node? place = entry.node? place := by
  induction above generalizing entry place with
  | nil =>
      rw [get?, Option.some.injEq] at found
      subst found
      cases place with
      | nil => rfl
      | cons other rest =>
          have different : other ≠ name := by
            rintro rfl
            exact outside (by simp)
          simp only [List.nil_append, alter, node?, get?]
          rw [lookup_alterIn formed, if_neg different]
  | cons own above ih =>
      obtain ⟨siblings, child, rfl, looked, below⟩ := get?_cons_eq_some_iff.mp found
      have childFormed := (WellFormedIn.of_mem formed (lookup_mem looked)).2.2
      rw [List.cons_append, alter_cons (by simp)]
      cases place with
      | nil => rfl
      | cons other rest =>
          by_cases same : other = own
          · subst same
            have apart : ¬ above ++ [name] <+: rest := by simpa using outside
            have step := ih childFormed below apart
            simp only [node?, get?] at step ⊢
            rw [lookup_alterIn formed, if_pos rfl, looked]
            exact step
          · simp only [node?, get?]
            rw [lookup_alterIn formed, if_neg same]

theorem WellFormed.alter {entry : Entry} {f : Option Entry → Option Entry} {above : Place}
    {name : Name} {entries : List (Name × Entry)} (formed : entry.WellFormed)
    (found : entry.get? above = some (directory entries)) (regular : IsEntryName name)
    (made : ∀ new, f (lookup name entries) = some new → new.WellFormed) :
    (alter f (above ++ [name]) entry).WellFormed := by
  induction above generalizing entry with
  | nil =>
      rw [Entry.get?, Option.some.injEq] at found
      subst found
      exact WellFormedIn.alterIn formed regular made
  | cons own above ih =>
      obtain ⟨siblings, child, rfl, looked, below⟩ := get?_cons_eq_some_iff.mp found
      obtain ⟨ownRegular, _, childFormed⟩ := WellFormedIn.of_mem formed (lookup_mem looked)
      rw [List.cons_append, alter_cons (by simp)]
      refine WellFormedIn.alterIn formed ownRegular fun new same => ?_
      rw [looked, Option.map_some, Option.some.injEq] at same
      exact same ▸ ih childFormed below

/-! ## What a removal leaves -/

def Unlocked (entry : Entry) : Prop :=
  ∀ place inner, entry.node? place ≠ some (.locked inner)

theorem unlocked_file (content : Bytes) : (file content).Unlocked := by
  intro place inner
  cases place with
  | nil => rintro ⟨⟩
  | cons name rest => rintro ⟨⟩

theorem Unlocked.of_lookup {entries : List (Name × Entry)} (unlocked : (directory entries).Unlocked)
    {name : Name} {child : Entry} (looked : lookup name entries = some child) : child.Unlocked := by
  intro place inner
  have here := unlocked (name :: place) inner
  rwa [node?, get?, looked, Option.bind_some] at here

mutual

theorem remains_eq_none : (entry : Entry) → entry.WellFormed → entry.Unlocked → entry.remains = none
  | directory entries, formed, unlocked => by
      rw [remains, remainsIn_eq_nil entries formed fun _ member =>
        unlocked.of_lookup (WellFormedIn.of_mem formed member).2.1]
      rfl
  | file _, _, _ => rfl
  | symlink _, _, _ => rfl
  | locked entries, _, unlocked => absurd rfl (unlocked [] entries)

theorem remainsIn_eq_nil : (entries : List (Name × Entry)) → WellFormedIn entries →
    (∀ item ∈ entries, item.2.Unlocked) → remainsIn entries = []
  | [], _, _ => rfl
  | (_, entry) :: rest, ⟨_, _, formed, others⟩, unlocked => by
      rw [List.forall_mem_cons] at unlocked
      rw [remainsIn, remains_eq_none entry formed unlocked.1]
      exact remainsIn_eq_nil rest others unlocked.2

end

end Entry

namespace FileSystem

def node? (fs : FileSystem) (place : Place) : Option Node := fs.top.node? place

variable {fs : FileSystem}

theorem node?_eq_none {place : Place} : fs.node? place = none ↔ fs.get? place = none :=
  Option.map_eq_none_iff

theorem node?_eq_file {place : Place} {content : Bytes} :
    fs.node? place = some (.file content) ↔ fs.get? place = some (.file content) :=
  Entry.node?_eq_file

theorem node?_eq_directory {place : Place} :
    fs.node? place = some .directory ↔ ∃ entries, fs.get? place = some (.directory entries) := by
  rw [node?, Entry.node?, Option.map_eq_some_iff]
  constructor
  · rintro ⟨entry, found, same⟩
    cases entry with
    | directory entries => exact ⟨entries, found⟩
    | file content => cases same
    | symlink target => cases same
    | locked entries => cases same
  · rintro ⟨entries, found⟩
    exact ⟨.directory entries, found, rfl⟩

theorem node?_eq_symlink {place : Place} {target : Path} :
    fs.node? place = some (.symlink target) ↔ fs.get? place = some (.symlink target) := by
  rw [node?, Entry.node?, Option.map_eq_some_iff]
  constructor
  · rintro ⟨entry, found, same⟩
    cases entry with
    | symlink other =>
        cases same
        exact found
    | file content => cases same
    | directory entries => cases same
    | locked entries => cases same
  · intro found
    exact ⟨.symlink target, found, rfl⟩

theorem node?_eq_locked {place : Place} {entries : List (Name × Entry)} :
    fs.node? place = some (.locked entries) ↔ fs.get? place = some (.locked entries) := by
  rw [node?, Entry.node?, Option.map_eq_some_iff]
  constructor
  · rintro ⟨entry, found, same⟩
    cases entry with
    | locked others =>
        cases same
        exact found
    | file content => cases same
    | directory entries => cases same
    | symlink target => cases same
  · intro found
    exact ⟨.locked entries, found, rfl⟩

theorem node?_append_eq_none {place : Place} (free : fs.node? place = none) (rest : Place) :
    fs.node? (place ++ rest) = none := by
  rw [node?_eq_none] at free ⊢
  rw [get?] at free ⊢
  rw [Entry.get?_append, free, Option.bind_none]

theorem node?_eq_none_inside {place other : Place} (free : fs.node? place = none)
    (below : place <+: other) : fs.node? other = none := by
  obtain ⟨rest, rfl⟩ := below
  exact node?_append_eq_none free rest

theorem node?_above {place : Place} {name : Name} {rest : Place}
    (found : fs.node? (place ++ name :: rest) ≠ none) : fs.node? place = some .directory := by
  rw [Ne, node?_eq_none] at found
  obtain ⟨entry, found⟩ := Option.ne_none_iff_exists'.mp found
  exact node?_eq_directory.mpr (Entry.directory_of_get?_append found)

/-! ## Differences at one place -/

/-- The file systems differ in nothing but what stands at a place and below. -/
structure AgreesOutside (place : Place) (fs other : FileSystem) : Prop where
  workingDirectory : other.workingDirectory = fs.workingDirectory
  node : ∀ elsewhere, ¬ place <+: elsewhere → other.node? elsewhere = fs.node? elsewhere

theorem AgreesOutside.refl (place : Place) (fs : FileSystem) : AgreesOutside place fs fs :=
  ⟨rfl, fun _ _ => rfl⟩

theorem AgreesOutside.trans {place : Place} {first second third : FileSystem}
    (before : AgreesOutside place first second) (after : AgreesOutside place second third) :
    AgreesOutside place first third :=
  ⟨after.workingDirectory.trans before.workingDirectory, fun elsewhere outside =>
    (after.node elsewhere outside).trans (before.node elsewhere outside)⟩

theorem AgreesOutside.mono {place deeper : Place} {fs other : FileSystem} (below : place <+: deeper)
    (agrees : AgreesOutside deeper fs other) : AgreesOutside place fs other :=
  ⟨agrees.workingDirectory, fun elsewhere outside =>
    agrees.node elsewhere fun inside => outside (below.trans inside)⟩

def altered (fs : FileSystem) (f : Option Entry → Option Entry) (place : Place) : FileSystem :=
  match fs.top.alter f place with
  | .directory entries => { fs with entries }
  | _ => fs

theorem put_eq_altered (place : Place) (entry : Entry) :
    fs.put place entry = fs.altered (fun _ => some entry) place := rfl

theorem drop_eq_altered (place : Place) : fs.drop place = fs.altered (fun _ => none) place := rfl

theorem top_altered (f : Option Entry → Option Entry) (place : Place) :
    (fs.altered f place).top = fs.top.alter f place := by
  obtain ⟨entries, same⟩ := Entry.alter_directory f place fs.entries
  have whole : fs.top.alter f place = .directory entries := same
  rw [altered, whole]
  rfl

theorem workingDirectory_altered (f : Option Entry → Option Entry) (place : Place) :
    (fs.altered f place).workingDirectory = fs.workingDirectory := by
  unfold altered
  split
  · rfl
  · rfl

section Altered

variable {f : Option Entry → Option Entry} {above : Place} {name : Name}

theorem WellFormed.top (formed : fs.WellFormed) : fs.top.WellFormed := formed.entries

theorem agreesOutside_altered (formed : fs.WellFormed) (f : Option Entry → Option Entry)
    (name : Name) (found : fs.node? above = some .directory) :
    AgreesOutside (above ++ [name]) fs (fs.altered f (above ++ [name])) := by
  obtain ⟨entries, found⟩ := node?_eq_directory.mp found
  refine ⟨workingDirectory_altered f _, fun elsewhere outside => ?_⟩
  rw [node?, top_altered]
  exact Entry.node?_alter formed.top found outside

theorem get?_altered (formed : fs.WellFormed) (made : Option Entry) (name : Name)
    (found : fs.node? above = some .directory) (rest : Place) :
    (fs.altered (fun _ => made) (above ++ [name])).get? (above ++ name :: rest) =
      made.bind (·.get? rest) := by
  obtain ⟨entries, found⟩ := node?_eq_directory.mp found
  rw [get?, top_altered]
  exact Entry.get?_alter formed.top found rest

theorem WellFormed.altered (formed : fs.WellFormed) (made : Option Entry)
    (found : fs.node? above = some .directory) (regular : IsEntryName name)
    (made_formed : ∀ entry, made = some entry → entry.WellFormed)
    (apart : ¬ above ++ [name] <+: fs.workingDirectory) :
    (fs.altered (fun _ => made) (above ++ [name])).WellFormed := by
  have agrees := agreesOutside_altered formed (fun _ => made) name found
  have directory := node?_eq_directory.mpr formed.workingDirectory
  obtain ⟨entries, found⟩ := node?_eq_directory.mp found
  constructor
  · have whole := formed.top.alter (f := fun _ => made) found regular made_formed
    rw [← top_altered] at whole
    exact whole
  · rw [agrees.workingDirectory, ← node?_eq_directory, agrees.node _ apart]
    exact directory

end Altered

end FileSystem
end CodeAtlas

import CodeAtlas.Proofs.FileSystem.Order
import CodeAtlas.Proofs.FileSystem.Reading
import Mathlib.Data.List.Sort

namespace CodeAtlas

def Node.blank : Node → Node
  | .file _ => .file []
  | .directory => .directory
  | .symlink target => .symlink target
  | .locked entries => .locked entries

namespace Entry

def shape (entry : Entry) : Node := entry.node.blank

/-! ## Names in a directory -/

theorem OrderedIn.pairwise {entries : List (Name × Entry)} (ordered : OrderedIn entries) :
    (entries.map Prod.fst).Pairwise fun a b => Bytes.precedes a b = true := by
  induction entries with
  | nil => exact .nil
  | cons first rest ih =>
      obtain ⟨least, -, others⟩ := ordered
      rw [List.map_cons, List.pairwise_cons, List.forall_mem_map]
      exact ⟨least, ih others⟩

def sortedNames (entries : List (Name × Entry)) : List Name := (sortByName entries).map Prod.fst

theorem sortedNames_pairwise {entries : List (Name × Entry)} (formed : WellFormedIn entries) :
    (sortedNames entries).Pairwise fun a b => Bytes.precedes a b = true := by
  have ordered := (OrderedIn.sortedEntries entries formed).pairwise
  rwa [sortedEntries_eq, List.map_map] at ordered

theorem mem_sortedNames {entries : List (Name × Entry)} {name : Name} :
    name ∈ sortedNames entries ↔ lookup name entries ≠ none := by
  rw [sortedNames, List.mem_map, Ne, lookup_eq_none_iff]
  simp [mem_sortByName]

end Entry

instance : Std.Asymm fun a b : Name => Bytes.precedes a b = true :=
  ⟨fun a b before after => by
    have self := Bytes.precedes_trans before after
    rw [Bytes.precedes_irrefl] at self
    cases self⟩

namespace FileSystem

structure SameShape (fs other : FileSystem) : Prop where
  workingDirectory : other.workingDirectory = fs.workingDirectory
  node : ∀ place, (other.node? place).map Node.blank = (fs.node? place).map Node.blank

variable {fs other : FileSystem}

theorem SameShape.get? (shape : SameShape fs other) (place : Place) :
    (other.get? place).map Entry.shape = (fs.get? place).map Entry.shape := by
  have node := shape.node place
  rwa [node?, node?, Entry.node?, Entry.node?, Option.map_map, Option.map_map] at node

inductive Alike : Option Entry → Option Entry → Prop where
  | nothing : Alike none none
  | file (content changed : Bytes) : Alike (some (.file content)) (some (.file changed))
  | directory (entries others : List (Name × Entry)) :
      Alike (some (.directory entries)) (some (.directory others))
  | symlink (target : Path) : Alike (some (.symlink target)) (some (.symlink target))
  | locked (entries : List (Name × Entry)) : Alike (some (.locked entries)) (some (.locked entries))

theorem SameShape.alike (shape : SameShape fs other) (place : Place) :
    Alike (fs.get? place) (other.get? place) := by
  have same := shape.get? place
  cases here : fs.get? place with
  | none =>
      rw [here, Option.map_none, Option.map_eq_none_iff] at same
      rw [same]
      exact .nothing
  | some entry =>
      rw [here, Option.map_some, Option.map_eq_some_iff] at same
      obtain ⟨stays, there, same⟩ := same
      rw [there]
      cases entry <;> cases stays <;> cases same
      · exact .file _ _
      · exact .directory _ _
      · exact .symlink _
      · exact .locked _

/-! ## Paths -/

section Paths

variable (shape : SameShape fs other) {mode : Bool} {path : Path}

include shape

theorem SameShape.advance (place : Place) (pieces : List Name) :
    other.advance mode place pieces = fs.advance mode place pieces := by
  induction pieces generalizing place with
  | nil => rfl
  | cons piece rest ih =>
      unfold FileSystem.advance
      rw [ih, ih]
      have alike := shape.alike (place ++ [piece])
      generalize fs.get? (place ++ [piece]) = here, other.get? (place ++ [piece]) = there at alike
      cases alike with
      | nothing => rfl
      | file content changed => rfl
      | directory entries others => simp only [ih]
      | symlink target => rfl
      | locked entries => rfl

theorem SameShape.follow (links : Nat) (place : Place) (pieces : List Name) :
    other.follow mode links place pieces = fs.follow mode links place pieces := by
  induction links generalizing place pieces with
  | zero =>
      unfold FileSystem.follow
      rw [shape.advance]
  | succ links ih =>
      unfold FileSystem.follow
      simp only [shape.advance, ih]

theorem SameShape.resolve : other.resolve mode path = fs.resolve mode path := by
  rw [FileSystem.resolve, FileSystem.resolve, shape.workingDirectory]
  simp only [shape.follow]

theorem SameShape.find (path : Path) :
    (∃ fault, fs.find mode path = .error fault ∧ other.find mode path = .error fault) ∨
      ∃ place entry stays, fs.find mode path = .ok (place, entry) ∧
        other.find mode path = .ok (place, stays) ∧ Alike (some entry) (some stays) := by
  rw [FileSystem.find, FileSystem.find, shape.resolve]
  cases fs.resolve mode path with
  | error fault => exact .inl ⟨fault, rfl, rfl⟩
  | ok arrival =>
      cases arrival with
      | vacant above name withSlash => exact .inl ⟨_, rfl, rfl⟩
      | found place =>
          have alike := shape.alike place
          simp only
          generalize fs.get? place = here, other.get? place = there at alike
          cases alike with
          | nothing => exact .inl ⟨_, rfl, rfl⟩
          | file content changed => exact .inr ⟨place, _, _, rfl, rfl, .file _ _⟩
          | directory entries others => exact .inr ⟨place, _, _, rfl, rfl, .directory _ _⟩
          | symlink target => exact .inr ⟨place, _, _, rfl, rfl, .symlink _⟩
          | locked entries => exact .inr ⟨place, _, _, rfl, rfl, .locked _⟩

theorem SameShape.isDirectory : other.isDirectory path = fs.isDirectory path := by
  rw [FileSystem.isDirectory, FileSystem.isDirectory]
  rcases shape.find path with ⟨fault, here, there⟩ | ⟨place, _, _, here, there, alike⟩
  · rw [here, there]
  · rw [here, there]
    cases alike <;> rfl

theorem SameShape.isLink : other.isLink path = fs.isLink path := by
  rw [FileSystem.isLink, FileSystem.isLink]
  rcases shape.find path with ⟨fault, here, there⟩ | ⟨place, _, _, here, there, alike⟩
  · rw [here, there]
  · rw [here, there]
    cases alike <;> rfl

theorem SameShape.readText {changed : Place} (elsewhere : ∀ place, place ≠ changed →
    other.node? place = fs.node? place) (apart : fs.canonical path ≠ .ok changed) :
    other.readText path = fs.readText path := by
  have same : other.readBytes path = fs.readBytes path := by
    rw [FileSystem.readBytes, FileSystem.readBytes]
    rcases shape.find path with ⟨fault, here, there⟩ | ⟨place, _, _, here, there, alike⟩
    · rw [here, there]
    · rw [FileSystem.canonical, here] at apart
      have different : place ≠ changed := by
        rintro rfl
        exact apart rfl
      have node := elsewhere place different
      rw [node?_of_get? (find_eq_ok_iff.mp here).2, node?_of_get? (find_eq_ok_iff.mp there).2,
        Option.some.injEq] at node
      rw [here, there]
      cases alike with
      | file content changed =>
          cases node
          rfl
      | directory entries others => rfl
      | symlink target => rfl
      | locked entries => rfl
  rw [FileSystem.readText, FileSystem.readText, same]

end Paths

/-! ## A file that is written again -/

section Writes

variable {path : Path} {content old : Bytes} {place reached : Place}
  (writes : Writes fs other path content place) (found : fs.find true path = .ok (reached, .file old))

include writes found

theorem Writes.place_eq : place = reached := by
  have here := node?_of_get? (find_eq_ok_iff.mp found).2
  by_cases same : reached = place
  · exact same.symm
  · have stays := writes.elsewhere same
    have node : other.node? reached = some (.file old) := stays.trans here
    have arrives := find_keep (writes.agrees.keeps writes.leaf) found (node?_eq_file.mp node) (by simp)
    have leads := writes.leads
    rw [canonical, arrives] at leads
    exact (Except.ok.inj leads).symm

theorem Writes.sameShape : SameShape fs other := by
  have here := node?_of_get? (find_eq_ok_iff.mp found).2
  refine ⟨writes.agrees.workingDirectory, fun there => ?_⟩
  by_cases same : there = place
  · rw [same, writes.node, writes.place_eq found, here]
    rfl
  · rw [writes.elsewhere same]

end Writes

end FileSystem
end CodeAtlas

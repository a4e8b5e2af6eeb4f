import CodeAtlas.Proofs.FileSystem.Order
import CodeAtlas.Proofs.Ignore
import CodeAtlas.Proofs.Survey.Files

namespace CodeAtlas

namespace Entry

/-! ## Everything below an entry -/

theorem WellFormed.isEntryName {entry below : Entry} {place : Place} (formed : entry.WellFormed)
    (found : entry.get? place = some below) : ∀ name ∈ place, IsEntryName name := by
  induction place generalizing entry with
  | nil => simp
  | cons name rest ih =>
      obtain ⟨entries, child, rfl, looked, onward⟩ := get?_cons_eq_some_iff.mp found
      obtain ⟨regular, _, childFormed⟩ := WellFormedIn.of_mem formed (lookup_mem looked)
      rw [List.forall_mem_cons]
      exact ⟨regular, ih childFormed onward⟩

theorem place_of_mem_descendantsIn {item : Place × Entry} {entries : List (Name × Entry)}
    (member : item ∈ descendantsIn entries) : ∃ name rest, item.1 = name :: rest := by
  induction entries with
  | nil => cases member
  | cons first rest ih =>
      obtain ⟨name, entry⟩ := first
      rw [descendantsIn, List.mem_append] at member
      rcases member with here | later
      · obtain ⟨inner, _, rfl⟩ := List.mem_map.mp here
        exact ⟨name, inner.1, rfl⟩
      · exact ih later

theorem mem_descendantsIn_fresh {name : Name} {place : Place} {below : Entry}
    {entries : List (Name × Entry)} (missing : lookup name entries = none) :
    (name :: place, below) ∉ descendantsIn entries := by
  induction entries with
  | nil => simp [descendantsIn]
  | cons first rest ih =>
      obtain ⟨own, entry⟩ := first
      rw [lookup_eq_none_iff, List.forall_mem_cons] at missing
      rw [descendantsIn, List.mem_append]
      rintro (here | later)
      · obtain ⟨inner, _, same⟩ := List.mem_map.mp here
        have equal : own :: inner.1 = name :: place := congrArg Prod.fst same
        exact missing.1 (List.cons.inj equal).1
      · exact ih (lookup_eq_none_iff.mpr missing.2) later

mutual

theorem mem_descendants_iff {place : Place} {below : Entry} :
    (entry : Entry) → entry.WellFormed →
      ((place, below) ∈ entry.descendants ↔ entry.get? place = some below)
  | directory entries, formed => by
      rw [descendants, List.mem_cons]
      cases place with
      | nil =>
          have apart : ([], below) ∉ descendantsIn entries := fun member => by
            obtain ⟨name, rest, shape⟩ := place_of_mem_descendantsIn member
            cases shape
          simp [apart, get?, eq_comm]
      | cons name rest => simpa [get?] using mem_descendantsIn_iff entries formed
  | file content, _ => by
      cases place with
      | nil => simp [descendants, get?, eq_comm]
      | cons name rest => simp [descendants, get?]
  | symlink target, _ => by
      cases place with
      | nil => simp [descendants, get?, eq_comm]
      | cons name rest => simp [descendants, get?]
  | locked entries, _ => by
      cases place with
      | nil => simp [descendants, get?, eq_comm]
      | cons name rest => simp [descendants, get?]

theorem mem_descendantsIn_iff {name : Name} {place : Place} {below : Entry} :
    (entries : List (Name × Entry)) → WellFormedIn entries →
      ((name :: place, below) ∈ descendantsIn entries ↔
        (lookup name entries).bind (·.get? place) = some below)
  | [], _ => by simp [descendantsIn, lookup]
  | (own, entry) :: rest, ⟨_, fresh, formed, others⟩ => by
      rw [descendantsIn, List.mem_append, List.mem_map, lookup]
      by_cases same : own = name
      · subst same
        rw [if_pos rfl, Option.bind_some, ← mem_descendants_iff entry formed]
        constructor
        · rintro (⟨⟨inner, child⟩, member, equal⟩ | later)
          · cases equal
            exact member
          · exact absurd later (mem_descendantsIn_fresh fresh)
        · intro member
          exact Or.inl ⟨_, member, rfl⟩
      · rw [if_neg same, ← mem_descendantsIn_iff rest others]
        constructor
        · rintro (⟨⟨inner, child⟩, _, equal⟩ | later)
          · cases equal
            exact absurd rfl same
          · exact later
        · exact Or.inr

end

/-! ## Depth first, in byte order -/

/-- A place comes before another if at the first name where they part, its name comes before. -/
def ComesBefore : Place → Place → Prop := List.Lex fun a b => Bytes.precedes a b = true

theorem not_comesBefore_self (place : Place) : ¬ ComesBefore place place := by
  intro before
  induction place with
  | nil => cases before
  | cons name rest ih =>
      cases before with
      | rel less =>
          rw [Bytes.precedes_irrefl] at less
          cases less
      | cons later => exact ih later

mutual

theorem Ordered.descendants : (entry : Entry) → entry.Ordered →
    entry.descendants.Pairwise fun a b => ComesBefore a.1 b.1
  | directory entries, ordered => by
      rw [Entry.descendants, List.pairwise_cons]
      refine ⟨fun item member => ?_, OrderedIn.descendantsIn entries ordered⟩
      obtain ⟨name, rest, shape⟩ := place_of_mem_descendantsIn member
      rw [shape]
      exact List.Lex.nil
  | file _, _ => List.pairwise_singleton _ _
  | symlink _, _ => List.pairwise_singleton _ _
  | locked _, _ => List.pairwise_singleton _ _

theorem OrderedIn.descendantsIn : (entries : List (Name × Entry)) → OrderedIn entries →
    (descendantsIn entries).Pairwise fun a b => ComesBefore a.1 b.1
  | [], _ => List.Pairwise.nil
  | (name, entry) :: rest, ⟨least, ordered, others⟩ => by
      rw [Entry.descendantsIn, List.pairwise_append, List.pairwise_map]
      refine ⟨(Ordered.descendants entry ordered).imp fun before => List.Lex.cons before,
        OrderedIn.descendantsIn rest others, ?_⟩
      intro first here second later
      obtain ⟨inner, _, rfl⟩ := List.mem_map.mp here
      obtain ⟨other, below, shape, listed⟩ : ∃ other below, second.1 = other :: below ∧
          lookup other rest ≠ none := by
        obtain ⟨other, below, shape⟩ := place_of_mem_descendantsIn later
        refine ⟨other, below, shape, fun missing => ?_⟩
        obtain ⟨place, child⟩ := second
        subst shape
        exact mem_descendantsIn_fresh missing later
      obtain ⟨child, found⟩ := Option.ne_none_iff_exists'.mp listed
      rw [shape]
      exact List.Lex.rel (least _ (lookup_mem found))

end

/-! ## Pruning -/

/-- An entry that the walk of a directory should list: it is no directory, its names seen from the root
are not ignored, and the directory it stands in can be opened by its path. The directory of the walk is
`path`, and `above` are the names of it. -/
def isListed (path : Path) (above : List Name) (item : Place × Entry) : Bool :=
  !item.2.isDirectory && !(Path.ofNames (above ++ item.1)).isIgnored &&
    decide ((path.descend item.1.dropLast).bytes.length ≤ maxPathLength)

theorem isListed_cons {path : Path} {above : List Name} (name : Name) {item : Place × Entry}
    (deeper : item.1 ≠ []) :
    isListed path above (name :: item.1, item.2) =
      isListed (path.entry name) (above ++ [name]) item := by
  obtain ⟨place, below⟩ := item
  cases place with
  | nil => exact absurd rfl deeper
  | cons next rest =>
      rw [isListed, isListed, List.append_assoc]
      rfl

theorem isListed_of_ignored {path : Path} {above : List Name} {name : Name}
    (ignored : (Path.ofNames (above ++ [name])).isIgnored = true) (place : Place) (below : Entry) :
    isListed path above (name :: place, below) = false := by
  have further := Path.isIgnored_append ignored place
  rw [List.append_assoc, List.singleton_append] at further
  simp [isListed, further]

theorem isListed_of_long {path : Path} {above : List Name} {place : Place} {below : Entry}
    (regular : ∀ name ∈ place.dropLast, IsEntryName name) (nonempty : path.bytes ≠ [])
    (long : maxPathLength < path.bytes.length) : isListed path above (place, below) = false := by
  have longer := Path.length_descend_le regular nonempty
  have closed : ¬ (path.descend place.dropLast).bytes.length ≤ maxPathLength := by omega
  simp [isListed, closed]

mutual

theorem files_eq_filter {path : Path} {above : List Name} {name : Name} :
    (entry : Entry) → entry.WellFormed → IsEntryName name → path.bytes ≠ [] →
      path.bytes.length ≤ maxPathLength → (Path.ofNames (above ++ [name])).isIgnored = false →
        entry.files (path.entry name) (above ++ [name]) =
          ((entry.descendants.map fun item => (name :: item.1, item.2)).filter
            (isListed path above)).map fun item => path.descend item.1
  | directory entries, formed, regular, nonempty, short, shown => by
      have nonempty' := Path.entry_ne_nil regular nonempty
      rw [files, descendants, List.map_cons, List.filter_cons_of_neg (by simp [isListed, isDirectory]),
        List.filter_map, List.map_map]
      have step : (descendantsIn entries).filter
            (isListed path above ∘ fun item => (name :: item.1, item.2)) =
          (descendantsIn entries).filter (isListed (path.entry name) (above ++ [name])) := by
        apply List.filter_congr
        intro item member
        obtain ⟨next, rest, shape⟩ := place_of_mem_descendantsIn member
        exact isListed_cons name (by simp [shape])
      rw [step]
      split
      · rename_i long
        symm
        rw [List.map_eq_nil_iff, List.filter_eq_nil_iff]
        intro item member
        obtain ⟨next, rest, shape⟩ := place_of_mem_descendantsIn member
        have whole : (directory entries).WellFormed := formed
        have found : (directory entries).get? item.1 = some item.2 :=
          (mem_descendants_iff (directory entries) formed).mp (List.mem_cons_of_mem _ member)
        have names := whole.isEntryName found
        have inner : ∀ name ∈ item.1.dropLast, IsEntryName name := fun name member =>
          names name (List.dropLast_subset _ member)
        rw [isListed_of_long inner nonempty' long]
        exact Bool.false_ne_true
      · rename_i usable
        exact filesIn_eq_filter entries formed nonempty' (Nat.not_lt.mp usable)
  | file content, _, _, _, short, shown => by
      simp [files, descendants, isListed, isDirectory, shown, Path.descend, short]
  | symlink target, _, _, _, short, shown => by
      simp [files, descendants, isListed, isDirectory, shown, Path.descend, short]
  | locked entries, _, _, _, _, _ => by simp [files, descendants, isListed, isDirectory]

theorem filesIn_eq_filter {path : Path} {above : List Name} :
    (entries : List (Name × Entry)) → WellFormedIn entries → path.bytes ≠ [] →
      path.bytes.length ≤ maxPathLength →
        filesIn path above entries =
          ((descendantsIn entries).filter (isListed path above)).map fun item => path.descend item.1
  | [], _, _, _ => rfl
  | (name, entry) :: rest, ⟨regular, _, formed, others⟩, nonempty, short => by
      rw [filesIn, descendantsIn, List.filter_append, List.map_append,
        filesIn_eq_filter rest others nonempty short]
      congr 1
      split
      · rename_i ignored
        symm
        rw [List.map_eq_nil_iff, List.filter_eq_nil_iff]
        intro item member
        obtain ⟨inner, _, rfl⟩ := List.mem_map.mp member
        rw [isListed_of_ignored ignored]
        exact Bool.false_ne_true
      · rename_i shown
        exact files_eq_filter entry formed regular nonempty short (Bool.not_eq_true _ ▸ shown)

end

theorem isDirectory_sorted (entry : Entry) : entry.sorted.isDirectory = entry.isDirectory := by
  cases entry <;> rfl

theorem get?_sorted {entry : Entry} (formed : entry.WellFormed) (place : Place) :
    entry.sorted.get? place = (entry.get? place).map sorted := by
  induction place generalizing entry with
  | nil => simp [get?]
  | cons name rest ih =>
      cases entry with
      | directory entries =>
          rw [sorted, get?, get?, lookup_sortedEntries formed]
          cases looked : lookup name entries with
          | none => rfl
          | some child => exact ih (formed.of_mem (lookup_mem looked)).2.2
      | file content => rfl
      | symlink target => rfl
      | locked entries => rfl

def listedPlaces (path : Path) (entries : List (Name × Entry)) : List Place :=
  ((descendantsIn (sortedEntries entries)).filter (isListed path [])).map (·.1)

theorem mem_listedPlaces {path : Path} {entries : List (Name × Entry)} (formed : WellFormedIn entries)
    (nonempty : path.bytes ≠ []) (place : Place) :
    place ∈ listedPlaces path entries ↔
      ∃ entry, (directory entries).get? place = some entry ∧ entry.isDirectory = false ∧
        ((path.descend place).relativeTo path).isIgnored = false ∧
        (path.descend place.dropLast).bytes.length ≤ maxPathLength := by
  have sortedFormed := WellFormedIn.sortedEntries entries formed
  have whole : (directory entries).WellFormed := formed
  have listed : ∀ entry, (directory entries).get? place = some entry →
      (isListed path [] (place, entry.sorted) = true ↔ entry.isDirectory = false ∧
        ((path.descend place).relativeTo path).isIgnored = false ∧
        (path.descend place.dropLast).bytes.length ≤ maxPathLength) := by
    intro entry found
    rw [Path.relativeTo_descend (whole.isEntryName found) nonempty]
    simp [isListed, isDirectory_sorted, and_assoc]
  have sorted_get? := get?_sorted whole place
  rw [sorted] at sorted_get?
  rw [listedPlaces, List.mem_map]
  constructor
  · rintro ⟨⟨place, below⟩, member, rfl⟩
    obtain ⟨member, shown⟩ := List.mem_filter.mp member
    have found := (mem_descendants_iff (directory (sortedEntries entries)) sortedFormed).mp
      (by rw [descendants]; exact List.mem_cons_of_mem _ member)
    rw [sorted_get?] at found
    obtain ⟨entry, found, rfl⟩ := Option.map_eq_some_iff.mp found
    exact ⟨entry, found, (listed entry found).mp shown⟩
  · rintro ⟨entry, found, shown⟩
    refine ⟨(place, entry.sorted), List.mem_filter.mpr ⟨?_, (listed entry found).mpr shown⟩, rfl⟩
    have member : (place, entry.sorted) ∈ (directory (sortedEntries entries)).descendants :=
      (mem_descendants_iff (directory _) sortedFormed).mpr (by rw [sorted_get?, found]; rfl)
    rw [descendants, List.mem_cons] at member
    refine member.resolve_left ?_
    rintro equal
    rw [Prod.mk.injEq] at equal
    have kind := congrArg isDirectory equal.2
    rw [isDirectory_sorted, shown.1] at kind
    cases kind

theorem listedPlaces_pairwise (path : Path) {entries : List (Name × Entry)}
    (formed : WellFormedIn entries) : (listedPlaces path entries).Pairwise ComesBefore := by
  rw [listedPlaces, List.pairwise_map]
  exact (OrderedIn.descendantsIn _ (OrderedIn.sortedEntries entries formed)).sublist
    List.filter_sublist

end Entry

namespace FileSystem

/-! ## The files of a codebase -/

variable {fs : FileSystem} {root : Path} {place : Place} {entries : List (Name × Entry)}

theorem files_eq_listedPlaces (formed : fs.WellFormed)
    (real : fs.find false root = .ok (place, .directory entries)) :
    fs.files root = (Entry.listedPlaces root entries).map root.descend := by
  obtain ⟨usable, -⟩ := leads_of_find real
  have entriesFormed : Entry.WellFormedIn entries := formed.get? (find_eq_ok_iff.mp real).2
  rw [files, real, Entry.listedPlaces, List.map_map]
  simp only [Entry.sorted, Entry.files, Nat.not_lt.mpr usable.short, if_false]
  exact Entry.filesIn_eq_filter _ (Entry.WellFormedIn.sortedEntries entries entriesFormed)
    usable.nonempty usable.short

theorem isSource_descend {below : Place} (regular : ∀ name ∈ below, IsEntryName name)
    (deeper : below ≠ []) (nonempty : root.bytes ≠ []) :
    (root.descend below).isSource = below.getLast?.any isSourceName := by
  rcases List.eq_nil_or_concat below with none_left | ⟨front, name, rfl⟩
  · exact absurd none_left deeper
  · rw [List.concat_eq_append] at regular ⊢
    rw [Path.isSource, Path.fileName?_descend regular nonempty, List.getLast?_concat]

theorem regular_of_mem_listedPlaces {followLast : Bool} (formed : fs.WellFormed)
    (opened : fs.find followLast root = .ok (place, .directory entries)) {below : Place}
    (member : below ∈ Entry.listedPlaces root entries) :
    (∀ name ∈ below, IsEntryName name) ∧ below ≠ [] := by
  have entriesFormed : Entry.WellFormedIn entries := formed.get? (find_eq_ok_iff.mp opened).2
  have whole : (Entry.directory entries).WellFormed := entriesFormed
  obtain ⟨entry, found, leaf, -⟩ :=
    (Entry.mem_listedPlaces entriesFormed (leads_of_find opened).1.nonempty below).mp member
  refine ⟨whole.isEntryName found, ?_⟩
  rintro rfl
  rw [Entry.get?, Option.some.injEq] at found
  rw [← found] at leaf
  cases leaf

def listedOutlines (fs : FileSystem) (root : Path) (entries : List (Name × Entry)) :
    List FileOutline :=
  ((Entry.listedPlaces root entries).filter fun below => below.getLast?.any isSourceName).map
    fun below => fs.outline (root.descend below)

theorem listedOutlines_eq {followLast : Bool} (formed : fs.WellFormed)
    (opened : fs.find followLast root = .ok (place, .directory entries)) :
    (((Entry.listedPlaces root entries).map root.descend).filter Path.isSource).map fs.outline =
      fs.listedOutlines root entries := by
  rw [listedOutlines, List.filter_map, List.map_map]
  congr 1
  apply List.filter_congr
  intro below member
  obtain ⟨regular, deeper⟩ := regular_of_mem_listedPlaces formed opened member
  exact isSource_descend regular deeper (leads_of_find opened).1.nonempty

theorem sources_eq_listedPlaces (formed : fs.WellFormed)
    (real : fs.find false root = .ok (place, .directory entries)) (levels : Nat) :
    (fs.survey root levels).sources = fs.listedOutlines root entries := by
  change ((fs.files root).filter Path.isSource).map fs.outline = _
  rw [files_eq_listedPlaces formed real, listedOutlines_eq formed real]

theorem files_nodup (formed : fs.WellFormed)
    (real : fs.find false root = .ok (place, .directory entries)) : (fs.files root).Nodup := by
  have nonempty := (leads_of_find real).1.nonempty
  have entriesFormed : Entry.WellFormedIn entries := formed.get? (find_eq_ok_iff.mp real).2
  rw [files_eq_listedPlaces formed real, List.Nodup, List.pairwise_map]
  refine (Entry.listedPlaces_pairwise root entriesFormed).imp_of_mem ?_
  rintro first second here there before same
  obtain ⟨firstRegular, -⟩ := regular_of_mem_listedPlaces formed real here
  obtain ⟨secondRegular, -⟩ := regular_of_mem_listedPlaces formed real there
  have steps := congrArg Path.components same
  rw [Path.components_descend firstRegular nonempty, Path.components_descend secondRegular nonempty,
    List.append_cancel_left_eq] at steps
  have equal : first = second :=
    List.map_injective_iff.mpr (fun _ _ => Path.Component.normal.inj) steps
  subst equal
  exact Entry.not_comesBefore_self first before

theorem files_locked (real : fs.find false root = .ok (place, .locked entries)) : fs.files root = [] := by
  rw [files, real]
  rfl

/-- Below a real directory, the walk counts the entries that are no directories, that stand in a directory
which can be opened, and whose path seen from the root is not ignored. It counts each once, depth first
in byte order of names, and reads the sources among them in this order. -/
theorem survey_files {entry : Entry} (formed : fs.WellFormed)
    (real : fs.find false root = .ok (place, entry)) (directory : entry.isDirectory = true)
    (levels : Nat) :
    ∃ places : List Place,
      fs.files root = places.map root.descend ∧
      (fs.files root).Nodup ∧
      (fs.survey root levels).totalFiles = places.length ∧
      places.Pairwise Entry.ComesBefore ∧
      (∀ below, below ∈ places ↔ ∃ leaf, entry.get? below = some leaf ∧
        leaf.isDirectory = false ∧ ((root.descend below).relativeTo root).isIgnored = false ∧
        (root.descend below.dropLast).bytes.length ≤ maxPathLength) ∧
      (fs.survey root levels).sources =
        (places.filter fun below => below.getLast?.any fun name =>
          (Bytes.decode? name).any fun text => ".py".toList.isSuffixOf text.toList).map
            fun below => fs.outline (root.descend below) := by
  cases entry with
  | directory entries =>
      have entriesFormed : Entry.WellFormedIn entries := formed.get? (find_eq_ok_iff.mp real).2
      have walked := files_eq_listedPlaces formed real
      exact ⟨Entry.listedPlaces root entries, walked, files_nodup formed real,
        (congrArg List.length walked).trans (List.length_map _),
        Entry.listedPlaces_pairwise root entriesFormed,
        Entry.mem_listedPlaces entriesFormed (leads_of_find real).1.nonempty,
        sources_eq_listedPlaces formed real levels⟩
  | locked entries =>
      have nothing := files_locked real
      refine ⟨[], nothing, nothing ▸ List.nodup_nil, congrArg List.length nothing, .nil, fun below => ?_, ?_⟩
      · refine iff_of_false List.not_mem_nil ?_
        rintro ⟨leaf, found, kind, -⟩
        cases below with
        | nil =>
            cases found
            cases kind
        | cons name rest => cases found
      · rw [survey, nothing]
        rfl
  | file content => cases directory
  | symlink target => cases directory

def linkedProject : List (Name × Entry) :=
  [(Bytes.ofString "pkg", .directory [(Bytes.ofString "mod.py", .file []),
      (Bytes.ofString "MyVenv", .directory [(Bytes.ofString "site.py", .file [])])]),
    (Bytes.ofString "link.py", .symlink (.ofString "pkg")), (Bytes.ofString "a.txt", .file [])]

def linkedSystem : FileSystem := ⟨[(Bytes.ofString "home", .directory linkedProject)], []⟩

theorem survey_files_linked :
    linkedSystem.files smallRoot =
        [.ofString "./home/a.txt", .ofString "./home/link.py", .ofString "./home/pkg/mod.py"] ∧
      ∃ places : List Place,
        linkedSystem.files smallRoot = places.map smallRoot.descend ∧
        places.Pairwise Entry.ComesBefore ∧
        [Bytes.ofString "link.py"] ∈ places ∧
        [Bytes.ofString "link.py", Bytes.ofString "mod.py"] ∉ places ∧
        (linkedSystem.survey smallRoot 2).totalFiles = places.length := by
  have formed : linkedSystem.WellFormed := by decide +kernel
  have real : linkedSystem.find false smallRoot =
      .ok ([Bytes.ofString "home"], .directory linkedProject) :=
    find_eq_ok_iff.mpr ⟨by decide +kernel, rfl⟩
  obtain ⟨places, walked, -, total, ordered, listed, -⟩ := survey_files formed real rfl 2
  refine ⟨by decide +kernel, places, walked, ordered, ?_, ?_, total⟩
  · exact (listed _).mpr ⟨.symlink (.ofString "pkg"), by rfl, rfl, by decide +kernel, by decide⟩
  · intro member
    obtain ⟨entry, found, -⟩ := (listed _).mp member
    cases found

def deepDirectories : List (Name × Entry) :=
  [(Bytes.ofString "inner", .directory [(Bytes.ofString "f.txt", .file [])])]

def deepSystem : FileSystem := ⟨[(Bytes.ofString "d", .directory deepDirectories)], []⟩

theorem survey_files_long_root :
    deepSystem.WellFormed ∧
      deepSystem.find false longRoot = .ok ([Bytes.ofString "d"], .directory deepDirectories) ∧
      (Entry.directory deepDirectories).get? [Bytes.ofString "inner", Bytes.ofString "f.txt"] =
        some (.file []) ∧
      ((longRoot.descend [Bytes.ofString "inner", Bytes.ofString "f.txt"]).relativeTo
        longRoot).isIgnored = false ∧
      (deepSystem.survey longRoot 1).totalFiles = 0 := by
  have regular : ∀ name ∈ [Bytes.ofString "inner", Bytes.ofString "f.txt"], IsEntryName name := by
    decide +kernel
  refine ⟨by decide +kernel, find_eq_ok_iff.mpr ⟨by decide +kernel, rfl⟩, by rfl, ?_, by decide +kernel⟩
  have nonempty : longRoot.bytes ≠ [] := List.append_ne_nil_of_left_ne_nil (by decide) _
  rw [Path.relativeTo_descend regular nonempty]
  decide +kernel

end FileSystem
end CodeAtlas

import CodeAtlas.Proofs.Text.Lines
import CodeAtlas.Proofs.Text.Utf8
import CodeAtlas.Survey
import Mathlib.Data.Finset.Card
import Mathlib.Data.Finset.Prod

/-!
# Names of modules

A survey lists the names of its modules in the order in which they come first, each once. Where the names
on the way to every file are texts without a dot, a dotted name is read back as these names. Then two
files share a name only if one is the module `p.py` and the other the package `p/__init__.py`
(`ModulePlace.parts_eq_iff`), and this counts the names (`moduleNames_collisions`).
-/

namespace CodeAtlas

/-! ## Names without repetition -/

theorem distinctNames_concat (names : List String) (name : String) :
    distinctNames (names ++ [name]) =
      if name = "" ∨ name ∈ distinctNames names then distinctNames names
      else distinctNames names ++ [name] := by
  simp [distinctNames, List.foldl_append]

theorem mem_distinctNames {names : List String} {name : String} :
    name ∈ distinctNames names ↔ name ≠ "" ∧ name ∈ names := by
  induction names using List.reverseRecOn with
  | nil => simp [distinctNames]
  | append_singleton names last ih =>
      rw [distinctNames_concat]
      split
      · rename_i known
        rw [ih, List.mem_append, List.mem_singleton, and_congr_right_iff]
        intro nonempty
        refine ⟨.inl, fun member => member.elim id ?_⟩
        rintro rfl
        exact (ih.mp (known.resolve_left nonempty)).2
      · rename_i fresh
        rw [not_or] at fresh
        rw [List.mem_append, List.mem_append, List.mem_singleton, ih]
        constructor
        · rintro (⟨nonempty, member⟩ | rfl)
          · exact ⟨nonempty, .inl member⟩
          · exact ⟨fresh.1, .inr rfl⟩
        · rintro ⟨nonempty, member⟩
          exact member.imp_left fun member => ⟨nonempty, member⟩

theorem pairwise_distinctNames (names : List String) :
    (distinctNames names).Pairwise fun one other => names.idxOf one < names.idxOf other := by
  induction names using List.reverseRecOn with
  | nil => exact .nil
  | append_singleton names last ih =>
      have among : ∀ name ∈ distinctNames names, name ∈ names := fun name member =>
        (mem_distinctNames.mp member).2
      have before : (distinctNames names).Pairwise fun one other =>
          (names ++ [last]).idxOf one < (names ++ [last]).idxOf other := by
        refine ih.imp_of_mem fun {one other} first second earlier => ?_
        rwa [List.idxOf_append_of_mem (among one first), List.idxOf_append_of_mem (among other second)]
      rw [distinctNames_concat]
      split
      · exact before
      -- A name that is not listed yet occurs here for the first time.
      · rename_i fresh
        rw [not_or] at fresh
        have absent : last ∉ names := fun member => fresh.2 (mem_distinctNames.mpr ⟨fresh.1, member⟩)
        rw [List.pairwise_append]
        refine ⟨before, List.pairwise_singleton _ _, fun name member other same => ?_⟩
        rw [List.mem_singleton] at same
        rw [same, List.idxOf_append_of_mem (among name member), List.idxOf_append_of_notMem absent]
        exact Nat.lt_add_right _ (List.idxOf_lt_length_of_mem (among name member))

theorem nodup_distinctNames (names : List String) : (distinctNames names).Nodup := by
  refine (pairwise_distinctNames names).imp fun {one other} earlier => ?_
  rintro rfl
  exact Nat.lt_irrefl _ earlier

/-! ## Places of modules -/

/-- Where a source stands below the root: the names above it, and its own without the suffix. -/
structure ModulePlace where
  above : List Name
  stem : Name
  deriving DecidableEq

namespace ModulePlace

def packageStem : Name := Bytes.ofString "__init__"

def names (place : ModulePlace) : List Name :=
  place.above ++ [place.stem ++ Bytes.ofString sourceSuffix]

def parts (place : ModulePlace) : List Name :=
  if place.stem = packageStem then place.above else place.above ++ [place.stem]

def package (place : ModulePlace) : ModulePlace := ⟨place.above ++ [place.stem], packageStem⟩

/-- One is a file `p.py` for a `p` that does not end in `__init__`, the other is `p/__init__.py`. -/
def IsTwin (one other : ModulePlace) : Prop := one.stem ≠ packageStem ∧ other = one.package

instance (one other : ModulePlace) : Decidable (one.IsTwin other) :=
  inferInstanceAs (Decidable (_ ∧ _))

def rootPackage : ModulePlace := ⟨[], packageStem⟩

theorem parts_package {place : ModulePlace} (plain : place.stem ≠ packageStem) :
    place.package.parts = place.parts := by
  have own : place.package.stem = packageStem := rfl
  rw [parts, parts, if_pos own, if_neg plain]
  rfl

theorem IsTwin.parts_eq {one other : ModulePlace} (twin : one.IsTwin other) :
    one.parts = other.parts := by
  obtain ⟨plain, rfl⟩ := twin
  exact (parts_package plain).symm

theorem IsTwin.not_twin {one other third : ModulePlace} (twin : one.IsTwin other) :
    ¬ other.IsTwin third := by
  obtain ⟨-, rfl⟩ := twin
  exact fun twin => twin.1 rfl

theorem parts_eq_iff {one other : ModulePlace} :
    one.parts = other.parts ↔ one = other ∨ one.IsTwin other ∨ other.IsTwin one := by
  constructor
  · intro same
    rw [parts, parts] at same
    -- A last part stands for a directory if the file is an `__init__.py`, and for the file otherwise.
    by_cases first : one.stem = packageStem <;> by_cases second : other.stem = packageStem
    · rw [if_pos first, if_pos second] at same
      cases one
      cases other
      exact .inl (congrArg₂ mk same (first.trans second.symm))
    · rw [if_pos first, if_neg second] at same
      cases one
      exact .inr (.inr ⟨second, congrArg₂ mk same first⟩)
    · rw [if_neg first, if_pos second] at same
      cases other
      exact .inr (.inl ⟨first, congrArg₂ mk same.symm second⟩)
    · rw [if_neg first, if_neg second] at same
      obtain ⟨above, last⟩ := List.append_inj' same rfl
      cases one
      cases other
      exact .inl (congrArg₂ mk above (List.singleton_inj.mp last))
  · rintro (rfl | twin | twin)
    · rfl
    · exact twin.parts_eq
    · exact twin.parts_eq.symm

theorem parts_eq_nil_iff {place : ModulePlace} : place.parts = [] ↔ place = rootPackage := by
  have root : rootPackage.parts = [] := rfl
  rw [← root, parts_eq_iff]
  refine ⟨fun same => same.elim id ?_, .inl⟩
  rintro (⟨-, wrong⟩ | ⟨plain, -⟩)
  · exact absurd (congrArg above wrong) (by simp [rootPackage, package])
  · exact absurd rfl plain

def twins (files : Finset ModulePlace) : Finset (ModulePlace × ModulePlace) :=
  (files ×ˢ files).filter fun pair => pair.1.IsTwin pair.2

section Count

variable {files : Finset ModulePlace}

theorem mem_twins {one other : ModulePlace} :
    (one, other) ∈ twins files ↔ one ∈ files ∧ other ∈ files ∧ one.IsTwin other := by
  rw [twins, Finset.mem_filter, Finset.mem_product, and_assoc]

theorem twins_eq_image :
    twins files = (files.filter fun one => (one, one.package) ∈ twins files).image
      fun one => (one, one.package) := by
  ext ⟨one, other⟩
  rw [Finset.mem_image]
  constructor
  · intro member
    obtain ⟨among, -, twin⟩ := mem_twins.mp member
    obtain rfl := twin.2
    exact ⟨one, Finset.mem_filter.mpr ⟨among, member⟩, rfl⟩
  · rintro ⟨single, member, same⟩
    exact same ▸ (Finset.mem_filter.mp member).2

theorem image_parts_eq :
    files.image parts = (files.filter fun one => (one, one.package) ∉ twins files).image parts := by
  apply Finset.Subset.antisymm
  · intro names member
    obtain ⟨one, among, rfl⟩ := Finset.mem_image.mp member
    by_cases doubled : (one, one.package) ∈ twins files
    · obtain ⟨-, also, twin⟩ := mem_twins.mp doubled
      rw [twin.parts_eq]
      apply Finset.mem_image_of_mem
      exact Finset.mem_filter.mpr ⟨also, fun wrong => twin.not_twin (mem_twins.mp wrong).2.2⟩
    · exact Finset.mem_image_of_mem _ (Finset.mem_filter.mpr ⟨among, doubled⟩)
  · exact Finset.image_subset_image (Finset.filter_subset _ _)

theorem parts_injOn :
    Set.InjOn parts (files.filter fun one => (one, one.package) ∉ twins files : Finset ModulePlace) := by
  intro one first other second same
  obtain ⟨among, single⟩ := Finset.mem_filter.mp (Finset.mem_coe.mp first)
  obtain ⟨also, alone⟩ := Finset.mem_filter.mp (Finset.mem_coe.mp second)
  rcases parts_eq_iff.mp same with same | twin | twin
  · exact same
  · obtain rfl := twin.2
    exact absurd (mem_twins.mpr ⟨among, also, twin⟩) single
  · obtain rfl := twin.2
    exact absurd (mem_twins.mpr ⟨also, among, twin⟩) alone

theorem card_erase_parts : ((files.image parts).erase []).card +
    (if rootPackage ∈ files then 1 else 0) = (files.image parts).card := by
  have root : [] ∈ files.image parts ↔ rootPackage ∈ files := by
    rw [Finset.mem_image]
    constructor
    · rintro ⟨one, among, empty⟩
      exact parts_eq_nil_iff.mp empty ▸ among
    · exact fun among => ⟨_, among, rfl⟩
  split
  · rename_i among
    exact Finset.card_erase_add_one (root.mpr among)
  · rename_i absent
    rw [Finset.erase_eq_of_notMem (mt root.mp absent)]
    rfl

theorem card_parts : ((files.image parts).erase []).card +
    (if rootPackage ∈ files then 1 else 0) + (twins files).card = files.card := by
  have pairs : (twins files).card = (files.filter fun one => (one, one.package) ∈ twins files).card := by
    conv_lhs => rw [twins_eq_image]
    exact Finset.card_image_of_injective _ fun _ _ same => congrArg Prod.fst same
  rw [card_erase_parts, image_parts_eq, Finset.card_image_of_injOn parts_injOn, pairs, add_comm,
    Finset.card_filter_add_card_filter_not]

end Count

end ModulePlace

/-! ## Dotted names -/

theorem Text.ofString_joinStrings (separator : String) (items : List String) :
    Bytes.ofString (joinStrings separator items) =
      joinWith (Bytes.ofString separator) (items.map Bytes.ofString) := by
  fun_induction joinStrings separator items with
  | case1 => rfl
  | case2 piece => rfl
  | case3 piece rest nonempty ih =>
      cases rest with
      | nil => exact absurd rfl (nonempty ·)
      | cons second rest => simp [joinWith, Bytes.ofString_append, ih]

structure IsModulePart (name : Name) : Prop where
  nonempty : name ≠ []
  text : (Bytes.decode? name).isSome = true
  no_dot : Path.dot ∉ name

instance (name : Name) : Decidable (IsModulePart name) :=
  decidable_of_iff (name ≠ [] ∧ (Bytes.decode? name).isSome = true ∧ Path.dot ∉ name)
    ⟨fun ⟨h₁, h₂, h₃⟩ => ⟨h₁, h₂, h₃⟩, fun ⟨h₁, h₂, h₃⟩ => ⟨h₁, h₂, h₃⟩⟩

def dottedName (parts : List Name) : String := Text.joinStrings "." (parts.filterMap Bytes.decode?)

section Dotted

variable {parts others : List Name} (each : ∀ part ∈ parts, IsModulePart part)

include each

theorem ofString_dottedName : Bytes.ofString (dottedName parts) = Text.joinWith [Path.dot] parts := by
  have texts : (parts.filterMap Bytes.decode?).map Bytes.ofString = parts := by
    induction parts with
    | nil => rfl
    | cons part rest ih =>
        rw [List.forall_mem_cons] at each
        obtain ⟨text, decoded⟩ := Option.isSome_iff_exists.mp each.1.text
        rw [List.filterMap_cons_some decoded, List.map_cons, ih each.2,
          Bytes.ofString_of_decode? decoded]
  rw [dottedName, Text.ofString_joinStrings, texts]
  rfl

theorem dottedName_eq_empty_iff : dottedName parts = "" ↔ parts = [] := by
  constructor
  · intro empty
    have bytes := ofString_dottedName each
    rw [empty] at bytes
    cases parts with
    | nil => rfl
    | cons part rest =>
        obtain ⟨more, whole⟩ := Text.joinWith_cons [Path.dot] part rest
        rw [whole] at bytes
        exact absurd (List.append_eq_nil_iff.mp bytes.symm).1 (each part List.mem_cons_self).nonempty
  · rintro rfl
    rfl

theorem dottedName_inj (otherEach : ∀ part ∈ others, IsModulePart part) :
    dottedName parts = dottedName others ↔ parts = others := by
  refine ⟨fun same => ?_, fun same => same ▸ rfl⟩
  cases parts with
  | nil => exact ((dottedName_eq_empty_iff otherEach).mp same.symm).symm
  | cons part rest =>
      cases others with
      | nil => exact (dottedName_eq_empty_iff each).mp same
      | cons other more =>
          have bytes := congrArg Bytes.ofString same
          rw [ofString_dottedName each, ofString_dottedName otherEach] at bytes
          have split := congrArg (Text.splitOn Path.dot) bytes
          rwa [Text.splitOn_joinWith _ _ _ fun item member => (each item member).no_dot,
            Text.splitOn_joinWith _ _ _ fun item member => (otherEach item member).no_dot] at split

end Dotted

/-! ## Names of files -/

namespace Path

def modulePlace (relative : Path) : ModulePlace :=
  let names := relative.components.map Component.name
  let own := names.getLast?.getD []
  ⟨names.dropLast, (Text.dropBack? (Bytes.ofString sourceSuffix) own).getD own⟩

structure IsImportable (relative : Path) : Prop where
  components : relative.components = relative.modulePlace.names.map .normal
  above : ∀ name ∈ relative.modulePlace.above, IsModulePart name
  stem : IsModulePart relative.modulePlace.stem

instance (relative : Path) : Decidable relative.IsImportable :=
  decidable_of_iff
    (relative.components = relative.modulePlace.names.map .normal ∧
      (∀ name ∈ relative.modulePlace.above, IsModulePart name) ∧
      IsModulePart relative.modulePlace.stem)
    ⟨fun ⟨h₁, h₂, h₃⟩ => ⟨h₁, h₂, h₃⟩, fun ⟨h₁, h₂, h₃⟩ => ⟨h₁, h₂, h₃⟩⟩

theorem IsImportable.parts {relative : Path} (importable : relative.IsImportable) :
    ∀ part ∈ relative.modulePlace.parts, IsModulePart part := by
  unfold ModulePlace.parts
  split
  · exact importable.above
  · exact List.forall_mem_append.mpr ⟨importable.above, List.forall_mem_singleton.mpr importable.stem⟩

theorem IsImportable.components_eq_iff {one other : Path} (importable : one.IsImportable)
    (also : other.IsImportable) :
    one.components = other.components ↔ one.modulePlace = other.modulePlace := by
  constructor
  · intro same
    rw [modulePlace, modulePlace, same]
  · intro same
    rw [importable.components, also.components, same]

end Path

theorem moduleName_eq {path root : Path} (importable : (path.relativeTo root).IsImportable) :
    moduleName path root = dottedName (path.relativeTo root).modulePlace.parts := by
  have components := importable.components
  have stem := importable.stem
  unfold moduleName
  rw [components]
  generalize (path.relativeTo root).modulePlace = place at stem ⊢
  obtain ⟨text, decoded⟩ := Option.isSome_iff_exists.mp stem.text
  have own : Bytes.decode? (place.stem ++ Bytes.ofString sourceSuffix) = some (text ++ sourceSuffix) := by
    rw [← Bytes.ofString_of_decode? decoded, ← Bytes.ofString_append, Bytes.decode?_ofString]
  have names : (place.names.map Path.Component.normal).filterMap
      (fun step => Bytes.decode? step.name) =
        place.above.filterMap Bytes.decode? ++ [text ++ sourceSuffix] := by
    rw [List.filterMap_map, ModulePlace.names, List.filterMap_append]
    exact congrArg _ (List.filterMap_cons_some own)
  have plain : text = "__init__" ↔ place.stem = ModulePlace.packageStem := by
    rw [ModulePlace.packageStem, ← Bytes.ofString_of_decode? decoded]
    exact ⟨congrArg _, Bytes.ofString_injective⟩
  simp only [names, List.getLast?_concat, String.toList_append, Text.dropBack?_append,
    String.ofList_toList, List.dropLast_concat]
  rw [dottedName, ModulePlace.parts]
  -- No component but the last is compared, so a directory may be called `__init__`.
  by_cases package : place.stem = ModulePlace.packageStem
  · rw [if_pos package, plain.mpr package, if_pos (beq_self_eq_true _)]
  · have other : (some text == some "__init__") = false := by
      rw [beq_eq_false_iff_ne]
      exact fun same => package (plain.mp (Option.some.inj same))
    rw [if_neg package, other, List.filterMap_append, List.filterMap_cons_some decoded]
    rfl

namespace Survey

def modulePlaces (survey : Survey) : List ModulePlace :=
  survey.sources.map fun file => (file.path.relativeTo survey.root).modulePlace

variable {survey : Survey}
  (importable : ∀ file ∈ survey.sources, (file.path.relativeTo survey.root).IsImportable)

include importable

theorem isModulePart_of_mem_parts {names : List Name}
    (member : names ∈ survey.modulePlaces.toFinset.image ModulePlace.parts) :
    ∀ part ∈ names, IsModulePart part := by
  obtain ⟨place, among, rfl⟩ := Finset.mem_image.mp member
  obtain ⟨file, listed, rfl⟩ := List.mem_map.mp (List.mem_toFinset.mp among)
  exact (importable file listed).parts

theorem toFinset_moduleNames : survey.moduleNames.toFinset =
    ((survey.modulePlaces.toFinset.image ModulePlace.parts).erase []).image dottedName := by
  ext name
  rw [List.mem_toFinset, moduleNames, mem_distinctNames, Finset.mem_image, List.mem_map]
  constructor
  · rintro ⟨nonempty, file, listed, rfl⟩
    rw [moduleName_eq (importable file listed)] at nonempty ⊢
    have among : (file.path.relativeTo survey.root).modulePlace.parts ∈
        survey.modulePlaces.toFinset.image ModulePlace.parts :=
      Finset.mem_image_of_mem _ (List.mem_toFinset.mpr (List.mem_map_of_mem listed))
    refine ⟨_, Finset.mem_erase.mpr ⟨fun empty => nonempty ?_, among⟩, rfl⟩
    exact (dottedName_eq_empty_iff (isModulePart_of_mem_parts importable among)).mpr empty
  · rintro ⟨names, among, rfl⟩
    obtain ⟨nonempty, among⟩ := Finset.mem_erase.mp among
    have parts := isModulePart_of_mem_parts importable among
    refine ⟨mt (dottedName_eq_empty_iff parts).mp nonempty, ?_⟩
    obtain ⟨place, inside, rfl⟩ := Finset.mem_image.mp among
    obtain ⟨file, listed, rfl⟩ := List.mem_map.mp (List.mem_toFinset.mp inside)
    exact ⟨file, listed, moduleName_eq (importable file listed)⟩

theorem length_moduleNames : survey.moduleNames.length =
    ((survey.modulePlaces.toFinset.image ModulePlace.parts).erase []).card := by
  have nodup : survey.moduleNames.Nodup := nodup_distinctNames _
  rw [← List.toFinset_card_of_nodup nodup, toFinset_moduleNames importable]
  apply Finset.card_image_of_injOn
  intro one first other second same
  have each := isModulePart_of_mem_parts importable (Finset.mem_of_mem_erase first)
  have otherEach := isModulePart_of_mem_parts importable (Finset.mem_of_mem_erase second)
  exact (dottedName_inj each otherEach).mp same

end Survey

/-- The names of modules are listed in the order in which they come first, each once. If the names on the
way to every file can stand between dots, two files share a name only if they are one file or `p.py` and
`p/__init__.py`, and only the package at the root has no name. So there are as many names as files, less
that one and one for each such pair. -/
theorem Survey.moduleNames_collisions (survey : Survey) :
    let given := survey.sources.map fun file => moduleName file.path survey.root
    let relative := fun file : FileOutline => file.path.relativeTo survey.root
    let place := fun file => (relative file).modulePlace
    let files := (survey.sources.map place).toFinset
    survey.moduleNames.Nodup ∧ (∀ name, name ∈ survey.moduleNames ↔ name ≠ "" ∧ name ∈ given) ∧
      survey.moduleNames.Pairwise (fun one other => given.idxOf one < given.idxOf other) ∧
      ((∀ file ∈ survey.sources, (relative file).IsImportable) →
        (∀ one ∈ survey.sources, ∀ other ∈ survey.sources,
          (moduleName one.path survey.root = moduleName other.path survey.root ↔
            (relative one).components = (relative other).components ∨ (place one).IsTwin (place other) ∨
              (place other).IsTwin (place one))) ∧
        (∀ file ∈ survey.sources,
          (moduleName file.path survey.root = "" ↔ place file = ModulePlace.rootPackage)) ∧
        survey.moduleNames.length + (if ModulePlace.rootPackage ∈ files then 1 else 0) +
          (ModulePlace.twins files).card = files.card) := by
  intro given relative place files
  refine ⟨nodup_distinctNames given, fun name => mem_distinctNames, pairwise_distinctNames given,
    fun importable => ⟨?_, ?_, ?_⟩⟩
  · intro one first other second
    have each := (importable one first).parts
    have otherEach := (importable other second).parts
    rw [moduleName_eq (importable one first), moduleName_eq (importable other second),
      dottedName_inj each otherEach, (importable one first).components_eq_iff (importable other second)]
    exact ModulePlace.parts_eq_iff
  · intro file member
    rw [moduleName_eq (importable file member), dottedName_eq_empty_iff (importable file member).parts]
    exact ModulePlace.parts_eq_nil_iff
  · rw [Survey.length_moduleNames importable]
    exact ModulePlace.card_parts

def mixedPackages : Survey where
  root := .ofString "src"
  fileTree := []
  sources := ["src/__init__.py", "src/a/__init__.py", "src/a/__init__/__init__.py", "src/a/b.py",
    "src//a.py", "src/a/./b.py"].map fun path => .blank (.ofString path)
  totalFiles := 6
  totalFunctions := 0
  totalClasses := 0

theorem Survey.moduleNames_collisions_mixed :
    let files := mixedPackages.modulePlaces.toFinset
    (∀ file ∈ mixedPackages.sources, (file.path.relativeTo mixedPackages.root).IsImportable) ∧
      ModulePlace.rootPackage ∈ files ∧ files.card = 5 ∧ (ModulePlace.twins files).card = 1 ∧
      mixedPackages.moduleNames.length = 3 := by
  intro files
  have importable : ∀ file ∈ mixedPackages.sources,
      (file.path.relativeTo mixedPackages.root).IsImportable := by
    decide +kernel
  have root : ModulePlace.rootPackage ∈ files := by decide +kernel
  have card : files.card = 5 := by decide +kernel
  have twins : (ModulePlace.twins files).card = 1 := by decide +kernel
  have count : mixedPackages.moduleNames.length + (if ModulePlace.rootPackage ∈ files then 1 else 0) +
      (ModulePlace.twins files).card = files.card :=
    ((Survey.moduleNames_collisions mixedPackages).2.2.2 importable).2.2
  rw [if_pos root, twins, card] at count
  exact ⟨importable, root, card, twins, by omega⟩

end CodeAtlas

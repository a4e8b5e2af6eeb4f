import CodeAtlas.Config.Toml
import CodeAtlas.Proofs.Text.Utf8
import CodeAtlas.Proofs.Toml.Document
import Mathlib.Data.List.Nodup

namespace CodeAtlas

inductive Config.Setting where
  | projectName
  | maxDepth
  | diagrams
  | treeDepth
  | format
  | directory
  | tempPrefix
  | keepClone
  deriving DecidableEq

theorem OutputFormat.ofWord?_word (format : OutputFormat) : ofWord? format.word = some format := by
  cases format with
  | markdown => rfl
  | json => rfl

namespace Config.Setting

def all : List Setting :=
  [projectName, maxDepth, diagrams, treeDepth, format, directory, tempPrefix, keepClone]

def place : Setting → String × String
  | projectName => ("project", "name")
  | maxDepth => ("walk", "max_depth")
  | diagrams => ("diagrams", "enabled")
  | treeDepth => ("diagrams", "tree_depth")
  | format => ("output", "format")
  | directory => ("output", "directory")
  | tempPrefix => ("repository", "temp_prefix")
  | keepClone => ("repository", "keep_clone")

def ofPlace? (place : String × String) : Option Setting :=
  all.find? fun setting => setting.place == place

theorem ofPlace?_place (setting : Setting) : ofPlace? setting.place = some setting := by
  cases setting <;> decide

end Config.Setting

def Toml.Section.without (left : Config.Setting → Bool) (part : Section) : Section :=
  { part with
    entries := part.entries.filter fun entry =>
      !(Config.Setting.ofPlace? (part.name, entry.1)).any left }

namespace Config

def reset (left : Setting → Bool) (config : Config) : Config :=
  let default : Config := {}
  { projectName := if left .projectName then default.projectName else config.projectName
    maxDepth := if left .maxDepth then default.maxDepth else config.maxDepth
    diagrams := if left .diagrams then default.diagrams else config.diagrams
    treeDepth := if left .treeDepth then default.treeDepth else config.treeDepth
    format := if left .format then default.format else config.format
    directory := if left .directory then default.directory else config.directory
    tempPrefix := if left .tempPrefix then default.tempPrefix else config.tempPrefix
    keepClone := if left .keepClone then default.keepClone else config.keepClone }

/-! ## Bounds -/

theorem validate_eq_ok_iff {config : Config} :
    config.validate = .ok () ↔ config.maxDepth ≠ 0 ∧ config.maxDepth ≤ depthLimit ∧
      config.treeDepth ≠ 0 ∧ '/' ∉ config.tempPrefix.toList := by
  unfold validate invalidity?
  by_cases noDepth : config.maxDepth = 0
  · simp [noDepth]
  by_cases deep : depthLimit < config.maxDepth
  · simp [noDepth, deep, Nat.not_le.mpr deep]
  by_cases noTree : config.treeDepth = 0
  · simp [noDepth, deep, noTree]
  by_cases separated : '/' ∈ config.tempPrefix.toList
  · simp [noDepth, deep, noTree, separated]
  · simp [noDepth, deep, noTree, separated, Nat.not_lt.mp deep]

theorem validate_reset {config : Config} (valid : config.validate = .ok ()) (left : Setting → Bool) :
    (config.reset left).validate = .ok () := by
  rw [validate_eq_ok_iff] at valid ⊢
  obtain ⟨someDepth, bounded, someTree, single⟩ := valid
  -- Each bound holds of the own value and of the default value.
  refine ⟨?_, ?_, ?_, ?_⟩
  · simp only [reset]
    split
    · decide
    · exact someDepth
  · simp only [reset]
    split
    · decide
    · exact bounded
  · simp only [reset]
    split
    · decide
    · exact someTree
  · simp only [reset]
    split
    · decide
    · exact single

end Config

/-! ## Sections -/

namespace Toml

theorem Section.regular_without {part : Section} (regular : part.Regular) (left : Config.Setting → Bool) :
    (part.without left).Regular where
  name := regular.name
  keys := fun entry member => regular.keys entry (List.mem_filter.mp member).1
  distinct := List.Nodup.sublist (List.filter_sublist.map _) regular.distinct
  values := fun entry member => regular.values entry (List.mem_filter.mp member).1

theorem lookup_table {parts : List Section} {part : Section} (distinct : (parts.map (·.name)).Nodup)
    (member : part ∈ parts) : lookup part.name (parts.map Section.table) = some part.table.2 := by
  induction parts with
  | nil => cases member
  | cons first parts ih =>
      rw [List.map_cons, List.nodup_cons] at distinct
      rcases List.mem_cons.mp member with rfl | later
      · simp [lookup, Section.table]
      · have different : (part.name == first.name) = false := by
          rw [beq_eq_false_iff_ne]
          intro same
          exact distinct.1 (same ▸ List.mem_map_of_mem later)
        have rest := ih distinct.2 later
        rw [lookup] at rest ⊢
        rw [List.map_cons, Section.table, List.lookup_cons, different]
        exact rest

theorem Section.regular_of_keys {name : String} {entries : List (String × Atom)} (keys : List String)
    (own : entries.map (·.1) = keys) (bare : ∀ key ∈ name :: keys, IsBareKey key)
    (distinct : keys.Nodup) (values : ∀ entry ∈ entries, entry.2.Fits) :
    Section.Regular ⟨name, entries⟩ where
  name := bare name List.mem_cons_self
  keys := fun _ member => bare _ (List.mem_cons_of_mem _ (own ▸ List.mem_map_of_mem member))
  distinct := own ▸ distinct
  values := values

/-- The sections without the entries of some settings. A section in which no entry is left may be left
out as well. -/
structure IsWithout (left : Config.Setting → Bool) (sections remaining : List Section) : Prop where
  sublist : remaining.Sublist (sections.map (·.without left))
  full : ∀ part ∈ sections, (part.without left).entries ≠ [] → part.without left ∈ remaining

section

variable {left : Config.Setting → Bool} {sections remaining : List Section}

theorem isWithout_nothing (sections : List Section) : IsWithout (fun _ => false) sections sections := by
  have same : ∀ part : Section, part.without (fun _ => false) = part := by
    intro part
    simp [Section.without]
  constructor
  · simp [same]
  · intro part member _
    rw [same]
    exact member

theorem IsWithout.names (rest : IsWithout left sections remaining)
    (distinct : (sections.map (·.name)).Nodup) : (remaining.map (·.name)).Nodup := by
  have names : (sections.map (·.without left)).map (·.name) = sections.map (·.name) := by
    rw [List.map_map]
    rfl
  exact List.Nodup.sublist (rest.sublist.map _) (names ▸ distinct)

theorem IsWithout.regular (rest : IsWithout left sections remaining)
    (regular : ∀ part ∈ sections, part.Regular) : ∀ part ∈ remaining, part.Regular := by
  intro part member
  obtain ⟨whole, given, rfl⟩ := List.mem_map.mp (rest.sublist.subset member)
  exact Section.regular_without (regular whole given) left

theorem IsWithout.record? (rest : IsWithout left sections remaining)
    (distinct : (sections.map (·.name)).Nodup) {part : Section} (member : part ∈ sections)
    (names : List String) :
    settings.record? names (lookup part.name (remaining.map Section.table)) =
      some (names.map fun key => lookup key (part.without left).content) := by
  by_cases stands : part.without left ∈ remaining
  · have found := lookup_table (rest.names distinct) stands
    rw [show part.name = (part.without left).name from rfl, found]
    rfl
  · have empty : (part.without left).entries = [] :=
      Decidable.byContradiction fun more => stands (rest.full part member more)
    have missing : lookup part.name (remaining.map Section.table) = none := by
      apply lookup_of_not_mem
      rw [List.map_map]
      intro found
      obtain ⟨other, inside, same⟩ := List.mem_map.mp found
      obtain ⟨whole, given, rfl⟩ := List.mem_map.mp (rest.sublist.subset inside)
      obtain rfl := List.inj_on_of_nodup_map distinct given member same
      exact stands inside
    rw [missing, Section.content, empty]
    rfl

end

theorem lookup_filter (key : String) (p : String → Bool) (entries : Entries) :
    lookup key (entries.filter fun entry => p entry.1) = if p key then lookup key entries else none := by
  rw [lookup, lookup]
  induction entries with
  | nil => simp
  | cons entry entries ih =>
      obtain ⟨own, value⟩ := entry
      by_cases same : key = own
      · subst same
        by_cases kept : p key = true
        · simp [kept]
        · simp [kept, ih]
      · have different : (key == own) = false := beq_eq_false_iff_ne.mpr same
        by_cases kept : p own = true
        · simp [kept, ih, different, List.lookup_cons]
        · simp [kept, ih, different, List.lookup_cons]

theorem lookup_without (left : Config.Setting → Bool) {part : Section} {key : String}
    {setting : Config.Setting} (here : (part.name, key) = setting.place) :
    lookup key (part.without left).content =
      if left setting then none else lookup key part.content := by
  have own : (Config.Setting.ofPlace? (part.name, key)).any left = left setting := by
    rw [here, Config.Setting.ofPlace?_place, Option.any_some]
  have content : (part.without left).content =
      part.content.filter fun entry => !(Config.Setting.ofPlace? (part.name, entry.1)).any left := by
    rw [Section.content, Section.content, List.filter_map]
    rfl
  have found := lookup_filter key
    (fun key => !(Config.Setting.ofPlace? (part.name, key)).any left) part.content
  rw [content, found, own]
  cases left setting with
  | true => rfl
  | false => rfl

end Toml

namespace Config

/-! ## The document of a configuration -/

def parts (config : Config) (directory : String) : List Toml.Section :=
  [⟨"project", (config.projectName.map fun name => ("name", .text name)).toList⟩,
    ⟨"walk", [("max_depth", .count config.maxDepth)]⟩,
    ⟨"diagrams", [("enabled", .flag config.diagrams), ("tree_depth", .count config.treeDepth)]⟩,
    ⟨"output", [("format", .text config.format.word), ("directory", .text directory)]⟩,
    ⟨"repository",
      [("temp_prefix", .text config.tempPrefix), ("keep_clone", .flag config.keepClone)]⟩]

variable {config : Config} {directory : String}

theorem sections?_eq_parts (shown : config.directory.toText? = some directory)
    (depth : config.maxDepth ≤ Toml.maxInteger) (treeDepth : config.treeDepth ≤ Toml.maxInteger) :
    config.sections? = some (config.parts directory) := by
  have small : ¬ Toml.maxInteger < max config.maxDepth config.treeDepth :=
    Nat.not_lt.mpr (Nat.max_le.mpr ⟨depth, treeDepth⟩)
  rw [sections?, shown]
  simp only [Option.bind_eq_bind, Option.bind_some, small, if_false]
  rfl

theorem name_parts : ((config.parts directory).map (·.name)).Nodup := by
  change ["project", "walk", "diagrams", "output", "repository"].Nodup
  decide

theorem regular_parts (depth : config.maxDepth ≤ Toml.maxInteger)
    (treeDepth : config.treeDepth ≤ Toml.maxInteger) :
    ∀ part ∈ config.parts directory, part.Regular := by
  simp only [parts, List.forall_mem_cons]
  refine ⟨?_, ?_, ?_, ?_, ?_, List.forall_mem_nil _⟩
  · cases config.projectName with
    | none =>
        apply Toml.Section.regular_of_keys [] rfl (by decide) (by decide)
        exact List.forall_mem_nil _
    | some name =>
        apply Toml.Section.regular_of_keys ["name"] rfl (by decide) (by decide)
        simp [Toml.Atom.Fits]
  · apply Toml.Section.regular_of_keys ["max_depth"] rfl (by decide) (by decide)
    simp [Toml.Atom.Fits, depth]
  · apply Toml.Section.regular_of_keys ["enabled", "tree_depth"] rfl (by decide) (by decide)
    simp [Toml.Atom.Fits, treeDepth]
  · apply Toml.Section.regular_of_keys ["format", "directory"] rfl (by decide) (by decide)
    simp [Toml.Atom.Fits]
  · apply Toml.Section.regular_of_keys ["temp_prefix", "keep_clone"] rfl (by decide) (by decide)
    simp [Toml.Atom.Fits]

/-! ## Reading it back -/

theorem setting?_without {β : Type} {read? : Toml → Option β} {default value : β} (left : Setting → Bool)
    (setting : Setting) {part : Toml.Section} {key : String} (here : (part.name, key) = setting.place)
    (stands : SettingReader.setting? read? default (Toml.lookup key part.content) = some value) :
    SettingReader.setting? read? default (Toml.lookup key (part.without left).content) =
      some (if left setting then default else value) := by
  rw [Toml.lookup_without left here]
  cases left setting with
  | true => rfl
  | false => exact stands

theorem config?_parts (shown : config.directory.toText? = some directory) {left : Setting → Bool}
    {remaining : List Toml.Section} (rest : Toml.IsWithout left (config.parts directory) remaining) :
    Toml.settings.config? (.table .header (remaining.map Toml.Section.table)) =
      some (config.reset left) := by
  have sections : Toml.settings.fields? sectionNames (.table .header (remaining.map Toml.Section.table)) =
      some (sectionNames.map fun name => Toml.lookup name (remaining.map Toml.Section.table)) := rfl
  have record : ∀ part ∈ config.parts directory, ∀ names,
      Toml.settings.record? names (Toml.lookup part.name (remaining.map Toml.Section.table)) =
        some (names.map fun key => Toml.lookup key (part.without left).content) :=
    fun part member names => rest.record? name_parts member names
  simp only [parts, List.forall_mem_cons] at record
  obtain ⟨project, walk, diagrams, output, repository, -⟩ := record
  have name : SettingReader.setting? Toml.settings.optionalText? none
      (Toml.lookup "name" (Toml.Section.content
        ⟨"project", (config.projectName.map fun name => ("name", .text name)).toList⟩)) =
      some config.projectName := by
    cases config.projectName with
    | none => rfl
    | some name => rfl
  have path : Path.ofString directory = config.directory := by
    rw [Path.ofString, Bytes.ofString_of_decode? shown]
  unfold SettingReader.config?
  rw [sections]
  simp only [sectionNames, List.map_cons, List.map_nil, Option.bind_eq_bind, Option.bind_some, project,
    walk, diagrams, output, repository]
  -- The settings stand here in the order in which they are read.
  refine Option.bind_eq_some_iff.mpr ⟨_, setting?_without left .projectName rfl name, ?_⟩
  refine Option.bind_eq_some_iff.mpr ⟨_, setting?_without left .maxDepth rfl rfl, ?_⟩
  refine Option.bind_eq_some_iff.mpr ⟨_, setting?_without left .diagrams rfl rfl, ?_⟩
  refine Option.bind_eq_some_iff.mpr ⟨_, setting?_without left .treeDepth rfl rfl, ?_⟩
  refine Option.bind_eq_some_iff.mpr
    ⟨_, setting?_without left .format rfl (OutputFormat.ofWord?_word config.format), ?_⟩
  refine Option.bind_eq_some_iff.mpr
    ⟨_, setting?_without left .directory rfl (congrArg some path), ?_⟩
  refine Option.bind_eq_some_iff.mpr ⟨_, setting?_without left .tempPrefix rfl rfl, ?_⟩
  refine Option.bind_eq_some_iff.mpr ⟨_, setting?_without left .keepClone rfl rfl, ?_⟩
  rfl

theorem load_of_readBytes {fs : FileSystem} {path : Path} {document : String}
    (held : fs.readBytes path = .ok (Bytes.ofString document))
    (read : ofToml? document = some config) (valid : config.validate = .ok ()) :
    load fs path = .ok config := by
  have text : fs.readText path = .ok document := by
    rw [FileSystem.readText, held]
    simp only [Bytes.decode?_ofString]
  simp only [load, text, read, valid]

/-- A valid configuration is read back from its own document, whatever its texts are. Where the entries of
some settings are left out, those settings take their default values. -/
theorem load_write {config : Config} (valid : config.validate = .ok ())
    (fits : config.treeDepth ≤ UInt64.size / 2 - 1) (shown : config.directory.toText? ≠ none) :
    ∃ sections, config.sections? = some sections ∧ config.toToml? = some (Toml.write sections) ∧
      (∀ (fs : FileSystem) (path : Path),
        fs.readBytes path = .ok (Bytes.ofString (Toml.write sections)) → load fs path = .ok config) ∧
      ∀ left remaining, Toml.IsWithout left sections remaining →
        ∀ (fs : FileSystem) (path : Path),
          fs.readBytes path = .ok (Bytes.ofString (Toml.write remaining)) →
            load fs path = .ok (config.reset left) := by
  obtain ⟨directory, text⟩ := Option.ne_none_iff_exists'.mp shown
  have depth : config.maxDepth ≤ Toml.maxInteger :=
    Nat.le_trans (validate_eq_ok_iff.mp valid).2.1 (by decide)
  have regular : ∀ part ∈ config.parts directory, part.Regular := regular_parts depth fits
  have parts := sections?_eq_parts text depth fits
  have overlay : ∀ left remaining, Toml.IsWithout left (config.parts directory) remaining →
      ∀ (fs : FileSystem) (path : Path),
        fs.readBytes path = .ok (Bytes.ofString (Toml.write remaining)) →
          load fs path = .ok (config.reset left) := by
    intro left remaining rest fs path held
    apply load_of_readBytes held
    · rw [ofToml?, Toml.read?_write (rest.regular regular) (rest.names name_parts), Option.bind_some]
      exact config?_parts text rest
    · exact validate_reset valid left
  refine ⟨_, parts, by rw [toToml?, parts, Option.map_some], ?_, overlay⟩
  exact overlay (fun _ => false) _ (Toml.isWithout_nothing _)

def quotedConfig : Config where
  projectName := some "'''\"\"\"\\\n\x00é"
  maxDepth := 100
  diagrams := false
  treeDepth := UInt64.size / 2 - 1
  format := .json
  directory := .ofString "it's \"here\""
  tempPrefix := "\r\n'"
  keepClone := true

def someLeft : Setting → Bool
  | .tempPrefix => true
  | .keepClone => true
  | .diagrams => true
  | _ => false

def configSystem (document : String) : FileSystem :=
  ⟨[(Bytes.ofString "c.toml", .file (Bytes.ofString document))], []⟩

theorem load_write_quoted : ∃ sections, quotedConfig.sections? = some sections ∧
    load (configSystem (Toml.write sections)) (.ofString "c.toml") = .ok quotedConfig ∧
    load (configSystem (Toml.write ((sections.map (·.without someLeft)).filter (·.entries != []))))
        (.ofString "c.toml") =
      .ok { quotedConfig with diagrams := true, tempPrefix := "codesketch_", keepClone := false } := by
  have held : ∀ document, (configSystem document).readBytes (.ofString "c.toml") =
      .ok (Bytes.ofString document) := fun _ => rfl
  have valid : quotedConfig.validate = .ok () := by decide
  have shown : quotedConfig.directory.toText? ≠ none := by
    simp [quotedConfig, Path.toText?, Path.ofString, Bytes.decode?_ofString]
  obtain ⟨sections, given, -, full, overlay⟩ := load_write valid (by decide) shown
  refine ⟨sections, given, full _ _ (held _), overlay someLeft _ ?_ _ _ (held _)⟩
  refine ⟨List.filter_sublist, fun part member more => ?_⟩
  rw [List.mem_filter]
  exact ⟨List.mem_map_of_mem member, by simpa using more⟩

end Config
end CodeAtlas

import CodeAtlas.FileSystem.Resolve
import CodeAtlas.Proofs.FileSystem.Node
import CodeAtlas.Proofs.FileSystem.Resolve

namespace CodeAtlas.FileSystem

/-! ## Directories and links that stay -/

structure Keeps (fs other : FileSystem) : Prop where
  workingDirectory : other.workingDirectory = fs.workingDirectory
  directory : ∀ place, fs.node? place = some .directory → other.node? place = some .directory
  symlink : ∀ place target, fs.node? place = some (.symlink target) →
    other.node? place = some (.symlink target)
  locked : ∀ place entries, fs.node? place = some (.locked entries) →
    other.node? place = some (.locked entries)

theorem Keeps.refl (fs : FileSystem) : Keeps fs fs :=
  ⟨rfl, fun _ => id, fun _ _ => id, fun _ _ => id⟩

theorem Keeps.trans {first second third : FileSystem} (before : Keeps first second)
    (after : Keeps second third) : Keeps first third :=
  ⟨after.workingDirectory.trans before.workingDirectory,
    fun place found => after.directory place (before.directory place found),
    fun place target found => after.symlink place target (before.symlink place target found),
    fun place entries found => after.locked place entries (before.locked place entries found)⟩

variable {fs other : FileSystem}

def IsLeaf (fs : FileSystem) (place : Place) : Prop :=
  fs.node? place = none ∨ ∃ content, fs.node? place = some (.file content)

theorem IsLeaf.below {place : Place} (leaf : fs.IsLeaf place) (name : Name) (rest : Place) :
    fs.node? (place ++ name :: rest) = none := by
  cases found : fs.node? (place ++ name :: rest) with
  | none => rfl
  | some node =>
      have present : fs.node? (place ++ name :: rest) ≠ none := by simp [found]
      have directory := node?_above present
      rcases leaf with free | ⟨content, file⟩
      · rw [free] at directory
        cases directory
      · rw [file] at directory
        cases directory

theorem IsLeaf.inside {place below : Place} (leaf : fs.IsLeaf place) (inside : place <+: below) :
    fs.IsLeaf below := by
  obtain ⟨rest, rfl⟩ := inside
  cases rest with
  | nil => rwa [List.append_nil]
  | cons name rest => exact .inl (leaf.below name rest)

theorem AgreesOutside.keeps {place : Place} (agrees : AgreesOutside place fs other)
    (leaf : fs.IsLeaf place) : Keeps fs other := by
  have outside : ∀ elsewhere node, (fs.node? elsewhere = some node) →
      (∀ content, node ≠ .file content) → other.node? elsewhere = some node := by
    intro elsewhere node found no_file
    rw [agrees.node elsewhere, found]
    intro inside
    rcases leaf.inside inside with free | ⟨content, file⟩
    · rw [free] at found
      cases found
    · rw [file, Option.some.injEq] at found
      exact no_file content found.symm
  refine ⟨agrees.workingDirectory, fun elsewhere found => ?_, fun elsewhere target found => ?_,
    fun elsewhere entries found => ?_⟩
  · exact outside elsewhere _ found (by simp)
  · exact outside elsewhere _ found (by simp)
  · exact outside elsewhere _ found (by simp)

/-! ## Paths that stay -/

theorem Leads.keep {mode : Bool} {used : Nat} {place last : Place} {pieces rest : List Name}
    (keeps : Keeps fs other) (leads : Leads fs mode used place pieces last rest) :
    Leads other mode used place pieces last rest := by
  induction leads with
  | stay => exact .stay
  | skip trivial onward ih => exact .skip trivial ih
  | up onward ih => exact .up ih
  | down step found onward ih =>
      have stays := keeps.directory _ (node?_eq_directory.mpr ⟨_, found⟩)
      obtain ⟨entries, found⟩ := node?_eq_directory.mp stays
      exact .down step found ih
  | link step found mode onward ih =>
      have stays := keeps.symlink _ _ (node?_eq_symlink.mpr found)
      exact .link step (node?_eq_symlink.mp stays) mode ih

theorem node?_top (fs : FileSystem) : fs.node? [] = some .directory := rfl

theorem node?_dropLast {place : Place} (found : fs.node? place = some .directory) :
    fs.node? place.dropLast = some .directory := by
  rcases List.eq_nil_or_concat place with rfl | ⟨above, name, rfl⟩
  · exact found
  · rw [List.concat_eq_append, List.dropLast_concat]
    rw [List.concat_eq_append] at found
    have present : fs.node? (above ++ [name]) ≠ none := by simp [found]
    exact node?_above present

theorem Leads.directory {mode : Bool} {used : Nat} {place last : Place} {pieces rest : List Name}
    (leads : Leads fs mode used place pieces last rest) (found : fs.node? place = some .directory) :
    fs.node? last = some .directory := by
  induction leads with
  | stay => exact found
  | skip trivial onward ih => exact ih found
  | up onward ih => exact ih (node?_dropLast found)
  | down step entry onward ih => exact ih (node?_eq_directory.mpr ⟨_, entry⟩)
  | @link used place last piece pieces rest target step entry mode onward ih =>
      refine ih ?_
      split
      · exact node?_top fs
      · exact found

theorem start_keep (keeps : Keeps fs other) (path : Path) : other.start path = fs.start path := by
  rw [start, start, keeps.workingDirectory]

theorem WellFormed.start (formed : fs.WellFormed) (path : Path) :
    fs.node? (fs.start path) = some .directory := by
  unfold FileSystem.start
  split
  · exact node?_top fs
  · exact node?_eq_directory.mpr formed.workingDirectory

/-! ## Names in paths -/

def IsPiece (piece : Name) : Prop := Path.slash ∉ piece ∧ (0 : UInt8) ∉ piece

theorem isPiece_of_mem {path : Path} (no_nul : (0 : UInt8) ∉ path.bytes) :
    ∀ piece ∈ path.pieces, IsPiece piece := by
  intro piece member
  obtain ⟨no_slash, inside⟩ := Text.of_mem_splitOn member
  exact ⟨no_slash, fun zero => no_nul (inside 0 zero)⟩

theorem Leads.isPiece {mode : Bool} {used : Nat} {place last : Place} {pieces rest : List Name}
    (formed : fs.WellFormed) (leads : Leads fs mode used place pieces last rest)
    (clean : ∀ piece ∈ pieces, IsPiece piece) : ∀ piece ∈ rest, IsPiece piece := by
  induction leads with
  | stay => exact clean
  | skip trivial onward ih => exact ih fun piece member => clean piece (List.mem_cons_of_mem _ member)
  | up onward ih => exact ih fun piece member => clean piece (List.mem_cons_of_mem _ member)
  | down step found onward ih =>
      exact ih fun piece member => clean piece (List.mem_cons_of_mem _ member)
  | @link used place last piece pieces rest target step found mode onward ih =>
      refine ih fun next member => ?_
      rcases List.mem_append.mp member with own | later
      · have target_formed : (Entry.symlink target).WellFormed := formed.get? found
        exact isPiece_of_mem target_formed next own
      · exact clean next (List.mem_cons_of_mem _ later)

theorem isEntryName_of_step {piece : Name} (step : IsStep piece) (clean : IsPiece piece) :
    IsEntryName piece := by
  obtain ⟨nontrivial, no_parent⟩ := step
  simp only [Path.isTrivial, Bool.or_eq_false_iff, List.isEmpty_eq_false_iff,
    beq_eq_false_iff_ne] at nontrivial
  exact ⟨nontrivial.1, clean.1, clean.2, nontrivial.2, no_parent⟩

/-! ## Paths that name an entry -/

/-- The last piece of the path, slashes apart, is a name in a directory to which the others lead. -/
structure Names (fs : FileSystem) (path : Path) (above : Place) (name : Name) : Prop where
  usable : Usable path
  regular : IsEntryName name
  directory : fs.node? above = some .directory
  leads : ∃ used slashes, used ≤ maxLinks ∧ (∀ piece ∈ slashes, piece = []) ∧
    Leads fs false used (fs.start path) (withoutLastSlash path).pieces above (name :: slashes)

theorem start_withoutLastSlash {path : Path} (nonempty : path.bytes ≠ []) :
    fs.start (withoutLastSlash path) = fs.start path := by
  obtain ⟨stays, n, bytes⟩ := Path.bytes_withoutLastSlash nonempty
  have absolute : (withoutLastSlash path).isAbsolute = path.isAbsolute := by
    rw [Path.isAbsolute, Path.isAbsolute, bytes]
    cases front : (withoutLastSlash path).bytes with
    | nil => exact absurd front stays
    | cons first rest => simp
  rw [start, start, absolute]

theorem usable_withoutLastSlash {path : Path} (usable : Usable path) :
    Usable (withoutLastSlash path) := by
  obtain ⟨stays, n, bytes⟩ := Path.bytes_withoutLastSlash usable.nonempty
  have no_nul := usable.no_nul
  have short := usable.short
  rw [bytes] at no_nul short
  rw [List.mem_append, not_or] at no_nul
  rw [List.length_append] at short
  exact ⟨stays, no_nul.1, by omega⟩

theorem follow_names {mode : Bool} {used : Nat} {place above : Place} {pieces slashes : List Name}
    {name : Name} {entry : Entry} (enough : used ≤ maxLinks) (step : IsStep name)
    (empty : ∀ piece ∈ slashes, piece = [])
    (leads : Leads fs mode used place pieces above (name :: slashes))
    (found : fs.get? (above ++ [name]) = some entry) (directory : entry.isDirectory = true) :
    fs.follow mode maxLinks place pieces = .ok (.found (above ++ [name])) := by
  cases entry with
  | directory entries =>
      have inside : Leads fs mode 0 above (name :: slashes) (above ++ [name]) [] :=
        .down step found (.of_empty empty)
      rw [(leads.trans inside).follow enough, follow_nil]
  | locked entries =>
      -- Only slashes may come after a locked directory.
      rw [leads.follow enough]
      exact follow_locked step found empty _
  | file content => cases directory
  | symlink target => cases directory

namespace Names

variable {path : Path} {above : Place} {name : Name}

theorem keep (keeps : Keeps fs other) (names : Names fs path above name) :
    Names other path above name := by
  obtain ⟨used, slashes, enough, empty, leads⟩ := names.leads
  refine ⟨names.usable, names.regular, keeps.directory above names.directory,
    used, slashes, enough, empty, ?_⟩
  rw [start_keep keeps]
  exact leads.keep keeps

theorem leads_path (names : Names fs path above name) (mode : Bool) :
    ∃ used slashes, used ≤ maxLinks ∧ (∀ piece ∈ slashes, piece = []) ∧
      Leads fs mode used (fs.start path) path.pieces above (name :: slashes) := by
  obtain ⟨used, slashes, enough, empty, leads⟩ := names.leads
  obtain ⟨_, n, bytes⟩ := Path.bytes_withoutLastSlash names.usable.nonempty
  have pieces := Path.pieces_append_slashes (withoutLastSlash path).bytes n
  rw [← bytes] at pieces
  refine ⟨used, slashes ++ List.replicate n [], enough, ?_, ?_⟩
  · intro piece member
    rcases List.mem_append.mp member with own | more
    · exact empty piece own
    · exact List.eq_of_mem_replicate more
  · have whole : path.pieces = (withoutLastSlash path).pieces ++ List.replicate n [] := pieces
    rw [whole]
    exact leads.extend mode _ nofun

theorem find_eq (names : Names fs path above name) (mode : Bool) {entry : Entry}
    (found : fs.get? (above ++ [name]) = some entry) (directory : entry.isDirectory = true) :
    fs.find mode path = .ok (above ++ [name], entry) := by
  obtain ⟨used, slashes, enough, empty, leads⟩ := names.leads_path mode
  refine find_eq_ok_iff.mpr ⟨?_, found⟩
  rw [resolve_of_usable names.usable]
  exact follow_names enough names.regular.isStep empty leads found directory

theorem find_withoutLastSlash (names : Names fs path above name)
    {entries : List (Name × Entry)} (found : fs.get? (above ++ [name]) = some (.directory entries)) :
    fs.find false (withoutLastSlash path) = .ok (above ++ [name], .directory entries) := by
  obtain ⟨used, slashes, enough, empty, leads⟩ := names.leads
  refine find_eq_ok_iff.mpr ⟨?_, found⟩
  rw [resolve_of_usable (usable_withoutLastSlash names.usable),
    start_withoutLastSlash names.usable.nonempty]
  exact follow_names enough names.regular.isStep empty leads found rfl

theorem hasEntry_eq_true (names : Names fs path above name)
    (found : fs.node? (above ++ [name]) = some .directory) : fs.hasEntry path = true := by
  obtain ⟨entries, found⟩ := node?_eq_directory.mp found
  exact hasEntry_eq_true_iff.mpr ⟨_, _, names.find_eq true found rfl⟩

theorem canonical_eq (names : Names fs path above name)
    (found : fs.node? (above ++ [name]) = some .directory) :
    fs.canonical path = .ok (above ++ [name]) := by
  obtain ⟨entries, found⟩ := node?_eq_directory.mp found
  rw [canonical, names.find_eq true found rfl]
  rfl

theorem hasEntry_eq_false (names : Names fs path above name)
    (free : fs.node? (above ++ [name]) = none) : fs.hasEntry path = false := by
  obtain ⟨used, slashes, enough, empty, leads⟩ := names.leads_path true
  have missing := node?_eq_none.mp free
  rw [hasEntry, find, resolve_of_usable names.usable, leads.follow enough,
    follow_vacant names.regular.isStep missing empty]
  rfl

end Names

/-! ## New entries -/

theorem resolve_withoutLastSlash_empty {path : Path} (empty : path.bytes = []) :
    fs.resolve false (withoutLastSlash path) = .ok (.found []) := by
  obtain ⟨bytes⟩ := path
  subst empty
  have usable : Usable (withoutLastSlash ⟨[]⟩) := ⟨by decide, by decide, by decide⟩
  have leads : Leads fs false 0 [] [[], []] [] [] := .of_empty (by simp)
  rw [resolve_of_usable usable]
  exact (leads.follow (Nat.zero_le _)).trans (follow_nil _ _)

theorem usable_of_withoutLastSlash {path : Path} (nonempty : path.bytes ≠ [])
    (usable : Usable (withoutLastSlash path))
    (short : ¬ (decide (path.bytes.length > maxPathLength) && !path.bytes.contains 0) = true) :
    Usable path := by
  obtain ⟨_, n, bytes⟩ := Path.bytes_withoutLastSlash nonempty
  have no_nul : (0 : UInt8) ∉ path.bytes := by
    rw [bytes, List.mem_append, not_or]
    refine ⟨usable.no_nul, fun zero => ?_⟩
    have slash := List.eq_of_mem_replicate zero
    revert slash
    decide
  exact ⟨nonempty, no_nul, by simpa [no_nul] using short⟩

theorem leads_of_vacant {mode : Bool} {path : Path} {above : Place} {name : Name}
    {withSlash : Bool} (formed : fs.WellFormed)
    (resolved : fs.resolve mode path = .ok (.vacant above name withSlash)) :
    Usable path ∧ IsEntryName name ∧ fs.node? above = some .directory ∧
      fs.node? (above ++ [name]) = none ∧
      ∃ used slashes, used ≤ maxLinks ∧ (∀ piece ∈ slashes, piece = []) ∧
        withSlash = !slashes.isEmpty ∧
        Leads fs mode used (fs.start path) path.pieces above (name :: slashes) := by
  obtain ⟨usable, used, last, rest, enough, leads, stops⟩ := leads_of_resolve resolved
  have directory := leads.directory (formed.start path)
  have clean := leads.isPiece formed (isPiece_of_mem usable.no_nul)
  cases stops with
  | vacant step missing empty =>
      exact ⟨usable, isEntryName_of_step step (clean _ List.mem_cons_self), directory,
        node?_eq_none.mpr missing, used, _, enough, empty, rfl, leads⟩

theorem create_eq_ok {path : Path} {entry : Entry} {made : FileSystem} (formed : fs.WellFormed)
    (created : fs.create path entry = .ok made) :
    ∃ above name, Names fs path above name ∧ fs.node? (above ++ [name]) = none ∧
      made = fs.put (above ++ [name]) entry := by
  unfold create at created
  split at created
  · cases created
  · rename_i short
    cases resolved : fs.resolve false (withoutLastSlash path) with
    | error fault => simp [resolved] at created
    | ok arrival =>
        cases arrival with
        | found place => simp [resolved] at created
        | vacant above name withSlash =>
            simp only [resolved] at created
            split at created
            · cases created
            · have nonempty : path.bytes ≠ [] := fun empty => by
                rw [resolve_withoutLastSlash_empty empty] at resolved
                cases resolved
              obtain ⟨usable, regular, directory, free, used, slashes, enough, empty, _, leads⟩ :=
                leads_of_vacant formed resolved
              rw [start_withoutLastSlash nonempty] at leads
              have whole := usable_of_withoutLastSlash nonempty usable short
              exact ⟨above, name, ⟨whole, regular, directory, used, slashes, enough, empty, leads⟩,
                free, (Except.ok.inj created).symm⟩

structure Lodges (fs made : FileSystem) (path : Path) (above : Place) (name : Name) : Prop where
  names : Names fs path above name
  free : fs.node? (above ++ [name]) = none
  agrees : AgreesOutside (above ++ [name]) fs made
  empty : made.get? (above ++ [name]) = some (.directory [])
  formed : made.WellFormed

theorem apart_of_no_directory {place : Place} (formed : fs.WellFormed)
    (no_directory : fs.node? place ≠ some .directory) : ¬ place <+: fs.workingDirectory := by
  rintro ⟨rest, whole⟩
  have directory := node?_eq_directory.mpr formed.workingDirectory
  rw [← whole] at directory
  cases rest with
  | nil =>
      rw [List.append_nil] at directory
      exact no_directory directory
  | cons name rest =>
      have present : fs.node? (place ++ name :: rest) ≠ none := by simp [directory]
      exact no_directory (node?_above present)

theorem apart_of_leaf {place : Place} (formed : fs.WellFormed) (leaf : fs.IsLeaf place) :
    ¬ place <+: fs.workingDirectory := by
  apply apart_of_no_directory formed
  rcases leaf with free | ⟨content, file⟩
  · simp [free]
  · simp [file]

theorem createDirectory_eq_ok {path : Path} {made : FileSystem} (formed : fs.WellFormed)
    (created : fs.createDirectory path = .ok made) :
    ∃ above name, Lodges fs made path above name := by
  obtain ⟨above, name, names, free, rfl⟩ := create_eq_ok formed created
  have apart := apart_of_leaf formed (.inl free)
  rw [put_eq_altered]
  refine ⟨above, name, names, free, agreesOutside_altered formed _ name names.directory, ?_, ?_⟩
  · exact get?_altered formed (some (.directory [])) name names.directory []
  · refine formed.altered _ names.directory names.regular (fun entry same => ?_) apart
    cases same
    exact trivial

/-! ## Directories along a path -/

theorem canonical_keep {path : Path} {place : Place} (keeps : Keeps fs other)
    (leads : fs.canonical path = .ok place) (directory : fs.node? place = some .directory) :
    other.canonical path = .ok place := by
  obtain ⟨entries, found⟩ : ∃ entries, fs.find true path = .ok (place, .directory entries) := by
    unfold canonical at leads
    cases found : fs.find true path with
    | error fault => simp [found, Except.map] at leads
    | ok arrival =>
        simp only [found, Except.map, Except.ok.injEq] at leads
        subst leads
        obtain ⟨entries, here⟩ := node?_eq_directory.mp directory
        have there := (find_eq_ok_iff.mp found).2
        rw [here, Option.some.injEq] at there
        exact ⟨entries, by rw [there]⟩
  obtain ⟨usable, used, enough, leads⟩ := leads_of_find found
  obtain ⟨others, stays⟩ := node?_eq_directory.mp (keeps.directory place directory)
  have arrives : other.find true path = .ok (place, .directory others) := by
    refine find_eq_ok_iff.mpr ⟨?_, stays⟩
    rw [resolve_of_usable usable, start_keep keeps, (leads.keep keeps).follow enough, follow_nil]
  rw [canonical, arrives]
  rfl

structure Grows (paths : List Path) (fs made : FileSystem) : Prop where
  formed : made.WellFormed
  keeps : Keeps fs made
  node : ∀ place, made.node? place = fs.node? place ∨
    (fs.node? place = none ∧ made.node? place = some .directory ∧
      ∃ path ∈ paths, made.canonical path = .ok place)

namespace Grows

variable {paths : List Path}

theorem refl (paths : List Path) (formed : fs.WellFormed) : Grows paths fs fs :=
  ⟨formed, .refl fs, fun _ => .inl rfl⟩

theorem mono {more : List Path} (grows : Grows paths fs other) (among : paths ⊆ more) :
    Grows more fs other := by
  refine ⟨grows.formed, grows.keeps, fun place => (grows.node place).imp_right ?_⟩
  rintro ⟨free, directory, path, member, leads⟩
  exact ⟨free, directory, path, among member, leads⟩

theorem trans {made : FileSystem} (before : Grows paths fs other) (after : Grows paths other made) :
    Grows paths fs made := by
  refine ⟨after.formed, before.keeps.trans after.keeps, fun place => ?_⟩
  rcases after.node place with same | ⟨free, directory, path, member, leads⟩
  · rcases before.node place with unchanged | ⟨free, directory, path, member, leads⟩
    · exact .inl (same.trans unchanged)
    -- The path still leads there, for directories and links stay.
    · have stays := canonical_keep after.keeps leads directory
      exact .inr ⟨free, same.trans directory, path, member, stays⟩
  · refine .inr ⟨?_, directory, path, member, leads⟩
    rcases before.node place with unchanged | ⟨free', _⟩
    · rw [← unchanged, free]
    · exact free'

theorem of_lodges {path : Path} {above : Place} {name : Name}
    (lodges : Lodges fs other path above name) : Grows [path] fs other := by
  have keeps := lodges.agrees.keeps (.inl lodges.free)
  refine ⟨lodges.formed, keeps, fun place => ?_⟩
  by_cases inside : above ++ [name] <+: place
  · obtain ⟨rest, rfl⟩ := inside
    have directory := node?_eq_directory.mpr ⟨_, lodges.empty⟩
    cases rest with
    | nil =>
        rw [List.append_nil]
        exact .inr ⟨lodges.free, directory, path, List.mem_singleton_self _,
          (lodges.names.keep keeps).canonical_eq directory⟩
    | cons next rest =>
        refine .inl ?_
        rw [node?_append_eq_none lodges.free, node?_eq_none, get?, Entry.get?_append]
        have here : other.top.get? (above ++ [name]) = some (.directory []) := lodges.empty
        rw [here]
        rfl
  · exact .inl (lodges.agrees.node place inside)

end Grows

theorem createDirectory_grows {path : Path} {made : FileSystem} (formed : fs.WellFormed)
    (created : fs.createDirectory path = .ok made) : Grows [path] fs made := by
  obtain ⟨above, name, lodges⟩ := createDirectory_eq_ok formed created
  exact .of_lodges lodges

theorem createAlong_grows (paths : List Path) (formed : fs.WellFormed) :
    Grows paths fs (fs.createAlong paths).1 := by
  induction paths with
  | nil => exact .refl _ formed
  | cons path shorter ih =>
      have single : [path] ⊆ path :: shorter := by simp
      have others : shorter ⊆ path :: shorter := by simp
      unfold createAlong
      split
      · exact .refl _ formed
      cases created : fs.createDirectory path with
      | ok made => exact (createDirectory_grows formed created).mono single
      | error fault =>
          cases fault with
          | notFound =>
              -- The directories above are made first, and then this one is tried again.
              cases along : fs.createAlong shorter with
              | mk middle result =>
                  rw [along] at ih
                  have before := ih.mono others
                  cases result with
                  | error fault => exact before
                  | ok done =>
                      cases again : middle.createDirectory path with
                      | error fault => simpa only [again] using before
                      | ok made =>
                          have after := (createDirectory_grows ih.formed again).mono single
                          simpa only [again] using before.trans after
          | _ => exact .refl _ formed

theorem createDirectories_grows (path : Path) (formed : fs.WellFormed) :
    Grows path.ancestors fs (fs.createDirectories path).1 := createAlong_grows _ formed

/-! ## Files -/

structure Writes (fs made : FileSystem) (path : Path) (content : Bytes) (place : Place) : Prop where
  leaf : fs.IsLeaf place
  agrees : AgreesOutside place fs made
  node : made.node? place = some (.file content)
  below : ∀ name rest, made.node? (place ++ name :: rest) = none
  leads : made.canonical path = .ok place
  formed : made.WellFormed

theorem Writes.elsewhere {path : Path} {content : Bytes} {place other : Place} {made : FileSystem}
    (writes : Writes fs made path content place) (apart : other ≠ place) :
    made.node? other = fs.node? other := by
  by_cases inside : place <+: other
  · obtain ⟨rest, rfl⟩ := inside
    cases rest with
    | nil => exact absurd (List.append_nil place) apart
    | cons name rest => exact (writes.below name rest).trans (writes.leaf.below name rest).symm
  · exact writes.agrees.node other inside

theorem writes_put {path : Path} {content : Bytes} {above : Place} {name : Name} {used : Nat}
    (formed : fs.WellFormed) (usable : Usable path) (enough : used ≤ maxLinks)
    (regular : IsEntryName name)
    (leads : Leads fs true used (fs.start path) path.pieces above [name])
    (leaf : fs.IsLeaf (above ++ [name])) :
    Writes fs (fs.put (above ++ [name]) (.file content)) path content (above ++ [name]) := by
  have directory := leads.directory (formed.start path)
  have agrees := agreesOutside_altered formed (fun _ => some (.file content)) name directory
  have stands := get?_altered formed (some (.file content)) name directory
  have keeps := agrees.keeps leaf
  rw [put_eq_altered]
  refine ⟨leaf, agrees, ?_, ?_, ?_, ?_⟩
  · rw [node?, Entry.node?]
    exact congrArg (Option.map Entry.node) (stands [])
  · intro next rest
    rw [node?_eq_none, List.append_assoc]
    exact stands (next :: rest)
  · have here := stands []
    have arrives : (fs.altered (fun _ => some (.file content)) (above ++ [name])).find true path =
        .ok (above ++ [name], .file content) := by
      refine find_eq_ok_iff.mpr ⟨?_, here⟩
      rw [resolve_of_usable usable, start_keep keeps, (leads.keep keeps).follow enough,
        follow_file regular.isStep here]
    rw [canonical, arrives]
    rfl
  · refine formed.altered _ directory regular (fun entry same => ?_) (apart_of_leaf formed leaf)
    cases same
    exact trivial

theorem stands_of_found {path : Path} {place : Place} (formed : fs.WellFormed)
    (resolved : fs.resolve true path = .ok (.found place)) :
    (∃ entry, fs.get? place = some entry ∧ entry.isDirectory = true) ∨
      ∃ above name content, place = above ++ [name] ∧ Usable path ∧
        ∃ used, used ≤ maxLinks ∧ IsEntryName name ∧
          Leads fs true used (fs.start path) path.pieces above [name] ∧
          fs.get? place = some (.file content) := by
  obtain ⟨usable, used, last, rest, enough, leads, stops⟩ := leads_of_resolve resolved
  have clean := leads.isPiece formed (isPiece_of_mem usable.no_nul)
  cases stops with
  | arrived =>
      obtain ⟨entries, found⟩ := node?_eq_directory.mp (leads.directory (formed.start path))
      exact .inl ⟨_, found, rfl⟩
  | locked step found empty => exact .inl ⟨_, found, rfl⟩
  | file step found =>
      have regular := isEntryName_of_step step (clean _ List.mem_cons_self)
      exact .inr ⟨_, _, _, rfl, usable, used, enough, regular, leads, found⟩
  | link step found mode => cases mode

theorem writeBytes_eq_ok {path : Path} {content : Bytes} {made : FileSystem}
    (formed : fs.WellFormed) (written : fs.writeBytes path content = .ok made) :
    ∃ place, Writes fs made path content place := by
  unfold writeBytes at written
  cases resolved : fs.resolve true path with
  | error fault => simp [resolved] at written
  | ok arrival =>
      cases arrival with
      | vacant above name withSlash =>
          simp only [resolved] at written
          split at written
          · cases written
          rename_i no_slash
          split at written
          · cases written
          obtain ⟨usable, regular, _, free, used, slashes, enough, _, flag, leads⟩ :=
            leads_of_vacant formed resolved
          -- A path with a slash at its end does not make a file.
          have none : slashes = [] := by simpa [flag] using no_slash
          subst none
          cases written
          exact ⟨above ++ [name], writes_put formed usable enough regular leads (.inl free)⟩
      | found place =>
          simp only [resolved] at written
          rcases stands_of_found formed resolved with ⟨entry, found, kind⟩ | ⟨above, name, content, stands⟩
          · cases entry with
            | directory entries => simp [found] at written
            | locked entries => simp [found] at written
            | file content => cases kind
            | symlink target => cases kind
          · obtain ⟨rfl, usable, used, enough, regular, leads, found⟩ := stands
            rw [found] at written
            cases written
            have file := congrArg (Option.map Entry.node) found
            exact ⟨_, writes_put formed usable enough regular leads (.inr ⟨_, file⟩)⟩

/-! ## Removal -/

theorem Keeps.outside {base made : FileSystem} {place : Place} (keeps : Keeps base fs)
    (free : base.node? place = none) (agrees : AgreesOutside place fs made) : Keeps base made := by
  have apart : ∀ elsewhere node, base.node? elsewhere = some node → ¬ place <+: elsewhere := by
    intro elsewhere node found inside
    rw [node?_eq_none_inside free inside] at found
    cases found
  refine ⟨agrees.workingDirectory.trans keeps.workingDirectory, fun elsewhere found => ?_,
    fun elsewhere target found => ?_, fun elsewhere entries found => ?_⟩
  · rw [agrees.node elsewhere (apart elsewhere _ found)]
    exact keeps.directory elsewhere found
  · rw [agrees.node elsewhere (apart elsewhere _ found)]
    exact keeps.symlink elsewhere target found
  · rw [agrees.node elsewhere (apart elsewhere _ found)]
    exact keeps.locked elsewhere entries found

def EndsWithName (path : Path) : Prop :=
  ∃ piece, (withoutLastSlash path).pieces.getLast? = some piece ∧ IsStep piece

theorem removeDirectory_eq_ok {path : Path} {above : Place} {name : Name}
    (names : Names fs path above name) (own : EndsWithName path)
    (empty : fs.get? (above ++ [name]) = some (.directory [])) :
    fs.removeDirectory path = .ok (fs.drop (above ++ [name])) := by
  obtain ⟨piece, last, nontrivial, no_parent⟩ := own
  simp only [Path.isTrivial, Bool.or_eq_false_iff, List.isEmpty_eq_false_iff,
    beq_eq_false_iff_ne] at nontrivial
  rw [removeDirectory, names.find_withoutLastSlash empty, last]
  cases piece with
  | nil => exact absurd rfl nontrivial.1
  | cons first rest => simp [nontrivial.2, no_parent]

def Unlocked (fs : FileSystem) (place : Place) : Prop :=
  ∀ rest entries, fs.node? (place ++ rest) ≠ some (.locked entries)

theorem unlocked_iff {place : Place} {entry : Entry} (found : fs.get? place = some entry) :
    fs.Unlocked place ↔ entry.Unlocked := by
  have same : ∀ rest, fs.node? (place ++ rest) = entry.node? rest := fun rest => by
    rw [node?, Entry.node?, Entry.get?_append, ← get?, found, Option.bind_some, Entry.node?]
  simp only [Unlocked, Entry.Unlocked, same]

theorem Unlocked.remainsIn_eq_nil {place : Place} {entries : List (Name × Entry)}
    (unlocked : fs.Unlocked place) (formed : fs.WellFormed)
    (found : fs.get? place = some (.directory entries)) : Entry.remainsIn entries = [] := by
  have entriesFormed : Entry.WellFormedIn entries := formed.get? found
  refine Entry.remainsIn_eq_nil entries entriesFormed fun item member => ?_
  exact ((unlocked_iff found).mp unlocked).of_lookup (entriesFormed.of_mem member).2.1

theorem Unlocked.of_free {place : Place} (free : fs.node? place = none) : fs.Unlocked place := by
  intro rest entries locked
  rw [node?_append_eq_none free] at locked
  cases locked

theorem Unlocked.free_or_directory {place : Place} (unlocked : fs.Unlocked place)
    (left : ∀ entry, fs.get? place = some entry → entry.isDirectory = true) :
    fs.node? place = none ∨ fs.node? place = some .directory := by
  cases stands : fs.get? place with
  | none => exact .inl (node?_eq_none.mpr stands)
  | some entry =>
      have directory := left entry stands
      cases entry with
      | directory entries => exact .inr (node?_eq_directory.mpr ⟨_, stands⟩)
      | locked entries =>
          have here := unlocked [] entries
          rw [List.append_nil] at here
          exact absurd (node?_eq_locked.mpr stands) here
      | file content => cases directory
      | symlink target => cases directory

/-- Nothing locked stands where the path leads, or below, so that all of it can be removed. -/
def MayRemove (fs : FileSystem) (path : Path) : Prop :=
  ∀ place entry, fs.find false path = .ok (place, entry) → fs.Unlocked place

theorem removeAll_eq_ok {base : FileSystem} {path : Path} {above : Place} {name : Name}
    (baseFormed : base.WellFormed) (names : Names base path above name)
    (free : base.node? (above ++ [name]) = none) (own : EndsWithName path)
    (keeps : Keeps base fs) (formed : fs.WellFormed)
    (found : fs.node? (above ++ [name]) = some .directory) (unlocked : fs.Unlocked (above ++ [name])) :
    ∃ made, fs.removeAll path = (made, .ok ()) ∧ AgreesOutside (above ++ [name]) fs made ∧
      made.node? (above ++ [name]) = none ∧ made.WellFormed := by
  obtain ⟨entries, here⟩ := node?_eq_directory.mp found
  have above_directory := keeps.directory above names.directory
  have apart : ¬ above ++ [name] <+: fs.workingDirectory := by
    rw [keeps.workingDirectory]
    exact apart_of_leaf baseFormed (.inl free)
  -- The directory is emptied first.
  have emptied := agreesOutside_altered formed (fun _ => some (.directory [])) name above_directory
  have emptied_formed := formed.altered (some (.directory [])) above_directory names.regular
    (fun entry same => by cases same; exact trivial) apart
  have empty := get?_altered formed (some (.directory [])) name above_directory []
  rw [← put_eq_altered] at emptied emptied_formed empty
  have emptied_keeps := keeps.outside free emptied
  have removed := removeDirectory_eq_ok (names.keep emptied_keeps) own empty
  -- Then it is dropped.
  have still := emptied_keeps.directory above names.directory
  have dropped := agreesOutside_altered emptied_formed (fun _ => none) name still
  have gone := get?_altered emptied_formed none name still []
  have dropped_formed := emptied_formed.altered none still names.regular nofun
    (by rwa [emptied.workingDirectory])
  rw [← drop_eq_altered] at dropped gone dropped_formed
  refine ⟨_, ?_, emptied.trans dropped, node?_eq_none.mpr gone, dropped_formed⟩
  rw [removeAll, (names.keep keeps).find_eq false here rfl]
  simp only [unlocked.remainsIn_eq_nil formed here, List.isEmpty_nil, if_true, removed]

end CodeAtlas.FileSystem

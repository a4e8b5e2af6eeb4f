import CodeAtlas.Proofs.FileSystem.Reading
import CodeAtlas.Proofs.List

namespace CodeAtlas

namespace Entry

/-! ## One change after another -/

theorem alterIn_alterIn {name : Name} {f g : Option Entry → Option Entry}
    (kept : ∀ child, f (some child) ≠ none) (entries : List (Name × Entry)) :
    alterIn name g (alterIn name f entries) = alterIn name (g ∘ f) entries := by
  induction entries with
  | nil => cases made : f none <;> simp [alterIn, made]
  | cons first rest ih =>
      obtain ⟨own, child⟩ := first
      by_cases here : own = name
      · obtain ⟨entry, made⟩ := Option.ne_none_iff_exists'.mp (kept child)
        simp [alterIn, here, made]
      · simp [alterIn, here, ih]

theorem alter_alter (made : Option Entry) (entry : Entry) (place : Place) (tree : Entry) :
    alter (fun _ => made) place (alter (fun _ => some entry) place tree) =
      alter (fun _ => made) place tree := by
  induction place generalizing tree with
  | nil => cases tree <;> rfl
  | cons name rest ih =>
      cases tree with
      | file content => cases rest <;> rfl
      | symlink target => cases rest <;> rfl
      | locked entries => cases rest <;> rfl
      | directory entries =>
          cases rest with
          | nil =>
              simp only [alter]
              rw [alterIn_alterIn (by simp)]
              rfl
          | cons next rest =>
              simp only [alter]
              rw [alterIn_alterIn (by simp)]
              congr 2
              funext child
              cases child with
              | none => rfl
              | some child => exact congrArg some (ih child)

end Entry

namespace FileSystem

variable {fs other : FileSystem}

theorem drop_put (fs : FileSystem) (place : Place) (entry : Entry) :
    (fs.put place entry).drop place = fs.drop place := by
  obtain ⟨entries, changed⟩ := Entry.alter_directory (fun _ => some entry) place fs.entries
  have whole : fs.top.alter (fun _ => some entry) place = .directory entries := changed
  have twice := Entry.alter_alter none entry place fs.top
  have made : fs.put place entry = { fs with entries } := by rw [put, whole]
  obtain ⟨others, dropped⟩ := Entry.alter_directory (fun _ => none) place fs.entries
  have less : fs.top.alter (fun _ => none) place = .directory others := dropped
  rw [whole, less] at twice
  have again : Entry.alter (fun _ => none) place { fs with entries : FileSystem }.top =
      .directory others := twice
  rw [made, drop, drop, again, less]

/-! ## Nothing new -/

structure Shrinks (fs other : FileSystem) : Prop where
  workingDirectory : other.workingDirectory = fs.workingDirectory
  node : ∀ place, other.node? place = none ∨ other.node? place = fs.node? place

theorem Shrinks.start (shrinks : Shrinks fs other) (path : Path) : other.start path = fs.start path := by
  rw [FileSystem.start, FileSystem.start, shrinks.workingDirectory]

theorem Shrinks.keeps (shrinks : Shrinks fs other) : Keeps other fs := by
  have same : ∀ place node, other.node? place = some node → fs.node? place = some node := by
    intro place node found
    rcases shrinks.node place with gone | same
    · rw [gone] at found
      cases found
    · rw [← same, found]
  exact ⟨shrinks.workingDirectory.symm, fun place => same place _, fun place target => same place _,
    fun place entries => same place _⟩

/-- The pieces come to a name that stood for something and stands for nothing now. -/
def Misses (fs other : FileSystem) (mode : Bool) (links : Nat) (place : Place) (pieces : List Name) :
    Prop :=
  ∃ used reached piece rest, used ≤ links ∧ IsStep piece ∧ fs.node? (reached ++ [piece]) ≠ none ∧
    other.node? (reached ++ [piece]) = none ∧ Leads other mode used place pieces reached (piece :: rest)

theorem Misses.after {mode : Bool} {used more links : Nat} {place middle : Place}
    {pieces between : List Name} (misses : Misses fs other mode more middle between)
    (front : Leads other mode used place pieces middle between) (enough : used + more ≤ links) :
    Misses fs other mode links place pieces := by
  obtain ⟨spent, reached, piece, rest, fewer, step, before, gone, leads⟩ := misses
  exact ⟨used + spent, reached, piece, rest, by omega, step, before, gone, front.trans leads⟩

theorem Misses.extend {links : Nat} {place : Place} {pieces : List Name}
    (misses : Misses fs other false links place pieces) (mode : Bool) :
    Misses fs other mode links place pieces := by
  obtain ⟨used, reached, piece, rest, enough, step, before, gone, leads⟩ := misses
  have onward := leads.extend mode [] nofun
  rw [List.append_nil, List.append_nil] at onward
  exact ⟨used, reached, piece, rest, enough, step, before, gone, onward⟩

theorem Misses.mono {mode : Bool} {used links : Nat} {place : Place} {pieces : List Name}
    (misses : Misses fs other mode used place pieces) (enough : used ≤ links) :
    Misses fs other mode links place pieces :=
  misses.after .stay (by omega)

theorem Leads.shrink {mode : Bool} {used : Nat} {place last : Place} {pieces rest : List Name}
    (shrinks : Shrinks fs other) (leads : Leads fs mode used place pieces last rest) :
    Leads other mode used place pieces last rest ∨ Misses fs other mode used place pieces := by
  induction leads with
  | stay => exact .inl .stay
  | skip trivial onward ih =>
      exact ih.imp (.skip trivial) fun misses => misses.after (.skip trivial .stay) (by omega)
  | up onward ih => exact ih.imp .up fun misses => misses.after (.up .stay) (by omega)
  | @down used place last piece pieces rest entries step found onward ih =>
      have before := node?_eq_directory.mpr ⟨_, found⟩
      rcases shrinks.node (place ++ [piece]) with gone | same
      · exact .inr ⟨0, place, piece, pieces, Nat.zero_le _, step, by simp [before], gone, .stay⟩
      · obtain ⟨inner, here⟩ := node?_eq_directory.mp (same.trans before)
        exact ih.imp (.down step here) fun misses =>
          misses.after (.down step here .stay) (by omega)
  | @link used place last piece pieces rest target step found mode onward ih =>
      have before := node?_eq_symlink.mpr found
      rcases shrinks.node (place ++ [piece]) with gone | same
      · exact .inr ⟨0, place, piece, pieces, Nat.zero_le _, step, by simp [before], gone, .stay⟩
      · have here := node?_eq_symlink.mp (same.trans before)
        exact ih.imp (.link step here mode) fun misses =>
          misses.after (.link step here mode .stay) (by omega)

/-! ## Paths that end with a name -/

/-- No name that stands for something is longer than the system allows. -/
def NamesFit (fs : FileSystem) : Prop :=
  ∀ place name, fs.node? (place ++ [name]) ≠ none → name.length ≤ maxNameLength

theorem find_of_misses {mode : Bool} {path : Path} (fits : fs.NamesFit) (usable : Usable path)
    (misses : Misses fs other mode maxLinks (other.start path) path.pieces) :
    other.find mode path = .error .notFound := by
  obtain ⟨used, reached, piece, rest, enough, step, before, gone, leads⟩ := misses
  have missing := node?_eq_none.mp gone
  have short : ¬ piece.length > maxNameLength := Nat.not_lt.mpr (fits reached piece before)
  rw [find, resolve_of_usable usable, leads.follow enough]
  by_cases empty : rest.all List.isEmpty = true
  · have arrived : other.advance mode reached (piece :: rest) = _ :=
      (advance_missing step missing).trans (if_pos empty)
    rw [(follow_advance other mode _ reached _).1 _ arrived]
    exact congrArg Except.error (if_neg short)
  · have refused : other.advance mode reached (piece :: rest) = _ :=
      (advance_missing step missing).trans (if_neg empty)
    rw [(follow_advance other mode _ reached _).2.1 _ refused]
    exact congrArg Except.error (if_neg short)

def EndsWithBareName (path : Path) : Prop := ∃ piece, path.pieces.getLast? = some piece ∧ IsStep piece

theorem EndsWithBareName.withoutLastSlash {path : Path} (bare : EndsWithBareName path) :
    withoutLastSlash path = path := by
  obtain ⟨piece, last, step⟩ := bare
  have nonempty : path.bytes ≠ [] := by
    intro empty
    rw [Path.pieces, empty, Text.splitOn, List.getLast?_singleton, Option.some.injEq] at last
    exact absurd step.1 (last ▸ by decide)
  obtain ⟨_, n, bytes⟩ := Path.bytes_withoutLastSlash nonempty
  cases n with
  | zero =>
      rw [List.replicate_zero, List.append_nil] at bytes
      exact congrArg Path.mk bytes.symm
  | succ n =>
      have pieces := Path.pieces_append_slashes (FileSystem.withoutLastSlash path).bytes (n + 1)
      rw [← bytes, List.replicate_succ', ← List.append_assoc] at pieces
      have whole : path.pieces = _ := pieces
      rw [whole, List.getLast?_concat, Option.some.injEq] at last
      exact absurd step.1 (last ▸ by decide)

theorem EndsWithBareName.endsWithName {path : Path} (bare : EndsWithBareName path) :
    EndsWithName path := by
  rw [EndsWithName, bare.withoutLastSlash]
  exact bare

theorem Leads.before_last {used : Nat} {place last : Place} {pieces : List Name} {piece : Name}
    (leads : Leads fs false used place pieces last []) (ends : pieces.getLast? = some piece)
    (step : IsStep piece) :
    ∃ above, last = above ++ [piece] ∧ Leads fs false used place pieces above [piece] := by
  obtain ⟨front, rfl⟩ := List.getLast?_eq_some_iff.mp ends
  obtain ⟨first, second, above, rfl, onward, own⟩ := leads.split rfl rfl
  cases own with
  | skip trivial =>
      rw [IsStep, trivial] at step
      cases step.1
  | up => exact absurd rfl step.2
  | down own found arrives =>
      cases arrives
      exact ⟨above, rfl, onward.extend false [piece] fun _ => .inr (List.cons_ne_nil _ _)⟩
  | link own found mode => simp at mode

theorem Leads.getLast?_of_rest {used : Nat} {place last : Place} {pieces rest : List Name} {piece : Name}
    (leads : Leads fs false used place pieces last rest) (ends : rest.getLast? = some piece) :
    pieces.getLast? = some piece := by
  induction leads with
  | stay => exact ends
  | skip trivial onward ih => rw [List.getLast?_cons, ih ends, Option.getD_some]
  | up onward ih => rw [List.getLast?_cons, ih ends, Option.getD_some]
  | down step found onward ih => rw [List.getLast?_cons, ih ends, Option.getD_some]
  | @link used place last own pieces rest target step found mode onward ih =>
      have nonempty : pieces ≠ [] := mode.resolve_left Bool.false_ne_true
      have same : pieces.getLast? = some piece := by
        have whole := ih ends
        rwa [List.getLast?_append, Option.or_of_isSome (by simpa using nonempty)] at whole
      rw [List.getLast?_cons, same, Option.getD_some]

theorem EndsWithBareName.no_slashes {path : Path} (bare : EndsWithBareName path) {used : Nat}
    {above : Place} {piece : Name} {slashes : List Name}
    (leads : Leads fs false used (fs.start path) path.pieces above (piece :: slashes))
    (empty : ∀ piece ∈ slashes, piece = []) : slashes = [] := by
  obtain ⟨last, ends, own⟩ := bare
  cases final : slashes.getLast? with
  | none => exact List.getLast?_eq_none_iff.mp final
  | some slash =>
      have left : (piece :: slashes).getLast? = some slash := by
        rw [List.getLast?_cons, final, Option.getD_some]
      have same := leads.getLast?_of_rest left
      rw [ends, Option.some.injEq] at same
      rw [same, empty slash (List.mem_of_getLast? final)] at own
      exact absurd own.1 (by decide)

theorem names_of_find {path : Path} {place : Place} {entry : Entry} (formed : fs.WellFormed)
    (bare : EndsWithBareName path) (found : fs.find false path = .ok (place, entry)) :
    ∃ above name, place = above ++ [name] ∧ Names fs path above name := by
  obtain ⟨resolved, here⟩ := find_eq_ok_iff.mp found
  obtain ⟨usable, used, last, rest, enough, leads, stops⟩ := leads_of_resolve resolved
  have clean := isPiece_of_mem usable.no_nul
  have present : fs.node? place ≠ none := by simp [node?_of_get? here]
  have ended : ∀ above name, place = above ++ [name] → IsStep name →
      Leads fs false used (fs.start path) path.pieces above [name] →
        ∃ above name, place = above ++ [name] ∧ Names fs path above name := by
    rintro above name shape step leads
    have regular := isEntryName_of_step step (leads.isPiece formed clean _ (List.mem_singleton_self _))
    have directory := node?_above (shape ▸ present)
    refine ⟨above, name, shape, usable, regular, directory, used, [], enough, by simp, ?_⟩
    rwa [bare.withoutLastSlash]
  cases stops with
  | arrived =>
      obtain ⟨piece, last, step⟩ := bare
      obtain ⟨above, shape, leads⟩ := leads.before_last last step
      exact ended above piece shape step leads
  | file step file => exact ended _ _ rfl step leads
  | link step link mode => exact ended _ _ rfl step leads
  | locked step locked empty =>
      rw [bare.no_slashes leads empty] at leads
      exact ended _ _ rfl step leads

/-! ## Dropping and emptying -/

section Altered

variable {above : Place} {name : Name} {path : Path}

theorem node?_drop (formed : fs.WellFormed) (directory : fs.node? above = some .directory)
    (rest : Place) :
    (fs.drop (above ++ [name])).node? (above ++ name :: rest) = none :=
  node?_eq_none.mpr (get?_altered formed none name directory rest)

theorem node?_emptied (formed : fs.WellFormed) (directory : fs.node? above = some .directory)
    (rest : Place) :
    (fs.put (above ++ [name]) (.directory [])).node? (above ++ name :: rest) =
      (Entry.directory []).node? rest :=
  congrArg (Option.map Entry.node) (get?_altered formed (some (.directory [])) name directory rest)

theorem AgreesOutside.shrinks (agrees : AgreesOutside (above ++ [name]) fs other)
    (less : ∀ rest, other.node? (above ++ name :: rest) = none ∨
      other.node? (above ++ name :: rest) = fs.node? (above ++ name :: rest)) : Shrinks fs other := by
  refine ⟨agrees.workingDirectory, fun place => ?_⟩
  by_cases inside : above ++ [name] <+: place
  · obtain ⟨rest, rfl⟩ := inside
    have below := less rest
    rwa [← List.singleton_append, ← List.append_assoc] at below
  · exact .inr (agrees.node place inside)

theorem shrinks_drop (formed : fs.WellFormed) (directory : fs.node? above = some .directory) :
    Shrinks fs (fs.drop (above ++ [name])) :=
  (agreesOutside_altered formed _ name directory).shrinks fun rest =>
    .inl (node?_drop formed directory rest)

theorem shrinks_emptied (formed : fs.WellFormed) (directory : fs.node? above = some .directory)
    (found : fs.node? (above ++ [name]) = some .directory) :
    Shrinks fs (fs.put (above ++ [name]) (.directory [])) := by
  refine (agreesOutside_altered formed _ name directory).shrinks fun rest => ?_
  rw [← put_eq_altered, node?_emptied formed directory]
  cases rest with
  | nil => exact .inr found.symm
  | cons next rest => exact .inl rfl

/-! ## The end of a path -/

theorem Names.misses (shrinks : Shrinks fs other) (names : Names fs path above name)
    (stood : fs.node? (above ++ [name]) ≠ none) (gone : other.node? (above ++ [name]) = none)
    (mode : Bool) : Misses fs other mode maxLinks (other.start path) path.pieces := by
  obtain ⟨used, slashes, enough, _, leads⟩ := names.leads_path false
  rw [shrinks.start]
  rcases leads.shrink shrinks with still | misses
  · have step := names.regular.isStep
    exact Misses.extend ⟨used, above, name, slashes, enough, step, stood, gone, still⟩ mode
  · exact (misses.mono enough).extend mode

/-! ## What a removal leaves -/

def PassesThrough (fs : FileSystem) (path : Path) (place : Place) : Prop :=
  ∃ used reached piece rest, place <+: reached ∧
    Leads fs false used (fs.start path) path.pieces reached (piece :: rest)

/-- What was at a place and below it is gone, and nothing else, and the path leads nowhere. -/
structure Removes (fs made : FileSystem) (path : Path) (place : Place) : Prop where
  missing : ∀ mode, made.find mode path = .error .notFound
  agrees : AgreesOutside place fs made
  below : ∀ next rest, made.node? (place ++ next :: rest) = none

variable (formed : fs.WellFormed) (fits : fs.NamesFit) (names : Names fs path above name)

include formed fits names

theorem removes_drop (stood : fs.node? (above ++ [name]) ≠ none) :
    Removes fs (fs.drop (above ++ [name])) path (above ++ [name]) := by
  have gone : ∀ rest, (fs.drop (above ++ [name])).node? (above ++ name :: rest) = none :=
    node?_drop formed names.directory
  refine ⟨fun mode => ?_, agreesOutside_altered formed _ name names.directory, fun next rest => ?_⟩
  · have misses := names.misses (shrinks_drop formed names.directory) stood (gone []) mode
    exact find_of_misses fits names.usable misses
  · rw [List.append_assoc]
    exact gone (next :: rest)

theorem removeAll_link {target : Path}
    (found : fs.find false path = .ok (above ++ [name], .symlink target)) :
    fs.removeAll path = (fs.drop (above ++ [name]), .ok ()) ∧
      Removes fs (fs.drop (above ++ [name])) path (above ++ [name]) := by
  have stood := node?_of_get? (find_eq_ok_iff.mp found).2
  refine ⟨?_, removes_drop formed fits names (by simp [stood])⟩
  rw [removeAll, found]

theorem removeAll_directory {entries : List (Name × Entry)} (bare : EndsWithBareName path)
    (found : fs.find false path = .ok (above ++ [name], .directory entries))
    (nothing : Entry.remainsIn entries = []) :
    ∃ made, fs.removeAll path = (made, .ok ()) ∧ Removes fs made path (above ++ [name]) ∧
      (made.node? (above ++ [name]) = none ∨ fs.PassesThrough path (above ++ [name])) := by
  have stood := node?_eq_directory.mpr ⟨_, (find_eq_ok_iff.mp found).2⟩
  have agrees := agreesOutside_altered formed (fun _ => some (.directory [])) name names.directory
  have shrinks := shrinks_emptied formed names.directory stood
  have empty := get?_altered formed (some (.directory [])) name names.directory []
  rw [← put_eq_altered] at agrees empty
  obtain ⟨used, slashes, enough, slash, leads⟩ := names.leads_path false
  rcases leads.shrink shrinks with still | misses
  · -- The way is what it was, so the empty directory is found and dropped.
    have directory := (agrees.node above (not_concat_prefix_self above name)).trans names.directory
    have stays : Names (fs.put (above ++ [name]) (.directory [])) path above name := by
      refine ⟨names.usable, names.regular, directory, used, slashes, enough, slash, ?_⟩
      rwa [shrinks.start, bare.withoutLastSlash]
    have removed := removeDirectory_eq_ok stays bare.endsWithName empty
    rw [drop_put] at removed
    refine ⟨_, ?_, removes_drop formed fits names (by simp [stood]), .inl ?_⟩
    · rw [removeAll, found]
      simp only [nothing, List.isEmpty_nil, if_true, removed]
    · exact node?_drop formed names.directory []
  · have missed : Misses fs (fs.put (above ++ [name]) (.directory [])) false maxLinks
        ((fs.put (above ++ [name]) (.directory [])).start path) path.pieces := by
      rw [shrinks.start]
      exact misses.mono enough
    have nowhere := find_of_misses fits names.usable missed
    refine ⟨_, ?_, ⟨fun mode => ?_, agrees, fun next rest => ?_⟩, .inr ?_⟩
    · rw [removeAll, found]
      simp only [nothing, List.isEmpty_nil, if_true, removeDirectory, bare.withoutLastSlash, nowhere]
    · exact find_of_misses fits names.usable (missed.extend mode)
    · rw [List.append_assoc]
      exact node?_emptied formed names.directory (next :: rest)
    · -- The name that is missed was there before, so it stood below the directory.
      obtain ⟨used, reached, piece, rest, _, _, before, gone, leads⟩ := missed
      have inside : above ++ [name] <+: reached ++ [piece] := Decidable.of_not_not fun outside =>
        before ((agrees.node _ outside).symm.trans gone)
      have through : above ++ [name] <+: reached := by
        refine (List.prefix_concat_iff.mp inside).resolve_left fun same => ?_
        rw [← same, node?_eq_none, empty] at gone
        cases gone
      refine ⟨used, reached, piece, rest, through, ?_⟩
      rw [← shrinks.start]
      exact leads.keep shrinks.keeps

end Altered

end FileSystem
end CodeAtlas

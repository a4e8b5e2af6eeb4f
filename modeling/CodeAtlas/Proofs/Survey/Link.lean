import CodeAtlas.Proofs.Survey.Unchanged

namespace CodeAtlas

theorem Path.strip?_self {p : Path} (nonempty : p.bytes ≠ []) : p.strip? p = some ⟨[]⟩ :=
  strip?_descend (List.forall_mem_nil _) nonempty

theorem moduleName_self {root : Path} (nonempty : root.bytes ≠ []) : moduleName root root = "" := by
  have seen : root.relativeTo root = ⟨[]⟩ := by
    rw [Path.relativeTo, Path.strip?_self nonempty, Option.getD_some]
  rw [moduleName, seen]
  rfl

theorem distinctNames_empty_cons (names : List String) :
    distinctNames ("" :: names) = distinctNames names := rfl

namespace FileSystem

variable {fs : FileSystem} {link root : Path} {place : Place}

def directoryRecord (directory : Entry) : FileOutline :=
  { FileOutline.blank ⟨[]⟩ with errors :=
      [if directory matches .locked _ then "IO error: Permission denied (os error 13)"
        else "IO error: Is a directory (os error 21)"] }

/-- The records that a link as root has beside those of the directory that it leads to. -/
def linkRecords (link : Path) (directory : Entry) : List FileOutline :=
  if link.isSource then [directoryRecord directory] else []

theorem strip?_outline_directory {entry : Entry} (leads : fs.find true link = .ok (place, entry))
    (directory : entry.isDirectory = true) :
    (fs.outline link).strip? link = some (directoryRecord entry) := by
  have own := Path.strip?_self (usable_of_resolve (find_eq_ok_iff.mp leads).1).nonempty
  rw [FileOutline.strip?, path_outline, own, outline, readText, readBytes, leads]
  cases entry with
  | directory entries => rfl
  | locked entries => rfl
  | file content => cases directory
  | symlink target => cases directory

section Link

variable {below : List Path} {entry : Entry} (listed : fs.files link = link :: below)

include listed

theorem sources_link (levels : Nat) : (fs.survey link levels).sources =
    (if link.isSource then [fs.outline link] else []) ++ (below.filter Path.isSource).map fs.outline := by
  change ((fs.files link).filter Path.isSource).map fs.outline = _
  rw [listed, List.filter_cons]
  split <;> rfl

variable (leads : fs.find true link = .ok (place, entry))

include leads

theorem strip?_sources_link (directory : entry.isDirectory = true) (levels : Nat)
    {seen : List FileOutline}
    (outlines : ((below.filter Path.isSource).map fs.outline).mapM (FileOutline.strip? link) =
      some seen) :
    (fs.survey link levels).sources.mapM (FileOutline.strip? link) =
      some (linkRecords link entry ++ seen) := by
  rw [sources_link listed, linkRecords]
  split
  · exact mapM_cons_eq_some_iff.mpr ⟨_, _, strip?_outline_directory leads directory, outlines, rfl⟩
  · exact outlines

theorem moduleNames_link (levels : Nat) : (fs.survey link levels).moduleNames =
    distinctNames
      (((below.filter Path.isSource).map fs.outline).map fun file => moduleName file.path link) := by
  change distinctNames ((fs.survey link levels).sources.map fun file => moduleName file.path link) = _
  rw [sources_link listed]
  split
  · rw [List.singleton_append, List.map_cons, path_outline,
      moduleName_self (usable_of_resolve (find_eq_ok_iff.mp leads).1).nonempty,
      distinctNames_empty_cons]
  · rw [List.nil_append]

theorem survey_link_of_files (directory : entry.isDirectory = true) {levels : Nat}
    {nodes : List TreeNode} {seen : List FileOutline}
    (linkNodes : TreeNode.stripAll? link (fs.tree link levels) = some nodes)
    (rootNodes : TreeNode.stripAll? root (fs.tree root levels) = some nodes)
    (linkSeen : ((below.filter Path.isSource).map fs.outline).mapM (FileOutline.strip? link) = some seen)
    (rootSeen : (fs.survey root levels).sources.mapM (FileOutline.strip? root) = some seen)
    (counted : below.length = (fs.files root).length) :
    (∃ seen : Survey, (fs.survey root levels).strip? = some seen ∧
        (fs.survey link levels).strip? = some { seen with
          sources := linkRecords link entry ++ seen.sources, totalFiles := seen.totalFiles + 1 }) ∧
      (fs.survey link levels).moduleNames = (fs.survey root levels).moduleNames := by
  have linkSources := strip?_sources_link listed leads directory levels linkSeen
  have total : (fs.survey link levels).totalFiles = (fs.survey root levels).totalFiles + 1 := by
    change (fs.files link).length = (fs.files root).length + 1
    rw [listed, List.length_cons, counted]
  have names := FileOutline.map_moduleName_of_relativeTo
    ((FileOutline.map_relativeTo_of_strip? linkSeen).trans
      (FileOutline.map_relativeTo_of_strip? rootSeen).symm)
  refine ⟨⟨_, strip?_survey rootNodes rootSeen, ?_⟩, ?_⟩
  · rw [strip?_survey linkNodes linkSources, total]
    simp only [linkRecords]
    split <;> rfl
  · rw [moduleNames_link listed leads, names]
    rfl

end Link

/-- A link to a directory without links below it is surveyed like the directory but for the link itself,
which is counted as a file, and as a source that cannot be read if it is named like one. All else is the
same when each survey is seen from its root, and so are the module names. -/
theorem survey_link {entry : Entry} (formed : fs.WellFormed) (isLink : fs.isLink link = true)
    (leads : fs.find true link = .ok (place, entry)) (real : fs.find false root = .ok (place, entry))
    (directory : entry.isDirectory = true) (linkFree : entry.LinkFree)
    (reach : entry.SameReach link root) (levels : Nat) :
    (∃ seen : Survey, (fs.survey root levels).strip? = some seen ∧
        (fs.survey link levels).strip? = some { seen with
          sources := linkRecords link entry ++ seen.sources, totalFiles := seen.totalFiles + 1 }) ∧
      (fs.survey link levels).moduleNames = (fs.survey root levels).moduleNames := by
  cases entry with
  | directory entries =>
      -- Below the root, both surveys come from the same entries.
      have same : ∀ below, (Entry.directory entries).node? below = (Entry.directory entries).node? below :=
        fun _ => rfl
      have entriesFormed : Entry.WellFormedIn entries := formed.get? (find_eq_ok_iff.mp real).2
      obtain ⟨nodes, linkNodes, rootNodes⟩ :=
        tree_of_sameReach formed formed leads real linkFree same reach levels
      obtain ⟨seen, linkSeen, rootSeen⟩ :=
        outlines_of_sameReach formed formed leads real linkFree same reach
      rw [← listedOutlines_eq formed leads] at linkSeen
      have listed : fs.files link = link :: (Entry.listedPlaces link entries).map link.descend := by
        rw [files_eq formed leads, isLink, if_pos rfl, List.singleton_append]
      refine survey_link_of_files listed leads rfl linkNodes rootNodes linkSeen ?_ ?_
      · rw [sources_eq_listedPlaces formed real]
        exact rootSeen
      · rw [files_eq_listedPlaces formed real, List.length_map, List.length_map,
          Entry.listedPlaces_of_sameReach entriesFormed entriesFormed same reach]
  | locked entries =>
      have listed : fs.files link = [link] := by rw [files_eq_locked leads, isLink, if_pos rfl]
      have linkTree := tree_locked leads levels
      have rootTree := tree_locked (find_locked real) levels
      have rootSeen : (fs.survey root levels).sources.mapM (FileOutline.strip? root) = some [] := by
        rw [sources_locked real]
        rfl
      refine survey_link_of_files listed leads rfl (congrArg _ linkTree) (congrArg _ rootTree) rfl
        rootSeen ?_
      rw [files_locked real]
  | file content => cases directory
  | symlink target => cases directory

def mainOnly : List (Name × Entry) :=
  [(Bytes.ofString "main.py", .file (Bytes.ofString "def f(): pass\n"))]

def aliasSystem : FileSystem :=
  ⟨[(Bytes.ofString "d", .directory mainOnly),
    (Bytes.ofString "l.py", .symlink (.ofString "d"))], []⟩

theorem wellFormed_aliasSystem : aliasSystem.WellFormed := by decide +kernel

theorem isLink_alias : aliasSystem.isLink (.ofString "l.py") = true := by decide

theorem find_alias : aliasSystem.find true (.ofString "l.py") =
    .ok ([Bytes.ofString "d"], .directory mainOnly) :=
  find_eq_ok_iff.mpr ⟨by decide, rfl⟩

theorem find_aliased : aliasSystem.find false (.ofString "d") =
    .ok ([Bytes.ofString "d"], .directory mainOnly) :=
  find_eq_ok_iff.mpr ⟨by decide, rfl⟩

theorem linkFree_mainOnly : (Entry.directory mainOnly).LinkFree := by
  simp [Entry.LinkFree, Entry.descendants, Entry.descendantsIn, mainOnly]

theorem survey_link_source :
    (∃ seen : Survey, (aliasSystem.survey (.ofString "d") 2).strip? = some seen ∧
        (aliasSystem.survey (.ofString "l.py") 2).strip? = some { seen with
          sources := directoryRecord (.directory mainOnly) :: seen.sources, totalFiles := seen.totalFiles + 1 }) ∧
      (aliasSystem.survey (.ofString "d") 2).moduleNames = ["main"] ∧
      (aliasSystem.survey (.ofString "l.py") 2).moduleNames = ["main"] := by
  have reach : (Entry.directory mainOnly).SameReach (.ofString "l.py") (.ofString "d") := by
    unfold Entry.SameReach
    decide +kernel
  have isSource : (Path.ofString "l.py").isSource = true := by decide
  have modules : (aliasSystem.survey (.ofString "d") 2).moduleNames = ["main"] := by decide +kernel
  obtain ⟨⟨seen, ofRoot, ofLink⟩, names⟩ :=
    survey_link wellFormed_aliasSystem isLink_alias find_alias find_aliased rfl linkFree_mainOnly reach 2
  rw [linkRecords, if_pos isSource, List.singleton_append] at ofLink
  exact ⟨⟨seen, ofRoot, ofLink⟩, modules, names.trans modules⟩

theorem survey_link_counted :
    aliasSystem.WellFormed ∧ aliasSystem.isLink (.ofString "l.py") = true ∧
      aliasSystem.find true (.ofString "l.py") =
        .ok ([Bytes.ofString "d"], .directory mainOnly) ∧
      aliasSystem.find false (.ofString "d") = .ok ([Bytes.ofString "d"], .directory mainOnly) ∧
      (Entry.directory mainOnly).LinkFree ∧
      (aliasSystem.survey (.ofString "d") 2).totalFiles = 1 ∧
      (aliasSystem.survey (.ofString "l.py") 2).totalFiles = 2 ∧
      (aliasSystem.survey (.ofString "d") 2).sources.length = 1 ∧
      (aliasSystem.survey (.ofString "l.py") 2).sources.length = 2 := by
  refine ⟨wellFormed_aliasSystem, isLink_alias, find_alias, find_aliased, linkFree_mainOnly, ?_⟩
  decide +kernel

end FileSystem
end CodeAtlas

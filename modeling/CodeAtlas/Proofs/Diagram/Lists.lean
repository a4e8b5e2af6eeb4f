import CodeAtlas.Diagram
import CodeAtlas.Proofs.Diagram.Methods
import CodeAtlas.Proofs.Diagram.Tree

namespace CodeAtlas.Diagram

open Text

/-! ## Bodies -/

def bodyOf (text : String) : List String := ((rows text).drop 2).dropLast.dropLast

theorem bodyOf_block {kind : String} {body : List String} (named : IsOneLine kind)
    (each : ∀ line ∈ body, IsOneLine line) : bodyOf (unlines (block kind body)) = body := by
  have inner : ("```mermaid" :: kind :: (body ++ ["```"]) ++ [""]).drop 2 = body ++ ["```"] ++ [""] :=
    rfl
  rw [bodyOf, rows_unlines (isOneLine_block named each), block, inner, List.dropLast_concat,
    List.dropLast_concat]

/-! ## Modules -/

def labelOf? (line : String) : Option String :=
  (splitOnce? ['[', '"'] line.toList).map fun (_, label) => String.ofList label.dropLast.dropLast

def edgeOf? (line : String) : Option (String × String) :=
  (dropFront? [' ', ' ', ' ', ' '] line.toList).bind fun text =>
    (dropFront? [' ', '-', '-', '>', ' '] (text.dropWhile isIdChar)).map fun target =>
      (String.ofList (text.takeWhile isIdChar), String.ofList target)

def readModules (text : String) : List String := (bodyOf text).filterMap labelOf?

def readEdges (text : String) : List (String × String) := (bodyOf text).filterMap edgeOf?

def IsWord (id : String) : Prop := ∀ c ∈ id.toList, isIdChar c = true

theorem isWord_moduleId (index : Nat) : IsWord (moduleId index) := by
  intro c inside
  rw [moduleId, String.toList_append, List.mem_append, toList_toString] at inside
  rcases inside with letter | digit
  · exact List.all_eq_true.mp (by decide) c letter
  · simp [isIdChar, Char.isAlphanum, isDigit_of_mem_digitsOf digit, ← isDigit_eq]

theorem isMark_labelMark : IsMark ['[', '"'] := ⟨['['], '"', rfl, by decide⟩

section Words

variable {id label target : String} (word : IsWord id)

include word

theorem IsWord.not_mem {c : Char} (other : isIdChar c = false) : c ∉ id.toList := fun inside => by
  rw [word c inside] at other
  cases other

theorem IsWord.span {c : Char} (stop : isIdChar c = false) (rest : List Char) :
    (id.toList ++ c :: rest).takeWhile isIdChar = id.toList ∧
      (id.toList ++ c :: rest).dropWhile isIdChar = c :: rest := by
  rw [List.takeWhile_append_of_pos word, List.dropWhile_append_of_pos word]
  simp [stop]

theorem labelOf?_nodeLine : labelOf? (nodeLine id label) = some label := by
  have split : splitOnce? ['[', '"'] (nodeLine id label).toList =
      some ("    ".toList ++ id.toList, label.toList ++ ['"'] ++ [']']) := by
    rw [isMark_labelMark.splitOnce?_eq_some_iff]
    refine ⟨by simp [nodeLine], fun inside => ?_⟩
    rcases List.mem_append.mp (inside.subset (List.mem_cons_self (a := '['))) with blank | letter
    · exact absurd blank (by decide)
    · exact word.not_mem (by decide) letter
  simp only [labelOf?, split, Option.map_some, List.dropLast_concat, String.ofList_toList]

theorem labelOf?_edgeLine (other : IsWord target) : labelOf? (edgeLine id target) = none := by
  rw [labelOf?, Option.map_eq_none_iff, isMark_labelMark.splitOnce?_eq_none_iff]
  intro inside
  have mark : '[' ∈ (edgeLine id target).toList := inside.subset List.mem_cons_self
  simp [edgeLine, word.not_mem, other.not_mem, isIdChar] at mark

theorem edgeOf?_edgeLine : edgeOf? (edgeLine id target) = some (id, target) := by
  have whole : (edgeLine id target).toList = [' ', ' ', ' ', ' '] ++
      (id.toList ++ ' ' :: '-' :: '-' :: '>' :: ' ' :: target.toList) := by
    simp [edgeLine]
  obtain ⟨front, back⟩ := word.span (c := ' ') (by decide) ('-' :: '-' :: '>' :: ' ' :: target.toList)
  simp [edgeOf?, whole, dropFront?, front, back]

theorem edgeOf?_nodeLine : edgeOf? (nodeLine id label) = none := by
  have whole : (nodeLine id label).toList = [' ', ' ', ' ', ' '] ++
      (id.toList ++ '[' :: '"' :: (label.toList ++ ['"', ']'])) := by
    simp [nodeLine]
  obtain ⟨front, back⟩ := word.span (c := '[') (by decide) ('"' :: (label.toList ++ ['"', ']']))
  simp [edgeOf?, whole, dropFront?, back]

end Words

theorem filterMap_labelOf?_moduleLines (name : String) (index : Nat) :
    (moduleLines name index).filterMap labelOf? = [name] := by
  have node : ∀ index, labelOf? (nodeLine (moduleId index) name) = some name :=
    fun index => labelOf?_nodeLine (isWord_moduleId index)
  have edge := fun index => labelOf?_edgeLine (isWord_moduleId index) (isWord_moduleId (index + 1))
  cases index with
  | zero => simp [moduleLines, node]
  | succ index => simp [moduleLines, node, edge]

def edgesTo : (index : Nat) → List (String × String)
  | 0 => []
  | index + 1 => [(moduleId index, moduleId (index + 1))]

theorem filterMap_edgeOf?_moduleLines (name : String) (index : Nat) :
    (moduleLines name index).filterMap edgeOf? = edgesTo index := by
  have node : ∀ index, edgeOf? (nodeLine (moduleId index) name) = none :=
    fun index => edgeOf?_nodeLine (isWord_moduleId index)
  have edge : ∀ index, edgeOf? (edgeLine (moduleId index) (moduleId (index + 1))) =
      some (moduleId index, moduleId (index + 1)) :=
    fun index => edgeOf?_edgeLine (isWord_moduleId index)
  cases index with
  | zero => simp [moduleLines, node, edgesTo]
  | succ index => simp [moduleLines, node, edge, edgesTo]

theorem isOneLine_moduleId (index : Nat) : IsOneLine (moduleId index) :=
  (isWord_moduleId index).not_mem (by decide)

theorem isOneLine_moduleLines {name : String} (oneLine : IsOneLine name) (index : Nat) :
    ∀ line ∈ moduleLines name index, IsOneLine line := by
  have node := fun index => isOneLine_nodeLine (isOneLine_moduleId index) oneLine
  cases index with
  | zero => exact List.forall_mem_singleton.mpr (node 0)
  | succ index =>
      rw [moduleLines, List.forall_mem_cons, List.forall_mem_singleton]
      exact ⟨node _, isOneLine_edgeLine (isOneLine_moduleId _) (isOneLine_moduleId _)⟩

theorem isOneLine_modules {names : List String} (each : ∀ name ∈ names, IsOneLine name) :
    ∀ line ∈ (names.take maxModules).zipIdx.flatMap fun (name, index) => moduleLines name index,
      IsOneLine line := by
  intro line member
  obtain ⟨⟨name, index⟩, among, member⟩ := List.mem_flatMap.mp member
  exact isOneLine_moduleLines (each name (List.mem_of_mem_take (List.fst_mem_of_mem_zipIdx among)))
    index line member

theorem readModules_modules {names : List String} (each : ∀ name ∈ names, IsOneLine name) :
    readModules (modules names) = names.take maxModules := by
  rw [readModules, modules, modulesLines, bodyOf_block (by decide) (isOneLine_modules each),
    List.filterMap_flatMap]
  simp only [filterMap_labelOf?_moduleLines]
  rw [← List.map_eq_flatMap, List.zipIdx_map_fst]

theorem readEdges_modules {names : List String} (each : ∀ name ∈ names, IsOneLine name) :
    readEdges (modules names) = (List.range ((names.take maxModules).length - 1)).map fun index =>
      (moduleId index, moduleId (index + 1)) := by
  rw [readEdges, modules, modulesLines, bodyOf_block (by decide) (isOneLine_modules each),
    List.filterMap_flatMap]
  simp only [filterMap_edgeOf?_moduleLines]
  rw [← List.flatMap_map Prod.snd, List.zipIdx_map_snd, ← List.range_eq_range']
  cases (names.take maxModules).length with
  | zero => rfl
  | succ last =>
      rw [List.range_succ_eq_map, List.flatMap_cons, List.flatMap_map, List.map_eq_flatMap]
      rfl

/-! ## Functions -/

def halfLabel (line : String) : String :=
  let half := (line.toList.length - 8) / 2
  String.ofList ((line.toList.drop (half + 6)).take half)

def readFunctions (text : String) : List String := (bodyOf text).map halfLabel

theorem halfLabel_nodeLine {id label : String} (same : id.toList.length = label.toList.length) :
    halfLabel (nodeLine id label) = label := by
  have whole : (nodeLine id label).toList =
      "    ".toList ++ id.toList ++ ['[', '"'] ++ (label.toList ++ ['"', ']']) := by
    simp [nodeLine]
  have half : ((nodeLine id label).toList.length - 8) / 2 = label.toList.length := by
    simp only [nodeLine, String.toList_append, List.length_append, same]
    change (4 + label.toList.length + 2 + label.toList.length + 2 - 8) / 2 = label.toList.length
    omega
  have front : ("    ".toList ++ id.toList ++ ['[', '"']).length = label.toList.length + 6 := by
    simp only [List.length_append, same]
    change 4 + label.toList.length + 2 = label.toList.length + 6
    omega
  rw [halfLabel, half, whole, List.drop_left' front, List.take_left, String.ofList_toList]

theorem length_functionId (name : String) : (functionId name).toList.length = name.toList.length := by
  simp [functionId]

theorem isOneLine_functions {declarations : List Declaration}
    (each : ∀ declaration ∈ declarations, IsOneLine declaration.name) :
    ∀ line ∈ (declarations.take maxFunctions).map fun f => nodeLine (functionId f.name) f.name,
      IsOneLine line := by
  rw [List.forall_mem_map]
  intro declaration among
  have own := each declaration (List.mem_of_mem_take among)
  refine isOneLine_nodeLine ?_ own
  rw [functionId, isOneLine_ofList, List.mem_map]
  rintro ⟨c, inside, same⟩
  split at same
  · cases same
  · exact own (same ▸ inside)

theorem readFunctions_functions {declarations : List Declaration}
    (each : ∀ declaration ∈ declarations, IsOneLine declaration.name) :
    readFunctions (functions declarations) = (declarations.take maxFunctions).map (·.name) := by
  rw [readFunctions, functions, functionsLines, bodyOf_block (by decide) (isOneLine_functions each),
    List.map_map]
  exact List.map_congr_left fun declaration _ => halfLabel_nodeLine (length_functionId declaration.name)

/-! ## Classes -/

def inner? (front back line : String) : Option String :=
  ((dropFront? front.toList line.toList).bind (dropBack? back.toList)).map String.ofList

theorem inner?_append (front text back : String) :
    inner? front back (front ++ text ++ back) = some text := by
  simp [inner?, dropFront?, dropBack?_append]

def methodOf? (line : String) : Option String := inner? "        +" "()" line

def classOf? (line : String) : Option String := inner? "    class " " \x7b" line

def addLine (line : String) (read : List String × List (String × List String)) :
    List String × List (String × List String) :=
  match methodOf? line with
  | some name => (name :: read.1, read.2)
  | none =>
    match classOf? line with
    | some name => ([], (name, read.1) :: read.2)
    | none => read

def readClasses (text : String) : List (String × List String) :=
  ((bodyOf text).foldr addLine ([], [])).2

theorem isOneLine_classes {declarations : List Declaration}
    (each : ∀ declaration ∈ declarations, IsOneLine declaration.name) :
    ∀ line ∈ (declarations.take maxClasses).flatMap classLines, IsOneLine line := by
  intro line member
  obtain ⟨declaration, among, member⟩ := List.mem_flatMap.mp member
  have own := each declaration (List.mem_of_mem_take among)
  rw [classLines, List.cons_append, List.mem_cons, List.mem_append, List.mem_map,
    List.mem_singleton] at member
  rcases member with rfl | ⟨name, listed, rfl⟩ | rfl
  · simp only [isOneLine_append, own, and_true]
    decide
  · have method : IsOneLine name := (isMethodName_of_mem (List.mem_of_mem_take listed)).oneLine
    simp only [isOneLine_append, method, and_true]
    decide
  · decide

def shownMethods (declaration : Declaration) : String × List String :=
  (declaration.name, (methodNames declaration.sourceText).take maxMethods)

theorem addLine_method (name : String) (read : List String × List (String × List String)) :
    addLine ("        +" ++ name ++ "()") read = (name :: read.1, read.2) := by
  rw [addLine, methodOf?, inner?_append]

theorem addLine_class (name : String) (read : List String × List (String × List String)) :
    addLine ("    class " ++ name ++ " \x7b") read = ([], (name, read.1) :: read.2) := by
  have other : methodOf? ("    class " ++ name ++ " \x7b") = none := by
    simp [methodOf?, inner?, dropFront?]
  rw [addLine, other, classOf?, inner?_append]

theorem addLine_end (read : List String × List (String × List String)) :
    addLine "    \x7d" read = read := by
  have other : methodOf? "    \x7d" = none := by decide
  have noClass : classOf? "    \x7d" = none := by decide
  rw [addLine, other, noClass]

theorem foldr_classLines (declaration : Declaration) (read : List (String × List String)) :
    (classLines declaration).foldr addLine ([], read) = ([], shownMethods declaration :: read) := by
  have methods : ∀ names : List String,
      (names.map fun name => "        +" ++ name ++ "()").foldr addLine ([], read) = (names, read) := by
    intro names
    induction names with
    | nil => rfl
    | cons name rest ih => rw [List.map_cons, List.foldr_cons, ih, addLine_method]
  rw [classLines, List.cons_append, List.foldr_cons, List.foldr_append, List.foldr_cons, List.foldr_nil,
    addLine_end, methods, addLine_class, shownMethods]

theorem readClasses_classes {declarations : List Declaration}
    (each : ∀ declaration ∈ declarations, IsOneLine declaration.name) :
    readClasses (classes declarations) = (declarations.take maxClasses).map shownMethods := by
  have blocks : ∀ shown : List Declaration,
      (shown.flatMap classLines).foldr addLine ([], []) = ([], shown.map shownMethods) := by
    intro shown
    induction shown with
    | nil => rfl
    | cons first rest ih => rw [List.flatMap_cons, List.foldr_append, ih, foldr_classLines, List.map_cons]
  rw [readClasses, classes, classesLines, bodyOf_block (by decide) (isOneLine_classes each), blocks]

/-! ## All three -/

/-- Each of the three diagrams is read back, whatever is written in its names but line feeds: the first
modules with the edges between neighbours and no others, the first functions, and the first classes with
the first methods that the scan finds. -/
theorem diagrams_read {names : List String} {functions classes : List Declaration}
    (names_oneLine : ∀ name ∈ names, IsOneLine name)
    (functions_oneLine : ∀ declaration ∈ functions, IsOneLine declaration.name)
    (classes_oneLine : ∀ declaration ∈ classes, IsOneLine declaration.name) :
    readModules (modules names) = names.take 10 ∧
      readEdges (modules names) = (List.range ((names.take 10).length - 1)).map (fun index =>
        (moduleId index, moduleId (index + 1))) ∧
      readFunctions (Diagram.functions functions) = (functions.take 20).map (·.name) ∧
      readClasses (Diagram.classes classes) = (classes.take 30).map fun declaration =>
        (declaration.name, (methodNames declaration.sourceText).take 5) :=
  ⟨readModules_modules names_oneLine, readEdges_modules names_oneLine,
    readFunctions_functions functions_oneLine, readClasses_classes classes_oneLine⟩

def lookalikes : List String := ["a\"]", "    module_0 --> module_7", ""]

def oddFunctions : List Declaration := [⟨"f g", 1, ""⟩, ⟨"f-g", 2, ""⟩, ⟨"f_g[\"h\"]", 3, ""⟩]

def oddClasses : List Declaration :=
  [⟨"    \x7d", 1, "class A:\n  def run(self): x\n  def _hide(self): x\n  async def b c(self): x\n"⟩,
    ⟨"        +m()", 5, "def "⟩]

theorem diagrams_read_lookalikes :
    readModules (modules lookalikes) = lookalikes ∧
      readEdges (modules lookalikes) = [("module_0", "module_1"), ("module_1", "module_2")] ∧
      readFunctions (functions oddFunctions) = ["f g", "f-g", "f_g[\"h\"]"] ∧
      readClasses (classes oddClasses) = [("    \x7d", ["run", "b c"]), ("        +m()", [])] := by
  have plainNames : ∀ name ∈ lookalikes, IsOneLine name := by decide
  have plainFunctions : ∀ declaration ∈ oddFunctions, IsOneLine declaration.name := by decide
  have plainClasses : ∀ declaration ∈ oddClasses, IsOneLine declaration.name := by decide
  obtain ⟨shown, edges, called, blocks⟩ := diagrams_read plainNames plainFunctions plainClasses
  refine ⟨shown, edges.trans ?_, called, blocks.trans ?_⟩
  · decide
  · decide

end CodeAtlas.Diagram

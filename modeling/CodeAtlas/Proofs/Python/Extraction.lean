import CodeAtlas.Proofs.Text.Utf8
import CodeAtlas.Python.Outline
import Mathlib.Data.List.Forall2
import Mathlib.Data.List.Pairwise

/-!
# Outlines of trees

The records of an outline are ranges of the text, and no two of these overlap, whatever the parser, if the
nodes of its trees stand where they say (`FileOutline.extract_spans`).
-/

namespace CodeAtlas

structure Span where
  start : Nat
  stop : Nat

namespace Span

def Locates (span : Span) (source text : String) (line : Nat) : Prop :=
  ∃ before after, source = before ++ text ++ after ∧ span.start = before.utf8ByteSize ∧
    span.stop = span.start + text.utf8ByteSize ∧ line = 1 + before.toList.count '\n'

def Before (a b : Span) : Prop := a.start < b.start ∧ a.stop ≤ b.start

def Disjoint (a b : Span) : Prop := a.stop ≤ b.start ∨ b.stop ≤ a.start

end Span

namespace Python

/-! ## Ranges -/

theorem byteLength_append (a b : List Char) : byteLength (a ++ b) = byteLength a + byteLength b := by
  simp [byteLength, String.ofList_append]

theorem byteLength_toList (s : String) : byteLength s.toList = s.utf8ByteSize := by
  rw [byteLength, String.ofList_toList]

theorem byteLength_pos {text : List Char} (nonempty : text ≠ []) : 0 < byteLength text := by
  cases text with
  | nil => exact absurd rfl nonempty
  | cons c rest =>
      have first : byteLength [c] = c.utf8Size := String.utf8ByteSize_singleton
      have size := byteLength_append [c] rest
      rw [List.singleton_append, first] at size
      have positive := c.utf8Size_pos
      omega

theorem prefix_of_byteLength_le {a b c d : List Char} (same : a ++ c = b ++ d)
    (shorter : byteLength a ≤ byteLength b) : a <+: b := by
  rcases List.append_eq_append_iff.mp same with ⟨rest, rfl, -⟩ | ⟨rest, rfl, -⟩
  · exact List.prefix_append a rest
  · rw [byteLength_append] at shorter
    have nothing : rest = [] := by
      by_contra more
      have positive := byteLength_pos more
      omega
    exact ⟨[], by rw [nothing, List.append_nil, List.append_nil]⟩

end Python

namespace Span

open Python

variable {a b : Span} {source text other : String} {line row : Nat}

theorem Locates.line_le (first : a.Locates source text line) (second : b.Locates source other row)
    (ordered : a.start ≤ b.start) : line ≤ row := by
  obtain ⟨before, after, rfl, start, -, rfl⟩ := first
  obtain ⟨front, back, same, begins, -, rfl⟩ := second
  have chars := congrArg String.toList same
  simp only [String.toList_append, List.append_assoc] at chars
  have ahead : before.toList <+: front.toList := by
    refine prefix_of_byteLength_le chars ?_
    rw [byteLength_toList, byteLength_toList]
    omega
  have lines := ahead.sublist.count_le '\n'
  omega

theorem Locates.includes (outer : a.Locates source text line) (inner : b.Locates source other row)
    (starts : a.start ≤ b.start) (stops : b.stop ≤ a.stop) : other.toList <:+: text.toList := by
  obtain ⟨before, after, rfl, start, stop, -⟩ := outer
  obtain ⟨front, back, same, begins, ends, -⟩ := inner
  have chars := congrArg String.toList same
  simp only [String.toList_append, List.append_assoc] at chars
  obtain ⟨between, split⟩ : before.toList <+: front.toList := by
    refine prefix_of_byteLength_le chars ?_
    rw [byteLength_toList, byteLength_toList]
    omega
  have sizes := congrArg byteLength split
  rw [byteLength_append, byteLength_toList, byteLength_toList] at sizes
  rw [← split, List.append_assoc, List.append_cancel_left_eq, ← List.append_assoc] at chars
  have inside : between ++ other.toList <+: text.toList := by
    refine prefix_of_byteLength_le chars.symm ?_
    rw [byteLength_append, byteLength_toList, byteLength_toList]
    omega
  exact (List.suffix_append _ _).isInfix.trans inside.isInfix

end Span

theorem Bytes.length_ofString (s : String) : (ofString s).length = s.utf8ByteSize := by
  simp [ofString]

/-! ## Trees -/

namespace Python

def itemKinds : List String :=
  ["function_definition", "class_definition", "import_statement", "import_from_statement"]

namespace Node

def span (node : Node) : Span := ⟨node.start, node.stop⟩

def Spans (node : Node) (source text : String) : Prop := node.span.Locates source text node.line

/-- The nodes below the root of a tree are in order, and disjoint. They span texts, and the nodes below
them parts of these. -/
structure Maps (root : Node) (source : String) : Prop where
  spans : ∀ node ∈ root.children, ∃ text, node.Spans source text
  nonempty : ∀ node ∈ root.children, node.kind ∈ itemKinds → node.start < node.stop
  ordered : root.children.Pairwise fun a b => a.stop ≤ b.start
  nested : ∀ node ∈ root.children, ∀ child ∈ node.children,
    node.start ≤ child.start ∧ child.stop ≤ node.stop ∧ ∃ text, child.Spans source text

theorem text_of_spans {node : Node} {source text : String} (spans : node.Spans source text) :
    node.text (Bytes.ofString source) = .ok text := by
  obtain ⟨before, after, rfl, start, stop, -⟩ := spans
  have bytes : ((Bytes.ofString (before ++ text ++ after)).take node.stop).drop node.start =
      Bytes.ofString text := by
    change node.start = _ at start
    change node.stop = node.start + _ at stop
    rw [stop, start, Bytes.ofString_append, ← Bytes.length_ofString, ← Bytes.length_ofString,
      ← List.length_append, ← Bytes.ofString_append, List.take_left, Bytes.ofString_append, List.drop_left]
  rw [Node.text, bytes]
  simp only [Bytes.decode?_ofString]

def declared? (kind : String) (source : Bytes) (node : Node) : Option Declaration :=
  if node.kind == kind then node.declaration? source else none

def imported? (source : Bytes) (node : Node) : Option ImportRecord :=
  if node.kind == "import_statement" || node.kind == "import_from_statement" then
    (node.text source).toOption.map fun text => ⟨node.line, text⟩
  else none

theorem declared?_exclusive {kind other : String} (different : kind ≠ other) (source : Bytes)
    (node : Node) : node.declared? kind source = none ∨ node.declared? other source = none := by
  by_cases same : node.kind = kind
  · exact .inr (if_neg (by simp [same, different]))
  · exact .inl (if_neg (by simp [same]))

theorem imported?_exclusive {kind : String} (names : kind ≠ "import_statement")
    (namesFrom : kind ≠ "import_from_statement") (source : Bytes) (node : Node) :
    node.declared? kind source = none ∨ node.imported? source = none := by
  by_cases same : node.kind = kind
  · exact .inr (if_neg (by simp [same, names, namesFrom]))
  · exact .inl (if_neg (by simp [same]))

end Node

/-- A parser that has a tree for every text, with the nodes where they stand in the text. -/
def Parser.Faithful (parse : Parser) : Prop :=
  ∀ source, ∃ root, parse source = some root ∧ root.Maps source

theorem addNodes_eq {source : Bytes} {nodes : List Node}
    (readable : ∀ node ∈ nodes, ∃ text, node.text source = .ok text) (file : FileOutline) :
    file.addNodes source nodes = { file with
      functions := file.functions ++ nodes.filterMap (Node.declared? "function_definition" source)
      classes := file.classes ++ nodes.filterMap (Node.declared? "class_definition" source)
      imports := file.imports ++ nodes.filterMap (Node.imported? source) } := by
  induction nodes generalizing file with
  | nil => simp [FileOutline.addNodes]
  | cons node rest ih =>
      rw [List.forall_mem_cons] at readable
      obtain ⟨⟨text, read⟩, readable⟩ := readable
      unfold FileOutline.addNodes
      cases isFunction : node.kind == "function_definition" with
      | true =>
          have kind := beq_iff_eq.mp isFunction
          rw [if_pos rfl, ih readable]
          cases made : node.declaration? source <;>
            simp [Node.declared?, Node.imported?, kind, made]
      | false =>
      cases isClass : node.kind == "class_definition" with
      | true =>
          have kind := beq_iff_eq.mp isClass
          rw [if_neg Bool.false_ne_true, if_pos rfl, ih readable]
          cases made : node.declaration? source <;>
            simp [Node.declared?, Node.imported?, kind, made]
      | false =>
          rw [if_neg Bool.false_ne_true, if_neg Bool.false_ne_true, read]
          simp only [List.filterMap_cons, Node.declared?, Node.imported?, isFunction, isClass, read]
          split <;> simp [ih readable, Except.toOption]

theorem extract_eq {parse : Parser} {source : String} {root : Node} (parsed : parse source = some root)
    (maps : root.Maps source) (path : Path) :
    FileOutline.extract parse path source =
      { path
        functions := root.children.filterMap
          (Node.declared? "function_definition" (Bytes.ofString source))
        classes := root.children.filterMap (Node.declared? "class_definition" (Bytes.ofString source))
        imports := root.children.filterMap (Node.imported? (Bytes.ofString source))
        errors := [] } := by
  rw [FileOutline.extract, parsed]
  refine (addNodes_eq (fun node among => ?_) _).trans rfl
  exact (maps.spans node among).imp fun _ => Node.text_of_spans

/-! ## Records -/

def spansOf {α : Type} (f : Node → Option α) (nodes : List Node) : List Span :=
  nodes.filterMap fun node => (f node).map fun _ => node.span

/-- The records are ranges of the source in increasing order, each with the line that it begins on. -/
structure InPlace {α : Type} (source : String) (text : α → String) (line : α → Nat) (records : List α)
    (spans : List Span) : Prop where
  located : List.Forall₂ (fun record span => Span.Locates span source (text record) (line record))
    records spans
  spansOrdered : spans.Pairwise Span.Before
  linesOrdered : (records.map line).Pairwise (· ≤ ·)

namespace Node.Maps

variable {root : Node} {source : String} (maps : root.Maps source)

include maps

theorem inPlace {α : Type} {text : α → String} {line : α → Nat} {f : Node → Option α}
    (faithful : ∀ node ∈ root.children, ∀ record, f node = some record →
      node.kind ∈ itemKinds ∧ node.Spans source (text record) ∧ line record = node.line) :
    InPlace source text line (root.children.filterMap f) (spansOf f root.children) := by
  -- Order is a fact on pairs of nodes, and the records are picked from the nodes in their order.
  have ordered : root.children.Pairwise fun a b =>
      (a.kind ∈ itemKinds → a.span.Before b.span) ∧ a.line ≤ b.line := by
    refine maps.ordered.imp_of_mem fun {a b} here there before => ⟨fun item => ?_, ?_⟩
    · exact ⟨Nat.lt_of_lt_of_le (maps.nonempty a here item) before, before⟩
    · obtain ⟨text, first⟩ := maps.spans a here
      obtain ⟨other, second⟩ := maps.spans b there
      refine first.line_le second (Nat.le_trans ?_ before)
      obtain ⟨-, -, -, -, stop, -⟩ := first
      exact Nat.le.intro stop.symm
  constructor
  · clear maps ordered
    generalize root.children = nodes at faithful
    induction nodes with
    | nil => exact .nil
    | cons node rest ih =>
        rw [List.forall_mem_cons] at faithful
        cases made : f node with
        | none => simpa [spansOf, made] using ih faithful.2
        | some record =>
            obtain ⟨-, spans, line⟩ := faithful.1 record made
            rw [Spans, ← line] at spans
            simpa [spansOf, made] using And.intro spans (ih faithful.2)
  · rw [spansOf, List.pairwise_filterMap]
    refine ordered.imp_of_mem fun {a b} here there before span fromA other fromB => ?_
    obtain ⟨record, made, rfl⟩ := Option.map_eq_some_iff.mp fromA
    obtain ⟨-, -, rfl⟩ := Option.map_eq_some_iff.mp fromB
    exact before.1 (faithful a here record made).1
  · rw [List.pairwise_map, List.pairwise_filterMap]
    refine ordered.imp_of_mem fun {a b} here there before first fromA second fromB => ?_
    rw [(faithful a here first fromA).2.2, (faithful b there second fromB).2.2]
    exact before.2

theorem disjoint {α β : Type} {f : Node → Option α} {g : Node → Option β}
    (exclusive : ∀ node, f node = none ∨ g node = none) :
    ∀ a ∈ spansOf f root.children, ∀ b ∈ spansOf g root.children, Span.Disjoint a b := by
  have apart : root.children.Pairwise fun a b => Span.Disjoint a.span b.span := maps.ordered.imp .inl
  have symmetric : Std.Symm fun a b : Node => Span.Disjoint a.span b.span :=
    ⟨fun _ _ disjoint => disjoint.symm⟩
  intro a fromF b fromG
  obtain ⟨x, xMember, xMade⟩ := List.mem_filterMap.mp fromF
  obtain ⟨y, yMember, yMade⟩ := List.mem_filterMap.mp fromG
  obtain ⟨first, xRecord, rfl⟩ := Option.map_eq_some_iff.mp xMade
  obtain ⟨second, yRecord, rfl⟩ := Option.map_eq_some_iff.mp yMade
  refine apart.forall xMember yMember ?_
  rintro rfl
  rcases exclusive x with none | none
  · rw [xRecord] at none
    cases none
  · rw [yRecord] at none
    cases none

theorem of_declared? {kind : String} {node : Node} {declaration : Declaration}
    (item : kind ∈ itemKinds) (among : node ∈ root.children)
    (made : node.declared? kind (Bytes.ofString source) = some declaration) :
    node.kind ∈ itemKinds ∧ node.Spans source declaration.sourceText ∧ declaration.line = node.line ∧
      declaration.name.toList <:+: declaration.sourceText.toList := by
  unfold declared? at made
  split at made
  · rename_i same
    obtain ⟨text, spans⟩ := maps.spans node among
    simp only [declaration?, text_of_spans spans, Except.toOption, Option.bind_eq_bind,
      Option.bind_eq_some_iff, Option.pure_def, Option.some.injEq] at made
    obtain ⟨child, found, name, named, _, rfl, rfl⟩ := made
    obtain ⟨starts, stops, inner, below⟩ := maps.nested node among child (List.mem_of_find?_eq_some found)
    rw [text_of_spans below] at named
    cases named
    exact ⟨beq_iff_eq.mp same ▸ item, spans, rfl, spans.includes below starts stops⟩
  · cases made

theorem of_imported? {node : Node} {record : ImportRecord} (among : node ∈ root.children)
    (made : node.imported? (Bytes.ofString source) = some record) :
    node.kind ∈ itemKinds ∧ node.Spans source record.sourceText ∧ record.line = node.line := by
  unfold imported? at made
  split at made
  · rename_i kind
    obtain ⟨text, spans⟩ := maps.spans node among
    rw [text_of_spans spans] at made
    cases made
    refine ⟨?_, spans, rfl⟩
    rw [Bool.or_eq_true, beq_iff_eq, beq_iff_eq] at kind
    rcases kind with kind | kind <;> simp [itemKinds, kind]
  · cases made

theorem inPlace_declared {kind : String} (item : kind ∈ itemKinds) :
    InPlace source Declaration.sourceText Declaration.line
      (root.children.filterMap (declared? kind (Bytes.ofString source)))
      (spansOf (declared? kind (Bytes.ofString source)) root.children) := by
  refine maps.inPlace fun node among declaration made => ?_
  obtain ⟨listed, spans, line, -⟩ := maps.of_declared? item among made
  exact ⟨listed, spans, line⟩

end Node.Maps
end Python

/-- If the parser has a tree for every text, with nodes that stand where they say, then an outline has no
errors, and its records are ranges of the text: in order within each list, and disjoint among all
three. -/
theorem FileOutline.extract_spans {parse : Python.Parser} (faithful : parse.Faithful) (path : Path)
    (source : String) :
    (extract parse path source).errors = [] ∧
      ∃ functions classes imports : List Span,
        Python.InPlace source Declaration.sourceText Declaration.line
            (extract parse path source).functions functions ∧
          Python.InPlace source Declaration.sourceText Declaration.line
            (extract parse path source).classes classes ∧
          Python.InPlace source ImportRecord.sourceText ImportRecord.line
            (extract parse path source).imports imports ∧
          (functions ++ classes ++ imports).Pairwise Span.Disjoint ∧
          ∀ declaration ∈ (extract parse path source).functions ++ (extract parse path source).classes,
            declaration.name.toList <:+: declaration.sourceText.toList := by
  obtain ⟨root, parsed, maps⟩ := faithful source
  have isFunction : "function_definition" ∈ Python.itemKinds := by decide
  have isClass : "class_definition" ∈ Python.itemKinds := by decide
  have functions := maps.inPlace_declared isFunction
  have classes := maps.inPlace_declared isClass
  have imports := maps.inPlace fun node among record made => maps.of_imported? among made
  rw [Python.extract_eq parsed maps]
  refine ⟨rfl, _, _, _, functions, classes, imports, ?_, ?_⟩
  · rw [List.pairwise_append, List.pairwise_append]
    have inOrder : ∀ {spans : List Span}, spans.Pairwise Span.Before → spans.Pairwise Span.Disjoint :=
      fun ordered => ordered.imp fun before => .inl before.2
    refine ⟨⟨inOrder functions.spansOrdered, inOrder classes.spansOrdered, ?_⟩,
      inOrder imports.spansOrdered, ?_⟩
    · exact maps.disjoint (Python.Node.declared?_exclusive (by decide) _)
    · intro a member
      rcases List.mem_append.mp member with member | member
      · exact maps.disjoint (Python.Node.imported?_exclusive (by decide) (by decide) _) a member
      · exact maps.disjoint (Python.Node.imported?_exclusive (by decide) (by decide) _) a member
  · intro declaration member
    rw [List.mem_append, List.mem_filterMap, List.mem_filterMap] at member
    rcases member with ⟨node, among, made⟩ | ⟨node, among, made⟩
    · exact (maps.of_declared? isFunction among made).2.2.2
    · exact (maps.of_declared? isClass among made).2.2.2

end CodeAtlas

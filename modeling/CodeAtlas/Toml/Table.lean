namespace CodeAtlas

namespace Toml

inductive Origin where
  | header
  | implied
  | dotted
  | inline
  | inlineDotted
  deriving DecidableEq, Inhabited

def Origin.isInline (origin : Origin) : Bool := origin == inline || origin == inlineDotted

def Origin.isDotted (origin : Origin) : Bool := origin == dotted || origin == inlineDotted

def Origin.isImplicit (origin : Origin) : Bool := origin == implied || origin.isDotted

end Toml

inductive Toml where
  | text (s : String)
  | integer (n : Int)
  | float (literal : String)
  | boolean (b : Bool)
  | datetime (literal : String)
  | array (items : List Toml)
  | tables (items : List Toml)
  | table (origin : Toml.Origin) (entries : List (String × Toml))
  deriving Inhabited

namespace Toml

abbrev Entries := List (String × Toml)

def lookup (key : String) (entries : Entries) : Option Toml := List.lookup key entries

def assign (key : String) (value : Toml) : Entries → Entries
  | [] => [(key, value)]
  | (other, old) :: rest =>
    if other = key then (other, value) :: rest else (other, old) :: assign key value rest

end Toml
end CodeAtlas

namespace CodeAtlas.Toml

structure Draft where
  origin : Origin
  entries : Entries

def Draft.value (draft : Draft) : Toml := .table draft.origin draft.entries

/-- How a path of keys is followed: by a header, by a dotted key, or by a dotted key in braces. -/
inductive Following where
  | header
  | dotted
  | inline
  deriving DecidableEq

def Following.origin : Following → Origin
  | header => .implied
  | dotted => .dotted
  | inline => .inlineDotted

def Following.enters (way : Following) (origin : Origin) : Bool :=
  match way with
  | header => !origin.isInline
  | dotted => !origin.isInline && origin.isImplicit
  | inline => origin == .inlineDotted

def alterLast? (f : Toml → Option Toml) : List Toml → Option (List Toml)
  | [] => none
  | [item] => (f item).map fun item => [item]
  | item :: rest => (alterLast? f rest).map (item :: ·)

/-- Changes the table at the end of a path. Of the tables under a repeated header, the last one counts. -/
def Draft.alter? (way : Following) (f : Draft → Option Draft) : List String → Draft → Option Draft
  | [], draft => f draft
  | key :: path, draft =>
    let enter (value : Toml) : Option Toml :=
      match value with
      | .table origin entries =>
        if way.enters origin then (alter? way f path ⟨origin, entries⟩).map Draft.value else none
      | _ => none
    let changed : Option Toml :=
      match lookup key draft.entries with
      | none => (alter? way f path ⟨way.origin, []⟩).map Draft.value
      | some (.tables items) =>
        if way = .inline then none
        else
          (alterLast? (fun item =>
            match item with
            | .table origin entries => (alter? way f path ⟨origin, entries⟩).map Draft.value
            | _ => none) items).map .tables
      | some value => enter value
    changed.map fun value => ⟨draft.origin, assign key value draft.entries⟩

/-- Adds an entry under a key, which must be new. Only dotted keys add to a table that dotted keys made. -/
def Draft.add? (way : Following) (path : List String) (key : String) (value : Toml) (draft : Draft) :
    Option Draft :=
  draft.alter? way
    (fun table =>
      if table.origin.isDotted == path.isEmpty then none
      else
        match lookup key table.entries with
        | some _ => none
        | none => some ⟨table.origin, table.entries ++ [(key, value)]⟩)
    path

def Draft.beginTable? (path : List String) (key : String) (draft : Draft) : Option Draft :=
  draft.alter? .header
    (fun parent =>
      match lookup key parent.entries with
      | none => some ⟨parent.origin, parent.entries ++ [(key, .table .header [])]⟩
      | some (.table .implied entries) =>
        some ⟨parent.origin, assign key (.table .header entries) parent.entries⟩
      | some _ => none)
    path

def Draft.beginTables? (path : List String) (key : String) (draft : Draft) : Option Draft :=
  draft.alter? .header
    (fun parent =>
      match lookup key parent.entries with
      | none => some ⟨parent.origin, parent.entries ++ [(key, .tables [.table .header []])]⟩
      | some (.tables items) =>
        some ⟨parent.origin, assign key (.tables (items ++ [.table .header []])) parent.entries⟩
      | some _ => none)
    path

end CodeAtlas.Toml

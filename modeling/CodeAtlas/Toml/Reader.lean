import CodeAtlas.Toml.Quoted
import CodeAtlas.Toml.Scalar
import CodeAtlas.Toml.Table

namespace CodeAtlas.Toml

def maxNesting : Nat := 80

/-! ## Blanks, comments and line ends -/

def skipBlanks (s : List Char) : List Char := s.dropWhile fun c => c == ' ' || c == '\t'

def afterComment? (s : List Char) : Option (List Char) :=
  match s with
  | '#' :: rest =>
    match rest.dropWhile isPlain with
    | [] => some []
    | '\n' :: more => some ('\n' :: more)
    | '\r' :: '\n' :: more => some ('\r' :: '\n' :: more)
    | _ => none
  | s => some s

def afterLineEnd? : List Char → Option (List Char)
  | [] => some []
  | '\n' :: rest => some rest
  | '\r' :: '\n' :: rest => some rest
  | _ => none

def endLine? (s : List Char) : Option (List Char) := (afterComment? (skipBlanks s)).bind afterLineEnd?

def skipLines? (s : List Char) : Option (List Char) :=
  match s with
  | [] => some []
  | ' ' :: rest => skipLines? rest
  | '\t' :: rest => skipLines? rest
  | '\n' :: rest => skipLines? rest
  | '\r' :: '\n' :: rest => skipLines? rest
  | '#' :: rest =>
    match afterComment? ('#' :: rest) with
    | none => none
    | some after => if after.length < rest.length + 1 then skipLines? after else none
  | c :: rest => some (c :: rest)
termination_by s.length

/-! ## Keys -/

def isBareKeyChar (c : Char) : Bool := c.isAlphanum || c == '_' || c == '-'

def simpleKey? (s : List Char) : Option (String × List Char) :=
  match s with
  | '"' :: rest => (basic? rest).map fun (key, rest) => (String.ofList key, rest)
  | '\'' :: rest => (literal? rest).map fun (key, rest) => (String.ofList key, rest)
  | s =>
    if (s.takeWhile isBareKeyChar).isEmpty then none
    else some (String.ofList (s.takeWhile isBareKeyChar), s.dropWhile isBareKeyChar)

/-- A dotted key with the blanks around it, split before its last part. `parts` bounds its parts. -/
def key? : (parts : Nat) → List Char → Option ((List String × String) × List Char)
  | 0, _ => none
  | parts + 1, s =>
    match simpleKey? (skipBlanks s) with
    | none => none
    | some (first, rest) =>
      match skipBlanks rest with
      | '.' :: rest =>
        (key? parts rest).map fun ((path, last), rest) => ((first :: path, last), rest)
      | rest => some (([], first), rest)

/-! ## Values -/

mutual

/-- A value. `levels` says how many more brackets and braces may be open, and `fuel` bounds the steps. -/
def value? : (fuel levels : Nat) → List Char → Option (Toml × List Char)
  | 0, _, _ => none
  | fuel + 1, levels, s =>
    match s with
    | '[' :: rest =>
      match levels with
      | 0 => none
      | levels + 1 => (items? fuel levels rest).map fun (items, rest) => (.array items, rest)
    | '{' :: rest =>
      match levels with
      | 0 => none
      | levels + 1 =>
        match skipBlanks rest with
        | '}' :: rest => some (.table .inline [], rest)
        | rest => (pairs? fuel levels ⟨.inline, []⟩ rest).map fun (draft, rest) => (draft.value, rest)
    | '"' :: rest =>
      (quoted? ('"' :: rest)).map fun (chars, rest) => (.text (String.ofList chars), rest)
    | '\'' :: rest =>
      (quoted? ('\'' :: rest)).map fun (chars, rest) => (.text (String.ofList chars), rest)
    | s => takeScalar? s

def items? : (fuel levels : Nat) → List Char → Option (List Toml × List Char)
  | 0, _, _ => none
  | fuel + 1, levels, s =>
    match skipLines? s with
    | none => none
    | some (']' :: rest) => some ([], rest)
    | some s =>
      match value? fuel levels s with
      | none => none
      | some (item, rest) =>
        match skipLines? rest with
        | some (']' :: rest) => some ([item], rest)
        | some (',' :: rest) => (items? fuel levels rest).map fun (items, rest) => (item :: items, rest)
        | _ => none

def pairs? : (fuel levels : Nat) → Draft → List Char → Option (Draft × List Char)
  | 0, _, _, _ => none
  | fuel + 1, levels, draft, s =>
    match key? (maxNesting - 1) s with
    | some ((path, key), '=' :: rest) =>
      match value? fuel levels (skipBlanks rest) with
      | none => none
      | some (value, rest) =>
        match draft.add? .inline path key value, skipBlanks rest with
        | some draft, '}' :: rest => some (draft, rest)
        | some draft, ',' :: rest => pairs? fuel levels draft rest
        | _, _ => none
    | _ => none

end

/-! ## Lines -/

inductive Line where
  | nothing
  | header (path : List String) (key : String)
  | repeatedHeader (path : List String) (key : String)
  | entry (path : List String) (key : String) (value : Toml)

def header? (s : List Char) : Option (Line × List Char) :=
  match s with
  | '[' :: rest =>
    match key? (maxNesting - 1) rest with
    | some ((path, key), ']' :: ']' :: rest) => some (.repeatedHeader path key, rest)
    | _ => none
  | s =>
    match key? (maxNesting - 1) s with
    | some ((path, key), ']' :: rest) => some (.header path key, rest)
    | _ => none

def entry? (s : List Char) : Option (Line × List Char) :=
  match key? (maxNesting - 1) s with
  | some ((path, key), '=' :: rest) =>
    (value? (2 * rest.length + 2) (maxNesting - 1) (skipBlanks rest)).map fun (value, rest) =>
      (.entry path key value, rest)
  | _ => none

def line? (s : List Char) : Option (Line × List Char) :=
  let content : Option (Line × List Char) :=
    match skipBlanks s with
    | [] => some (.nothing, [])
    | '#' :: rest => some (.nothing, '#' :: rest)
    | '\n' :: rest => some (.nothing, '\n' :: rest)
    | '\r' :: rest => some (.nothing, '\r' :: rest)
    | '[' :: rest => header? rest
    | s => entry? s
  match content with
  | none => none
  | some (line, rest) => (endLine? rest).map fun rest => (line, rest)

def lines? (s : List Char) : Option (List Line) :=
  match s with
  | [] => some []
  | c :: rest =>
    match line? (c :: rest) with
    | none => none
    | some (line, after) =>
      if after.length < rest.length + 1 then (lines? after).map (line :: ·) else none
termination_by s.length

/-! ## Documents -/

/-- A document as far as it is read: its table, and the path of the header that the next entry is
under. -/
structure Reading where
  draft : Draft
  place : List String

def Reading.feed (reading : Reading) : Line → Option Reading
  | .nothing => some reading
  | .header path key =>
    (reading.draft.beginTable? path key).map fun draft => ⟨draft, path ++ [key]⟩
  | .repeatedHeader path key =>
    (reading.draft.beginTables? path key).map fun draft => ⟨draft, path ++ [key]⟩
  | .entry path key value =>
    (reading.draft.alter? .header (fun table => table.add? .dotted path key value) reading.place).map
      fun draft => ⟨draft, reading.place⟩

def byteOrderMark : Char := '\uFEFF'

def read? (s : String) : Option Entries :=
  let document := match s.toList with
    | [] => []
    | c :: rest => if c = byteOrderMark then rest else c :: rest
  match (lines? document).bind (·.foldlM Reading.feed ⟨⟨.header, []⟩, []⟩) with
  | some reading => some reading.draft.entries
  | none => none

end CodeAtlas.Toml

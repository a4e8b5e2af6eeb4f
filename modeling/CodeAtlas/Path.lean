import CodeAtlas.Text
import CodeAtlas.Text.Lowercase
import CodeAtlas.Text.Utf8

namespace CodeAtlas

abbrev Name := Bytes

structure Path where
  bytes : Bytes
  deriving DecidableEq, Inhabited

namespace Path

inductive Component where
  | root
  | current
  | parent
  | normal (name : Name)
  deriving DecidableEq

def slash : UInt8 := 0x2F

def dot : UInt8 := 0x2E

def ofString (s : String) : Path := ⟨Bytes.ofString s⟩

def toText? (p : Path) : Option String := Bytes.decode? p.bytes

def display (p : Path) : String := Bytes.display p.bytes

def isEmpty (p : Path) : Bool := p.bytes.isEmpty

def isAbsolute (p : Path) : Bool := p.bytes.head? == some slash

def pieces (p : Path) : List Name := Text.splitOn slash p.bytes

def isTrivial (piece : Name) : Bool := piece.isEmpty || piece == [dot]

def Component.ofPiece (piece : Name) : Component :=
  if piece == [dot, dot] then .parent else .normal piece

def Component.ofFirst (first : Name) : Component :=
  if first.isEmpty then .root else if first == [dot] then .current else .ofPiece first

def Component.name : Component → Name
  | .root => [slash]
  | .current => [dot]
  | .parent => [dot, dot]
  | .normal name => name

def components (p : Path) : List Component :=
  if p.isEmpty then []
  else
    match p.pieces with
    | [] => []
    | first :: body =>
      .ofFirst first :: (body.filter fun piece => !isTrivial piece).map .ofPiece

def join (p q : Path) : Path :=
  if q.isAbsolute || p.isEmpty then q
  else if p.bytes.getLast? == some slash then ⟨p.bytes ++ q.bytes⟩
  else ⟨p.bytes ++ slash :: q.bytes⟩

def entry (p : Path) (name : Name) : Path := p.join ⟨name⟩

def dropLastWhile (p : Name → Bool) (pieces : List Name) : List Name :=
  (pieces.reverse.dropWhile p).reverse

def ofPieces (first : Name) (body : List Name) : Path :=
  if first.isEmpty && body.isEmpty then ⟨[slash]⟩ else ⟨Text.joinWith [slash] (first :: body)⟩

def dropSteps : Nat → List Name → List Name
  | 0, body => body
  | n + 1, body => dropSteps n (body.dropWhile isTrivial).tail

def strip? (base p : Path) : Option Path :=
  if base.components.isPrefixOf p.components then
    match p.pieces, base.components.length with
    | [], _ => some p
    | first :: body, 0 =>
      some (if p.isEmpty then p else ofPieces first (dropLastWhile isTrivial body))
    | _ :: body, n + 1 =>
      let rest := dropLastWhile isTrivial ((dropSteps n body).dropWhile isTrivial)
      some ⟨Text.joinWith [slash] rest⟩
  else none

def relativeTo (p base : Path) : Path := (strip? base p).getD p

def parent? (p : Path) : Option Path :=
  match p.pieces with
  | [] => none
  | first :: body =>
    match dropLastWhile isTrivial body with
    | [] => if first.isEmpty then none else some ⟨[]⟩
    | step :: steps =>
      some (ofPieces first (dropLastWhile isTrivial (step :: steps).dropLast))

def fileName? (p : Path) : Option Name :=
  match p.components.getLast? with
  | some (.normal name) => some name
  | _ => none

def ancestors (p : Path) : List Path := go p.pieces.length p
where
  go : Nat → Path → List Path
    | 0, p => [p]
    | n + 1, p =>
      match p.parent? with
      | some q => p :: go n q
      | none => [p]

end Path

def ignoreTokens : List String :=
  [".git", "__pycache__", "node_modules", ".venv", "venv", ".pytest_cache", ".mypy_cache", ".idea",
    ".vscode", ".pyc", ".pyo", ".pyd", ".ds_store", "thumbs.db"]

def hasIgnoreToken (text : List Char) : Bool :=
  ignoreTokens.any fun token => Text.contains token.toList text

def Path.isIgnored (path : Path) : Bool :=
  hasIgnoreToken (Text.lowercase (Bytes.decodeLossy path.bytes))

def Path.ofNames (names : List Name) : Path := ⟨Text.joinWith [slash] names⟩

end CodeAtlas

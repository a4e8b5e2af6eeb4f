import CodeAtlas.FileSystem.Entry

namespace CodeAtlas

structure FileSystem where
  entries : List (Name × Entry)
  workingDirectory : Place
  deriving Inhabited

/-- Where a path leads: to an entry, or to a free name in an existing directory. The flag says that
the free name is followed by a slash. -/
inductive Arrival where
  | found (place : Place)
  | vacant (directory : Place) (name : Name) (withSlash : Bool)
  deriving DecidableEq

inductive Progress where
  | arrived (arrival : Arrival)
  | refused (fault : Fault)
  | atLink (directory : Place) (target : Path) (rest : List Name)

def maxLinks : Nat := 40

def maxNameLength : Nat := 255

def maxPathLength : Nat := 4095

namespace FileSystem

def top (fs : FileSystem) : Entry := .directory fs.entries

def get? (fs : FileSystem) (place : Place) : Option Entry := fs.top.get? place

def advance (fs : FileSystem) (followLast : Bool) : Place → List Name → Progress
  | place, [] => .arrived (.found place)
  | place, piece :: rest =>
    if Path.isTrivial piece then advance fs followLast place rest
    else if piece = [Path.dot, Path.dot] then advance fs followLast place.dropLast rest
    else
      match fs.get? (place ++ [piece]) with
      | none =>
        if rest.all List.isEmpty then .arrived (.vacant place piece (!rest.isEmpty))
        else .refused (if piece.length > maxNameLength then .nameTooLong else .notFound)
      | some (.directory _) => advance fs followLast (place ++ [piece]) rest
      | some (.file _) =>
        if rest.isEmpty then .arrived (.found (place ++ [piece])) else .refused .notADirectory
      | some (.locked _) =>
        if rest.all List.isEmpty then .arrived (.found (place ++ [piece])) else .refused .permissionDenied
      | some (.symlink target) =>
        if rest.isEmpty && !followLast then .arrived (.found (place ++ [piece]))
        else .atLink place target rest

def follow (fs : FileSystem) (followLast : Bool) : Nat → Place → List Name → Except Fault Arrival
  | links, place, pieces =>
    match fs.advance followLast place pieces with
    | .arrived arrival => .ok arrival
    | .refused fault => .error fault
    | .atLink directory target rest =>
      match links with
      | 0 => .error .tooManyLinks
      | links + 1 =>
        follow fs followLast links (if target.isAbsolute then [] else directory) (target.pieces ++ rest)

/-- Where a path leads. A link at its end is followed if `followLast` is set or a slash comes after it. -/
def resolve (fs : FileSystem) (followLast : Bool) (path : Path) : Except Fault Arrival :=
  if path.isEmpty then .error .notFound
  else if path.bytes.contains 0 then .error .nulInPath
  else if path.bytes.length > maxPathLength then .error .nameTooLong
  else
    fs.follow followLast maxLinks (if path.isAbsolute then [] else fs.workingDirectory) path.pieces

def find (fs : FileSystem) (followLast : Bool) (path : Path) : Except Fault (Place × Entry) :=
  match fs.resolve followLast path with
  | .error fault => .error fault
  | .ok (.vacant _ name _) =>
    .error (if name.length > maxNameLength then .nameTooLong else .notFound)
  | .ok (.found place) =>
    match fs.get? place with
    | some entry => .ok (place, entry)
    | none => .error .notFound

end FileSystem
end CodeAtlas

namespace CodeAtlas.FileSystem

def hasEntry (fs : FileSystem) (path : Path) : Bool := (fs.find true path).isOk

def isDirectory (fs : FileSystem) (path : Path) : Bool :=
  match fs.find true path with
  | .ok (_, entry) => entry.isDirectory
  | .error _ => false

def readBytes (fs : FileSystem) (path : Path) : Except Fault Bytes :=
  match fs.find true path with
  | .error fault => .error fault
  | .ok (_, .file content) => .ok content
  | .ok (_, .directory _) => .error .isADirectory
  | .ok (_, .symlink _) => .error .tooManyLinks
  | .ok (_, .locked _) => .error .permissionDenied

def readText (fs : FileSystem) (path : Path) : Except Fault String :=
  match fs.readBytes path with
  | .error fault => .error fault
  | .ok content =>
    match content.decode? with
    | some text => .ok text
    | none => .error .notText

def list (fs : FileSystem) (path : Path) : Except Fault (List (Name × Entry)) :=
  match fs.find true path with
  | .error fault => .error fault
  | .ok (_, .directory entries) => .ok (sortByName entries)
  | .ok (_, .locked _) => .error .permissionDenied
  | .ok _ => .error .notADirectory

def canonical (fs : FileSystem) (path : Path) : Except Fault Place :=
  (fs.find true path).map (·.1)

end CodeAtlas.FileSystem

import CodeAtlas.FileSystem.Resolve

namespace CodeAtlas.FileSystem

def put (fs : FileSystem) (place : Place) (entry : Entry) : FileSystem :=
  match fs.top.alter (fun _ => some entry) place with
  | .directory entries => { fs with entries }
  | _ => fs

def drop (fs : FileSystem) (place : Place) : FileSystem :=
  match fs.top.alter (fun _ => none) place with
  | .directory entries => { fs with entries }
  | _ => fs

def withoutLastSlash (path : Path) : Path :=
  match path.pieces with
  | [] => path
  | first :: body => Path.ofPieces first (Path.dropLastWhile List.isEmpty body)

/-- Puts a new entry at a path that leads to nothing; a link at its end is not followed. The slashes at
the end count if the path is too long. -/
def create (fs : FileSystem) (path : Path) (entry : Entry) : Except Fault FileSystem :=
  if path.bytes.length > maxPathLength && !path.bytes.contains 0 then .error .nameTooLong
  else
    match fs.resolve false (withoutLastSlash path) with
    | .error fault => .error fault
    | .ok (.found _) => .error .alreadyExists
    | .ok (.vacant directory name _) =>
      if name.length > maxNameLength then .error .nameTooLong
      else .ok (fs.put (directory ++ [name]) entry)

def createDirectory (fs : FileSystem) (path : Path) : Except Fault FileSystem :=
  fs.create path (.directory [])

def createAlong (fs : FileSystem) : List Path → FileSystem × Except Fault Unit
  | [] => (fs, .error (.other "failed to create whole tree"))
  | path :: shorter =>
    if path.isEmpty then (fs, .ok ())
    else
      match fs.createDirectory path with
      | .ok made => (made, .ok ())
      | .error .notFound =>
        match createAlong fs shorter with
        | (grown, .error fault) => (grown, .error fault)
        | (grown, .ok ()) =>
          match grown.createDirectory path with
          | .ok made => (made, .ok ())
          | .error fault => (grown, if grown.isDirectory path then .ok () else .error fault)
      | .error fault => (fs, if fs.isDirectory path then .ok () else .error fault)

def createDirectories (fs : FileSystem) (path : Path) : FileSystem × Except Fault Unit :=
  fs.createAlong path.ancestors

def writeBytes (fs : FileSystem) (path : Path) (content : Bytes) : Except Fault FileSystem :=
  match fs.resolve true path with
  | .error fault => .error fault
  | .ok (.vacant directory name withSlash) =>
    if withSlash then .error .isADirectory
    else if name.length > maxNameLength then .error .nameTooLong
    else .ok (fs.put (directory ++ [name]) (.file content))
  | .ok (.found place) =>
    match fs.get? place with
    | some (.directory _) => .error .isADirectory
    | some (.locked _) => .error .isADirectory
    | some _ => .ok (fs.put place (.file content))
    | none => .error .notFound

def removeDirectory (fs : FileSystem) (path : Path) : Except Fault FileSystem :=
  match fs.find false (withoutLastSlash path) with
  | .error fault => .error fault
  | .ok (place, entry) =>
    match (withoutLastSlash path).pieces.getLast?.getD [], entry with
    | [], _ => .error .busy
    | name, .directory entries | name, .locked entries =>
      if name = [Path.dot] then .error .invalidArgument
      else if name = [Path.dot, Path.dot] ∨ !entries.isEmpty then .error .directoryNotEmpty
      else .ok (fs.drop place)
    | _, _ => .error .notADirectory

/-- Removes a directory and all that is below it. A link is removed itself and its target kept. A removal
ends at the first directory that it may not list, and what was removed before stays so. A path that led
through what was below leads nowhere in the end, which is no fault. -/
def removeAll (fs : FileSystem) (path : Path) : FileSystem × Except Fault Unit :=
  match fs.find false path with
  | .error fault => (fs, .error fault)
  | .ok (place, .symlink _) => (fs.drop place, .ok ())
  | .ok (_, .file _) => (fs, .error .notADirectory)
  | .ok (_, .locked _) => (fs, .error .permissionDenied)
  | .ok (place, .directory entries) =>
    let left := fs.put place (.directory (Entry.remainsIn entries))
    if (Entry.remainsIn entries).isEmpty then
      match left.removeDirectory path with
      | .ok removed => (removed, .ok ())
      | .error .notFound => (left, .ok ())
      | .error fault => (left, .error fault)
    else (left, .error .permissionDenied)

end CodeAtlas.FileSystem

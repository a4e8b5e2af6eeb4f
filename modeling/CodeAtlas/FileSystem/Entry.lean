import CodeAtlas.Path

namespace CodeAtlas

inductive Fault where
  | notFound
  | notADirectory
  | isADirectory
  | alreadyExists
  | tooManyLinks
  | nameTooLong
  | invalidArgument
  | directoryNotEmpty
  | busy
  | permissionDenied
  | nulInPath
  | notText
  | other (text : String)
  deriving DecidableEq, Inhabited

def Fault.message : Fault → String
  | notFound => "No such file or directory (os error 2)"
  | notADirectory => "Not a directory (os error 20)"
  | isADirectory => "Is a directory (os error 21)"
  | alreadyExists => "File exists (os error 17)"
  | tooManyLinks => "Too many levels of symbolic links (os error 40)"
  | nameTooLong => "File name too long (os error 36)"
  | invalidArgument => "Invalid argument (os error 22)"
  | directoryNotEmpty => "Directory not empty (os error 39)"
  | busy => "Device or resource busy (os error 16)"
  | permissionDenied => "Permission denied (os error 13)"
  | nulInPath => "file name contained an unexpected NUL byte"
  | notText => "stream did not contain valid UTF-8"
  | other text => text

/-- What a name stands for. A locked directory is one that may be neither listed nor passed through: it is
known to be a directory, and what it holds is out of reach. -/
inductive Entry where
  | file (content : Bytes)
  | directory (entries : List (Name × Entry))
  | symlink (target : Path)
  | locked (entries : List (Name × Entry))
  deriving Inhabited

/-- Where an entry stands: the names that lead to it from the top. -/
abbrev Place := List Name

/-! ## Order of names -/

def insertByName {α : Type} (name : Name) (x : α) : List (Name × α) → List (Name × α)
  | [] => [(name, x)]
  | (other, y) :: rest =>
    if name.precedes other then (name, x) :: (other, y) :: rest
    else (other, y) :: insertByName name x rest

def sortByName {α : Type} : List (Name × α) → List (Name × α)
  | [] => []
  | (name, x) :: rest => insertByName name x (sortByName rest)

namespace Entry

def isDirectory : Entry → Bool
  | directory _ => true
  | locked _ => true
  | _ => false

mutual

def sorted : Entry → Entry
  | directory entries => directory (sortedEntries entries)
  | file content => file content
  | symlink target => symlink target
  | locked entries => locked entries

def sortedEntries : List (Name × Entry) → List (Name × Entry)
  | [] => []
  | (name, entry) :: rest => insertByName name entry.sorted (sortedEntries rest)

end

/-! ## Places -/

def lookup (name : Name) : List (Name × Entry) → Option Entry
  | [] => none
  | (other, entry) :: rest => if other = name then some entry else lookup name rest

def get? : Entry → Place → Option Entry
  | entry, [] => some entry
  | directory entries, name :: rest => (lookup name entries).bind (·.get? rest)
  | _, _ :: _ => none

def alterIn (name : Name) (f : Option Entry → Option Entry) :
    List (Name × Entry) → List (Name × Entry)
  | [] => ((f none).map (name, ·)).toList
  | (other, entry) :: rest =>
    if other = name then ((f (some entry)).map (other, ·)).toList ++ rest
    else (other, entry) :: alterIn name f rest

def alter (f : Option Entry → Option Entry) : Place → Entry → Entry
  | [name], directory entries => directory (alterIn name f entries)
  | name :: next :: rest, directory entries =>
    directory (alterIn name (fun child => child.map (alter f (next :: rest))) entries)
  | _, entry => entry

/-! ## Removal -/

mutual

/-- What is left of an entry that is removed with all that is below it. -/
def remains : Entry → Option Entry
  | directory entries =>
    if (remainsIn entries).isEmpty then none else some (directory (remainsIn entries))
  | locked entries => some (locked entries)
  | file _ => none
  | symlink _ => none

/-- What is left of entries that are removed one after the other, up to the first that cannot be. -/
def remainsIn : List (Name × Entry) → List (Name × Entry)
  | [] => []
  | (name, entry) :: rest =>
    match entry.remains with
    | none => remainsIn rest
    | some left => (name, left) :: rest

end

end Entry
end CodeAtlas

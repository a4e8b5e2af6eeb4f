import CodeAtlas.FileSystem.Resolve
import CodeAtlas.Json

/-!
# Snapshots

A directory as a JSON document: an object has a member for each entry, a text is the content of a file,
an array with one text is a symbolic link, and an array with one object is a locked directory. Names and
contents have to be text.
-/
namespace CodeAtlas.Entry

/-! ## Writing -/

mutual

def json? : Entry → Option Json
  | file content => (Bytes.decode? content).map Json.text
  | symlink target => target.toText?.map fun text => .array [.text text]
  | directory entries => (membersJson? entries).map .object
  | locked entries => (membersJson? entries).map fun members => .array [.object members]

def membersJson? : List (Name × Entry) → Option (List (Option String × Json))
  | [] => some []
  | (name, entry) :: rest => do
    let name ← Bytes.decode? name
    let first ← entry.json?
    let rest ← membersJson? rest
    return (some name, first) :: rest

end

/-! ## Reading -/

def isName (text : String) : Bool :=
  text != "" && text != "." && text != ".." && !text.toList.contains '/' && !text.toList.contains '\x00'

mutual

def ofJson? : Json → Option Entry
  | .string (some text) => some (file (Bytes.ofString text))
  | .array [.string (some text)] => some (symlink (.ofString text))
  | .object members => (ofMembers? members).map directory
  | .array [.object members] => (ofMembers? members).map locked
  | _ => none

def ofMembers? : List (Option String × Json) → Option (List (Name × Entry))
  | [] => some []
  | (some name, value) :: rest => do
    let entry ← ofJson? value
    let others ← ofMembers? rest
    if isName name && (lookup (Bytes.ofString name) others).isNone then
      return (Bytes.ofString name, entry) :: others
    else none
  | (none, _) :: _ => none

end

end CodeAtlas.Entry

namespace CodeAtlas.FileSystem

def snapshotName : Name := Bytes.ofString "project"
def temporaryName : Name := Bytes.ofString "tmp"

def temporaryPath : Path := ⟨Path.slash :: temporaryName⟩

/-- A file system whose working directory has the entries of a snapshot. No snapshot stands for an empty
directory. -/
def ofSnapshot? (document : String) : Option FileSystem :=
  let entry? := if document.isEmpty then some (.directory []) else (Json.read? document).bind Entry.ofJson?
  match entry? with
  | some (.directory entries) =>
    some ⟨[(snapshotName, .directory entries), (temporaryName, .directory [])], [snapshotName]⟩
  | _ => none

/-- The snapshot of the working directory; none if a name or a content in it is no text. -/
def snapshot? (fs : FileSystem) : Option String :=
  ((fs.get? fs.workingDirectory).bind fun entry => entry.sorted.json?).map Json.pretty

end CodeAtlas.FileSystem

import CodeAtlas.Failure
import CodeAtlas.Python.Outline
import CodeAtlas.Survey

/-!
# Walking a codebase

The walk that a survey is made from. It visits entries depth first in byte order of their names, does
not enter ignored directories, and does not follow links: a link is a file like any other. Reading a
source through a link does follow it. A directory is opened by its path, so that one whose path is too
long stays closed, and so does a locked one.
-/
namespace CodeAtlas

def isSourceName (name : Name) : Bool :=
  (Bytes.decode? name).any fun text => sourceSuffix.toList.isSuffixOf text.toList

def Path.isSource (path : Path) : Bool := path.fileName?.any isSourceName

namespace Entry

mutual

def files (path : Path) (above : List Name) : Entry → List Path
  | directory entries =>
    if maxPathLength < path.bytes.length then [] else filesIn path above entries
  | file _ => [path]
  | symlink _ => [path]
  | locked _ => []

def filesIn (path : Path) (above : List Name) : List (Name × Entry) → List Path
  | [] => []
  | (name, entry) :: rest =>
    (if (Path.ofNames (above ++ [name])).isIgnored then []
      else entry.files (path.entry name) (above ++ [name]))
    ++ filesIn path above rest

end

end Entry

namespace FileSystem

/-- The files of a codebase in the order of the walk. A root that is a link counts as a file itself, and
if it leads to a directory, the files there follow. -/
def files (fs : FileSystem) (root : Path) : List Path :=
  match fs.find false root with
  | .error _ => []
  | .ok (_, .symlink _) =>
    match fs.find true root with
    | .error _ => []
    | .ok (_, .directory entries) => root :: (Entry.directory entries).sorted.files root []
    | .ok _ => [root]
  | .ok (_, entry) => entry.sorted.files root []

def survey (fs : FileSystem) (root : Path) (maxDepth : Nat) : Survey :=
  let files := fs.files root
  let sources := (files.filter Path.isSource).map fs.outline
  { root
    fileTree := fs.tree root maxDepth
    sources
    totalFiles := files.length
    totalFunctions := sources.foldl (fun total source => total + source.functions.length) 0
    totalClasses := sources.foldl (fun total source => total + source.classes.length) 0 }

def readmeNames : List String := ["README.md", "README.rst", "readme.md", "readme.txt"]

def readme? (fs : FileSystem) (directory : Path) : Option String :=
  readmeNames.findSome? fun name => (fs.readText (directory.join (Path.ofString name))).toOption

end FileSystem
end CodeAtlas

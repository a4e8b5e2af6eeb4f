import CodeAtlas.Failure
import CodeAtlas.FileSystem.Write
import CodeAtlas.Repository.Address
import CodeAtlas.Text

namespace CodeAtlas.Repository

/-- Fetches the repository at an address into a directory that is absent or empty. -/
abbrev GitClient := (url : String) → (destination : Path) → FileSystem → FileSystem × Except Failure Unit

inductive ProgramEnd where
  | notStarted (fault : Fault)
  | ended (success : Bool) (complaints : Bytes)

abbrev Program := (arguments : List Bytes) → FileSystem → FileSystem × ProgramEnd

def cloneArguments (url : String) (destination : Path) : List Bytes :=
  ["clone", "--quiet", "--", url].map Bytes.ofString ++ [destination.bytes]

def defaultProgram : String := "git"

def promptSetting : String × String := ("GIT_TERMINAL_PROMPT", "0")

def nulFault : Fault := .other "nul byte found in provided data"

/-- Runs a program with a setting in its environment, unless that or an argument has a byte that ends
texts. -/
def Program.start (program : Program) (setting : String × String) (arguments : List Bytes)
    (fs : FileSystem) : FileSystem × ProgramEnd :=
  let told := Bytes.ofString setting.1 :: Bytes.ofString setting.2 :: arguments
  if told.any (·.contains 0) then (fs, .notStarted nulFault) else program arguments fs

def GitClient.ofProgram (name : String) (program : Program) : GitClient := fun url destination fs =>
  match program.start promptSetting (cloneArguments url destination) fs with
  | (fs, .notStarted fault) =>
    (fs, .error (.clone url ("cannot run " ++ name ++ ": " ++ fault.message)))
  | (fs, .ended true _) => (fs, .ok ())
  | (fs, .ended false complaints) =>
    (fs, .error (.clone url (String.ofList (Text.trim (Bytes.decodeLossy complaints)))))

/-- Why a program is not started where nothing can be. A name without a slash is looked for in directories
that hold no program. -/
def startFault (fs : FileSystem) (name : Path) : Fault :=
  if name.bytes.contains 0 then nulFault
  else if name.bytes.contains Path.slash then
    match fs.find true name with
    | .error fault => fault
    | .ok _ => .permissionDenied
  else if name.bytes = [Path.dot] ∨ name.bytes = [Path.dot, Path.dot] then .permissionDenied
  else if name.bytes.length > maxNameLength then .nameTooLong
  else .notFound

def Program.unstartable (name : Path) : Program := fun _ fs => (fs, .notStarted (startFault fs name))

/-- Removes a directory and all that is below it. One that is missing counts as removed. -/
def cleanup (fs : FileSystem) (directory : Path) : FileSystem × Except Failure Unit :=
  if fs.hasEntry directory then
    match fs.removeAll directory with
    | (fs, .ok ()) => (fs, .ok ())
    | (fs, .error fault) => (fs, .error (.cleanup directory fault))
  else (fs, .ok ())

/-! ## Temporary directories -/

def marksLength : Nat := 6

def maxAttempts : Nat := 65536

def marks (n : Nat) : Bytes :=
  let digits := Text.digitsOf n
  Bytes.ofString (String.ofList (List.replicate (marksLength - digits.length) '0' ++ digits))

/-- A new directory in `parent` whose name begins with `stem`, by one of so many attempts. -/
def createTemporary (fs : FileSystem) (parent : Path) (stem : Bytes) :
    (attempts : Nat) → Except Fault (FileSystem × Path)
  | 0 => .error .alreadyExists
  | attempts + 1 =>
    let path := parent.join ⟨stem ++ marks attempts⟩
    match fs.createDirectory path with
    | .ok fs => .ok (fs, path)
    | .error .alreadyExists => createTemporary fs parent stem attempts
    | .error fault => .error (.other (fault.message ++ " at path \"" ++ path.display ++ "\""))

/-! ## Fetching -/

structure Fetched where
  fs : FileSystem
  destination : Option Path
  result : Except Failure Path

def Fetched.kept (directory : Path) : FileSystem × Except Failure Unit → Fetched
  | (fs, result) => ⟨fs, some directory, result.map fun _ => directory⟩

def Fetched.settled (directory : Path) : FileSystem × Except Failure Unit → Fetched
  | (fs, .ok ()) => ⟨fs, some directory, .ok directory⟩
  | (fs, .error failure) => ⟨(cleanup fs directory).1, some directory, .error failure⟩

/-- Fetches the repository at an address into `target`, or into a temporary directory in `temporary`
whose name begins with `stem`. The client may have other effects as well. -/
def fetchIn {m : Type → Type} [Monad m]
    (client : String → Path → FileSystem → m (FileSystem × Except Failure Unit)) (temporary : Path)
    (stem : String) (fs : FileSystem) (url : String) (target : Option Path) : m Fetched :=
  if !isAddress url then pure ⟨fs, none, .error (.invalidUrl url)⟩
  else
    match target with
    | some directory => do
      let ended ← client url directory fs
      return .kept directory ended
    | none =>
      match createTemporary fs temporary (Bytes.ofString stem) maxAttempts with
      | .error fault => pure ⟨fs, none, .error (.io fault)⟩
      | .ok (fs, directory) => do
        let ended ← client url directory fs
        return .settled directory ended

def fetch (client : GitClient) (temporary : Path) (stem : String) (fs : FileSystem) (url : String)
    (target : Option Path) : Fetched :=
  Id.run (fetchIn client temporary stem fs url target)

end CodeAtlas.Repository

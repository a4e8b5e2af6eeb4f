import CodeAtlas.CommandLine.Report
import CodeAtlas.FileSystem.Snapshot

/-!
# The command line

Standard input holds a snapshot of the working directory. The lines of a run go to standard output, and
after them the snapshot that the run leaves, if it changed the directory. No program can be started from
here, so a repository cannot be fetched.
-/

namespace CodeAtlas.Main

def surroundings : Surroundings :=
  { client := .ofProgram Repository.defaultProgram (.unstartable (.ofString Repository.defaultProgram))
    temporary := FileSystem.temporaryPath }

partial def readAll (input : IO.FS.Stream) (text : String) : IO String := do
  let line ← input.getLine
  if line.isEmpty then return text else readAll input (text ++ line)

def tell (before : Option String) (report : Report) : IO Unit := do
  IO.print report.output
  report.complaints.forM fun line => IO.eprintln line
  let after := report.fs.snapshot?
  if after != before then IO.println (after.getD "")

end CodeAtlas.Main

def main (arguments : List String) : IO UInt32 := do
  let text ← CodeAtlas.Main.readAll (← IO.getStdin) ""
  match CodeAtlas.FileSystem.ofSnapshot? text with
  | none =>
    IO.eprintln "Error: standard input holds no snapshot"
    return 1
  | some fs =>
    let report := CodeAtlas.Report.ofArguments CodeAtlas.Main.surroundings fs
      (arguments.map CodeAtlas.Bytes.ofString)
    CodeAtlas.Main.tell fs.snapshot? report
    return UInt32.ofNat report.verdict.status

import CodeAtlas.CommandLine.Reader
import CodeAtlas.Run

namespace CodeAtlas

inductive Verdict where
  | done
  | misused (error : UsageError)
  | failed (failure : Failure)
  deriving DecidableEq

def Verdict.status : Verdict → Nat
  | done => 0
  | misused _ => 2
  | failed _ => 1

structure Report where
  fs : FileSystem
  printed : List String
  warnings : List String
  verdict : Verdict

namespace Report

def ofOutcome (outcome : Outcome Unit) : Report :=
  { fs := outcome.fs
    printed := outcome.printed
    warnings := outcome.warnings
    verdict := match outcome.result with
      | .ok () => .done
      | .error failure => .failed failure }

def help : List String :=
  ["Usage: codesketch analyze [OPTIONS] <SOURCE>", "       codesketch version", "", "Options:",
    "  -o, --output <OUTPUT>      the directory of the result",
    "      --format <FORMAT>      markdown or json",
    "      --depth <DEPTH>        the levels of the file tree that are collected",
    "      --diagram-depth <DEPTH> the levels of the file tree that are drawn",
    "      --no-diagrams          leave the diagrams out",
    "      --keep-clone           keep the fetched repository",
    "  -c, --config <CONFIG>      the configuration file",
    "  -v, --verbose              more messages"]

def ofUsageError (fs : FileSystem) : UsageError → Report
  | .helpWanted => ⟨fs, help, [], .done⟩
  | .versionWanted => ⟨fs, [Run.versionLine], [], .done⟩
  | error => ⟨fs, [], [], .misused error⟩

def ofArguments (surroundings : Surroundings) (fs : FileSystem) (arguments : List Bytes) : Report :=
  match CommandLine.read arguments with
  | .error error => ofUsageError fs error
  | .ok command => ofOutcome (Run.command surroundings fs command)

def output (report : Report) : String :=
  String.join (report.printed.map fun line => line ++ "\n")

def complaints (report : Report) : List String :=
  report.warnings ++
    (match report.verdict with
    | .done => []
    | .misused error => ("error: " ++ error.message) :: help
    | .failed failure => ["Error: " ++ failure.message])

end Report
end CodeAtlas

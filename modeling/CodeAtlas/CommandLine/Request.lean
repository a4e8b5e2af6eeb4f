import CodeAtlas.Config

namespace CodeAtlas

structure AnalyzeRequest where
  source : String
  output : Option Path := none
  format : Option OutputFormat := none
  depth : Option Nat := none
  diagramDepth : Option Nat := none
  noDiagrams : Bool := false
  keepClone : Bool := false
  config : Option Path := none
  verbosity : Nat := 0
  deriving DecidableEq

def AnalyzeRequest.overrides (request : AnalyzeRequest) : Overrides :=
  { directory := request.output
    format := request.format.map OutputFormat.word
    maxDepth := request.depth
    treeDepth := request.diagramDepth
    noDiagrams := request.noDiagrams
    keepClone := request.keepClone }

inductive Command where
  | analyze (request : AnalyzeRequest)
  | version
  deriving DecidableEq

def Command.verbosity : Command → Nat
  | analyze request => request.verbosity
  | version => 0

inductive UsageError where
  | missingCommand
  | helpWanted
  | versionWanted
  | unknownCommand
  | unknownArgument
  | missingSource
  | badChoice
  | badNumber
  | repeated
  | surplusValue
  | notText
  deriving DecidableEq

def UsageError.message : UsageError → String
  | missingCommand => "there is no command"
  | helpWanted => "help is asked for"
  | versionWanted => "the version is asked for"
  | unknownCommand => "there is no such command"
  | unknownArgument => "an argument has no meaning here"
  | missingSource => "there is no source"
  | badChoice => "a value is missing or none of the choices"
  | badNumber => "a value is no number"
  | repeated => "an option is given twice"
  | surplusValue => "an option that takes no value has one"
  | notText => "a value is no text"

end CodeAtlas

import CodeAtlas.FileSystem.Entry
import CodeAtlas.Path

namespace CodeAtlas

inductive Failure where
  | io (fault : Fault)
  | configParse (reason : String)
  | configValidation (reason : String)
  | pathNotFound (path : Path)
  | invalidUrl (url : String)
  | clone (url message : String)
  | cleanup (path : Path) (fault : Fault)
  | parser (reason : String)
  | json (reason : String)
  | other (reason : String)
  deriving DecidableEq

namespace Failure

def message : Failure → String
  | io fault => "IO error: " ++ fault.message
  | configParse reason => "Failed to parse config file: " ++ reason
  | configValidation reason => "Config validation error: " ++ reason
  | pathNotFound path => "Path not found: " ++ path.display
  | invalidUrl url => "Not a repository URL: " ++ url
  | clone url message => "Failed to clone " ++ url ++ ": " ++ message
  | cleanup path fault => "Failed to remove " ++ path.display ++ ": " ++ fault.message
  | parser reason => "Parser error: " ++ reason
  | json reason => "JSON error: " ++ reason
  | other reason => reason

def isValidation : Failure → Bool
  | invalidUrl _ => true
  | _ => false

def cause? : Failure → Option String
  | io fault => some fault.message
  | cleanup _ fault => some fault.message
  | _ => none

end Failure
end CodeAtlas

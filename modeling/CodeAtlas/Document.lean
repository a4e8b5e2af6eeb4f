import CodeAtlas.Config
import CodeAtlas.Diagram
import CodeAtlas.Survey

namespace CodeAtlas

structure DocumentOptions where
  title : String
  diagrams : Bool := true
  treeDepth : Nat := 3

def DocumentOptions.ofConfig (title : String) (config : Config) : DocumentOptions :=
  ⟨title, config.diagrams, config.treeDepth⟩

structure Section where
  heading : String
  body : List String

def Section.lines (part : Section) : List String :=
  ("## " ++ part.heading) :: "" :: (part.body ++ [""])

namespace Document

def maxExcerptLines : Nat := 20

def maxListedErrors : Nat := 10

def statistics (survey : Survey) : Section :=
  ⟨"Project Statistics",
    ["- **Files:** " ++ toString survey.totalFiles,
      "- **Python files:** " ++ toString survey.sources.length,
      "- **Functions:** " ++ toString survey.totalFunctions,
      "- **Classes:** " ++ toString survey.totalClasses]⟩

def quoted (line : List Char) : String :=
  if (Text.trim line).isEmpty then ">" else "> " ++ String.ofList line

def overview (readme : String) : Section :=
  ⟨"Overview", ((Text.linesOf readme.toList).take maxExcerptLines).map quoted⟩

def unlessEmpty {α : Type} (items : List α) (part : Section) : List Section :=
  if items.isEmpty then [] else [part]

def diagramSections (survey : Survey) (treeDepth : Nat) : List Section :=
  unlessEmpty survey.moduleNames ⟨"Architecture", Diagram.modulesLines survey.moduleNames⟩
    ++ [⟨"File Structure", Diagram.treeLines survey.fileTree treeDepth⟩]
    ++ unlessEmpty survey.allClasses ⟨"Classes", Diagram.classesLines survey.allClasses⟩
    ++ unlessEmpty survey.allFunctions ⟨"Functions", Diagram.functionsLines survey.allFunctions⟩

def errorLine (root : Path) (file : FileOutline) : String :=
  "- `" ++ (file.path.relativeTo root).display ++ "`: " ++ Text.joinStrings "; " file.errors

def errorSections (survey : Survey) : List Section :=
  let failed := survey.failed
  unlessEmpty failed
    ⟨"Parse Errors (" ++ toString failed.length ++ ")",
      (failed.take maxListedErrors).map (errorLine survey.root)
        ++ if maxListedErrors < failed.length then
            ["- ... and " ++ toString (failed.length - maxListedErrors) ++ " more"]
          else []⟩

def sections (survey : Survey) (readme : Option String) (options : DocumentOptions) : List Section :=
  statistics survey :: (readme.map overview).toList
    ++ (if options.diagrams then diagramSections survey options.treeDepth else [])
    ++ errorSections survey

def lines (survey : Survey) (readme : Option String) (options : DocumentOptions) : List String :=
  ("# " ++ options.title) :: "" :: (sections survey readme options).flatMap Section.lines

def render (survey : Survey) (readme : Option String) (options : DocumentOptions) : String :=
  Text.unlines (lines survey readme options)

end Document
end CodeAtlas

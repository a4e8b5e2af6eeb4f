import CodeAtlas.Text

namespace CodeAtlas.Toml

inductive Atom where
  | text (s : String)
  | count (n : Nat)
  | flag (b : Bool)
  deriving DecidableEq

structure Section where
  name : String
  entries : List (String × Atom)
  deriving DecidableEq

/-! ## Quoting -/

def longestRun (mark : Char) : (run : Nat) → List Char → Nat
  | run, [] => run
  | run, c :: rest =>
    if c = mark then longestRun mark (run + 1) rest else max run (longestRun mark 0 rest)

def needsEscape (c : Char) : Bool :=
  (c < ' ' && c != '\t' && c != '\n') || c.toNat == 0x7F

def escapeChar (c : Char) : List Char :=
  if c = '\x08' then ['\\', 'b']
  else if c = '\t' then ['\\', 't']
  else if c = '\n' then ['\\', 'n']
  else if c = '\x0C' then ['\\', 'f']
  else if c = '\r' then ['\\', 'r']
  else if c = '"' then ['\\', '"']
  else if c = '\\' then ['\\', '\\']
  else if needsEscape c then
    ['\\', 'u', '0', '0', Text.capitalDigit (c.toNat / 16), Text.capitalDigit (c.toNat % 16)]
  else [c]

/-- The characters between three quotation marks. Line feeds stay, and of quotation marks side by side
every third one is escaped; `run` of them stand right before the text. -/
def escapeLong : (run : Nat) → List Char → List Char
  | _, [] => []
  | run, c :: rest =>
    if c = '"' then
      if run < 2 then '"' :: escapeLong (run + 1) rest else '\\' :: '"' :: escapeLong 0 rest
    else if c = '\n' then '\n' :: escapeLong 0 rest
    else escapeChar c ++ escapeLong 0 rest

def leadingNewline (s : List Char) : List Char := if s.contains '\n' then ['\n'] else []

def quoteBasic (s : List Char) : List Char := '"' :: (s.flatMap escapeChar ++ ['"'])

def quoteLiteral (s : List Char) : List Char := '\'' :: (s ++ ['\''])

def quoteLong (s : List Char) : List Char :=
  ['"', '"', '"'] ++ leadingNewline s ++ escapeLong 0 s ++ ['"', '"', '"']

def quoteLongLiteral (s : List Char) : List Char :=
  ['\'', '\'', '\''] ++ leadingNewline s ++ s ++ ['\'', '\'', '\'']

/-- A quoted text: on one line with quotation marks if that needs no escape, else with apostrophes, else
between three marks. -/
def quote (s : List Char) : List Char :=
  let escapes := s.any needsEscape
  let breaks := s.contains '\n'
  if !escapes && !breaks && !s.contains '\\' && !s.contains '"' then quoteBasic s
  else if !escapes && !breaks && !s.contains '\'' then quoteLiteral s
  else if !escapes && !s.contains '\\' && longestRun '"' 0 s ≤ 2 then quoteLong s
  else if !escapes && longestRun '\'' 0 s ≤ 2 then quoteLongLiteral s
  else if breaks then quoteLong s
  else quoteBasic s

/-! ## Sections -/

def Atom.write : Atom → List Char
  | text s => quote s.toList
  | count n => Text.digitsOf n
  | flag true => "true".toList
  | flag false => "false".toList

def writeEntry (entry : String × Atom) : List Char :=
  entry.1.toList ++ [' ', '=', ' '] ++ entry.2.write ++ ['\n']

def Section.write (part : Section) : List Char :=
  '[' :: (part.name.toList ++ [']', '\n'] ++ part.entries.flatMap writeEntry)

def write (sections : List Section) : String :=
  String.ofList (Text.joinWith ['\n'] (sections.map Section.write))

end CodeAtlas.Toml

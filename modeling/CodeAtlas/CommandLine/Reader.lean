import CodeAtlas.CommandLine.Request
import CodeAtlas.Text

/-!
# Reading command lines

Arguments are taken from left to right. A value that is an argument of its own is judged when the next
option, or the end, shows that nothing more belongs to it; so an unknown argument wins over a bad value
right before it.
-/
namespace CodeAtlas.CommandLine

/-! ## Options -/

inductive Setting where
  | output
  | format
  | depth
  | diagramDepth
  | config
  deriving DecidableEq

inductive Flag where
  | noDiagrams
  | keepClone
  | verbose
  | help
  deriving DecidableEq

def longNames : List (String × (Setting ⊕ Flag)) :=
  [("output", .inl .output), ("format", .inl .format), ("depth", .inl .depth),
    ("diagram-depth", .inl .diagramDepth), ("config", .inl .config),
    ("no-diagrams", .inr .noDiagrams), ("keep-clone", .inr .keepClone), ("verbose", .inr .verbose),
    ("help", .inr .help)]

def longOption? (name : Bytes) : Option (Setting ⊕ Flag) :=
  (longNames.find? fun (known, _) => name == Bytes.ofString known).map (·.2)

def shortOption? (letter : UInt8) : Option (Setting ⊕ Flag) :=
  if letter = 0x6F then some (.inl .output)
  else if letter = 0x63 then some (.inl .config)
  else if letter = 0x76 then some (.inr .verbose)
  else if letter = 0x68 then some (.inr .help)
  else none

/-! ## Values -/

def maxNumber : Nat := UInt64.size - 1

def number? (s : List Char) : Option Nat :=
  let digits := (Text.dropFront? ['+'] s).getD s
  if !digits.isEmpty && digits.all Text.isDigit && Text.natOfDigits digits ≤ maxNumber then
    some (Text.natOfDigits digits)
  else none

def asText (value : Bytes) : Except UsageError String :=
  match value.decode? with
  | some s => .ok s
  | none => .error .notText

def asNumber (value : Bytes) : Except UsageError Nat :=
  match asText value with
  | .error e => .error e
  | .ok s =>
    match number? s.toList with
    | some n => .ok n
    | none => .error .badNumber

def asPath (value : Bytes) : Except UsageError Path :=
  if value.isEmpty then .error .badChoice else .ok ⟨value⟩

def asFormat (value : Bytes) : Except UsageError OutputFormat :=
  match asText value with
  | .error e => .error e
  | .ok word =>
    match OutputFormat.ofWord? word with
    | some format => .ok format
    | none => .error .badChoice

/-! ## Requests in the making -/

structure Draft where
  source : Option String := none
  output : Option Path := none
  format : Option OutputFormat := none
  depth : Option Nat := none
  diagramDepth : Option Nat := none
  noDiagrams : Bool := false
  keepClone : Bool := false
  config : Option Path := none
  verbosity : Nat := 0
  deriving DecidableEq

def maxVerbosity : Nat := 255

def once {α : Type} (held : Option α) (value : Except UsageError α) : Except UsageError (Option α) :=
  match held with
  | some _ => .error .repeated
  | none => value.map some

def Draft.set (draft : Draft) (value : Bytes) : Setting → Except UsageError Draft
  | .output => (once draft.output (asPath value)).map fun output => { draft with output }
  | .format => (once draft.format (asFormat value)).map fun format => { draft with format }
  | .depth => (once draft.depth (asNumber value)).map fun depth => { draft with depth }
  | .diagramDepth =>
    (once draft.diagramDepth (asNumber value)).map fun diagramDepth => { draft with diagramDepth }
  | .config => (once draft.config (asPath value)).map fun config => { draft with config }

def Draft.raise (draft : Draft) : Flag → Except UsageError Draft
  | .noDiagrams =>
    if draft.noDiagrams then .error .repeated else .ok { draft with noDiagrams := true }
  | .keepClone => if draft.keepClone then .error .repeated else .ok { draft with keepClone := true }
  | .verbose => .ok { draft with verbosity := min (draft.verbosity + 1) maxVerbosity }
  | .help => .error .helpWanted

def Draft.request (draft : Draft) : Except UsageError AnalyzeRequest :=
  match draft.source with
  | none => .error .missingSource
  | some source =>
    .ok ⟨source, draft.output, draft.format, draft.depth, draft.diagramDepth, draft.noDiagrams,
      draft.keepClone, draft.config, draft.verbosity⟩

/-! ## Arguments -/

inductive Pending where
  | nothing
  | waiting (setting : Setting)
  | given (setting : Setting) (value : Bytes)
  | source (value : Bytes)

/-- A command line as far as it is read. After `--` there are no options any more. -/
structure Reading where
  draft : Draft := {}
  pending : Pending := .nothing
  optionsEnded : Bool := false

def Reading.settle (reading : Reading) : Except UsageError Draft :=
  match reading.pending with
  | .nothing => .ok reading.draft
  | .waiting _ => .error .badChoice
  | .given setting value => reading.draft.set value setting
  | .source value => (asText value).map fun source => { reading.draft with source := some source }

def hyphen : UInt8 := 0x2D

def equals : UInt8 := 0x3D

def Reading.act (reading : Reading) (change : Draft → Except UsageError Draft) :
    Except UsageError Reading :=
  match reading.settle with
  | .error e => .error e
  | .ok draft => (change draft).map fun draft => { reading with draft, pending := .nothing }

def Reading.await (reading : Reading) (setting : Setting) : Except UsageError Reading :=
  reading.settle.map fun draft => { reading with draft, pending := .waiting setting }

def Reading.long (reading : Reading) (word : Bytes) : Except UsageError Reading :=
  let name := word.takeWhile (· != equals)
  match longOption? name, word.drop name.length with
  | none, _ => .error .unknownArgument
  | some (.inl setting), [] => reading.await setting
  | some (.inl setting), _ :: value => reading.act (·.set value setting)
  | some (.inr flag), [] => reading.act (·.raise flag)
  | some (.inr _), _ :: _ => .error .surplusValue

def Reading.short : Reading → Bytes → Except UsageError Reading
  | reading, [] => .ok reading
  | reading, letter :: rest =>
    match shortOption? letter, rest with
    | none, _ => .error .unknownArgument
    | some (.inl setting), [] => reading.await setting
    | some (.inl setting), first :: more =>
      reading.act (·.set (if first = equals then more else first :: more) setting)
    | some (.inr flag), rest =>
      match reading.act (·.raise flag) with
      | .error e => .error e
      | .ok reading => short reading rest

def Reading.plain (reading : Reading) (word : Bytes) : Except UsageError Reading :=
  match reading.pending, reading.optionsEnded with
  | .waiting setting, false => .ok { reading with pending := .given setting word }
  | .source _, _ => .error .unknownArgument
  | _, _ =>
    if reading.draft.source.isSome then .error .unknownArgument
    else reading.settle.map fun draft => { reading with draft, pending := .source word }

def Reading.step (reading : Reading) (word : Bytes) : Except UsageError Reading :=
  if reading.optionsEnded then reading.plain word
  else
    match word with
    | [] => reading.plain []
    | first :: rest =>
      if first ≠ hyphen ∨ rest = [] then reading.plain word
      else if rest = [hyphen] then .ok { reading with optionsEnded := true }
      else if rest.head? = some hyphen then reading.long rest.tail
      else reading.short rest

def analyze (arguments : List Bytes) : Except UsageError AnalyzeRequest :=
  match arguments.foldlM Reading.step {} with
  | .error e => .error e
  | .ok reading =>
    match reading.settle with
    | .error e => .error e
    | .ok draft => draft.request

/-! ## Commands -/

def commandNames : List String := ["analyze", "version", "help"]

def isCommandName (word : Bytes) : Bool := commandNames.any fun name => word == Bytes.ofString name

def askingOption (versionToo : Bool) (word : Bytes) : UsageError :=
  let isLong := word.take 2 == [hyphen, hyphen]
  let name := (word.drop 2).takeWhile (· != equals)
  let hasValue := name.length < (word.drop 2).length
  if isLong && name == Bytes.ofString "help" then if hasValue then .surplusValue else .helpWanted
  else if isLong && versionToo && name == Bytes.ofString "version" then
    if hasValue then .surplusValue else .versionWanted
  else if !isLong && word[1]? == some 0x68 then .helpWanted
  else if !isLong && versionToo && word[1]? == some 0x56 then .versionWanted
  else .unknownArgument

def isOption (word : Bytes) : Bool := word.head? == some hyphen && word != [hyphen]

def version : List Bytes → Except UsageError Unit
  | [] => .ok ()
  | word :: rest =>
    if word = [hyphen, hyphen] then if rest.isEmpty then .ok () else .error .unknownArgument
    else if isOption word then .error (askingOption false word)
    else .error .unknownArgument

def read : List Bytes → Except UsageError Command
  | [] => .error .missingCommand
  | word :: rest =>
    if word = Bytes.ofString "analyze" then (analyze rest).map .analyze
    else if word = Bytes.ofString "version" then (version rest).map fun _ => .version
    else if word = Bytes.ofString "help" then
      match rest with
      | [] => .error .helpWanted
      | [topic] => .error (if isCommandName topic then .helpWanted else .unknownCommand)
      | _ => .error .unknownCommand
    else if word = [hyphen, hyphen] then
      match rest with
      | [] => .error .missingCommand
      | next :: _ => .error (if isCommandName next then .unknownArgument else .unknownCommand)
    else if isOption word then .error (askingOption true word)
    else .error .unknownCommand

end CodeAtlas.CommandLine

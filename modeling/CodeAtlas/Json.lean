import CodeAtlas.Json.Token
import CodeAtlas.Text

namespace CodeAtlas

inductive Json where
  | null
  | boolean (b : Bool)
  | number (literal : String)
  | string (text : Option String)
  | array (items : List Json)
  | object (members : List (Option String × Json))
  deriving Inhabited

namespace Json

def text (s : String) : Json := string (some s)

def nat (n : Nat) : Json := number (toString n)

def record (members : List (String × Json)) : Json :=
  object (members.map fun (key, value) => (some key, value))

end Json
end CodeAtlas

namespace CodeAtlas.Json

/-! ## Reading -/

inductive Frame where
  | array (items : List Json)
  | object (members : List (Option String × Json)) (key : Option String)

inductive Reading where
  | value (frames : List Frame)
  | firstItem (frames : List Frame)
  | firstKey (frames : List Frame)
  | nextKey (members : List (Option String × Json)) (frames : List Frame)
  | colon (members : List (Option String × Json)) (key : Option String) (frames : List Frame)
  | complete (value : Json) (frames : List Frame)

namespace Reading

def beginValue (frames : List Frame) : Token → Option Reading
  | .null => some (complete .null frames)
  | .boolean b => some (complete (.boolean b) frames)
  | .number literal => some (complete (.number literal) frames)
  | .string text => some (complete (.string text) frames)
  | .openBracket => some (firstItem frames)
  | .openBrace => some (firstKey frames)
  | _ => none

/-- The reader after one more token; none if the token cannot stand here. -/
def feed : Reading → Token → Option Reading
  | value frames, token => beginValue frames token
  | firstItem frames, .closeBracket => some (complete (.array []) frames)
  | firstItem frames, token => beginValue (.array [] :: frames) token
  | firstKey frames, .closeBrace => some (complete (.object []) frames)
  | firstKey frames, .string key => some (colon [] key frames)
  | nextKey members frames, .string key => some (colon members key frames)
  | colon members key frames, .colon => some (value (.object members key :: frames))
  | complete item (.array items :: frames), .comma => some (value (.array (items ++ [item]) :: frames))
  | complete item (.array items :: frames), .closeBracket =>
    some (complete (.array (items ++ [item])) frames)
  | complete item (.object members key :: frames), .comma =>
    some (nextKey (members ++ [(key, item)]) frames)
  | complete item (.object members key :: frames), .closeBrace =>
    some (complete (.object (members ++ [(key, item)])) frames)
  | _, _ => none

end Reading

def read? (s : String) : Option Json :=
  match (tokens? s.toList).bind (·.foldlM Reading.feed (.value [])) with
  | some (.complete value []) => some value
  | _ => none

/-! ## Writing -/

def escapeChar (c : Char) : List Char :=
  if c = '"' then ['\\', '"']
  else if c = '\\' then ['\\', '\\']
  else if c = '\x08' then ['\\', 'b']
  else if c = '\x0C' then ['\\', 'f']
  else if c = '\n' then ['\\', 'n']
  else if c = '\r' then ['\\', 'r']
  else if c = '\t' then ['\\', 't']
  else if c < ' ' then
    ['\\', 'u', '0', '0', Text.hexDigit (c.toNat / 16), Text.hexDigit (c.toNat % 16)]
  else [c]

def quote (s : List Char) : List Char := '"' :: (s.flatMap escapeChar ++ ['"'])

def newLine (level : Nat) : List Char := '\n' :: List.replicate (2 * level) ' '

mutual

def layout (level : Nat) : Json → List Char
  | null => ['n', 'u', 'l', 'l']
  | boolean true => ['t', 'r', 'u', 'e']
  | boolean false => ['f', 'a', 'l', 's', 'e']
  | number literal => literal.toList
  | string none => ['n', 'u', 'l', 'l']
  | string (some s) => quote s.toList
  | array [] => ['[', ']']
  | array (item :: items) =>
    '[' :: (newLine (level + 1) ++ layout (level + 1) item ++ layoutItems level items)
  | object [] => ['{', '}']
  | object ((key, value) :: members) =>
    '{' :: (newLine (level + 1) ++ quote (key.getD "").toList ++ [':', ' ']
      ++ layout (level + 1) value ++ layoutMembers level members)

def layoutItems (level : Nat) : List Json → List Char
  | [] => newLine level ++ [']']
  | item :: items =>
    ',' :: (newLine (level + 1) ++ layout (level + 1) item ++ layoutItems level items)

def layoutMembers (level : Nat) : List (Option String × Json) → List Char
  | [] => newLine level ++ ['}']
  | (key, value) :: members =>
    ',' :: (newLine (level + 1) ++ quote (key.getD "").toList ++ [':', ' ']
      ++ layout (level + 1) value ++ layoutMembers level members)

end

def pretty (value : Json) : String := String.ofList (layout 0 value)

/-! ## Records -/

def maxCount : Nat := UInt64.size - 1

def natural? : Json → Option Nat
  | number literal =>
    let digits := literal.toList
    if digits.all Text.isDigit && Text.natOfDigits digits ≤ maxCount then
      some (Text.natOfDigits digits)
    else none
  | _ => none

def text? : Json → Option String
  | string text => text
  | _ => none

def boolean? : Json → Option Bool
  | boolean b => some b
  | _ => none

def items? : Json → Option (List Json)
  | array items => some items
  | _ => none

def membersNamed (name : String) (members : List (Option String × Json)) : List Json :=
  (members.filter fun member => member.1 == some name).map (·.2)

def single? : List Json → Option Json
  | [value] => some value
  | _ => none

def atMostOne? : List Json → Option (Option Json)
  | [] => some none
  | [value] => some (some value)
  | _ => none

def fields? (names : List String) : Json → Option (List Json)
  | object members =>
    if members.all (·.1.isSome) then names.mapM fun name => single? (membersNamed name members)
    else none
  | array items => if items.length = names.length then some items else none
  | _ => none

/-- The fields of a record that may be left out; of an array, the last ones. -/
def optionalFields? (names : List String) : Json → Option (List (Option Json))
  | object members =>
    if members.all (·.1.isSome) then names.mapM fun name => atMostOne? (membersNamed name members)
    else none
  | array items =>
    if items.length ≤ names.length then
      some (items.map some ++ List.replicate (names.length - items.length) none)
    else none
  | _ => none

def variant? : Json → Option String
  | string text => text
  | object [(key, null)] => key
  | _ => none

end CodeAtlas.Json

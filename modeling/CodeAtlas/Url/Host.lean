import CodeAtlas.Text
import CodeAtlas.Text.Lowercase
import CodeAtlas.Text.Utf8
import CodeAtlas.Url.Folding

namespace CodeAtlas.Url

def escapeByte (b : UInt8) : List Char :=
  ['%', Text.capitalDigit (b.toNat / 16), Text.capitalDigit (b.toNat % 16)]

def escapeChar (c : Char) : List Char := (String.utf8EncodeChar c).flatMap escapeByte

def escape (isEscaped : Char → Bool) (s : List Char) : List Char :=
  s.flatMap fun c => if isEscaped c then escapeChar c else [c]

def isControlOrWide (c : Char) : Bool := c < ' ' || c.toNat ≥ 0x7F

def isEscapedInSegment (c : Char) : Bool :=
  isControlOrWide c || c == ' ' || c == '"' || c == '<' || c == '>' || c.toNat == 0x60 || c == '#'
    || c == '?' || c == '{' || c == '}'

/-- The bytes that a text with escapes stands for. A `%` without two digits stands for itself. -/
def unescape : List Char → Bytes
  | [] => []
  | '%' :: high :: low :: rest =>
    match Text.hexValue? high, Text.hexValue? low with
    | some h, some l => UInt8.ofNat (16 * h + l) :: unescape rest
    | _, _ => 0x25 :: unescape (high :: low :: rest)
  | c :: rest => String.utf8EncodeChar c ++ unescape rest

end CodeAtlas.Url

namespace CodeAtlas.Url.Punycode

def digit? (c : Char) : Option Nat :=
  if 'a' ≤ c && c ≤ 'z' then some (c.toNat - 'a'.toNat)
  else if 'A' ≤ c && c ≤ 'Z' then some (c.toNat - 'A'.toNat)
  else if '0' ≤ c && c ≤ '9' then some (c.toNat - '0'.toNat + 26)
  else none

/-- A digit below this one ends a number; `place` counts from one. -/
def threshold (place bias : Nat) : Nat :=
  if 36 * place ≤ bias then 1 else if bias + 26 ≤ 36 * place then 26 else 36 * place - bias

/-- How often `delta` is divided by 35 until it is at most 455, and what remains. -/
def shrink (delta : Nat) : Nat × Nat :=
  if 455 < delta then ((shrink (delta / 35)).1 + 1, (shrink (delta / 35)).2) else (0, delta)

def adapt (delta count : Nat) (first : Bool) : Nat :=
  let halved := delta / (if first then 700 else 2)
  let (steps, rest) := shrink (halved + halved / count)
  36 * steps + 36 * rest / (rest + 38)

def number? (bias : Nat) : (place weight : Nat) → List Char → Option (Nat × List Char)
  | _, _, [] => none
  | place, weight, c :: rest =>
    match digit? c with
    | none => none
    | some d =>
      if d < threshold place bias then some (d * weight, rest)
      else
        (number? bias (place + 1) (weight * (36 - threshold place bias)) rest).map
          fun (n, after) => (n + d * weight, after)

/-- Inserts the characters that the digits tell of. `position` is the place of the last one, `code` its
number, and `fuel` bounds the characters still to come. -/
def insertAll? : (fuel : Nat) → (bias position code : Nat) → (first : Bool) → List Char → List Char →
    Option (List Char)
  | _, _, _, _, _, chars, [] => some chars
  | 0, _, _, _, _, _, _ :: _ => none
  | fuel + 1, bias, position, code, first, chars, c :: digits =>
    match number? bias 1 1 (c :: digits) with
    | none => none
    | some (delta, rest) =>
      let count := chars.length + 1
      let code := code + (position + delta) / count
      let position := (position + delta) % count
      if h : code.isValidChar then
        insertAll? fuel (adapt delta count first) (position + 1) code false
          (chars.take position ++ Char.ofNatAux code h :: chars.drop position) rest
      else none

def decode? (s : List Char) : Option (List Char) :=
  let digits := (s.reverse.takeWhile (· != '-')).reverse
  let plain := s.take (s.length - digits.length - 1)
  insertAll? s.length 72 0 128 true plain digits

end CodeAtlas.Url.Punycode

namespace CodeAtlas.Url

inductive Host where
  | name (text : List Char)
  | numeric
  deriving DecidableEq

/-! ## Numeric addresses -/

/-- A number as it can stand in a dotted address: with `0x` in base 16, with `0` in base 8. -/
def hostNumber? : List Char → Option Nat
  | [] => none
  | ['0'] => some 0
  | '0' :: c :: rest =>
    if c == 'x' || c == 'X' then Text.natOfBase? 16 rest else Text.natOfBase? 8 (c :: rest)
  | s => Text.natOfBase? 10 s

def labels (name : List Char) : List (List Char) := Text.splitOn '.' name

def addressLabels (name : List Char) : List (List Char) :=
  let all := labels name
  if all.length > 1 && all.getLast? == some [] then all.dropLast else all

def endsInNumber (name : List Char) : Bool :=
  match (addressLabels name).getLast? with
  | none => false
  | some last => (!last.isEmpty && last.all Text.isDigit) || (hostNumber? last).isSome

/-- Whether the name is a dotted address: up to four numbers, all but the last of one byte, the last of
the bytes that remain. -/
def isDottedAddress (name : List Char) : Bool :=
  match (addressLabels name).mapM hostNumber? with
  | none => false
  | some numbers =>
    numbers.length ≤ 4 && numbers.dropLast.all (· ≤ 255)
      && (numbers.getLast?).any (· < Nat.pow 256 (5 - numbers.length))

def isPlainAddress (s : List Char) : Bool :=
  let parts := Text.splitOn '.' s
  parts.length == 4 && parts.all fun part =>
    !part.isEmpty && part.all Text.isDigit && (part.length == 1 || part.head? != some '0')
      && Text.natOfDigits part ≤ 255

def piecesOf? (isEnd : Bool) : List (List Char) → Option Nat
  | [] => some 0
  | [group] =>
    if isEnd && isPlainAddress group then some 2
    else if !group.isEmpty && group.length ≤ 4 && group.all (fun c => (Text.hexValue? c).isSome) then
      some 1
    else none
  | group :: rest =>
    if !group.isEmpty && group.length ≤ 4 && group.all (fun c => (Text.hexValue? c).isSome) then
      (piecesOf? isEnd rest).map (1 + ·)
    else none

def groups (s : List Char) : List (List Char) := if s.isEmpty then [] else Text.splitOn ':' s

def isLongAddress (s : List Char) : Bool :=
  match Text.splitOnce? [':', ':'] s with
  | none => piecesOf? true (groups s) == some 8
  | some (front, back) =>
    match piecesOf? false (groups front), piecesOf? true (groups back) with
    | some m, some n => m + n ≤ 7
    | _, _ => false

/-! ## Names -/

def isBarred (c : Char) : Bool :=
  c ≤ ' ' || c.toNat == 0x7F || ['%', '#', '/', ':', '<', '>', '?', '@', '[', '\\', ']', '^', '|'].contains c

def encodedMark : List Char := ['x', 'n', '-', '-']

def isLabel (label : List Char) : Bool :=
  match Text.dropFront? encodedMark label with
  | none => true
  | some encoded =>
    match Punycode.decode? encoded with
    | none => false
    | some chars =>
      chars.any (fun c => c.toNat ≥ 0x80)
        && chars.all fun c => fold c == [c] && Text.lowerChar c == [c] && !isBarred c

def hostName? (s : List Char) : Option (List Char) :=
  match Bytes.decode? (unescape s) with
  | none => none
  | some text =>
    let name := text.toList.flatMap fold
    if name.isEmpty || name.any isBarred || !(labels name).all isLabel then none else some name

def bracketed? (s : List Char) : Option Host :=
  if s.getLast? == some ']' && isLongAddress s.tail.dropLast then some .numeric else none

def host? (s : List Char) : Option Host :=
  if s.head? == some '[' then bracketed? s
  else
    match hostName? s with
    | none => none
    | some name =>
      if endsInNumber name then if isDottedAddress name then some .numeric else none
      else some (.name name)

def isBarredVerbatim (c : Char) : Bool :=
  ['\x00', '\t', '\n', '\r', ' ', '#', '/', ':', '<', '>', '?', '@', '[', '\\', ']', '^', '|'].contains c

def verbatimHost? (s : List Char) : Option Host :=
  if s.head? == some '[' then bracketed? s
  else if s.any isBarredVerbatim then none
  else some (.name (escape isControlOrWide s))

end CodeAtlas.Url

namespace CodeAtlas.Text

/-! ## Blanks -/

def isBlank (c : Char) : Bool :=
  let n := c.toNat
  (9 ≤ n && n ≤ 13) || n == 0x20 || n == 0x85 || n == 0xA0 || n == 0x1680 ||
    (0x2000 ≤ n && n ≤ 0x200A) || n == 0x2028 || n == 0x2029 || n == 0x202F || n == 0x205F ||
    n == 0x3000

def trimLeft (s : List Char) : List Char := s.dropWhile isBlank

def trimRight (s : List Char) : List Char := (s.reverse.dropWhile isBlank).reverse

def trim (s : List Char) : List Char := trimRight (trimLeft s)

/-! ## Lines -/

def linesOf : List Char → List (List Char)
  | [] => []
  | '\n' :: rest => [] :: linesOf rest
  | '\r' :: '\n' :: rest => [] :: linesOf rest
  | c :: rest =>
    match linesOf rest with
    | [] => [[c]]
    | line :: lines => (c :: line) :: lines

def lines (s : String) : List String := (linesOf s.toList).map String.ofList

def unlines : List String → String
  | [] => ""
  | line :: rest => line ++ "\n" ++ unlines rest

/-! ## Digits -/

def isDigit (c : Char) : Bool := '0' ≤ c && c ≤ '9'

def digitValue (c : Char) : Nat := c.toNat - '0'.toNat

def natOfDigits (digits : List Char) : Nat :=
  digits.foldl (fun n c => 10 * n + digitValue c) 0

def digitsOf (n : Nat) : List Char := Nat.toDigits 10 n

def hexValue? (c : Char) : Option Nat :=
  if isDigit c then some (c.toNat - '0'.toNat)
  else if 'a' ≤ c && c ≤ 'f' then some (c.toNat - 'a'.toNat + 10)
  else if 'A' ≤ c && c ≤ 'F' then some (c.toNat - 'A'.toNat + 10)
  else none

/-- The number that digits of a base up to sixteen stand for; none if one is no digit of the base. -/
def natOfBase? (base : Nat) (digits : List Char) : Option Nat :=
  digits.foldlM
    (fun n c => (hexValue? c).bind fun d => if d < base then some (base * n + d) else none) 0

def hexDigit (n : Nat) : Char := if n < 10 then Char.ofNat (n + 48) else Char.ofNat (n + 87)

def capitalDigit (n : Nat) : Char := if n < 10 then Char.ofNat (n + 48) else Char.ofNat (n + 55)

/-! ## Search -/

variable {α : Type} [BEq α]

def contains (part : List α) : List α → Bool
  | [] => part.isEmpty
  | x :: rest => part.isPrefixOf (x :: rest) || contains part rest

def dropFront? (front : List α) (s : List α) : Option (List α) :=
  if front.isPrefixOf s then some (s.drop front.length) else none

def dropBack? (back : List α) (s : List α) : Option (List α) :=
  if back.isSuffixOf s then some (s.take (s.length - back.length)) else none

def splitOnce? (mark : List α) : List α → Option (List α × List α)
  | [] => if mark.isEmpty then some ([], []) else none
  | x :: rest =>
    if mark.isPrefixOf (x :: rest) then some ([], (x :: rest).drop mark.length)
    else (splitOnce? mark rest).map fun (before, after) => (x :: before, after)

def before (mark : List α) (s : List α) : List α :=
  match splitOnce? mark s with
  | some (front, _) => front
  | none => s

def splitOn (separator : α) : List α → List (List α)
  | [] => [[]]
  | x :: rest =>
    if x == separator then [] :: splitOn separator rest
    else
      match splitOn separator rest with
      | [] => [[x]]
      | piece :: pieces => (x :: piece) :: pieces

def joinWith (separator : List α) : List (List α) → List α
  | [] => []
  | [piece] => piece
  | piece :: rest => piece ++ separator ++ joinWith separator rest

def joinStrings (separator : String) : List String → String
  | [] => ""
  | [piece] => piece
  | piece :: rest => piece ++ separator ++ joinStrings separator rest

end CodeAtlas.Text

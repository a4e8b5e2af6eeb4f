import CodeAtlas.Text
import CodeAtlas.Toml.Table

namespace CodeAtlas.Toml

def maxInteger : Nat := UInt64.size / 2 - 1

/-! ## Numbers -/

def ungroup? (isDigit : Char → Bool) (s : List Char) : Option (List Char) :=
  let parts := Text.splitOn '_' s
  if parts.all fun part => !part.isEmpty && part.all isDigit then some parts.flatten else none

def natural? (base : Nat) (s : List Char) : Option Nat :=
  (ungroup? (fun c => (Text.natOfBase? base [c]).isSome) s).bind (Text.natOfBase? base)

def decimal? (s : List Char) : Option Nat :=
  if s.head? = some '0' ∧ s ≠ ['0'] then none
  else (ungroup? Text.isDigit s).map Text.natOfDigits

def positive? (n : Option Nat) : Option Int :=
  n.bind fun n => if n ≤ maxInteger then some (Int.ofNat n) else none

def integer? : List Char → Option Int
  | '0' :: 'x' :: digits => positive? (natural? 16 digits)
  | '0' :: 'o' :: digits => positive? (natural? 8 digits)
  | '0' :: 'b' :: digits => positive? (natural? 2 digits)
  | '+' :: digits => positive? (decimal? digits)
  | '-' :: digits =>
    (decimal? digits).bind fun n => if n ≤ maxInteger + 1 then some (-Int.ofNat n) else none
  | digits => positive? (decimal? digits)

def unsigned : List Char → List Char
  | '+' :: rest => rest
  | '-' :: rest => rest
  | s => s

def isDigits (s : List Char) : Bool := (ungroup? Text.isDigit s).isSome

def isFloat (s : List Char) : Bool :=
  let bare := unsigned s
  let mantissa := bare.takeWhile fun c => c != 'e' && c != 'E'
  let whole := mantissa.takeWhile (· != '.')
  let exponent := bare.drop mantissa.length
  let fraction := mantissa.drop whole.length
  bare == "inf".toList || bare == "nan".toList
    || ((decimal? whole).isSome && !(fraction.isEmpty && exponent.isEmpty)
      && (fraction.isEmpty || isDigits fraction.tail)
      && (exponent.isEmpty || isDigits (unsigned exponent.tail)))

/-! ## Dates and times -/

def twoDigits? (a b : Char) : Option Nat :=
  if Text.isDigit a && Text.isDigit b then some (Text.natOfDigits [a, b]) else none

def isLeapYear (year : Nat) : Bool := year % 4 == 0 && (year % 100 != 0 || year % 400 == 0)

def daysInMonth (year month : Nat) : Nat :=
  if month == 2 then if isLeapYear year then 29 else 28
  else if [4, 6, 9, 11].contains month then 30 else 31

def isDate : List Char → Bool
  | [y1, y2, y3, y4, '-', m1, m2, '-', d1, d2] =>
    match twoDigits? y1 y2, twoDigits? y3 y4, twoDigits? m1 m2, twoDigits? d1 d2 with
    | some century, some year, some month, some day =>
      1 ≤ month && month ≤ 12 && 1 ≤ day && day ≤ daysInMonth (100 * century + year) month
    | _, _, _, _ => false
  | _ => false

def isHourMinute (h1 h2 m1 m2 : Char) : Bool :=
  (twoDigits? h1 h2).any (· ≤ 23) && (twoDigits? m1 m2).any (· ≤ 59)

def isFraction : List Char → Bool
  | [] => true
  | '.' :: digits => !digits.isEmpty && digits.all Text.isDigit
  | _ => false

def isTime : List Char → Bool
  | h1 :: h2 :: ':' :: m1 :: m2 :: ':' :: s1 :: s2 :: fraction =>
    isHourMinute h1 h2 m1 m2 && (twoDigits? s1 s2).any (· ≤ 60) && isFraction fraction
  | _ => false

def isOffset : List Char → Bool
  | ['Z'] => true
  | ['z'] => true
  | ['+', h1, h2, ':', m1, m2] => isHourMinute h1 h2 m1 m2
  | ['-', h1, h2, ':', m1, m2] => isHourMinute h1 h2 m1 m2
  | _ => false

def isZonedTime (s : List Char) : Bool :=
  let clock := s.takeWhile fun c => c != 'Z' && c != 'z' && c != '+' && c != '-'
  let offset := s.drop clock.length
  isTime clock && (offset.isEmpty || isOffset offset)

def isDatetime (s : List Char) : Bool :=
  isTime s || isDate s
    || (isDate (s.take 10) && ['T', 't', ' '].any (fun c => (s.drop 10).head? == some c)
      && isZonedTime (s.drop 11))

/-! ## Scalars -/

def scalar? (s : List Char) : Option Toml :=
  if s = "true".toList then some (.boolean true)
  else if s = "false".toList then some (.boolean false)
  else
    match integer? s with
    | some n => some (.integer n)
    | none =>
      if isFloat s then some (.float (String.ofList s))
      else if isDatetime s then some (.datetime (String.ofList s))
      else none

def isScalarChar (c : Char) : Bool :=
  c.isAlphanum || c == '_' || c == '+' || c == '-' || c == '.' || c == ':'

/-- The value without quotes at the start of a text, and what follows it. One blank may stand between a
date and a time. -/
def takeScalar? (s : List Char) : Option (Toml × List Char) :=
  let word := s.takeWhile isScalarChar
  match s.dropWhile isScalarChar with
  | ' ' :: rest =>
    if isDate word && rest.head?.any Text.isDigit then
      let clock := rest.takeWhile isScalarChar
      (scalar? (word ++ ' ' :: clock)).map fun value => (value, rest.drop clock.length)
    else (scalar? word).map fun value => (value, ' ' :: rest)
  | rest => (scalar? word).map fun value => (value, rest)

end CodeAtlas.Toml

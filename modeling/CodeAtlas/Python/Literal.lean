import CodeAtlas.Text.Identifier

/-!
# String literals

Where a string literal of Python ends. Fields in braces of a formatted literal hold expressions, and
these hold literals again, so the reader keeps a stack of what is open.
-/
namespace CodeAtlas.Python

/-- How a literal is written: its mark, whether three marks enclose it, whether backslashes stay, and
whether braces hold fields. -/
structure LiteralStyle where
  mark : Char
  triple : Bool
  raw : Bool
  formatted : Bool

inductive LiteralFrame where
  | characters (style : LiteralStyle)
  | expression (depth : Nat)
  | layout

/-- What a reader of literals does next: it passes the next character and `more` after it. While it is
`fresh`, nothing stands since the literal began or an escape ended, and one line feed may follow. -/
structure LiteralStep where
  more : Nat
  fresh : Bool
  frames : List LiteralFrame

def isLiteralLetter (c : Char) : Bool :=
  c == 'f' || c == 'F' || c == 'r' || c == 'R' || c == 'b' || c == 'B' || c == 'u' || c == 'U'

def isQuoteMark (c : Char) : Bool := c == '\'' || c == '"' || c.toNat == 0x60

def opening? (s : List Char) : Option (LiteralStyle × Nat) :=
  let letters := s.takeWhile isLiteralLetter
  let raw := letters.any fun c => c == 'r' || c == 'R'
  let formatted := letters.any fun c => c == 'f' || c == 'F'
  match s.drop letters.length with
  | [] => none
  | mark :: rest =>
    if !isQuoteMark mark then none
    else if mark.toNat != 0x60 && [mark, mark].isPrefixOf rest then
      some (⟨mark, true, raw, formatted⟩, letters.length + 3)
    else some (⟨mark, false, raw, formatted⟩, letters.length + 1)

def isEscapable (c : Char) : Bool :=
  c == '\'' || c == '"' || c == '\\' || c == 'a' || c == 'b' || c == 'f' || c == 'r' || c == 't'
    || c == 'n' || c == 'v' || c == '\n'

def stepCharacters (style : LiteralStyle) (fresh : Bool) (outer : List LiteralFrame) (c : Char)
    (rest : List Char) : Option LiteralStep :=
  let here := LiteralFrame.characters style :: outer
  if c == '\\' then
    match rest with
    | '\r' :: '\n' :: _ => some ⟨2, fresh || !style.raw, here⟩
    | '\n' :: _ => some ⟨1, fresh || !style.raw, here⟩
    | next :: _ =>
      if style.raw then some ⟨if next == style.mark || next == '\\' then 1 else 0, true, here⟩
      else some ⟨if isEscapable next then 1 else 0, true, here⟩
    | [] => none
  else if c == style.mark then
    if !style.triple then some ⟨0, true, outer⟩
    else if [c, c].isPrefixOf rest then some ⟨2, true, outer⟩
    else some ⟨0, false, here⟩
  else if c == '\n' && !style.triple && !fresh then none
  else if style.formatted && (c == '{' || c == '}') && rest.head? == some c then some ⟨1, false, here⟩
  else if style.formatted && c == '{' then some ⟨0, true, .expression 0 :: here⟩
  else some ⟨0, false, here⟩

def stepExpression (depth : Nat) (outer : List LiteralFrame) (c : Char) (rest : List Char) :
    LiteralStep :=
  match opening? (c :: rest) with
  | some (style, length) =>
    ⟨length - 1, true, .characters style :: .expression depth :: outer⟩
  | none =>
    if c == '#' then ⟨(rest.takeWhile (· != '\n')).length, true, .expression depth :: outer⟩
    else if Text.isIdentifierPart c then
      ⟨(rest.takeWhile Text.isIdentifierPart).length, true, .expression depth :: outer⟩
    else if c == '(' || c == '[' || c == '{' then ⟨0, true, .expression (depth + 1) :: outer⟩
    else if c == '}' && depth == 0 then ⟨0, true, outer⟩
    else if c == ')' || c == ']' || c == '}' then ⟨0, true, .expression (depth - 1) :: outer⟩
    else if c == ':' && depth == 0 then ⟨0, true, .layout :: outer⟩
    else ⟨0, true, .expression depth :: outer⟩

def stepLayout (outer : List LiteralFrame) (c : Char) : LiteralStep :=
  if c == '{' then ⟨0, true, .expression 0 :: .layout :: outer⟩
  else if c == '}' then ⟨0, true, outer⟩
  else ⟨0, true, .layout :: outer⟩

def closingLength? (fresh : Bool) (frames : List LiteralFrame) (s : List Char) : Option Nat :=
  match frames, s with
  | [], _ => some 0
  | _ :: _, [] => none
  | frame :: outer, c :: rest =>
    let step := match frame with
      | .characters style => stepCharacters style fresh outer c rest
      | .expression depth => some (stepExpression depth outer c rest)
      | .layout => some (stepLayout outer c)
    match step with
    | none => none
    | some ⟨more, fresh, frames⟩ =>
      (closingLength? fresh frames (rest.drop more)).map (more + 1 + ·)
termination_by s.length
decreasing_by
  simp only [List.length_drop, List.length_cons]
  omega

/-- The length of the literal that begins here, if one does. One that is not closed goes to the end of
the line, or of the text if three marks enclose it. -/
def literalLength? (s : List Char) : Option Nat :=
  match opening? s with
  | none => none
  | some (style, length) =>
    match closingLength? true [.characters style] (s.drop length) with
    | some more => some (length + more)
    | none =>
      some (length + (if style.triple then s.drop length
        else (s.drop length).takeWhile (· != '\n')).length)

end CodeAtlas.Python

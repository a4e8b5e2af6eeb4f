import CodeAtlas.Text

namespace CodeAtlas.Toml

def isPlain (c : Char) : Bool := c == '\t' || (' ' ≤ c && c.toNat != 0x7F)

def escaped? : Char → Option Char
  | '"' => some '"'
  | '\\' => some '\\'
  | 'b' => some '\x08'
  | 't' => some '\t'
  | 'n' => some '\n'
  | 'f' => some '\x0C'
  | 'r' => some '\r'
  | _ => none

def numbered? (digits : List Char) : Option Char :=
  (Text.natOfBase? 16 digits).bind fun n =>
    if h : n.isValidChar then some (Char.ofNatAux n h) else none

def consRead (c : Option Char) (read : Option (List Char × List Char)) :
    Option (List Char × List Char) :=
  match c, read with
  | some c, some (text, rest) => some (c :: text, rest)
  | _, _ => none

/-- The text up to the quotation mark that closes it, and what follows. The mark that opens it is read. -/
def basic? : List Char → Option (List Char × List Char)
  | [] => none
  | '"' :: rest => some ([], rest)
  | '\\' :: 'u' :: a :: b :: c :: d :: rest => consRead (numbered? [a, b, c, d]) (basic? rest)
  | '\\' :: 'U' :: a :: b :: c :: d :: e :: f :: g :: h :: rest =>
    consRead (numbered? [a, b, c, d, e, f, g, h]) (basic? rest)
  | '\\' :: e :: rest => consRead (escaped? e) (basic? rest)
  | c :: rest => if isPlain c then consRead (some c) (basic? rest) else none

def literal? : List Char → Option (List Char × List Char)
  | [] => none
  | '\'' :: rest => some ([], rest)
  | c :: rest => if isPlain c then consRead (some c) (literal? rest) else none

def endsLine : List Char → Bool
  | '\n' :: _ => true
  | '\r' :: '\n' :: _ => true
  | ' ' :: rest => endsLine rest
  | '\t' :: rest => endsLine rest
  | _ => false

/-- A text with escapes over several lines. A backslash at the end of a line hides the line end and the
blanks and line ends after it; while `skipping`, they are passed. -/
def longBasic? : (skipping : Bool) → List Char → Option (List Char × List Char)
  | _, [] => none
  | true, ' ' :: rest => longBasic? true rest
  | true, '\t' :: rest => longBasic? true rest
  | true, '\n' :: rest => longBasic? true rest
  | true, '\r' :: '\n' :: rest => longBasic? true rest
  | _, '"' :: '"' :: '"' :: '"' :: '"' :: rest => some (['"', '"'], rest)
  | _, '"' :: '"' :: '"' :: '"' :: rest => some (['"'], rest)
  | _, '"' :: '"' :: '"' :: rest => some ([], rest)
  | _, '\n' :: rest => consRead (some '\n') (longBasic? false rest)
  | _, '\r' :: '\n' :: rest => consRead (some '\n') (longBasic? false rest)
  | _, '\\' :: 'u' :: a :: b :: c :: d :: rest =>
    consRead (numbered? [a, b, c, d]) (longBasic? false rest)
  | _, '\\' :: 'U' :: a :: b :: c :: d :: e :: f :: g :: h :: rest =>
    consRead (numbered? [a, b, c, d, e, f, g, h]) (longBasic? false rest)
  | _, '\\' :: e :: rest =>
    if endsLine (e :: rest) then longBasic? true (e :: rest)
    else consRead (escaped? e) (longBasic? false rest)
  | _, c :: rest => if isPlain c then consRead (some c) (longBasic? false rest) else none

def longLiteral? : List Char → Option (List Char × List Char)
  | [] => none
  | '\'' :: '\'' :: '\'' :: '\'' :: '\'' :: rest => some (['\'', '\''], rest)
  | '\'' :: '\'' :: '\'' :: '\'' :: rest => some (['\''], rest)
  | '\'' :: '\'' :: '\'' :: rest => some ([], rest)
  | '\n' :: rest => consRead (some '\n') (longLiteral? rest)
  | '\r' :: '\n' :: rest => consRead (some '\n') (longLiteral? rest)
  | c :: rest => if isPlain c then consRead (some c) (longLiteral? rest) else none

def dropNewline : List Char → List Char
  | '\n' :: rest => rest
  | '\r' :: '\n' :: rest => rest
  | s => s

def quoted? : List Char → Option (List Char × List Char)
  | '"' :: '"' :: '"' :: rest => longBasic? false (dropNewline rest)
  | '\'' :: '\'' :: '\'' :: rest => longLiteral? (dropNewline rest)
  | '"' :: rest => basic? rest
  | '\'' :: rest => literal? rest
  | _ => none

end CodeAtlas.Toml

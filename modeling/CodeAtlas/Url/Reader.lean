import CodeAtlas.Text
import CodeAtlas.Url.Host

namespace CodeAtlas.Url

abbrev Segment := List Char

def plainDots : Segment → Segment
  | [] => []
  | '%' :: '2' :: e :: rest =>
    if e == 'e' || e == 'E' then '.' :: plainDots rest else '%' :: '2' :: e :: plainDots rest
  | c :: rest => c :: plainDots rest

def isSingleDot (segment : Segment) : Bool := plainDots segment == ['.']

def isDoubleDot (segment : Segment) : Bool := plainDots segment == ['.', '.']

def isDriveLetter : Segment → Bool
  | [letter, mark] => letter.isAlpha && (mark == ':' || mark == '|')
  | _ => false

def shorten (path : List Segment) : List Segment :=
  if path.getLast?.any isDriveLetter then path else path.dropLast

/-- The segments after the next one is read. The last one of a path may be empty, so that a slash before
it is kept. -/
def step (path : List Segment) (segment : Segment) (isLast : Bool) : List Segment :=
  if isDoubleDot segment then if isLast then shorten path ++ [[]] else shorten path
  else if isSingleDot segment then if isLast then path ++ [[]] else path
  else path ++ [segment]

def stepAll (path : List Segment) : List Segment → List Segment
  | [] => path
  | segment :: rest => stepAll (step path segment rest.isEmpty) rest

def segments (isSeparator : Char → Bool) (s : List Char) : List Segment :=
  stepAll [] ((Text.splitOn '/' (s.map fun c => if isSeparator c then '/' else c)).map
    (escape isEscapedInSegment))

end CodeAtlas.Url

namespace CodeAtlas

structure Url where
  scheme : List Char
  host : Option Url.Host
  path : List Url.Segment
  deriving DecidableEq

namespace Url

/-! ## Schemes -/

def isFileScheme (scheme : List Char) : Bool := scheme == "file".toList

def isSpecial (scheme : List Char) : Bool :=
  ["http", "https", "ws", "wss", "ftp", "file"].any fun known => scheme == known.toList

def isSchemeChar (c : Char) : Bool := c.isAlphanum || c == '+' || c == '-' || c == '.'

def splitScheme? (s : List Char) : Option (List Char × List Char) :=
  match s.span isSchemeChar with
  | (first :: more, ':' :: rest) =>
    if first.isAlpha then some ((first :: more).map Char.toLower, rest) else none
  | _ => none

/-! ## Parts after the scheme -/

def isSlash (special : Bool) (c : Char) : Bool := c == '/' || (special && c == '\\')

def withoutQuery (s : List Char) : List Char := s.takeWhile fun c => c != '?' && c != '#'

def userinfo (authority : List Char) : List Char :=
  (authority.reverse.dropWhile (· != '@')).reverse

def namesUser (userinfo : List Char) : Bool := !userinfo.isEmpty && userinfo != ['@'] && userinfo != [':', '@']

def splitSocket : (bracketed : Bool) → List Char → List Char × List Char
  | _, [] => ([], [])
  | bracketed, c :: rest =>
    if c == ':' && !bracketed then ([], c :: rest)
    else
      let (host, socket) := splitSocket (if c == '[' then true else if c == ']' then false else bracketed) rest
      (c :: host, socket)

def maxSocket : Nat := 65535

def isSocket : List Char → Bool
  | [] => true
  | _ :: digits => digits.all Text.isDigit && Text.natOfDigits digits ≤ maxSocket

def authority? (special : Bool) (s : List Char) : Option (Option Host × List Char) :=
  let authority := s.takeWhile fun c => !isSlash special c
  let user := userinfo authority
  let (host, socket) := splitSocket false (authority.drop user.length)
  -- In the other schemes a backslash ends the socket number as well.
  let path := socket.dropWhile (· != '\\') ++ s.drop authority.length
  let socket := socket.takeWhile (· != '\\')
  if host.isEmpty then
    if special || !socket.isEmpty || namesUser user || (user == ['@'] && !path.isEmpty) then none
    else some (none, path)
  else if !isSocket socket then none
  else (if special then host? host else verbatimHost? host).map fun host => (some host, path)

def pathAfter (special : Bool) (s : List Char) : List Segment :=
  match s with
  | [] => []
  | c :: rest => segments (isSlash special) (if isSlash special c then rest else c :: rest)

/-! ## Addresses of files -/

/-- The segments of a path on a disk. A drive letter at the start ends with a colon and is a segment of
its own. -/
def fileSegments (s : List Char) : List Segment :=
  match segments (isSlash true) s with
  | [] => []
  | (letter :: mark :: more) :: rest =>
    if isDriveLetter [letter, mark] && more.isEmpty then [letter, ':'] :: rest
    else if isDriveLetter [letter, ':'] && mark == ':' then [letter, ':'] :: more :: rest
    else (letter :: mark :: more) :: rest
  | path => path

/-- What follows the scheme of an address of a file. A host before a drive letter does not count. -/
def readFileAddress? (s : List Char) : Option (Option Host × List Segment) :=
  match s with
  | first :: second :: rest =>
    if isSlash true first && isSlash true second then
      let host := rest.takeWhile fun c => !isSlash true c
      let path := rest.drop host.length
      if isDriveLetter host then some (none, fileSegments rest)
      else if host.isEmpty then some (none, fileSegments path.tail)
      else
        (host? host).map fun host =>
          let path := fileSegments path.tail
          if path.head?.any isDriveLetter || host == .name "localhost".toList then (none, path)
          else (some host, path)
    else some (none, fileSegments (if isSlash true first then second :: rest else s))
  | _ => some (none, fileSegments (s.dropWhile (isSlash true)))

/-! ## Reading -/

def readRest? (scheme s : List Char) : Option (Option Host × List Segment) :=
  if isFileScheme scheme then readFileAddress? (withoutQuery s)
  else if isSpecial scheme then
    (authority? true ((withoutQuery s).dropWhile (isSlash true))).map fun (host, path) =>
      (host, pathAfter true path)
  else
    match withoutQuery s with
    | '/' :: '/' :: rest =>
      (authority? false rest).map fun (host, path) => (host, pathAfter false path)
    | '/' :: rest => some (none, segments (isSlash false) rest)
    | rest => some (none, Text.splitOn '/' (escape isControlOrWide rest))

def isMargin (c : Char) : Bool := c ≤ ' '

def clean (s : List Char) : List Char :=
  ((s.dropWhile isMargin).reverse.dropWhile isMargin).reverse.filter fun c =>
    c != '\t' && c != '\n' && c != '\r'

def read? (s : String) : Option Url :=
  match splitScheme? (clean s.toList) with
  | none => none
  | some (scheme, rest) => (readRest? scheme rest).map fun (host, path) => ⟨scheme, host, path⟩

end Url
end CodeAtlas

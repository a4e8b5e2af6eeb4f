import CodeAtlas.Text

namespace CodeAtlas.Json

inductive Token where
  | openBrace
  | closeBrace
  | openBracket
  | closeBracket
  | colon
  | comma
  | null
  | boolean (b : Bool)
  | number (literal : String)
  | string (text : Option String)
  deriving DecidableEq

/-! ## Strings -/

inductive Unit16 where
  | char (c : Char)
  | high (n : Nat)
  | low (n : Nat)
  deriving DecidableEq

def Unit16.ofNat (n : Nat) : Unit16 :=
  if 0xD800 ≤ n && n < 0xDC00 then .high n
  else if 0xDC00 ≤ n && n < 0xE000 then .low n
  else .char (Char.ofNat n)

def escaped? : Char → Option Char
  | '"' => some '"'
  | '\\' => some '\\'
  | '/' => some '/'
  | 'b' => some '\x08'
  | 'f' => some '\x0C'
  | 'n' => some '\n'
  | 'r' => some '\r'
  | 't' => some '\t'
  | _ => none

def stringUnits? : List Char → Option (List Unit16 × List Char)
  | [] => none
  | '"' :: rest => some ([], rest)
  | '\\' :: 'u' :: a :: b :: c :: d :: rest =>
    match Text.natOfBase? 16 [a, b, c, d], stringUnits? rest with
    | some n, some (units, after) => some (.ofNat n :: units, after)
    | _, _ => none
  | '\\' :: e :: rest =>
    match escaped? e, stringUnits? rest with
    | some c, some (units, after) => some (.char c :: units, after)
    | _, _ => none
  | c :: rest =>
    if c < ' ' then none
    else (stringUnits? rest).map fun (units, after) => (.char c :: units, after)

def assemble? : List Unit16 → Option (List Char)
  | [] => some []
  | .char c :: rest => (assemble? rest).map (c :: ·)
  | .high h :: .low l :: rest =>
    (assemble? rest).map (Char.ofNat (0x10000 + (h - 0xD800) * 0x400 + (l - 0xDC00)) :: ·)
  | _ => none

/-! ## Numbers -/

def digits? (s : List Char) : Option (List Char × List Char) :=
  if (s.takeWhile Text.isDigit).isEmpty then none
  else some (s.takeWhile Text.isDigit, s.dropWhile Text.isDigit)

def whole? : List Char → Option (List Char × List Char)
  | '0' :: rest => some (['0'], rest)
  | s => digits? s

def fraction? : List Char → Option (List Char × List Char)
  | '.' :: rest => (digits? rest).map fun (digits, after) => ('.' :: digits, after)
  | s => some ([], s)

def sign : List Char → List Char × List Char
  | '+' :: rest => (['+'], rest)
  | '-' :: rest => (['-'], rest)
  | s => ([], s)

def exponent? : List Char → Option (List Char × List Char)
  | [] => some ([], [])
  | c :: rest =>
    if c = 'e' ∨ c = 'E' then
      (digits? (sign rest).2).map fun (digits, after) => (c :: (sign rest).1 ++ digits, after)
    else some ([], c :: rest)

def unsigned? (s : List Char) : Option (List Char × List Char) := do
  let (whole, s) ← whole? s
  let (fraction, s) ← fraction? s
  let (exponent, s) ← exponent? s
  return (whole ++ fraction ++ exponent, s)

/-! ## Tokens -/

def token? : List Char → Option (Token × List Char)
  | '{' :: rest => some (.openBrace, rest)
  | '}' :: rest => some (.closeBrace, rest)
  | '[' :: rest => some (.openBracket, rest)
  | ']' :: rest => some (.closeBracket, rest)
  | ':' :: rest => some (.colon, rest)
  | ',' :: rest => some (.comma, rest)
  | 'n' :: 'u' :: 'l' :: 'l' :: rest => some (.null, rest)
  | 't' :: 'r' :: 'u' :: 'e' :: rest => some (.boolean true, rest)
  | 'f' :: 'a' :: 'l' :: 's' :: 'e' :: rest => some (.boolean false, rest)
  | '"' :: rest =>
    (stringUnits? rest).map fun (units, after) =>
      (.string ((assemble? units).map String.ofList), after)
  | '-' :: rest =>
    (unsigned? rest).map fun (literal, after) => (.number (String.ofList ('-' :: literal)), after)
  | s => (unsigned? s).map fun (literal, after) => (.number (String.ofList literal), after)

def isSpace (c : Char) : Bool := c == ' ' || c == '\t' || c == '\n' || c == '\r'

/-! ## Progress

What follows a token is shorter than what begins with it. -/

theorem stringUnits?_length {s : List Char} {units : List Unit16} {after : List Char}
    (h : stringUnits? s = some (units, after)) : after.length < s.length := by
  fun_induction stringUnits? s generalizing units after with
  | case1 => simp at h
  | case2 rest => simp_all
  | case3 a b c d rest n units' after' hrest _ ih =>
    have := ih hrest
    simp_all
    omega
  | case4 => simp at h
  | case5 e rest _ c units' after' hrest _ ih =>
    have := ih hrest
    simp_all
    omega
  | case6 => simp at h
  | case7 => simp at h
  | case8 c rest _ _ _ _ ih =>
    obtain ⟨⟨units', after'⟩, hrest, heq⟩ := Option.map_eq_some_iff.1 h
    have := ih hrest
    simp_all
    omega

theorem digits?_length {s digits after : List Char} (h : digits? s = some (digits, after)) :
    after.length < s.length := by
  unfold digits? at h
  split at h
  · simp at h
  · rename_i nonempty
    simp only [Option.some.injEq, Prod.mk.injEq] at h
    have split := congrArg List.length (List.takeWhile_append_dropWhile (p := Text.isDigit) (l := s))
    have : (s.takeWhile Text.isDigit).length ≠ 0 := by simpa using nonempty
    simp only [List.length_append] at split
    rw [← h.2]
    omega

theorem whole?_length {s whole after : List Char} (h : whole? s = some (whole, after)) :
    after.length < s.length := by
  unfold whole? at h
  split at h
  · simp_all
  · exact digits?_length h

theorem fraction?_length {s fraction after : List Char}
    (h : fraction? s = some (fraction, after)) : after.length ≤ s.length := by
  unfold fraction? at h
  split at h
  · obtain ⟨⟨digits, rest⟩, hdigits, heq⟩ := Option.map_eq_some_iff.1 h
    have := digits?_length hdigits
    simp_all
    omega
  · simp_all

theorem sign_length (s : List Char) : (sign s).2.length ≤ s.length := by
  unfold sign
  split <;> simp

theorem exponent?_length {s exponent after : List Char}
    (h : exponent? s = some (exponent, after)) : after.length ≤ s.length := by
  unfold exponent? at h
  split at h
  · simp_all
  · rename_i c rest
    split at h
    · obtain ⟨⟨digits, rest'⟩, hdigits, heq⟩ := Option.map_eq_some_iff.1 h
      have := digits?_length hdigits
      have := sign_length rest
      simp_all
      omega
    · simp_all

theorem unsigned?_length {s literal after : List Char}
    (h : unsigned? s = some (literal, after)) : after.length < s.length := by
  simp only [unsigned?, Option.bind_eq_bind, Option.bind_eq_some_iff, Option.pure_def,
    Option.some.injEq, Prod.mk.injEq] at h
  obtain ⟨⟨whole, s1⟩, hwhole, ⟨fraction, s2⟩, hfraction, ⟨exponent, s3⟩, hexponent, _, rfl⟩ := h
  have := whole?_length hwhole
  have := fraction?_length hfraction
  have := exponent?_length hexponent
  simp_all
  omega

theorem token?_length {s after : List Char} {token : Token} (h : token? s = some (token, after)) :
    after.length < s.length := by
  unfold token? at h
  split at h
  case h_10 =>
    obtain ⟨⟨units, rest⟩, hunits, heq⟩ := Option.map_eq_some_iff.1 h
    have := stringUnits?_length hunits
    simp_all
    omega
  case h_11 =>
    obtain ⟨⟨literal, rest⟩, hliteral, heq⟩ := Option.map_eq_some_iff.1 h
    have := unsigned?_length hliteral
    simp_all
    omega
  case h_12 =>
    obtain ⟨⟨literal, rest⟩, hliteral, heq⟩ := Option.map_eq_some_iff.1 h
    have := unsigned?_length hliteral
    simp_all
  all_goals
    simp only [Option.some.injEq, Prod.mk.injEq] at h
    rw [← h.2]
    simp only [List.length_cons]
    omega

def tokens? (s : List Char) : Option (List Token) :=
  match s with
  | [] => some []
  | c :: rest =>
    if isSpace c then tokens? rest
    else
      match _found : token? (c :: rest) with
      | none => none
      | some (token, after) => (tokens? after).map (token :: ·)
termination_by s.length
decreasing_by
  · simp
  · exact token?_length _found

end CodeAtlas.Json

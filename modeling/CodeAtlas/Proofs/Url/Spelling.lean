import CodeAtlas.Proofs.Text.Decimal
import CodeAtlas.Proofs.Text.Search
import CodeAtlas.Proofs.Text.Utf8
import CodeAtlas.Url.Reader
import Mathlib.Data.List.TakeDrop
import Mathlib.Data.List.TakeWhile

namespace CodeAtlas.Url

/-! ## Characters that stand for themselves -/

def isUnreserved (c : Char) : Bool := c.isAlphanum || c == '-' || c == '.' || c == '_' || c == '~'

def isHostChar (c : Char) : Bool := c.isAlphanum || c == '.' || c == '-'

section Characters

variable {c d : Char}

theorem isUnreserved_of_isHostChar (plain : isHostChar c = true) : isUnreserved c = true := by
  simp only [isHostChar, isUnreserved, Bool.or_eq_true] at plain ⊢
  rcases plain with (inside | dot) | dash
  · exact .inl (.inl (.inl (.inl inside)))
  · exact .inl (.inl (.inr dot))
  · exact .inl (.inl (.inl (.inr dash)))

theorem isUnreserved_of_isDigit (digit : Text.isDigit c = true) : isUnreserved c = true := by
  have own : c.isDigit = true := digit
  simp [isUnreserved, Char.isAlphanum, own]

theorem ne_of_isUnreserved (plain : isUnreserved c = true) (mark : isUnreserved d = false) : c ≠ d := by
  rintro rfl
  rw [plain] at mark
  cases mark

theorem isUnreserved_range (plain : isUnreserved c = true) : 0x20 < c.toNat ∧ c.toNat < 0x7F := by
  simp only [isUnreserved, Bool.or_eq_true, beq_iff_eq] at plain
  rcases plain with (((inside | rfl) | rfl) | rfl) | rfl
  · have range := Text.isAlphanum_range inside
    omega
  all_goals decide

theorem isSlash_of_isUnreserved (plain : isUnreserved c = true) (special : Bool) :
    isSlash special c = false := by
  have slash := ne_of_isUnreserved plain (d := '/') (by decide)
  have backslash := ne_of_isUnreserved plain (d := '\\') (by decide)
  simp [isSlash, slash, backslash]

theorem isEscapedInSegment_of_isUnreserved (plain : isUnreserved c = true) :
    isEscapedInSegment c = false := by
  have range := isUnreserved_range plain
  have control : isControlOrWide c = false := by
    have below : ¬ c < ' ' := by
      rw [Char.lt_def, UInt32.lt_iff_toNat_lt]
      exact Nat.not_lt.mpr (Nat.le_of_lt range.1)
    simp [isControlOrWide, below, range.2]
  have grave : c.toNat ≠ 0x60 := fun same => by
    have own : c = '\x60' := by rw [← Char.ofNat_toNat c, same]
    exact ne_of_isUnreserved plain (by decide) own
  have others : ∀ d, isUnreserved d = false → c ≠ d := fun d => ne_of_isUnreserved plain
  simp [isEscapedInSegment, control, grave, others ' ' (by decide), others '"' (by decide),
    others '<' (by decide), others '>' (by decide), others '#' (by decide), others '?' (by decide),
    others '{' (by decide), others '}' (by decide)]

theorem fold_of_isHostChar (plain : isHostChar c = true) : fold c = [c.toLower] := by
  have range := isUnreserved_range (isUnreserved_of_isHostChar plain)
  exact if_pos (by omega)

end Characters

/-! ## Segments -/

theorem escape_of_plain {isEscaped : Char → Bool} {s : List Char} (plain : ∀ c ∈ s, isEscaped c = false) :
    escape isEscaped s = s := by
  induction s with
  | nil => rfl
  | cons c rest ih =>
      rw [List.forall_mem_cons] at plain
      have tail := ih plain.2
      rw [escape] at tail ⊢
      rw [List.flatMap_cons, plain.1, tail]
      rfl

theorem plainDots_of_plain {segment : Segment} (plain : ∀ c ∈ segment, isUnreserved c = true) :
    plainDots segment = segment := by
  induction segment with
  | nil => rfl
  | cons c rest ih =>
      rw [List.forall_mem_cons] at plain
      have mark := ne_of_isUnreserved plain.1 (d := '%') (by decide)
      rw [plainDots, ih plain.2]
      exact fun e rest same => absurd same mark

theorem stepAll_of_plain {segments : List Segment}
    (plain : ∀ segment ∈ segments, isSingleDot segment = false ∧ isDoubleDot segment = false)
    (path : List Segment) : stepAll path segments = path ++ segments := by
  induction segments generalizing path with
  | nil => exact (List.append_nil path).symm
  | cons segment rest ih =>
      rw [List.forall_mem_cons] at plain
      rw [stepAll, ih plain.2, step, plain.1.2, plain.1.1, if_neg Bool.false_ne_true,
        if_neg Bool.false_ne_true, List.append_assoc]
      rfl

def IsPlainSegment (segment : Segment) : Prop :=
  (∀ c ∈ segment, isUnreserved c = true) ∧ segment ≠ ['.'] ∧ segment ≠ ['.', '.']

theorem flatMap_slash (first : Segment) (others : List Segment) :
    (first :: others).flatMap ('/' :: ·) = '/' :: Text.joinWith ['/'] (first :: others) := by
  induction others generalizing first with
  | nil => simp [Text.joinWith]
  | cons second others ih =>
      have joined : Text.joinWith ['/'] (first :: second :: others) =
          first ++ ['/'] ++ Text.joinWith ['/'] (second :: others) := rfl
      rw [List.flatMap_cons, ih, joined, List.append_assoc]
      rfl

theorem segments_joinWith {special : Bool} {first : Segment} {others : List Segment}
    (plain : ∀ segment ∈ first :: others, IsPlainSegment segment) :
    segments (isSlash special) (Text.joinWith ['/'] (first :: others)) = first :: others := by
  have chars : ∀ segment ∈ first :: others, ∀ c ∈ segment, isUnreserved c = true :=
    fun segment member => (plain segment member).1
  have same : (Text.joinWith ['/'] (first :: others)).map
      (fun c => if isSlash special c then '/' else c) = Text.joinWith ['/'] (first :: others) := by
    refine (List.map_congr_left fun c member => ?_).trans (List.map_id _)
    rcases Text.mem_joinWith member with slash | ⟨segment, among, inside⟩
    · rw [List.mem_singleton.mp slash, ite_self]
      rfl
    · rw [isSlash_of_isUnreserved (chars segment among c inside), if_neg Bool.false_ne_true]
      rfl
  have escaped : (first :: others).map (escape isEscapedInSegment) = first :: others := by
    refine (List.map_congr_left fun segment member => ?_).trans (List.map_id _)
    exact escape_of_plain fun c inside =>
      isEscapedInSegment_of_isUnreserved (chars segment member c inside)
  have dots : ∀ segment ∈ first :: others, isSingleDot segment = false ∧ isDoubleDot segment = false := by
    intro segment member
    rw [isSingleDot, isDoubleDot, plainDots_of_plain (chars segment member)]
    simpa using (plain segment member).2
  have slashes : ∀ segment ∈ first :: others, '/' ∉ segment := fun segment member slash =>
    ne_of_isUnreserved (chars segment member '/' slash) (by decide) rfl
  rw [segments, same, Text.splitOn_joinWith _ _ _ slashes, escaped, stepAll_of_plain dots, List.nil_append]

/-! ## Hosts -/

theorem unescape_of_plain {s : List Char} (absent : '%' ∉ s) :
    unescape s = Bytes.ofString (String.ofList s) := by
  rw [Bytes.ofString_ofList]
  induction s with
  | nil => rfl
  | cons c rest ih =>
      rw [List.mem_cons, not_or] at absent
      rw [unescape, ih absent.2, List.flatMap_cons]
      exact fun high low rest same => absurd same.symm absent.1

def foldedHost? (name : List Char) : Option Host :=
  if name.isEmpty || name.any isBarred || !(labels name).all isLabel then none
  else if endsInNumber name then if isDottedAddress name then some .numeric else none
  else some (.name name)

theorem host?_of_plain {host : List Char} (plain : ∀ c ∈ host, isHostChar c = true) :
    host? host = foldedHost? (host.map Char.toLower) := by
  have absent : ∀ d, isHostChar d = false → d ∉ host := fun d mark member => by
    rw [plain d member] at mark
    cases mark
  have bracket : ¬ (host.head? == some '[') = true := fun head =>
    absent '[' (by decide) (List.mem_of_mem_head? (beq_iff_eq.mp head))
  have folded : host.flatMap fold = host.map Char.toLower := by
    rw [List.map_eq_flatMap, List.flatMap_def, List.flatMap_def]
    exact congrArg List.flatten (List.map_congr_left fun c member => fold_of_isHostChar (plain c member))
  rw [host?, if_neg bracket, hostName?, unescape_of_plain (absent '%' (by decide)),
    Bytes.decode?_ofString]
  simp only [String.toList_ofList, folded, foldedHost?]
  generalize host.map Char.toLower = name
  cases name.isEmpty || name.any isBarred || !(labels name).all isLabel with
  | true => rfl
  | false => rfl

/-! ## The authority -/

theorem bne_of_mem_reverse {s : List Char} (absent : '@' ∉ s) :
    ∀ c ∈ s.reverse, (c != '@') = true := by
  intro c member
  rw [bne_iff_ne]
  rintro rfl
  exact absent (List.mem_reverse.mp member)

theorem userinfo_eq_nil {s : List Char} (absent : '@' ∉ s) : userinfo s = [] := by
  rw [userinfo, List.dropWhile_eq_nil_iff.mpr (bne_of_mem_reverse absent)]
  rfl

theorem userinfo_append (front : List Char) {rest : List Char} (absent : '@' ∉ rest) :
    userinfo (front ++ '@' :: rest) = front ++ ['@'] := by
  rw [userinfo, List.reverse_append, List.reverse_cons, List.append_assoc,
    List.dropWhile_append_of_pos (bne_of_mem_reverse absent)]
  simp

theorem splitSocket_append {host socket : List Char}
    (plain : ∀ c ∈ host, isHostChar c = true) (mark : socket = [] ∨ socket.head? = some ':') :
    splitSocket false (host ++ socket) = (host, socket) := by
  induction host with
  | nil =>
      cases socket with
      | nil => rfl
      | cons c digits =>
          obtain rfl : c = ':' := by simpa using mark
          rfl
  | cons c rest ih =>
      rw [List.forall_mem_cons] at plain
      have others : ∀ d, isUnreserved d = false → (c == d) = false := fun d mark =>
        beq_eq_false_iff_ne.mpr (ne_of_isUnreserved (isUnreserved_of_isHostChar plain.1) mark)
      rw [List.cons_append, splitSocket, others ':' (by decide), others '[' (by decide),
        others ']' (by decide)]
      simp only [Bool.false_and, Bool.false_eq_true, if_false, ih plain.2]

/-! ## Whole addresses -/

def webSchemes : List (List Char) := ["http", "https", "ws", "wss", "ftp"].map String.toList

/-- The parts of an address in a scheme of the web, of characters that stand for themselves. -/
structure Spelling where
  scheme : List Char
  user : Option (List Char)
  host : List Char
  socket : Option (List Char)
  segments : List Segment
  query : Option (List Char)
  fragment : Option (List Char)
  scheme_known : scheme.map Char.toLower ∈ webSchemes
  user_plain : ∀ text ∈ user, ∀ c ∈ text, isUnreserved c = true
  host_nonempty : host ≠ []
  host_plain : ∀ c ∈ host, isHostChar c = true
  socket_digits : ∀ digits ∈ socket,
    (∀ c ∈ digits, Text.isDigit c = true) ∧ Text.natOfDigits digits ≤ maxSocket
  segments_plain : ∀ segment ∈ segments, IsPlainSegment segment
  query_plain : ∀ text ∈ query, ∀ c ∈ text, isUnreserved c = true
  fragment_plain : ∀ text ∈ fragment, ∀ c ∈ text, isUnreserved c = true

namespace Spelling

def userText (s : Spelling) : List Char := s.user.elim [] (· ++ ['@'])
def socketText (s : Spelling) : List Char := s.socket.elim [] (':' :: ·)
def authority (s : Spelling) : List Char := s.userText ++ (s.host ++ s.socketText)
def path (s : Spelling) : List Char := s.segments.flatMap ('/' :: ·)
def front (s : Spelling) : List Char := '/' :: '/' :: (s.authority ++ s.path)
def back (s : Spelling) : List Char := s.query.elim [] ('?' :: ·) ++ s.fragment.elim [] ('#' :: ·)

def chars (s : Spelling) : List Char := s.scheme ++ ':' :: (s.front ++ s.back)

def text (s : Spelling) : String := String.ofList s.chars

variable (s : Spelling)

theorem mem_userText {c : Char} (member : c ∈ s.userText) : isUnreserved c = true ∨ c = '@' := by
  cases user : s.user with
  | none => simp [userText, user] at member
  | some text =>
      rw [userText, user, Option.elim_some, List.mem_append, List.mem_singleton] at member
      exact member.imp_left (s.user_plain text user c)

theorem mem_socketText {c : Char} (member : c ∈ s.socketText) : Text.isDigit c = true ∨ c = ':' := by
  cases socket : s.socket with
  | none => simp [socketText, socket] at member
  | some digits =>
      rw [socketText, socket, Option.elim_some, List.mem_cons] at member
      exact member.symm.imp_left ((s.socket_digits digits socket).1 c)

theorem mem_authority {c : Char} (member : c ∈ s.authority) :
    isUnreserved c = true ∨ c = '@' ∨ c = ':' := by
  rw [authority, List.mem_append, List.mem_append] at member
  rcases member with user | host | socket
  · exact (s.mem_userText user).imp_right .inl
  · exact .inl (isUnreserved_of_isHostChar (s.host_plain c host))
  · exact (s.mem_socketText socket).imp isUnreserved_of_isDigit .inr

theorem mem_path {c : Char} (member : c ∈ s.path) : isUnreserved c = true ∨ c = '/' := by
  obtain ⟨segment, among, inside⟩ := List.mem_flatMap.mp member
  rw [List.mem_cons] at inside
  exact inside.symm.imp_left ((s.segments_plain segment among).1 c)

theorem mem_front {c : Char} (member : c ∈ s.front) : isUnreserved c = true ∨ c ∈ ['/', '@', ':'] := by
  rw [front, List.mem_cons, List.mem_cons, List.mem_append] at member
  rcases member with rfl | rfl | authority | path
  · exact .inr (by decide)
  · exact .inr (by decide)
  · exact (s.mem_authority authority).imp_right fun mark => by simp [mark]
  · exact (s.mem_path path).imp_right fun mark => by simp [mark]

theorem mem_back {c : Char} (member : c ∈ s.back) : isUnreserved c = true ∨ c ∈ ['?', '#'] := by
  rw [back, List.mem_append] at member
  rcases member with query | fragment
  · cases known : s.query with
    | none => simp [known] at query
    | some text =>
        rw [known, Option.elim_some, List.mem_cons] at query
        exact query.symm.imp (s.query_plain text known c) fun mark => by simp [mark]
  · cases known : s.fragment with
    | none => simp [known] at fragment
    | some text =>
        rw [known, Option.elim_some, List.mem_cons] at fragment
        exact fragment.symm.imp (s.fragment_plain text known c) fun mark => by simp [mark]

/-! ### Its parts -/

theorem path_eq : s.path = [] ∨ ∃ rest, s.path = '/' :: rest := by
  rw [path]
  cases s.segments with
  | nil => exact .inl rfl
  | cons first others => exact .inr ⟨_, rfl⟩

theorem userinfo_authority : userinfo s.authority = s.userText := by
  have absent : '@' ∉ s.host ++ s.socketText := by
    rw [List.mem_append]
    rintro (host | socket)
    · exact absurd (s.host_plain _ host) (by decide)
    · exact absurd (s.mem_socketText socket) (by decide)
  rw [authority, userText]
  cases s.user with
  | none => exact userinfo_eq_nil absent
  | some text =>
      rw [Option.elim_some, List.append_assoc]
      exact userinfo_append text absent

theorem isSocket_socketText : isSocket s.socketText = true := by
  cases known : s.socket with
  | none => simp [socketText, known, isSocket]
  | some digits =>
      obtain ⟨all, bounded⟩ := s.socket_digits digits known
      simp only [socketText, known, Option.elim_some, isSocket, Bool.and_eq_true, decide_eq_true_eq]
      exact ⟨List.all_eq_true.mpr all, bounded⟩

theorem isSlash_authority {c : Char} (member : c ∈ s.authority) : isSlash true c = false := by
  rcases s.mem_authority member with plain | rfl | rfl
  · exact isSlash_of_isUnreserved plain true
  · decide
  · decide

theorem authority?_front : authority? true (s.authority ++ s.path) =
    (host? s.host).map fun host => (some host, s.path) := by
  have plain : ∀ c ∈ s.authority, (!isSlash true c) = true := fun c member => by
    rw [s.isSlash_authority member, Bool.not_false]
  have whole : (s.authority ++ s.path).takeWhile (fun c => !isSlash true c) = s.authority := by
    rw [List.takeWhile_append_of_pos plain]
    rcases s.path_eq with none | ⟨rest, slash⟩
    · rw [none, List.takeWhile_nil, List.append_nil]
    · rw [slash, List.takeWhile_cons_of_neg (by decide), List.append_nil]
  have host : splitSocket false (s.authority.drop s.userText.length) = (s.host, s.socketText) := by
    rw [authority, List.drop_left]
    refine splitSocket_append s.host_plain ?_
    rw [socketText]
    cases s.socket with
    | none => exact .inl rfl
    | some digits => exact .inr rfl
  have straight : ∀ c ∈ s.socketText, (c != '\\') = true := by
    intro c member
    rcases s.mem_socketText member with digit | rfl
    · exact bne_iff_ne.mpr (ne_of_isUnreserved (isUnreserved_of_isDigit digit) (by decide))
    · decide
  unfold authority?
  simp only [whole, s.userinfo_authority, host, List.dropWhile_eq_nil_iff.mpr straight,
    List.takeWhile_eq_self_iff.mpr straight, List.isEmpty_eq_false_iff.mpr s.host_nonempty,
    s.isSocket_socketText, List.drop_left]
  rfl

theorem withoutQuery_front : withoutQuery (s.front ++ s.back) = s.front := by
  have marks : ∀ c ∈ ['/', '@', ':'], (c != '?' && c != '#') = true :=
    List.all_eq_true.mp (by decide)
  have front : ∀ c ∈ s.front, (c != '?' && c != '#') = true := by
    intro c member
    rcases s.mem_front member with plain | mark
    · have query : c ≠ '?' := ne_of_isUnreserved plain (by decide)
      have fragment : c ≠ '#' := ne_of_isUnreserved plain (by decide)
      simp [query, fragment]
    · exact marks c mark
  have back : s.back.takeWhile (fun c => c != '?' && c != '#') = [] := by
    rw [Spelling.back]
    cases s.query with
    | some text => rfl
    | none =>
        cases s.fragment with
        | some text => rfl
        | none => rfl
  rw [withoutQuery, List.takeWhile_append_of_pos front, back, List.append_nil]

theorem dropWhile_front : s.front.dropWhile (isSlash true) = s.authority ++ s.path := by
  have nonempty : s.authority ≠ [] := by simp [authority, s.host_nonempty]
  obtain ⟨c, rest, shape⟩ := List.exists_cons_of_ne_nil nonempty
  have first : isSlash true c = false := s.isSlash_authority (by simp [shape])
  rw [front, shape, List.dropWhile_cons_of_pos (by decide), List.dropWhile_cons_of_pos (by decide),
    List.cons_append, List.dropWhile_cons_of_neg (by simp [first])]

theorem pathAfter_path : pathAfter true s.path = s.segments := by
  have plain := s.segments_plain
  rw [path]
  generalize s.segments = segments at plain
  cases segments with
  | nil => rfl
  | cons first others =>
      rw [flatMap_slash]
      exact segments_joinWith plain

/-! ### Reading it -/

theorem isAlpha_scheme {c : Char} (member : c ∈ s.scheme) : c.isAlpha = true := by
  have known : ∀ scheme ∈ webSchemes, scheme.all Char.isLower = true := by decide
  have lower := List.all_eq_true.mp (known _ s.scheme_known) _ (List.mem_map_of_mem member)
  refine Bool.or_eq_true_iff.mpr ?_
  by_cases upper : 'A'.val ≤ c.val ∧ c.val ≤ 'Z'.val
  · exact .inl (decide_eq_true upper)
  · have same : c.toLower = c := dif_neg upper
    exact .inr (same ▸ lower)

theorem splitScheme?_chars :
    splitScheme? s.chars = some (s.scheme.map Char.toLower, s.front ++ s.back) := by
  have all : ∀ c ∈ s.scheme, isSchemeChar c = true := fun c member => by
    simp [isSchemeChar, Char.isAlphanum, s.isAlpha_scheme member]
  have split : s.chars.span isSchemeChar = (s.scheme, ':' :: (s.front ++ s.back)) := by
    rw [List.span_eq_takeWhile_dropWhile, chars, List.takeWhile_append_of_pos all,
      List.dropWhile_append_of_pos all, List.takeWhile_cons_of_neg (by decide),
      List.dropWhile_cons_of_neg (by decide), List.append_nil]
  have nonempty : s.scheme ≠ [] := fun none => by
    have known := s.scheme_known
    rw [none] at known
    revert known
    decide
  obtain ⟨first, more, shape⟩ := List.exists_cons_of_ne_nil nonempty
  have alpha : first.isAlpha = true := s.isAlpha_scheme (by simp [shape])
  rw [splitScheme?, split, shape]
  exact if_pos alpha

theorem isMargin_chars {c : Char} (member : c ∈ s.chars) : isMargin c = false := by
  have visible : ∀ {c : Char}, isUnreserved c = true → isMargin c = false := by
    intro c plain
    rw [isMargin, decide_eq_false_iff_not, Char.le_def, UInt32.le_iff_toNat_le]
    exact Nat.not_le.mpr (isUnreserved_range plain).1
  have marks : ∀ c ∈ ['/', '@', ':', '?', '#'], isMargin c = false := by
    simp only [← Bool.not_eq_true', ← List.all_eq_true]
    decide
  rw [chars, List.mem_append, List.mem_cons, List.mem_append] at member
  rcases member with scheme | rfl | front | back
  · exact visible (by simp [isUnreserved, Char.isAlphanum, s.isAlpha_scheme scheme])
  · decide
  · exact (s.mem_front front).elim visible fun mark => marks c (List.mem_append_left ['?', '#'] mark)
  · exact (s.mem_back back).elim visible fun mark => marks c (List.mem_append_right ['/', '@', ':'] mark)

end Spelling

theorem clean_of_visible {s : List Char} (visible : ∀ c ∈ s, isMargin c = false) : clean s = s := by
  have keeps : ∀ {text : List Char},
      (∀ c ∈ text, isMargin c = false) → text.dropWhile isMargin = text := by
    intro text visible
    refine List.dropWhile_eq_self_iff.mpr fun nonempty => ?_
    simp [visible _ (List.getElem_mem nonempty)]
  have reversed : ∀ c ∈ s.reverse, isMargin c = false := fun c member =>
    visible c (List.mem_reverse.mp member)
  have marks : ∀ c ∈ ['\t', '\n', '\r'], isMargin c = true := List.all_eq_true.mp (by decide)
  rw [clean, keeps visible, keeps reversed, List.reverse_reverse, List.filter_eq_self]
  intro c member
  have others : ∀ d ∈ ['\t', '\n', '\r'], c ≠ d := by
    rintro d mark rfl
    exact absurd (marks c mark) (by simp [visible c member])
  simpa [and_assoc] using others

/-- An address without escapes has the host that its host text stands for, and the segments as they are
written. -/
theorem read?_spelling (s : Spelling) :
    read? s.text = (host? s.host).map fun host => ⟨s.scheme.map Char.toLower, some host, s.segments⟩ := by
  have web : ∀ scheme ∈ webSchemes, isFileScheme scheme = false ∧ isSpecial scheme = true := by decide
  obtain ⟨noFile, special⟩ := web _ s.scheme_known
  rw [read?, Spelling.text, String.toList_ofList, clean_of_visible fun c => s.isMargin_chars,
    s.splitScheme?_chars]
  simp only [readRest?, noFile, special, s.withoutQuery_front, s.dropWhile_front, s.authority?_front]
  cases host? s.host with
  | none => rfl
  | some host => simp [s.pathAfter_path]

end CodeAtlas.Url

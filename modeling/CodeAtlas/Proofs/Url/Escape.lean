import CodeAtlas.Proofs.Text.Search
import CodeAtlas.Url.Reader

namespace CodeAtlas.Url

/-- Printable, and none of the characters that are escaped in a path or divide it. -/
def isSafe (c : Char) : Bool :=
  '!' ≤ c && c ≤ '~' && !(['/', '"', '#', '<', '>', '?', '\x60', '{', '}'].contains c)

def IsSafeSegment (segment : Segment) : Prop := ∀ c ∈ segment, isSafe c = true

/-! ## Escapes -/

theorem isSafe_capitalDigit {n : Nat} (digit : n < 16) : isSafe (Text.capitalDigit n) = true := by
  have all : ∀ n : Fin 16, isSafe (Text.capitalDigit n) = true := by decide
  exact all ⟨n, digit⟩

theorem isSafe_escapeByte (b : UInt8) : IsSafeSegment (escapeByte b) := by
  have small : b.toNat < 256 := b.toNat_lt
  simp only [IsSafeSegment, escapeByte, List.forall_mem_cons]
  exact ⟨by decide, isSafe_capitalDigit (by omega), isSafe_capitalDigit (by omega), List.forall_mem_nil _⟩

theorem isSafe_of_not_escaped {c : Char} (kept : isEscapedInSegment c = false) (noSlash : c ≠ '/') :
    isSafe c = true := by
  simp only [isEscapedInSegment, isControlOrWide, Bool.or_eq_false_iff, decide_eq_false_iff_not,
    beq_eq_false_iff_ne] at kept
  obtain ⟨⟨⟨⟨⟨⟨⟨⟨⟨⟨low, high⟩, space⟩, quote⟩, less⟩, greater⟩, grave⟩, hash⟩, question⟩,
    opens⟩, closes⟩ := kept
  have floor : '!' ≤ c := by
    have above : ¬ c.toNat < 32 := low
    have apart : c.toNat ≠ 32 := fun same => space (by rw [← Char.ofNat_toNat c, same])
    exact show 33 ≤ c.toNat by omega
  have ceiling : c ≤ '~' := by
    exact show c.toNat ≤ 126 by omega
  have plain : c ≠ '\x60' := by
    rintro rfl
    exact grave rfl
  simp [isSafe, floor, ceiling, noSlash, quote, hash, less, greater, question, plain, opens, closes]

theorem isSafe_escape {s : List Char} (noSlash : '/' ∉ s) :
    IsSafeSegment (escape isEscapedInSegment s) := by
  intro d member
  obtain ⟨c, among, inside⟩ := List.mem_flatMap.mp member
  split at inside
  · obtain ⟨b, _, inside⟩ := List.mem_flatMap.mp inside
    exact isSafe_escapeByte b d inside
  · rename_i kept
    rw [List.mem_singleton.mp inside]
    exact isSafe_of_not_escaped (Bool.eq_false_iff.mpr kept) fun slash => noSlash (slash ▸ among)

/-! ## Segments -/

theorem mem_shorten {path : List Segment} {segment : Segment} (member : segment ∈ shorten path) :
    segment ∈ path := by
  rw [shorten] at member
  split at member
  · exact member
  · exact List.dropLast_subset _ member

theorem mem_step {path : List Segment} {segment next : Segment} {isLast : Bool}
    (member : segment ∈ step path next isLast) : segment ∈ path ∨ segment = next ∨ segment = [] := by
  have ended : ∀ {before : List Segment}, (∀ other ∈ before, other ∈ path) → segment ∈ before ++ [[]] →
      segment ∈ path ∨ segment = next ∨ segment = [] := by
    intro before among member
    rcases List.mem_append.mp member with old | new
    · exact .inl (among _ old)
    · exact .inr (.inr (List.mem_singleton.mp new))
  rw [step] at member
  split at member
  · split at member
    · exact ended (fun _ => mem_shorten) member
    · exact .inl (mem_shorten member)
  · split at member
    · split at member
      · exact ended (fun _ => id) member
      · exact .inl member
    · exact (List.mem_append.mp member).imp_right fun new => .inl (List.mem_singleton.mp new)

theorem mem_stepAll {path rest : List Segment} {segment : Segment}
    (member : segment ∈ stepAll path rest) :
    segment ∈ path ∨ segment ∈ rest ∨ segment = [] := by
  induction rest generalizing path with
  | nil => exact .inl member
  | cons next rest ih =>
      rcases ih member with before | later | empty
      · rcases mem_step before with before | rfl | empty
        · exact .inl before
        · exact .inr (.inl List.mem_cons_self)
        · exact .inr (.inr empty)
      · exact .inr (.inl (List.mem_cons_of_mem _ later))
      · exact .inr (.inr empty)

theorem isSafe_segments {isSeparator : Char → Bool} {s : List Char} {segment : Segment}
    (member : segment ∈ segments isSeparator s) : IsSafeSegment segment := by
  rcases mem_stepAll member with none | escaped | rfl
  · cases none
  · obtain ⟨piece, among, rfl⟩ := List.mem_map.mp escaped
    exact isSafe_escape (Text.of_mem_splitOn among).1
  · exact List.forall_mem_nil _

theorem isSafe_pathAfter {special : Bool} {s : List Char} {segment : Segment}
    (member : segment ∈ pathAfter special s) : IsSafeSegment segment := by
  cases s with
  | nil => cases member
  | cons c rest => exact isSafe_segments member

theorem isSafe_fileSegments {s : List Char} {segment : Segment} (member : segment ∈ fileSegments s) :
    IsSafeSegment segment := by
  have safe : ∀ other ∈ segments (isSlash true) s, IsSafeSegment other := fun other => isSafe_segments
  unfold fileSegments at member
  split at member
  · cases member
  · rename_i letter mark more rest split
    rw [split, List.forall_mem_cons, IsSafeSegment, List.forall_mem_cons, List.forall_mem_cons] at safe
    obtain ⟨⟨first, second, others⟩, later⟩ := safe
    -- A drive letter is written with a colon, which is safe.
    have drive : IsSafeSegment [letter, ':'] :=
      List.forall_mem_cons.mpr ⟨first, List.forall_mem_singleton.mpr (by decide)⟩
    split at member
    · exact (List.mem_cons.mp member).elim (fun same => same ▸ drive) (later segment)
    split at member
    · rcases List.mem_cons.mp member with rfl | member
      · exact drive
      · exact (List.mem_cons.mp member).elim (fun same => same ▸ others) (later segment)
    · refine (List.mem_cons.mp member).elim (fun same => ?_) (later segment)
      exact same ▸ List.forall_mem_cons.mpr ⟨first, List.forall_mem_cons.mpr ⟨second, others⟩⟩
  · exact safe segment member

/-! ## Addresses with a host -/

theorem isSafe_readFileAddress? {s : List Char} {host : Host} {path : List Segment}
    (read : readFileAddress? s = some (some host, path)) : ∀ segment ∈ path, IsSafeSegment segment := by
  unfold readFileAddress? at read
  split at read
  · split at read
    · dsimp only at read
      split at read
      · cases read
      split at read
      · cases read
      obtain ⟨own, -, pair⟩ := Option.map_eq_some_iff.mp read
      split at pair
      · cases pair
      · cases pair
        exact fun segment => isSafe_fileSegments
    · cases read
  · cases read

theorem isSafe_readRest? {scheme s : List Char} {host : Host} {path : List Segment}
    (read : readRest? scheme s = some (some host, path)) : ∀ segment ∈ path, IsSafeSegment segment := by
  have after : ∀ {special : Bool} {found : Option (Option Host × List Char)},
      found.map (fun found => (found.1, pathAfter special found.2)) = some (some host, path) →
        ∀ segment ∈ path, IsSafeSegment segment := by
    intro special found read
    obtain ⟨⟨own, rest⟩, -, pair⟩ := Option.map_eq_some_iff.mp read
    cases pair
    exact fun segment => isSafe_pathAfter
  unfold readRest? at read
  split at read
  · exact isSafe_readFileAddress? read
  split at read
  · exact after read
  split at read
  · exact after read
  · cases read
  · cases read

theorem isSafe_of_read? {s : String} {url : Url} (read : read? s = some url) (hosted : url.host ≠ none) :
    ∀ segment ∈ url.path, IsSafeSegment segment := by
  unfold read? at read
  split at read
  · cases read
  · obtain ⟨⟨host, path⟩, rest, rfl⟩ := Option.map_eq_some_iff.mp read
    obtain ⟨host, rfl⟩ := Option.ne_none_iff_exists'.mp hosted
    exact isSafe_readRest? rest

end CodeAtlas.Url

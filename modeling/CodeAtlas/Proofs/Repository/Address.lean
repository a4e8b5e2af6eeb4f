import CodeAtlas.Proofs.Text.Lines
import CodeAtlas.Proofs.Url.Escape
import CodeAtlas.Proofs.Url.Spelling
import CodeAtlas.Run

namespace CodeAtlas.Repository

open Url

/-! ## The last segment -/

theorem bareName_suffix (stem : Segment) : bareName (stem ++ addressSuffix.toList) = stem := by
  rw [bareName, Text.dropBack?_append, Option.getD_some]

theorem bareName_plain {segment : Segment} (plain : ¬ addressSuffix.toList <:+ segment) :
    bareName segment = segment := by
  rw [bareName, Text.dropBack?, if_neg (mt List.isSuffixOf_iff_suffix.mp plain), Option.getD_none]

theorem bareName_subset (segment : Segment) : bareName segment ⊆ segment := by
  intro c member
  rw [bareName, Text.dropBack?] at member
  split at member
  · exact (List.take_subset _ _) member
  · exact member

/-- What a repository is called whose address has these segments, the empty ones apart. -/
structure IsCalled (shown : List Segment) (name : String) : Prop where
  few : shown.length < 2 → name = "unknown"
  suffix : ∀ front stem, front ≠ [] → shown = front ++ [stem ++ ".git".toList] →
    name = if stem = [] then "unknown" else String.ofList stem
  plain : ∀ front last, front ≠ [] → shown = front ++ [last] → ¬ ".git".toList <:+ last →
    name = String.ofList last

theorem isCalled_name {s : String} {url : Url} (read : Url.read? s = some url) :
    IsCalled (parts url) (name s) := by
  have many : ∀ front last, front ≠ [] → parts url = front ++ [last] →
      name s = if bareName last = [] then unknownName else String.ofList (bareName last) := by
    intro front last nonempty shape
    obtain ⟨first, others, rfl⟩ := List.exists_cons_of_ne_nil nonempty
    have length : (parts url).length = others.length + 2 := by simp [shape]
    have ends : (parts url).getLast? = some last := by rw [shape, List.getLast?_concat]
    simp only [name, read, length, ends, List.isEmpty_iff]
  refine ⟨fun few => ?_, fun front stem nonempty shape => ?_, fun front last nonempty shape plain => ?_⟩
  · simp only [name, read]
    split
    · rename_i n _ length _
      omega
    · rfl
  · rw [many front _ nonempty shape]
    have bare := bareName_suffix stem
    rw [addressSuffix] at bare
    rw [bare]
    rfl
  · have bare : bareName last = last := bareName_plain plain
    have member : last ∈ parts url := by simp [shape]
    have present : last ≠ [] := by simpa using (List.mem_filter.mp member).2
    rw [many front _ nonempty shape, bare, if_neg present]

/-! ## Addresses without escapes -/

theorem foldedHost?_eq_name {name text : List Char} (folded : foldedHost? name = some (.name text)) :
    text = name := by
  unfold foldedHost? at folded
  split at folded
  · cases folded
  split at folded
  · split at folded
    · cases folded
    · cases folded
  · cases folded
    rfl

theorem isAllowedHost_foldedHost? (name : List Char) :
    isAllowedHost (foldedHost? name) = true ↔
      name ∈ ["github.com", "www.github.com"].map String.toList := by
  constructor
  · intro allowed
    unfold isAllowedHost at allowed
    split at allowed
    · rename_i text folded
      rw [foldedHost?_eq_name folded] at allowed
      simpa [allowedHosts] using allowed
    · cases allowed
  · have both : ∀ name ∈ ["github.com", "www.github.com"].map String.toList,
        isAllowedHost (foldedHost? name) = true := by decide +kernel
    exact both name

theorem isAddress_spelling (s : Spelling) : isAddress s.text = true ↔
    isAllowedHost (foldedHost? (s.host.map Char.toLower)) = true ∧
      2 ≤ (s.segments.filter fun segment => !segment.isEmpty).length := by
  rw [isAddress, read?_spelling, host?_of_plain s.host_plain]
  cases foldedHost? (s.host.map Char.toLower) with
  | none => simp [isAllowedHost]
  | some host =>
      rw [Option.map_some, Option.any_some, Bool.and_eq_true, decide_eq_true_iff]
      rfl

/-- Whether an address names a repository, and what the repository is called, depends on the letters of
its host and on the segments that are not empty. -/
theorem address_spelling (s : Spelling) :
    let shown := s.segments.filter fun segment => !segment.isEmpty
    (isAddress s.text = true ↔
        s.host.map Char.toLower ∈ ["github.com", "www.github.com"].map String.toList ∧ 2 ≤ shown.length) ∧
      ∀ url, Url.read? s.text = some url → IsCalled shown (name s.text) := by
  intro shown
  refine ⟨?_, fun url read => ?_⟩
  · rw [isAddress_spelling, isAllowedHost_foldedHost?]
  · have called := isCalled_name read
    rw [read?_spelling] at read
    obtain ⟨host, -, rfl⟩ := Option.map_eq_some_iff.mp read
    exact called

def crowdedSpelling : Spelling where
  scheme := "HTTPS".toList
  user := some "github.com".toList
  host := "WWW.GitHub.com".toList
  socket := some "08443".toList
  segments := ["", "octo", "", "hello.git.git", ""].map String.toList
  query := some "tab".toList
  fragment := some "top".toList
  scheme_known := by decide
  user_plain := by
    rintro _ ⟨⟩
    exact List.all_eq_true.mp (by decide)
  host_nonempty := by decide
  host_plain := List.all_eq_true.mp (by decide)
  socket_digits := by
    rintro _ ⟨⟩
    exact ⟨List.all_eq_true.mp (by decide), by decide⟩
  segments_plain := by
    simp only [IsPlainSegment, ← List.all_eq_true]
    decide
  query_plain := by
    rintro _ ⟨⟩
    exact List.all_eq_true.mp (by decide)
  fragment_plain := by
    rintro _ ⟨⟩
    exact List.all_eq_true.mp (by decide)

example : crowdedSpelling.text =
    "HTTPS://github.com@WWW.GitHub.com:08443//octo//hello.git.git/?tab#top" := by decide

theorem address_spelling_crowded :
    isAddress crowdedSpelling.text = true ∧ name crowdedSpelling.text = "hello.git" := by
  obtain ⟨valid, called⟩ := address_spelling crowdedSpelling
  have address : isAddress crowdedSpelling.text = true := valid.mpr ⟨by decide, by decide⟩
  have parses : (Url.read? crowdedSpelling.text).isSome = true := Option.isSome_of_any address
  obtain ⟨url, read⟩ := Option.isSome_iff_exists.mp parses
  exact ⟨address, (called url read).suffix ["octo".toList] "hello.git".toList (by decide) (by decide)⟩

/-! ## Names in headings -/

theorem isSafe_name {s : String} (valid : isAddress s = true) :
    name s ≠ "" ∧ ∀ c ∈ (name s).toList, isSafe c = true := by
  have known : unknownName ≠ "" ∧ ∀ c ∈ unknownName.toList, isSafe c = true :=
    ⟨by decide, List.all_eq_true.mp (by decide)⟩
  obtain ⟨url, read, accepted⟩ := (Option.any_eq_true _ _).mp valid
  rw [Bool.and_eq_true] at accepted
  have hosted : url.host ≠ none := fun none => by
    rw [none] at accepted
    cases accepted.1
  simp only [name, read]
  split
  · rename_i last _ ends
    split
    · exact known
    · rename_i present
      have member : last ∈ url.path := (List.mem_filter.mp (List.mem_of_getLast? ends)).1
      have safe := isSafe_of_read? read hosted last member
      refine ⟨fun empty => present ?_, fun c inside => ?_⟩
      · rw [← String.toList_ofList (l := bareName last), empty]
        rfl
      · rw [String.toList_ofList] at inside
        exact safe c (bareName_subset last inside)
  · exact known

/-- The name of a repository is printable and holds nothing that markup could be made of, and it is the
first line of a document about the repository. -/
theorem name_heading {s : String} (valid : isAddress s = true) :
    name s ≠ "" ∧ (∀ c ∈ (name s).toList, isSafe c = true) ∧
      ∀ config fs survey text, config.projectName = none → config.format = .markdown →
        Run.content config fs (.remote s) survey = .ok text →
          (Text.rows text).head? = some ("# " ++ name s) := by
  obtain ⟨nonempty, safe⟩ := isSafe_name valid
  refine ⟨nonempty, safe, fun config fs survey text untitled markdown told => ?_⟩
  have oneLine : Text.IsOneLine ("# " ++ name s) := by
    rw [Text.isOneLine_append]
    exact ⟨by decide, fun feed => absurd (safe _ feed) (by decide)⟩
  rw [Run.content, markdown] at told
  cases told
  rw [untitled]
  exact Text.head?_rows_unlines oneLine _

def unrulyAddress : String :=
  "\n git+ssh://a@github.com:22/x/%2e%2E/a b/./\t\"c\"\\\x7b\u00e9.git?#\n "

theorem name_heading_unruly :
    let survey := FileSystem.survey ⟨[], []⟩ (.ofString ".") 3
    name unrulyAddress = "%22c%22\\%7B%C3%A9" ∧ ∃ text,
      Run.content {} ⟨[], []⟩ (.remote unrulyAddress) survey = .ok text ∧
        (Text.rows text).head? = some "# %22c%22\\%7B%C3%A9" := by
  have valid : isAddress unrulyAddress = true := by decide +kernel
  have called : name unrulyAddress = "%22c%22\\%7B%C3%A9" := by decide +kernel
  have heading := (name_heading valid).2.2 {} ⟨[], []⟩
    (FileSystem.survey ⟨[], []⟩ (.ofString ".") 3) _ rfl rfl rfl
  rw [called] at heading
  exact ⟨called, _, rfl, heading⟩

end CodeAtlas.Repository

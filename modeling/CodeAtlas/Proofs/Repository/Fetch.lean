import CodeAtlas.Proofs.FileSystem.Write
import CodeAtlas.Proofs.List
import CodeAtlas.Proofs.Text.Utf8
import CodeAtlas.Repository.Fetch

namespace CodeAtlas

open FileSystem

/-! ## Names of temporary directories -/

theorem utf8EncodeChar_digit {c : Char} (digit : c.isDigit = true) :
    ∃ b, String.utf8EncodeChar c = [b] ∧ b ≠ Path.slash ∧ b ≠ Path.dot := by
  simp only [Char.isDigit, Bool.and_eq_true, decide_eq_true_eq, ge_iff_le,
    UInt32.le_iff_toNat_le] at digit
  have range : 48 ≤ c.toNat ∧ c.toNat ≤ 57 := digit
  have small : c.toNat < 58 := by omega
  have all : ∀ n : Fin 58, 48 ≤ n.val →
      String.utf8EncodeChar (Char.ofNat n) = [UInt8.ofNat n] ∧ UInt8.ofNat n ≠ Path.slash ∧
        UInt8.ofNat n ≠ Path.dot := by
    decide
  have result := all ⟨c.toNat, small⟩ range.1
  rw [Char.ofNat_toNat] at result
  exact ⟨_, result⟩

namespace Repository

theorem marks_last (n : Nat) :
    ∃ front b, marks n = front ++ [b] ∧ b ≠ Path.slash ∧ b ≠ Path.dot := by
  rcases List.eq_nil_or_concat (Text.digitsOf n) with none | ⟨front, c, digits⟩
  · exact absurd none Nat.toDigits_ne_nil
  · have member : c ∈ Text.digitsOf n := by simp [digits]
    have digit : c.isDigit = true := Nat.isDigit_of_mem_toDigits (by decide) (by decide) member
    obtain ⟨b, encoded, no_slash, no_dot⟩ := utf8EncodeChar_digit digit
    have bytes : marks n = (List.replicate (marksLength - (Text.digitsOf n).length) '0' ++
        front).flatMap String.utf8EncodeChar ++ [b] := by
      rw [marks, Bytes.ofString_ofList, digits, List.concat_eq_append, ← List.append_assoc,
        List.flatMap_append]
      simp [encoded]
    exact ⟨_, b, bytes, no_slash, no_dot⟩

/-! ## Making a directory -/

theorem endsWithName_of_last {path : Path} {front : Bytes} {b : UInt8}
    (bytes : path.bytes = front ++ [b]) (no_slash : b ≠ Path.slash) (no_dot : b ≠ Path.dot) :
    EndsWithName path := by
  have nonempty : path.bytes ≠ [] := by simp [bytes]
  obtain ⟨_, n, shape⟩ := Path.bytes_withoutLastSlash nonempty
  have whole : (withoutLastSlash path).bytes = front ++ [b] := by
    cases n with
    | zero => rw [← bytes, shape, List.replicate_zero, List.append_nil]
    | succ n =>
        rw [bytes, List.replicate_succ', ← List.append_assoc] at shape
        have last := (List.append_inj' shape rfl).2
        exact absurd (List.singleton_inj.mp last) no_slash
  obtain ⟨init, piece, pieces⟩ := Text.splitOn_concat Path.slash front no_slash
  refine ⟨piece ++ [b], ?_, ?_, ?_⟩
  · rw [Path.pieces, whole, pieces, List.getLast?_concat]
  · have no_current : piece ++ [b] ≠ [Path.dot] := fun same => by
      have last := congrArg List.getLast? same
      rw [List.getLast?_concat] at last
      exact no_dot (Option.some.inj last)
    simp [Path.isTrivial, no_current]
  · intro same
    have last := congrArg List.getLast? same
    rw [List.getLast?_concat] at last
    exact no_dot (Option.some.inj last)

theorem bytes_join (p q : Path) : ∃ front, (p.join q).bytes = front ++ q.bytes := by
  unfold Path.join
  split
  · exact ⟨[], rfl⟩
  · split
    · exact ⟨p.bytes, rfl⟩
    · exact ⟨p.bytes ++ [Path.slash], by simp⟩

theorem createTemporary_made {fs made : FileSystem} {parent path : Path} {stem : Bytes} {attempts : Nat}
    (created : createTemporary fs parent stem attempts = .ok (made, path)) :
    ∃ n, path = parent.entry (stem ++ marks n) ∧ fs.createDirectory path = .ok made := by
  induction attempts with
  | zero => cases created
  | succ attempts ih =>
      unfold createTemporary at created
      cases tried : fs.createDirectory (parent.join ⟨stem ++ marks attempts⟩) with
      | ok new =>
          simp only [tried, Except.ok.injEq, Prod.mk.injEq] at created
          obtain ⟨rfl, rfl⟩ := created
          exact ⟨attempts, rfl, tried⟩
      | error fault =>
          cases fault with
          -- Only a name that is taken leads to another attempt.
          | alreadyExists => exact ih (by simpa only [tried] using created)
          | _ => simp [tried] at created

theorem createTemporary_eq_ok {fs made : FileSystem} {parent path : Path} {stem : Bytes}
    {attempts : Nat} (formed : fs.WellFormed)
    (created : createTemporary fs parent stem attempts = .ok (made, path)) :
    EndsWithName path ∧ ∃ above name, Lodges fs made path above name := by
  obtain ⟨n, rfl, tried⟩ := createTemporary_made created
  obtain ⟨front, bytes⟩ := bytes_join parent ⟨stem ++ marks n⟩
  obtain ⟨digits, b, last, no_slash, no_dot⟩ := marks_last n
  have whole : (parent.entry (stem ++ marks n)).bytes = front ++ stem ++ digits ++ [b] := by
    rw [Path.entry, bytes, last]
    simp
  exact ⟨endsWithName_of_last whole no_slash no_dot, createDirectory_eq_ok formed tried⟩

/-! ## Giving a directory up -/

/-- A free place that a path names, and the file system from when it was free. -/
structure Site (base : FileSystem) (path : Path) (above : Place) (name : Name) : Prop where
  formed : base.WellFormed
  names : Names base path above name
  free : base.node? (above ++ [name]) = none
  ends : EndsWithName path

variable {base fs : FileSystem} {path : Path} {above : Place} {name : Name}

theorem Site.hasEntry_eq_true (site : Site base path above name) (keeps : Keeps base fs)
    (found : fs.node? (above ++ [name]) = some .directory) : fs.hasEntry path = true :=
  (site.names.keep keeps).hasEntry_eq_true found

theorem Site.hasEntry_eq_false (site : Site base path above name) (keeps : Keeps base fs)
    (free : fs.node? (above ++ [name]) = none) : fs.hasEntry path = false :=
  (site.names.keep keeps).hasEntry_eq_false free

theorem cleanup_site (site : Site base path above name) (keeps : Keeps base fs)
    (formed : fs.WellFormed)
    (left : fs.node? (above ++ [name]) = none ∨ fs.node? (above ++ [name]) = some .directory)
    (unlocked : fs.Unlocked (above ++ [name])) :
    ∃ made, cleanup fs path = (made, .ok ()) ∧ AgreesOutside (above ++ [name]) fs made ∧
      made.node? (above ++ [name]) = none ∧ made.WellFormed := by
  unfold cleanup
  rcases left with free | directory
  · rw [site.hasEntry_eq_false keeps free]
    exact ⟨fs, rfl, .refl _ fs, free, formed⟩
  · rw [site.hasEntry_eq_true keeps directory]
    obtain ⟨made, removed, agrees, gone, made_formed⟩ :=
      removeAll_eq_ok site.formed site.names site.free site.ends keeps formed directory unlocked
    rw [removed]
    exact ⟨made, rfl, agrees, gone, made_formed⟩

/-! ## Clients -/

structure Offers (fs : FileSystem) (path : Path) (place : Place) : Prop where
  formed : fs.WellFormed
  leads : fs.canonical path = .ok place
  empty : fs.get? place = some (.directory [])

/-- A client that is given an empty directory touches nothing outside it. However it ends, it leaves a
directory there or nothing. -/
structure GitClient.StaysWithin (client : GitClient) : Prop where
  agrees : ∀ url {destination fs place}, Offers fs destination place →
    AgreesOutside place fs (client url destination fs).1
  formed : ∀ url {destination fs place}, Offers fs destination place →
    (client url destination fs).1.WellFormed
  left : ∀ url {destination fs place}, Offers fs destination place →
    ∀ entry, (client url destination fs).1.get? place = some entry → entry.isDirectory = true

/-- The client also leaves the directory if it succeeds, and it locks nothing in it. -/
structure GitClient.Confined (client : GitClient) : Prop extends GitClient.StaysWithin client where
  fetched : ∀ url {destination fs place}, Offers fs destination place →
    (client url destination fs).2 = .ok () →
    (client url destination fs).1.node? place = some .directory
  unlocked : ∀ url {destination fs place}, Offers fs destination place →
    (client url destination fs).1.Unlocked place

def GitClient.ofEntry (name : Name) (entry : Entry) (result : Except Failure Unit) : GitClient :=
  fun _ destination fs =>
    match fs.canonical destination with
    | .ok place => (fs.put (place ++ [name]) entry, result)
    | .error fault => (fs, .error (.io fault))

section OfEntry

variable {name : Name} {entry : Entry} {result : Except Failure Unit} {url : String}
  {destination : Path} {fs : FileSystem} {place : Place} (offers : Offers fs destination place)

include offers

theorem Offers.directory : fs.node? place = some .directory :=
  node?_eq_directory.mpr ⟨_, offers.empty⟩

theorem ofEntry_eq : GitClient.ofEntry name entry result url destination fs =
    (fs.altered (fun _ => some entry) (place ++ [name]), result) := by
  rw [GitClient.ofEntry, offers.leads]
  rfl

theorem agreesOutside_ofEntry : AgreesOutside (place ++ [name]) fs
    (GitClient.ofEntry name entry result url destination fs).1 := by
  rw [ofEntry_eq offers]
  exact agreesOutside_altered offers.formed _ name offers.directory

theorem directory_ofEntry :
    (GitClient.ofEntry name entry result url destination fs).1.node? place = some .directory := by
  rw [(agreesOutside_ofEntry offers).node place (not_concat_prefix_self place name)]
  exact offers.directory

end OfEntry

theorem GitClient.staysWithin_ofEntry {name : Name} {entry : Entry} (regular : IsEntryName name)
    (formed : entry.WellFormed) (result : Except Failure Unit) :
    (GitClient.ofEntry name entry result).StaysWithin := by
  refine ⟨fun url destination fs place offers => ?_, fun url destination fs place offers => ?_,
    fun url destination fs place offers kept stands => ?_⟩
  · exact (agreesOutside_ofEntry offers).mono (List.prefix_append _ _)
  · have free : fs.node? (place ++ [name]) = none := by
      rw [node?_eq_none, get?, Entry.get?_directory_append offers.empty]
      rfl
    rw [ofEntry_eq offers]
    refine offers.formed.altered (some entry) offers.directory regular (fun new same => ?_)
      (apart_of_leaf offers.formed (.inl free))
    cases same
    exact formed
  · obtain ⟨entries, here⟩ := node?_eq_directory.mp (directory_ofEntry offers)
    rw [here] at stands
    cases stands
    rfl

theorem GitClient.confined_ofEntry {name : Name} {entry : Entry} (regular : IsEntryName name)
    (formed : entry.WellFormed) (unlocked : entry.Unlocked)
    (result : Except Failure Unit) : (GitClient.ofEntry name entry result).Confined := by
  refine ⟨staysWithin_ofEntry regular formed result, fun url destination fs place offers _ => ?_,
    fun url destination fs place offers rest entries locked => ?_⟩
  · exact directory_ofEntry offers
  by_cases inside : place ++ [name] <+: place ++ rest
  · obtain ⟨below, same⟩ := inside
    rw [← same, List.append_assoc, List.singleton_append, ofEntry_eq offers, node?, Entry.node?] at locked
    have stands := get?_altered offers.formed (some entry) name offers.directory below
    rw [get?] at stands
    rw [stands, Option.bind_some] at locked
    exact unlocked below entries locked
  · rw [(agreesOutside_ofEntry offers).node _ inside, node?, Entry.node?, Entry.get?_append, ← get?,
      offers.empty, Option.bind_some] at locked
    cases rest <;> cases locked

/-! ## Fetching -/

theorem createTemporary_site {made : FileSystem} {parent : Path} {stem : Bytes} {attempts : Nat}
    (formed : fs.WellFormed) (created : createTemporary fs parent stem attempts = .ok (made, path)) :
    ∃ above name, Site fs path above name ∧ AgreesOutside (above ++ [name]) fs made ∧
      Offers made path (above ++ [name]) := by
  obtain ⟨ends, above, name, lodges⟩ := createTemporary_eq_ok formed created
  have keeps := lodges.agrees.keeps (.inl lodges.free)
  have leads := (lodges.names.keep keeps).canonical_eq (node?_eq_directory.mpr ⟨_, lodges.empty⟩)
  exact ⟨above, name, ⟨formed, lodges.names, lodges.free, ends⟩, lodges.agrees,
    ⟨lodges.formed, leads, lodges.empty⟩⟩

/-- What fetching into a temporary directory comes to once the directory was made. -/
structure Held (base : FileSystem) (fetched : Fetched) (path : Path) (above : Place) (name : Name) :
    Prop where
  destination : fetched.destination = some path
  site : Site base path above name
  agrees : AgreesOutside (above ++ [name]) base fetched.fs
  formed : fetched.fs.WellFormed
  unlocked : fetched.fs.Unlocked (above ++ [name])
  result : (fetched.result = .ok path ∧ fetched.fs.node? (above ++ [name]) = some .directory) ∨
    ((∃ failure, fetched.result = .error failure) ∧ fetched.fs.node? (above ++ [name]) = none)

section FetchIn

variable {m : Type → Type} [Monad m]
  {client : String → Path → FileSystem → m (FileSystem × Except Failure Unit)} {temporary : Path}
  {stem url : String} {fs made : FileSystem}

theorem fetchIn_invalid (rejected : isAddress url = false) (target : Option Path) :
    fetchIn client temporary stem fs url target = pure ⟨fs, none, .error (.invalidUrl url)⟩ := by
  unfold fetchIn
  rw [rejected]
  rfl

variable (address : isAddress url = true)

include address

theorem fetchIn_refused {fault : Fault}
    (refused : createTemporary fs temporary (Bytes.ofString stem) maxAttempts = .error fault) :
    fetchIn client temporary stem fs url none = pure ⟨fs, none, .error (.io fault)⟩ := by
  unfold fetchIn
  rw [address]
  simp only [refused]
  rfl

theorem fetchIn_temporary {directory : Path}
    (created : createTemporary fs temporary (Bytes.ofString stem) maxAttempts = .ok (made, directory)) :
    fetchIn client temporary stem fs url none =
      client url directory made >>= fun ended => pure (.settled directory ended) := by
  unfold fetchIn
  rw [address]
  simp only [created]
  rfl

end FetchIn

theorem Fetched.settled_of_ok {left : FileSystem × Except Failure Unit} (succeeded : left.2 = .ok ()) :
    Fetched.settled path left = ⟨left.1, some path, .ok path⟩ := by
  obtain ⟨fs, result⟩ := left
  subst succeeded
  rfl

theorem Fetched.settled_of_error {left : FileSystem × Except Failure Unit} {failure : Failure}
    (failed : left.2 = .error failure) :
    Fetched.settled path left = ⟨(cleanup left.1 path).1, some path, .error failure⟩ := by
  obtain ⟨fs, result⟩ := left
  subst failed
  rfl

theorem fetch_temporary {client : GitClient} (confined : client.Confined) (formed : fs.WellFormed)
    (temporary : Path) (stem : String) {url : String} (address : isAddress url = true) :
    (∃ failure, fetch client temporary stem fs url none = ⟨fs, none, .error failure⟩) ∨
      ∃ path above name, Held fs (fetch client temporary stem fs url none) path above name := by
  cases made : createTemporary fs temporary (Bytes.ofString stem) maxAttempts with
  | error fault => exact .inl ⟨.io fault, congrArg Id.run (fetchIn_refused address made)⟩
  | ok new =>
      obtain ⟨new, path⟩ := new
      obtain ⟨above, name, site, new_agrees, offers⟩ := createTemporary_site formed made
      have agrees := new_agrees.trans (confined.agrees url offers)
      have after_formed := confined.formed url offers
      have ended : fetch client temporary stem fs url none = .settled path (client url path new) :=
        congrArg Id.run (fetchIn_temporary address made)
      refine .inr ⟨path, above, name, ?_⟩
      cases result : (client url path new).2 with
      | ok done =>
          have directory := confined.fetched url offers result
          rw [ended, Fetched.settled_of_ok result]
          exact ⟨rfl, site, agrees, after_formed, confined.unlocked url offers, .inl ⟨rfl, directory⟩⟩
      | error failure =>
          obtain ⟨cleaned, cleans, apart, gone, cleaned_formed⟩ :=
            cleanup_site site (agrees.keeps (.inl site.free)) after_formed
              ((confined.unlocked url offers).free_or_directory (confined.left url offers))
              (confined.unlocked url offers)
          rw [ended, Fetched.settled_of_error result, cleans]
          exact ⟨rfl, site, agrees.trans apart, cleaned_formed, .of_free gone, .inr ⟨⟨failure, rfl⟩, gone⟩⟩

end Repository
end CodeAtlas

import CodeAtlas.Proofs.FileSystem.Variant
import CodeAtlas.Proofs.Repository.Fetch

namespace CodeAtlas

open FileSystem

namespace Repository

variable {fs other : FileSystem} {place : Place}

/-! ## Clients -/

def GitClient.Overlooks (client : GitClient) (place : Place) : Prop :=
  ∀ url {destination fs other own}, Variant place fs other → Offers fs destination own →
    (client url destination other).2 = (client url destination fs).2 ∧
      Variant place (client url destination fs).1 (client url destination other).1

theorem GitClient.overlooks_ofEntry {name : Name} {entry : Entry} (regular : IsEntryName name)
    (formed : entry.WellFormed) (result : Except Failure Unit) (place : Place) :
    (GitClient.ofEntry name entry result).Overlooks place := by
  intro url destination fs other own variant offers
  have leads : other.canonical destination = .ok own :=
    (variant.shape.canonical destination).trans offers.leads
  have free : fs.node? (own ++ [name]) = none := by
    rw [node?_eq_none, get?, Entry.get?_directory_append offers.empty]
    rfl
  rw [ofEntry, ofEntry, leads, offers.leads]
  exact ⟨rfl, variant.put offers.directory regular formed (by simp [free])⟩

/-! ## Temporary directories -/

theorem createTemporary_variant (variant : Variant place fs other) (parent : Path) (stem : Bytes)
    (attempts : Nat) :
    (∃ fault, createTemporary fs parent stem attempts = .error fault ∧
        createTemporary other parent stem attempts = .error fault) ∨
      ∃ made remade path, createTemporary fs parent stem attempts = .ok (made, path) ∧
        createTemporary other parent stem attempts = .ok (remade, path) ∧ Variant place made remade := by
  induction attempts with
  | zero => exact .inl ⟨_, rfl, rfl⟩
  | succ attempts ih =>
      have attempt := variant.createDirectory (parent.join ⟨stem ++ marks attempts⟩)
      unfold createTemporary
      simp only
      generalize fs.createDirectory _ = here, other.createDirectory _ = there at attempt ⊢
      cases attempt with
      | made grown => exact .inr ⟨_, _, _, rfl, rfl, grown⟩
      | failed fault =>
          cases fault with
          | alreadyExists => exact ih
          | _ => exact .inl ⟨_, rfl, rfl⟩

structure Readied (base fs : FileSystem) (path : Path) (above : Place) (name : Name) : Prop where
  site : Site base path above name
  agrees : AgreesOutside (above ++ [name]) base fs
  offers : Offers fs path (above ++ [name])

theorem readied_of_created {parent path : Path} {stem : Bytes} {attempts : Nat} {made remade : FileSystem}
    (variant : Variant place fs other) (grown : Variant place made remade)
    (created : createTemporary fs parent stem attempts = .ok (made, path))
    (also : createTemporary other parent stem attempts = .ok (remade, path)) :
    ∃ above name, Readied fs made path above name ∧ Readied other remade path above name := by
  obtain ⟨above, name, site, agrees, offers⟩ := createTemporary_site variant.formed created
  obtain ⟨above', name', site', agrees', offers'⟩ := createTemporary_site variant.otherFormed also
  have same : above ++ [name] = above' ++ [name'] := by
    have leads := offers'.leads
    rwa [grown.shape.canonical, offers.leads, Except.ok.injEq] at leads
  obtain ⟨rfl, own⟩ := List.append_inj' same rfl
  cases own
  exact ⟨above, name, ⟨site, agrees, offers⟩, site', agrees', offers'⟩

structure Tenanted (base fs : FileSystem) (path : Path) (above : Place) (name : Name) : Prop where
  site : Site base path above name
  keeps : Keeps base fs
  formed : fs.WellFormed
  left : fs.node? (above ++ [name]) = none ∨ fs.node? (above ++ [name]) = some .directory
  unlocked : fs.Unlocked (above ++ [name])

theorem cleanup_variant {base base' : FileSystem} {path : Path} {above : Place} {name : Name}
    (variant : Variant place fs other) (tenanted : Tenanted base fs path above name)
    (also : Tenanted base' other path above name) :
    ∃ made remade, cleanup fs path = (made, .ok ()) ∧ cleanup other path = (remade, .ok ()) ∧
      Variant place made remade := by
  obtain ⟨made, cleans, agrees, gone, formed⟩ :=
    cleanup_site tenanted.site tenanted.keeps tenanted.formed tenanted.left tenanted.unlocked
  obtain ⟨remade, cleans', agrees', gone', formed'⟩ :=
    cleanup_site also.site also.keeps also.formed also.left also.unlocked
  exact ⟨made, remade, cleans, cleans', variant.removed agrees agrees' gone gone' formed formed'⟩

/-! ## Fetching -/

inductive FetchedAlike (place : Place) (fs other : FileSystem) : Fetched → Fetched → Prop where
  | failed {made remade : FileSystem} (variant : Variant place made remade)
      (destination : Option Path) (failure : Failure) :
      FetchedAlike place fs other ⟨made, destination, .error failure⟩ ⟨remade, destination, .error failure⟩
  | cloned {made remade : FileSystem} {path : Path} {above : Place} {name : Name}
      (variant : Variant place made remade) (tenanted : Tenanted fs made path above name)
      (also : Tenanted other remade path above name)
      (directory : made.node? (above ++ [name]) = some .directory) :
      FetchedAlike place fs other ⟨made, some path, .ok path⟩ ⟨remade, some path, .ok path⟩

section Client

variable {client : GitClient} (confined : client.Confined)

include confined

theorem Readied.tenanted {base : FileSystem} {path : Path} {above : Place} {name : Name}
    (readied : Readied base fs path above name) (url : String) :
    Tenanted base (client url path fs).1 path above name where
  site := readied.site
  keeps := (readied.agrees.trans (confined.agrees url readied.offers)).keeps (.inl readied.site.free)
  formed := confined.formed url readied.offers
  left := (confined.unlocked url readied.offers).free_or_directory (confined.left url readied.offers)
  unlocked := confined.unlocked url readied.offers

theorem fetch_variant (overlooks : client.Overlooks place) (variant : Variant place fs other)
    (temporary : Path) (stem : String) (url : String) :
    FetchedAlike place fs other (fetch client temporary stem fs url none)
      (fetch client temporary stem other url none) := by
  unfold fetch
  cases address : isAddress url with
  | false =>
      rw [fetchIn_invalid address, fetchIn_invalid address]
      exact .failed variant none _
  | true =>
  rcases createTemporary_variant variant temporary (Bytes.ofString stem) maxAttempts with
    ⟨fault, here, there⟩ | ⟨made, remade, path, here, there, grown⟩
  · rw [fetchIn_refused address here, fetchIn_refused address there]
    exact .failed variant none _
  rw [fetchIn_temporary address here, fetchIn_temporary address there]
  change FetchedAlike place fs other (.settled path (client url path made))
    (.settled path (client url path remade))
  obtain ⟨above, name, readied, also⟩ := readied_of_created variant grown here there
  obtain ⟨same, after⟩ := overlooks url grown readied.offers
  have tenanted := readied.tenanted confined url
  have tenanted' := also.tenanted confined url
  have directory := confined.fetched url readied.offers
  generalize client url path made = ran, client url path remade = rerun at *
  obtain ⟨left, result⟩ := ran
  obtain ⟨leftover, result'⟩ := rerun
  have same : result' = result := same
  subst same
  cases result' with
  | ok done => exact .cloned after tenanted tenanted' (directory rfl)
  | error failure =>
      obtain ⟨cleaned, recleaned, cleans, cleans', clean⟩ := cleanup_variant after tenanted tenanted'
      rw [Fetched.settled, Fetched.settled, cleans, cleans']
      exact .failed clean (some path) failure

end Client

end Repository
end CodeAtlas

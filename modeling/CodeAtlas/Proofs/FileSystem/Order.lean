import CodeAtlas.Proofs.FileSystem.Node

namespace CodeAtlas

namespace Bytes

theorem precedes_irrefl (a : Bytes) : precedes a a = false := by
  induction a with
  | nil => rfl
  | cons x rest ih => simp [precedes, ih]

theorem precedes_trans {a b c : Bytes} (first : precedes a b = true) (second : precedes b c = true) :
    precedes a c = true := by
  induction a generalizing b c with
  | nil =>
      cases b with
      | nil => cases first
      | cons y b =>
          cases c with
          | nil => cases second
          | cons z c => rfl
  | cons x a ih =>
      cases b with
      | nil => cases first
      | cons y b =>
          cases c with
          | nil => cases second
          | cons z c =>
              simp only [precedes, Bool.or_eq_true, decide_eq_true_eq, Bool.and_eq_true, beq_iff_eq]
                at first second ⊢
              rcases first with below | ⟨rfl, below⟩
              · rcases second with above | ⟨rfl, above⟩
                · exact Or.inl (UInt8.lt_trans below above)
                · exact Or.inl below
              · rcases second with above | ⟨rfl, above⟩
                · exact Or.inl above
                · exact Or.inr ⟨rfl, ih below above⟩

theorem precedes_or_precedes {a b : Bytes} (different : a ≠ b) :
    precedes a b = true ∨ precedes b a = true := by
  induction a generalizing b with
  | nil =>
      cases b with
      | nil => exact absurd rfl different
      | cons y b => exact Or.inl rfl
  | cons x a ih =>
      cases b with
      | nil => exact Or.inr rfl
      | cons y b =>
          by_cases same : x = y
          · subst same
            have rest := ih fun equal => different (by rw [equal])
            simpa [precedes] using rest
          · rcases UInt8.lt_or_lt_of_ne same with below | above
            · exact Or.inl (by simp [precedes, below])
            · exact Or.inr (by simp [precedes, above])

end Bytes

namespace Entry

theorem lookup_eq_none_iff {name : Name} {entries : List (Name × Entry)} :
    lookup name entries = none ↔ ∀ item ∈ entries, item.1 ≠ name := by
  induction entries with
  | nil => simp [lookup]
  | cons first rest ih =>
      obtain ⟨own, child⟩ := first
      by_cases same : own = name
      · simp [lookup, same]
      · simp [lookup, same, ih]

/-! ## Entries in order -/

mutual

def Ordered : Entry → Prop
  | directory entries => OrderedIn entries
  | file _ => True
  | symlink _ => True
  | locked _ => True

def OrderedIn : List (Name × Entry) → Prop
  | [] => True
  | (name, entry) :: rest =>
    (∀ item ∈ rest, name.precedes item.1 = true) ∧ entry.Ordered ∧ OrderedIn rest

end

theorem OrderedIn.insertByName {name : Name} {entry : Entry} {entries : List (Name × Entry)}
    (missing : lookup name entries = none) (ordered : entry.Ordered) (others : OrderedIn entries) :
    OrderedIn (insertByName name entry entries) := by
  induction entries with
  | nil => exact ⟨by simp, ordered, trivial⟩
  | cons first rest ih =>
      obtain ⟨own, child⟩ := first
      obtain ⟨least, childOrdered, restOrdered⟩ := others
      rw [lookup_eq_none_iff, List.forall_mem_cons] at missing
      unfold CodeAtlas.insertByName
      split
      · rename_i before
        refine ⟨?_, ordered, least, childOrdered, restOrdered⟩
        rw [List.forall_mem_cons]
        exact ⟨before, fun item member => Bytes.precedes_trans before (least item member)⟩
      · rename_i after
        refine ⟨?_, childOrdered, ih (lookup_eq_none_iff.mpr missing.2) restOrdered⟩
        intro item member
        rcases (mem_insertByName name entry rest item).mp member with rfl | later
        · exact (Bytes.precedes_or_precedes missing.1).resolve_right after
        · exact least item later

mutual

theorem Ordered.sorted : (entry : Entry) → entry.WellFormed → entry.sorted.Ordered
  | directory entries, formed => OrderedIn.sortedEntries entries formed
  | file _, _ => trivial
  | symlink _, _ => trivial
  | locked _, _ => trivial

theorem OrderedIn.sortedEntries :
    (entries : List (Name × Entry)) → WellFormedIn entries → OrderedIn (sortedEntries entries)
  | [], _ => trivial
  | (_, entry) :: rest, ⟨_, fresh, formed, others⟩ =>
      OrderedIn.insertByName (lookup_sortedEntries_eq_none fresh) (Ordered.sorted entry formed)
        (OrderedIn.sortedEntries rest others)

end

theorem lookup_insertByName {name : Name} {entry : Entry} {entries : List (Name × Entry)}
    (missing : lookup name entries = none) (other : Name) :
    lookup other (insertByName name entry entries) =
      if name = other then some entry else lookup other entries := by
  induction entries with
  | nil => rfl
  | cons first rest ih =>
      obtain ⟨own, child⟩ := first
      rw [lookup_eq_none_iff, List.forall_mem_cons] at missing
      unfold insertByName
      split
      · rfl
      · rw [lookup, ih (lookup_eq_none_iff.mpr missing.2), lookup]
        by_cases same : own = other
        · subst same
          rw [if_pos rfl, if_neg (Ne.symm missing.1), if_pos rfl]
        · rw [if_neg same, if_neg same]

theorem lookup_sortedEntries {entries : List (Name × Entry)} (formed : WellFormedIn entries)
    (name : Name) : lookup name (sortedEntries entries) = (lookup name entries).map sorted := by
  induction entries with
  | nil => rfl
  | cons first rest ih =>
      obtain ⟨own, child⟩ := first
      obtain ⟨_, fresh, _, others⟩ := formed
      rw [sortedEntries, lookup_insertByName (lookup_sortedEntries_eq_none fresh), ih others, lookup]
      split
      · rfl
      · rfl

theorem OrderedIn.lookup_eq_none {name : Name} {entry : Entry} {rest : List (Name × Entry)}
    (ordered : OrderedIn ((name, entry) :: rest)) : lookup name rest = none := by
  rw [lookup_eq_none_iff]
  rintro item member rfl
  have self := ordered.1 item member
  rw [Bytes.precedes_irrefl] at self
  cases self

theorem OrderedIn.least {name other : Name} {entry child : Entry} {a b : List (Name × Entry)}
    (first : OrderedIn ((name, entry) :: a)) (second : OrderedIn ((other, child) :: b))
    (same : ∀ key, lookup key ((name, entry) :: a) = lookup key ((other, child) :: b)) :
    name.precedes other = false := by
  rw [Bool.eq_false_iff]
  intro before
  have found := same name
  rw [lookup, if_pos rfl, lookup, if_neg] at found
  · have after := second.1 _ (lookup_mem found.symm)
    have self := Bytes.precedes_trans before after
    rw [Bytes.precedes_irrefl] at self
    cases self
  · rintro rfl
    rw [Bytes.precedes_irrefl] at before
    cases before

theorem OrderedIn.eq_of_lookup {a b : List (Name × Entry)} (first : OrderedIn a)
    (second : OrderedIn b) (same : ∀ name, lookup name a = lookup name b) : a = b := by
  induction a generalizing b with
  | nil =>
      cases b with
      | nil => rfl
      | cons head b =>
          have found := same head.1
          simp [lookup] at found
  | cons head a ih =>
      obtain ⟨name, entry⟩ := head
      cases b with
      | nil =>
          have found := same name
          simp [lookup] at found
      | cons next b =>
          obtain ⟨other, child⟩ := next
          have equal : name = other := by
            apply Classical.byContradiction
            intro different
            rcases Bytes.precedes_or_precedes different with before | after
            · rw [first.least second same] at before
              cases before
            · rw [second.least first fun key => (same key).symm] at after
              cases after
          subst equal
          have here := same name
          rw [lookup, if_pos rfl, lookup, if_pos rfl, Option.some.injEq] at here
          subst here
          have rest : a = b := by
            refine ih first.2.2 second.2.2 fun key => ?_
            by_cases own : name = key
            · subst own
              rw [first.lookup_eq_none, second.lookup_eq_none]
            · have found := same key
              rwa [lookup, if_neg own, lookup, if_neg own] at found
          rw [rest]

/-! ## The same contents -/

theorem node?_cons {entries : List (Name × Entry)} (name : Name) (place : Place) :
    (directory entries).node? (name :: place) = (lookup name entries).bind (·.node? place) := by
  rw [node?, get?]
  cases lookup name entries with
  | none => rfl
  | some child => rfl

theorem node?_nil (entry : Entry) : entry.node? [] = some entry.node := by
  cases entry <;> rfl

mutual

theorem sorted_eq_of_node? :
    (a b : Entry) → a.WellFormed → b.WellFormed → (∀ place, a.node? place = b.node? place) →
      a.sorted = b.sorted
  | directory entries, b, first, second, same => by
      have top := same []
      rw [node?_nil, node?_nil] at top
      cases b with
      | file content => cases top
      | symlink target => cases top
      | locked others => cases top
      | directory others =>
          rw [sorted, sorted]
          congr 1
          refine (OrderedIn.sortedEntries entries first).eq_of_lookup
            (OrderedIn.sortedEntries others second) fun name => ?_
          rw [lookup_sortedEntries first, lookup_sortedEntries second]
          have below : ∀ place, (lookup name entries).bind (·.node? place) =
              (lookup name others).bind (·.node? place) := fun place => by
            rw [← node?_cons, ← node?_cons]
            exact same (name :: place)
          have here := below []
          cases found : lookup name entries with
          | none =>
              cases other : lookup name others with
              | none => rfl
              | some child => simp [found, other, node?_nil] at here
          | some entry =>
              cases other : lookup name others with
              | none => simp [found, other, node?_nil] at here
              | some child =>
                  simp only [found, other, Option.bind_some] at below
                  rw [Option.map_some, Option.map_some, sorted_eq_of_mem entries (lookup_mem found)
                    child (first.of_mem (lookup_mem found)).2.2 (second.of_mem (lookup_mem other)).2.2
                    below]
  | file content, b, _, _, same => by
      have top := same []
      rw [node?_nil, node?_nil] at top
      cases b <;> cases top
      rfl
  | symlink target, b, _, _, same => by
      have top := same []
      rw [node?_nil, node?_nil] at top
      cases b <;> cases top
      rfl
  | locked entries, b, _, _, same => by
      have top := same []
      rw [node?_nil, node?_nil] at top
      cases b <;> cases top
      rfl

theorem sorted_eq_of_mem :
    (entries : List (Name × Entry)) → {name : Name} → {a : Entry} → (name, a) ∈ entries → (b : Entry) →
      a.WellFormed → b.WellFormed → (∀ place, a.node? place = b.node? place) → a.sorted = b.sorted
  | (_, entry) :: rest, name, a, member, b, first, second, same => by
      rcases List.mem_cons.mp member with equal | later
      · obtain ⟨-, rfl⟩ := Prod.mk.inj equal
        exact sorted_eq_of_node? a b first second same
      · exact sorted_eq_of_mem rest later b first second same

end

end Entry
end CodeAtlas

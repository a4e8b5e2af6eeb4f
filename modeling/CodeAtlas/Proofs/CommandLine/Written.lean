import CodeAtlas.CommandLine.Reader
import CodeAtlas.Proofs.Text.Decimal
import CodeAtlas.Proofs.Text.Utf8
import Mathlib.Algebra.GroupWithZero.Nat
import Mathlib.Data.List.Induction

/-!
# Written command lines

A command line is written as a list of items: the source, options with their values, and marks of
verbosity. Taken one by one, items that say each thing at most once make the draft of a request that
says the same (`foldlM_take`), whatever their order and spelling.
-/

namespace CodeAtlas.CommandLine

/-! ## Items -/

/-- The ways to write an option with its value: as two arguments, as one with an equals sign, and as a
letter and the value. -/
inductive Spelling where
  | apart
  | joined
  | letter
  deriving DecidableEq

inductive Switch where
  | noDiagrams
  | keepClone
  deriving DecidableEq

inductive Item where
  | source (text : String)
  | valued (setting : Setting) (spelling : Spelling) (value : Bytes)
  | switch (own : Switch)
  | verbose
  | marks (again : Nat)
  deriving DecidableEq

namespace Setting

def name : Setting → String
  | output => "output"
  | format => "format"
  | depth => "depth"
  | diagramDepth => "diagram-depth"
  | config => "config"

def letter? : Setting → Option UInt8
  | output => some 0x6F
  | config => some 0x63
  | _ => none

def Admits (value : Bytes) : Setting → Prop
  | output | config => value ≠ [] ∧ value.head? ≠ some hyphen
  | format => ∃ format : OutputFormat, value = Bytes.ofString format.word
  | depth | diagramDepth => ∃ n ≤ maxNumber, value = Bytes.ofString (toString n)

end Setting

namespace Switch

def flag : Switch → Flag
  | noDiagrams => .noDiagrams
  | keepClone => .keepClone

def name : Switch → String
  | noDiagrams => "no-diagrams"
  | keepClone => "keep-clone"

end Switch

namespace Item

def arguments : Item → List Bytes
  | source text => [Bytes.ofString text]
  | valued setting .apart value => [hyphen :: hyphen :: Bytes.ofString setting.name, value]
  | valued setting .joined value =>
    [hyphen :: hyphen :: (Bytes.ofString setting.name ++ equals :: value)]
  | valued setting .letter value => [hyphen :: setting.letter?.toList, value]
  | switch own => [hyphen :: hyphen :: Bytes.ofString own.name]
  | verbose => [hyphen :: hyphen :: Bytes.ofString "verbose"]
  | marks again => [hyphen :: List.replicate (again + 1) 0x76]

def source? : Item → Option String
  | source text => some text
  | _ => none

def value? (setting : Setting) : Item → Option Bytes
  | valued own _ value => if own = setting then some value else none
  | _ => none

def verbosity : Item → Nat
  | verbose => 1
  | marks again => again + 1
  | _ => 0

def HasSpelling : Item → Prop
  | valued setting .letter _ => setting.letter?.isSome = true
  | _ => True

def HasValue : Item → Prop
  | source text => (Bytes.ofString text).head? ≠ some hyphen
  | valued setting _ value => setting.Admits value
  | _ => True

end Item

/-! ## What items say -/

namespace Draft

def value? (draft : Draft) : Setting → Option Bytes
  | .output => draft.output.map Path.bytes
  | .format => draft.format.map fun format => Bytes.ofString format.word
  | .depth => draft.depth.map fun n => Bytes.ofString (toString n)
  | .diagramDepth => draft.diagramDepth.map fun n => Bytes.ofString (toString n)
  | .config => draft.config.map Path.bytes

def has (draft : Draft) : Switch → Bool
  | .noDiagrams => draft.noDiagrams
  | .keepClone => draft.keepClone

/-- The items say what the draft holds, but for its verbosity. They say nothing twice, and they stand in
any order. -/
structure ToldBy (draft : Draft) (items : List Item) : Prop where
  source : items.filterMap Item.source? = draft.source.toList
  value : ∀ setting, items.filterMap (Item.value? setting) = (draft.value? setting).toList
  switch : ∀ own, items.count (.switch own) = (draft.has own).toNat

def ofRequest (request : AnalyzeRequest) : Draft where
  source := some request.source
  output := request.output
  format := request.format
  depth := request.depth
  diagramDepth := request.diagramDepth
  noDiagrams := request.noDiagrams
  keepClone := request.keepClone
  config := request.config
  verbosity := request.verbosity

end Draft

inductive Repeats (items : List Item) : Prop where
  | value (setting : Setting) (twice : 2 ≤ (items.filterMap (Item.value? setting)).length)
  | switch (own : Switch) (twice : 2 ≤ items.count (.switch own))

theorem Draft.ToldBy.not_repeats {draft : Draft} {items : List Item} (told : draft.ToldBy items) :
    ¬ Repeats items := by
  rintro (⟨setting, twice⟩ | ⟨own, twice⟩)
  · rw [told.value] at twice
    cases held : draft.value? setting <;> simp [held] at twice
  · rw [told.switch] at twice
    exact absurd (Bool.toNat_le _) (Nat.not_le.mpr twice)

theorem Repeats.append {items : List Item} (repeats : Repeats items) (others : List Item) :
    Repeats (items ++ others) := by
  cases repeats with
  | value setting twice =>
      refine .value setting (Nat.le_trans twice ?_)
      rw [List.filterMap_append, List.length_append]
      exact Nat.le_add_right _ _
  | switch own twice =>
      refine .switch own (Nat.le_trans twice ?_)
      rw [List.count_append]
      exact Nat.le_add_right _ _

/-! ## Values -/

theorem asFormat_word (format : OutputFormat) : asFormat (Bytes.ofString format.word) = .ok format := by
  cases format <;> simp [asFormat, asText, Bytes.decode?_ofString, OutputFormat.ofWord?, OutputFormat.word]

theorem word_text_injective {format other : OutputFormat}
    (same : Bytes.ofString format.word = Bytes.ofString other.word) : format = other := by
  have read := asFormat_word format
  rw [same, asFormat_word other] at read
  exact (Except.ok.inj read).symm

theorem asNumber_toString {n : Nat} (small : n ≤ maxNumber) :
    asNumber (Bytes.ofString (toString n)) = .ok n := by
  obtain ⟨first, others, digits, digit⟩ := Text.digitsOf_cons n
  have unsigned : Text.dropFront? ['+'] (Text.digitsOf n) = none := by
    have plain : first ≠ '+' := by
      rintro rfl
      cases digit
    simp [Text.dropFront?, digits, plain.symm]
  have all : (Text.digitsOf n).all Text.isDigit = true :=
    List.all_eq_true.mpr fun c => Text.isDigit_of_mem_digitsOf
  have number : number? (toString n).toList = some n := by
    rw [number?, Text.toList_toString, unsigned, Option.getD_none, Text.natOfDigits_digitsOf]
    simp [all, Text.digitsOf_ne_nil, small]
  simp only [asNumber, asText, Bytes.decode?_ofString, number]

/-! ## Taking items -/

namespace Draft

def take (draft : Draft) : Item → Except UsageError Draft
  | .source text => .ok { draft with source := some text }
  | .valued setting _ value => draft.set value setting
  | .switch own => draft.raise own.flag
  | item => .ok { draft with verbosity := min (draft.verbosity + item.verbosity) maxVerbosity }

variable {draft : Draft} {items : List Item}

theorem set_held {setting : Setting} {held : Bytes} (holds : draft.value? setting = some held)
    (value : Bytes) : draft.set value setting = .error .repeated := by
  cases setting <;> obtain ⟨_, own, -⟩ := Option.map_eq_some_iff.mp holds <;>
    simp [set, own, once, Except.map]

theorem raise_held {own : Switch} (holds : draft.has own = true) :
    draft.raise own.flag = .error .repeated := by
  cases own <;> exact if_pos holds

structure Adds (draft : Draft) (item : Item) (changed : Draft) : Prop where
  source : changed.source.toList = draft.source.toList ++ item.source?.toList
  value : ∀ setting,
    (changed.value? setting).toList = (draft.value? setting).toList ++ (item.value? setting).toList
  switch : ∀ own, (changed.has own).toNat = (draft.has own).toNat + [item].count (.switch own)
  verbosity : changed.verbosity = min (draft.verbosity + item.verbosity) maxVerbosity

theorem ToldBy.concat {item : Item} {changed : Draft} (told : draft.ToldBy items)
    (adds : draft.Adds item changed) : changed.ToldBy (items ++ [item]) where
  source := by
    rw [List.filterMap_append, told.source, adds.source]
    cases item <;> rfl
  value setting := by
    rw [List.filterMap_append, told.value, adds.value]
    cases said : item.value? setting <;> simp [said]
  switch own := by rw [List.count_append, told.switch, adds.switch]

section Adding

variable (bounded : draft.verbosity ≤ maxVerbosity)

include bounded

theorem set_fresh {setting : Setting} {value : Bytes} (fresh : draft.value? setting = none)
    (admitted : setting.Admits value) (spelling : Spelling) :
    ∃ changed, draft.set value setting = .ok changed ∧
      draft.Adds (.valued setting spelling value) changed := by
  cases setting <;> have none := Option.map_eq_none_iff.mp fresh
  case' output | config =>
    obtain ⟨nonempty, -⟩ := admitted
    simp only [set, none, once, asPath, List.isEmpty_iff, if_neg nonempty, Except.map]
  case' format =>
    obtain ⟨format, rfl⟩ := admitted
    simp only [set, none, once, asFormat_word, Except.map]
  case' depth | diagramDepth =>
    obtain ⟨n, small, rfl⟩ := admitted
    simp only [set, none, once, asNumber_toString small, Except.map]
  all_goals
    refine ⟨_, rfl, (List.append_nil _).symm, fun other => ?_, fun _ => rfl,
      (Nat.min_eq_left bounded).symm⟩
    cases other <;> simp [value?, none, Item.value?]

theorem raise_fresh {own : Switch} (fresh : draft.has own = false) :
    ∃ changed, draft.raise own.flag = .ok changed ∧ draft.Adds (.switch own) changed := by
  have unset : ¬ draft.has own = true := by simp [fresh]
  cases own
  all_goals
    refine ⟨_, if_neg unset, (List.append_nil _).symm, fun _ => (List.append_nil _).symm,
      fun other => ?_, (Nat.min_eq_left bounded).symm⟩
    cases other <;> simp_all [has]

theorem take_cases (told : draft.ToldBy items) {item : Item} (valued : item.HasValue)
    (alone : ((items ++ [item]).filterMap Item.source?).length ≤ 1) :
    (∃ changed, draft.take item = .ok changed ∧ draft.Adds item changed) ∨
      (draft.take item = .error .repeated ∧ Repeats (items ++ [item])) := by
  cases item with
  | source text =>
      have missing : draft.source = none := by
        rw [List.filterMap_append, told.source, List.length_append] at alone
        cases held : draft.source with
        | none => rfl
        | some before => simp [held, Item.source?] at alone
      refine .inl ⟨_, rfl, ?_, fun _ => (List.append_nil _).symm, fun _ => rfl,
        (Nat.min_eq_left bounded).symm⟩
      rw [missing]
      rfl
  | valued setting spelling value =>
      cases held : draft.value? setting with
      | some before =>
          refine .inr ⟨set_held held value, .value setting ?_⟩
          rw [List.filterMap_append, told.value, held]
          simp [Item.value?]
      | none => exact .inl (set_fresh bounded held valued spelling)
  | switch own =>
      cases held : draft.has own with
      | true =>
          refine .inr ⟨raise_held held, .switch own ?_⟩
          rw [List.count_append, told.switch, held]
          simp
      | false => exact .inl (raise_fresh bounded held)
  | verbose | marks again =>
      exact .inl ⟨_, rfl, (List.append_nil _).symm, fun _ => (List.append_nil _).symm, fun _ => rfl, rfl⟩

end Adding

theorem foldlM_take (valued : ∀ item ∈ items, item.HasValue)
    (alone : (items.filterMap Item.source?).length ≤ 1) :
    (∃ draft, items.foldlM take {} = .ok draft ∧ draft.ToldBy items ∧
        draft.verbosity = min (items.map Item.verbosity).sum maxVerbosity) ∨
      (items.foldlM take {} = .error .repeated ∧ Repeats items) := by
  -- From the right: the draft so far is told by the items so far, which decides about the next one.
  induction items using List.reverseRecOn with
  | nil =>
      refine .inl ⟨{}, rfl, ⟨rfl, fun setting => ?_, fun own => ?_⟩, rfl⟩
      · cases setting <;> rfl
      · cases own <;> rfl
  | append_singleton items item ih =>
      rw [List.forall_mem_append] at valued
      have fewer : (items.filterMap Item.source?).length ≤ 1 := by
        rw [List.filterMap_append, List.length_append] at alone
        omega
      rw [List.foldlM_append]
      rcases ih valued.1 fewer with ⟨draft, made, told, verbosity⟩ | ⟨failed, repeats⟩
      · have bounded : draft.verbosity ≤ maxVerbosity := verbosity ▸ Nat.min_le_right _ _
        rcases take_cases bounded told (valued.2 item (by simp)) alone with
          ⟨changed, taken, adds⟩ | ⟨failed, repeats⟩
        · refine .inl ⟨changed, ?_, told.concat adds, ?_⟩
          · rw [made]
            simp [bind, Except.bind, taken, pure, Except.pure]
          · rw [adds.verbosity, verbosity, List.map_append, List.sum_append, List.map_singleton,
              List.sum_singleton]
            omega
        · refine .inr ⟨?_, repeats⟩
          rw [made]
          simp [bind, Except.bind, failed]
      · exact .inr ⟨by rw [failed]; rfl, repeats.append [item]⟩

theorem number_text_injective {m n : Nat}
    (same : Bytes.ofString (toString m) = Bytes.ofString (toString n)) : m = n := by
  have digits := congrArg String.toList (Bytes.ofString_injective same)
  rw [Text.toList_toString, Text.toList_toString] at digits
  rw [← Text.natOfDigits_digitsOf m, digits, Text.natOfDigits_digitsOf]

theorem ToldBy.unique {other : Draft} (told : draft.ToldBy items) (alsoTold : other.ToldBy items)
    (verbosity : draft.verbosity = other.verbosity) : draft = other := by
  have source : draft.source = other.source := by
    have same := congrArg List.head? (told.source.symm.trans alsoTold.source)
    simpa using same
  have value : ∀ setting, draft.value? setting = other.value? setting := by
    intro setting
    have same := congrArg List.head? ((told.value setting).symm.trans (alsoTold.value setting))
    simpa using same
  have switch : ∀ own, draft.has own = other.has own := by
    intro own
    have same := (told.switch own).symm.trans (alsoTold.switch own)
    cases held : draft.has own <;> cases also : other.has own <;> simp_all
  have output := (Option.map_inj_right fun _ _ => congrArg Path.mk).mp (value .output)
  have config := (Option.map_inj_right fun _ _ => congrArg Path.mk).mp (value .config)
  have format := (Option.map_inj_right fun _ _ => word_text_injective).mp (value .format)
  have depth := (Option.map_inj_right fun _ _ => number_text_injective).mp (value .depth)
  have diagramDepth := (Option.map_inj_right fun _ _ => number_text_injective).mp (value .diagramDepth)
  have noDiagrams : draft.noDiagrams = other.noDiagrams := switch .noDiagrams
  have keepClone : draft.keepClone = other.keepClone := switch .keepClone
  cases draft
  cases other
  simp_all

end Draft

end CodeAtlas.CommandLine

import CodeAtlas.Proofs.CommandLine.Written

namespace CodeAtlas.CommandLine

/-! ## Settling -/

theorem Draft.source_of_set {draft changed : Draft} {value : Bytes} {setting : Setting}
    (made : draft.set value setting = .ok changed) : changed.source = draft.source := by
  cases setting <;> rw [set] at made <;> generalize once _ _ = result at made <;>
    cases result <;> cases made <;> rfl

theorem Draft.source_of_raise {draft changed : Draft} {flag : Flag}
    (made : draft.raise flag = .ok changed) : changed.source = draft.source := by
  cases flag <;> simp only [raise] at made
  case verbose =>
    cases made
    rfl
  case help => cases made
  all_goals
    split at made
    · cases made
    · cases made
      rfl

theorem asText_ofString (text : String) : asText (Bytes.ofString text) = .ok text := by
  rw [asText, Bytes.decode?_ofString]

namespace Reading

def hasSource (reading : Reading) : Bool :=
  match reading.pending with
  | .source _ => true
  | _ => reading.draft.source.isSome

structure AtRest (reading : Reading) : Prop where
  unended : reading.optionsEnded = false
  idle : ∀ setting, reading.pending ≠ .waiting setting

variable {reading : Reading} {draft : Draft}

theorem hasSource_of_settle (settles : reading.settle = .ok draft) :
    draft.source.isSome = reading.hasSource := by
  unfold settle at settles
  unfold hasSource
  cases pending : reading.pending with
  | nothing =>
      rw [pending] at settles
      cases settles
      rfl
  | waiting setting =>
      rw [pending] at settles
      cases settles
  | given setting value =>
      rw [pending] at settles
      exact congrArg Option.isSome (Draft.source_of_set settles)
  | source value =>
      rw [pending] at settles
      cases text : asText value with
      | error e => simp [text, Except.map] at settles
      | ok source =>
          simp only [text, Except.map, Except.ok.injEq] at settles
          rw [← settles]
          rfl

/-- What is read settles as `result`, sooner or later. -/
inductive Reaches (result : Except UsageError Draft) (hasSource : Bool) :
    Except UsageError Reading → Prop where
  | early {e : UsageError} (failed : result = .error e) : Reaches result hasSource (.error e)
  | later {reading : Reading} (rest : reading.AtRest) (settles : reading.settle = result)
      (source : reading.hasSource = hasSource) : Reaches result hasSource (.ok reading)

theorem Reaches.bind {result : Except UsageError Draft} {first second : Bool}
    {run : Except UsageError Reading} (reached : Reaches result first run)
    {next : Draft → Except UsageError Draft} {go : Reading → Except UsageError Reading}
    (onward : ∀ reading : Reading, reading.AtRest → reading.hasSource = first →
      Reaches (reading.settle >>= next) second (go reading)) :
    Reaches (result >>= next) second (run >>= go) := by
  cases reached with
  | early failed =>
      subst failed
      exact .early rfl
  | later rest settles source =>
      subst settles
      exact onward _ rest source

theorem reaches_act (rest : reading.AtRest) {alter : Draft → Except UsageError Draft}
    (keeps : ∀ draft changed, alter draft = .ok changed → changed.source = draft.source) :
    Reaches (reading.settle >>= alter) reading.hasSource (reading.act alter) := by
  unfold act
  cases settles : reading.settle with
  | error e => exact .early rfl
  | ok draft =>
      show Reaches (alter draft) _ ((alter draft).map _)
      cases made : alter draft with
      | error e => exact .early rfl
      | ok changed =>
          refine .later ⟨rest.unended, nofun⟩ rfl ?_
          rw [← hasSource_of_settle settles, ← keeps draft changed made]
          rfl

theorem reaches_set (rest : reading.AtRest) (value : Bytes) (setting : Setting) :
    Reaches (reading.settle >>= (·.set value setting)) reading.hasSource
      (reading.act (·.set value setting)) :=
  reaches_act rest fun _ _ => Draft.source_of_set

theorem reaches_raise (rest : reading.AtRest) (flag : Flag) :
    Reaches (reading.settle >>= (·.raise flag)) reading.hasSource (reading.act (·.raise flag)) :=
  reaches_act rest fun _ _ => Draft.source_of_raise

/-! ## Arguments of one item -/

theorem step_long (rest : reading.AtRest) {word : Bytes} (nonempty : word ≠ []) :
    reading.step (hyphen :: hyphen :: word) = reading.long word := by
  simp [step, rest.unended, nonempty]

theorem step_plain (unended : reading.optionsEnded = false) {word : Bytes}
    (plain : word.head? ≠ some hyphen) : reading.step word = reading.plain word := by
  cases word with
  | nil => simp [step, unended]
  | cons first more =>
      have different : first ≠ hyphen := fun same => plain (congrArg some same)
      simp [step, unended, different]

theorem step_letter (rest : reading.AtRest) {setting : Setting}
    (spelled : setting.letter?.isSome = true) :
    reading.step (hyphen :: setting.letter?.toList) = reading.await setting := by
  cases setting <;> cases spelled <;>
    simp [step, rest.unended, Setting.letter?, short, shortOption?, hyphen]

theorem step_marks (rest : reading.AtRest) (again : Nat) :
    reading.step (hyphen :: List.replicate (again + 1) 0x76) =
      reading.short (List.replicate (again + 1) 0x76) := by
  simp [step, rest.unended, List.replicate_succ, hyphen]

section Long

variable {name : Bytes} (absent : equals ∉ name)

include absent

theorem takeWhile_name (rest : Bytes) :
    (name ++ rest).takeWhile (· != equals) = name ++ rest.takeWhile (· != equals) :=
  List.takeWhile_append_of_pos fun _ member => bne_iff_ne.mpr (ne_of_mem_of_not_mem member absent)

theorem takeWhile_whole : name.takeWhile (· != equals) = name := by
  simpa using takeWhile_name absent []

theorem long_flag {flag : Flag} (known : longOption? name = some (.inr flag)) :
    reading.long name = reading.act (·.raise flag) := by
  simp only [long, takeWhile_whole absent, known, List.drop_length]

theorem long_setting {setting : Setting} (known : longOption? name = some (.inl setting)) :
    reading.long name = reading.await setting := by
  simp only [long, takeWhile_whole absent, known, List.drop_length]

theorem long_joined {setting : Setting} (known : longOption? name = some (.inl setting)) (value : Bytes) :
    reading.long (name ++ equals :: value) = reading.act (·.set value setting) := by
  have front : (name ++ equals :: value).takeWhile (· != equals) = name := by
    simpa using takeWhile_name absent (equals :: value)
  simp only [long, front, known, List.drop_left]

end Long

theorem longOption?_setting (setting : Setting) :
    longOption? (Bytes.ofString setting.name) = some (.inl setting) := by
  cases setting <;> decide

theorem equals_not_mem_name (setting : Setting) : equals ∉ Bytes.ofString setting.name := by
  cases setting <;> decide

theorem longOption?_switch (own : Switch) :
    longOption? (Bytes.ofString own.name) = some (.inr own.flag) := by
  cases own <;> decide

theorem reaches_value (rest : reading.AtRest) (setting : Setting) {value : Bytes}
    (plain : value.head? ≠ some hyphen) :
    Reaches (reading.settle >>= (·.set value setting)) reading.hasSource
      (reading.await setting >>= (·.step value)) := by
  unfold await
  cases settles : reading.settle with
  | error e => exact .early rfl
  | ok draft =>
      have unended : Reading.optionsEnded { reading with draft, pending := .waiting setting } = false :=
        rest.unended
      have taken : step { reading with draft, pending := .waiting setting } value =
          .ok { reading with draft, pending := .given setting value } := by
        rw [step_plain unended plain]
        simp only [Reading.plain, rest.unended]
      show Reaches (draft.set value setting) _
        (step { reading with draft, pending := .waiting setting } value)
      rw [taken]
      exact .later ⟨rest.unended, nofun⟩ rfl (hasSource_of_settle settles)

theorem reaches_source (rest : reading.AtRest) (alone : reading.hasSource = false) (text : String) :
    Reaches (reading.settle >>= (·.take (.source text))) true
      (reading.plain (Bytes.ofString text)) := by
  have taken : reading.plain (Bytes.ofString text) =
      reading.settle.map fun draft => { reading with draft, pending := .source (Bytes.ofString text) } := by
    unfold hasSource at alone
    cases pending : reading.pending with
    | nothing | given setting value =>
        rw [pending] at alone
        have missing : ¬ reading.draft.source.isSome = true := by simp only [alone, Bool.false_eq_true,
          not_false_eq_true]
        simp only [Reading.plain, pending, if_neg missing]
    | waiting setting => exact absurd pending (rest.idle setting)
    | source value =>
        rw [pending] at alone
        cases alone
  rw [taken]
  cases settles : reading.settle with
  | error e => exact .early rfl
  | ok draft =>
      refine .later ⟨rest.unended, nofun⟩ ?_ rfl
      simp only [settle, asText_ofString]
      rfl

theorem short_mark (more : Bytes) :
    reading.short (0x76 :: more) = reading.act (·.raise .verbose) >>= (·.short more) := by
  have known : shortOption? 0x76 = some (.inr .verbose) := rfl
  rw [short.eq_def]
  simp only [known]
  cases reading.act (·.raise .verbose) <;> rfl

theorem reaches_marks (rest : reading.AtRest) (again : Nat) :
    Reaches (reading.settle >>= (·.take (.marks again))) reading.hasSource
      (reading.short (List.replicate (again + 1) 0x76)) := by
  have first := reaches_raise rest .verbose
  induction again generalizing reading with
  | zero =>
      have alone : reading.short [0x76] = reading.act (·.raise .verbose) :=
        (short_mark []).trans (bind_pure _)
      exact alone ▸ first
  | succ again ih =>
      -- Counting up to a bound gives the same whether it goes one by one or all at once.
      have together : reading.settle >>= (·.take (.marks (again + 1))) =
          (reading.settle >>= (·.raise .verbose)) >>= (·.take (.marks again)) := by
        cases reading.settle with
        | error e => rfl
        | ok draft =>
            simp only [bind, Except.bind, Draft.take, Draft.raise, Item.verbosity]
            congr 2
            omega
      rw [List.replicate_succ, short_mark, together]
      refine first.bind fun next rest source => ?_
      rw [← source]
      exact ih rest (reaches_raise rest .verbose)

/-! ## Written command lines -/

theorem head?_of_admits {setting : Setting} {value : Bytes} (admitted : setting.Admits value) :
    value.head? ≠ some hyphen := by
  cases setting with
  | output | config => exact admitted.2
  | format =>
      obtain ⟨format, rfl⟩ := admitted
      cases format <;> decide
  | depth | diagramDepth =>
      obtain ⟨n, -, rfl⟩ := admitted
      intro sign
      have single : String.utf8EncodeChar '-' = [hyphen] := rfl
      have inside := Bytes.mem_of_mem_ofString single (by decide) (List.mem_of_head? sign)
      rw [Text.toList_toString] at inside
      exact absurd (Text.isDigit_of_mem_digitsOf inside) (by decide)

theorem foldlM_single (word : Bytes) : [word].foldlM step reading = reading.step word := bind_pure _

theorem foldlM_pair (word value : Bytes) :
    [word, value].foldlM step reading = reading.step word >>= (·.step value) := by
  rw [List.foldlM_cons]
  congr 1
  funext next
  exact bind_pure _

theorem reaches_valued (rest : reading.AtRest) {setting : Setting} {spelling : Spelling} {value : Bytes}
    (spelled : (Item.valued setting spelling value).HasSpelling) (admitted : setting.Admits value) :
    Reaches (reading.settle >>= (·.set value setting)) reading.hasSource
      ((Item.valued setting spelling value).arguments.foldlM step reading) := by
  have known := longOption?_setting setting
  have absent := equals_not_mem_name setting
  have nonempty : Bytes.ofString setting.name ≠ [] := by cases setting <;> decide
  have plain := head?_of_admits admitted
  cases spelling with
  | apart =>
      rw [Item.arguments, foldlM_pair, step_long rest nonempty, long_setting absent known]
      exact reaches_value rest setting plain
  | joined =>
      rw [Item.arguments, foldlM_single, step_long rest (by simp), long_joined absent known]
      exact reaches_set rest value setting
  | letter =>
      rw [Item.arguments, foldlM_pair, step_letter rest spelled]
      exact reaches_value rest setting plain

theorem reaches_item (rest : reading.AtRest) {item : Item} (spelled : item.HasSpelling)
    (valued : item.HasValue) (alone : item.source?.isSome = true → reading.hasSource = false) :
    Reaches (reading.settle >>= (·.take item)) (reading.hasSource || item.source?.isSome)
      (item.arguments.foldlM step reading) := by
  cases item with
  | source text =>
      show Reaches _ (reading.hasSource || true) _
      rw [Item.arguments, foldlM_single, step_plain rest.unended valued, Bool.or_true]
      exact reaches_source rest (alone rfl) text
  | valued setting spelling value =>
      show Reaches _ (reading.hasSource || false) _
      rw [Bool.or_false]
      exact reaches_valued rest spelled valued
  | switch own =>
      have known := longOption?_switch own
      have absent : equals ∉ Bytes.ofString own.name := by cases own <;> decide
      have nonempty : Bytes.ofString own.name ≠ [] := by cases own <;> decide
      show Reaches _ (reading.hasSource || false) _
      rw [Item.arguments, foldlM_single, step_long rest nonempty, long_flag absent known, Bool.or_false]
      exact reaches_raise rest own.flag
  | verbose =>
      have known : longOption? (Bytes.ofString "verbose") = some (.inr .verbose) := by decide
      have absent : equals ∉ Bytes.ofString "verbose" := by decide
      show Reaches _ (reading.hasSource || false) _
      rw [Item.arguments, foldlM_single, step_long rest (by decide),
        long_flag absent known, Bool.or_false]
      exact reaches_raise rest .verbose
  | marks again =>
      show Reaches _ (reading.hasSource || false) _
      rw [Item.arguments, foldlM_single, step_marks rest, Bool.or_false]
      exact reaches_marks rest again

theorem settle_foldlM {items : List Item} (rest : reading.AtRest)
    (spelled : ∀ item ∈ items, item.HasSpelling) (valued : ∀ item ∈ items, item.HasValue)
    (alone : reading.hasSource.toNat + (items.filterMap Item.source?).length ≤ 1) :
    (items.flatMap Item.arguments).foldlM step reading >>= settle =
      reading.settle >>= fun draft => items.foldlM Draft.take draft := by
  induction items generalizing reading with
  | nil => exact (pure_bind _ _).trans (bind_pure _).symm
  | cons item items ih =>
      rw [List.forall_mem_cons] at spelled valued
      have counted : ((item :: items).filterMap Item.source?).length =
          item.source?.isSome.toNat + (items.filterMap Item.source?).length := by
        cases source : item.source? with
        | none => rw [List.filterMap_cons_none source, Option.isSome_none, Bool.toNat_false, Nat.zero_add]
        | some text => rw [List.filterMap_cons_some source, List.length_cons, Nat.add_comm]; rfl
      rw [counted] at alone
      have first : item.source?.isSome = true → reading.hasSource = false := by
        intro own
        cases held : reading.hasSource with
        | false => rfl
        | true =>
            rw [own, held] at alone
            simp only [Bool.toNat_true] at alone
            omega
      have reached := reaches_item rest spelled.1 valued.1 first
      rw [List.flatMap_cons, List.foldlM_append]
      have onward : (reading.settle >>= fun draft => (item :: items).foldlM Draft.take draft) =
          (reading.settle >>= (·.take item)) >>= fun draft => items.foldlM Draft.take draft := by
        rw [bind_assoc]
        rfl
      rw [onward, bind_assoc]
      -- A value may be judged only after more arguments, so an early fault has to be that of the draft.
      generalize (reading.settle >>= (·.take item)) = result at reached ⊢
      generalize item.arguments.foldlM step reading = run at reached ⊢
      cases reached with
      | early failed =>
          rw [failed]
          rfl
      | @later next rest settles source =>
          rw [← settles]
          refine ih rest spelled.2 valued.2 ?_
          rw [source]
          cases own : item.source?.isSome <;> cases held : reading.hasSource <;>
            simp_all

end Reading

theorem analyze_eq (arguments : List Bytes) : analyze arguments =
    arguments.foldlM Reading.step {} >>= Reading.settle >>= Draft.request := by
  unfold analyze
  cases arguments.foldlM Reading.step {} with
  | error e => rfl
  | ok reading =>
      simp only [bind, Except.bind]
      cases reading.settle <;> rfl

theorem analyze_arguments {items : List Item} (spelled : ∀ item ∈ items, item.HasSpelling)
    (valued : ∀ item ∈ items, item.HasValue) (alone : (items.filterMap Item.source?).length ≤ 1) :
    analyze (items.flatMap Item.arguments) = items.foldlM Draft.take {} >>= Draft.request := by
  have start : Reading.AtRest {} := ⟨rfl, nofun⟩
  have settled := Reading.settle_foldlM start spelled valued (by simpa [Reading.hasSource] using alone)
  rw [analyze_eq, settled]
  rfl

/-- A request is read back from every command line that is written for it, with its marks of verbosity
counted up to a bound. A command line that gives one option twice is refused. -/
theorem read_written {items : List Item} (spelled : ∀ item ∈ items, item.HasSpelling)
    (valued : ∀ item ∈ items, item.HasValue) :
    let line := Bytes.ofString "analyze" :: items.flatMap Item.arguments
    (∀ request : AnalyzeRequest, (Draft.ofRequest request).ToldBy items → read line =
        .ok (.analyze { request with verbosity := min (items.map Item.verbosity).sum maxVerbosity })) ∧
      ((items.filterMap Item.source?).length = 1 → Repeats items → read line = .error .repeated) := by
  intro line
  have reads : read line = (analyze (items.flatMap Item.arguments)).map .analyze := rfl
  constructor
  · intro request told
    have alone : (items.filterMap Item.source?).length ≤ 1 := by
      rw [told.source]
      exact Nat.le_refl 1
    rcases Draft.foldlM_take valued alone with ⟨draft, made, own, verbosity⟩ | ⟨-, repeats⟩
    · let counted : AnalyzeRequest := { request with verbosity := draft.verbosity }
      have same : draft = Draft.ofRequest counted :=
        own.unique ⟨told.source, told.value, told.switch⟩ rfl
      rw [reads, analyze_arguments spelled valued alone, made, same, ← verbosity]
      rfl
    · exact absurd repeats told.not_repeats
  · intro alone repeats
    have once := Nat.le_of_eq alone
    rcases Draft.foldlM_take valued once with ⟨draft, -, told, -⟩ | ⟨failed, -⟩
    · exact absurd repeats told.not_repeats
    · rw [reads, analyze_arguments spelled valued once, failed]
      rfl

def mixedItems : List Item :=
  [.marks 1, .valued .depth .joined (Bytes.ofString "4"), .source "lib=1",
    .valued .output .letter (Bytes.ofString "analyze"), .verbose, .switch .keepClone,
    .valued .format .apart (Bytes.ofString "json"),
    .valued .diagramDepth .apart (Bytes.ofString (toString maxNumber))]

def mixedRequest : AnalyzeRequest where
  source := "lib=1"
  output := some ⟨Bytes.ofString "analyze"⟩
  format := some .json
  depth := some 4
  diagramDepth := some maxNumber
  noDiagrams := false
  keepClone := true
  config := none
  verbosity := 3

theorem mixedItems_spelled : ∀ item ∈ mixedItems, item.HasSpelling := by
  simp [mixedItems, Item.HasSpelling, Setting.letter?]

theorem mixedItems_valued : ∀ item ∈ mixedItems, item.HasValue := by
  simp only [mixedItems, List.forall_mem_cons, Item.HasValue, Setting.Admits, List.not_mem_nil,
    false_implies, implies_true, and_true, true_and]
  exact ⟨⟨4, by decide, rfl⟩, by decide, by decide, ⟨.json, rfl⟩, maxNumber, Nat.le_refl _, rfl⟩

theorem mixedItems_told : (Draft.ofRequest mixedRequest).ToldBy mixedItems where
  source := rfl
  value setting := by cases setting <;> rfl
  switch own := by cases own <;> rfl

theorem read_written_mixed :
    read (Bytes.ofString "analyze" :: mixedItems.flatMap Item.arguments) = .ok (.analyze mixedRequest) ∧
      read (Bytes.ofString "analyze" ::
          (mixedItems ++ [Item.valued .depth .apart (Bytes.ofString "5")]).flatMap Item.arguments) =
        .error .repeated := by
  constructor
  · exact (read_written mixedItems_spelled mixedItems_valued).1 mixedRequest mixedItems_told
  · refine (read_written ?_ ?_).2 rfl (.value .depth (Nat.le_refl 2))
    · exact List.forall_mem_append.mpr ⟨mixedItems_spelled, by simp [Item.HasSpelling]⟩
    · refine List.forall_mem_append.mpr ⟨mixedItems_valued, ?_⟩
      intro item member
      rw [List.mem_singleton.mp member]
      exact ⟨5, by decide, rfl⟩

end CodeAtlas.CommandLine

import Keymap.Proofs.Schema.Binding
import Keymap.Proofs.Schema.Specification
import Mathlib.Logic.Basic

/-!
What becomes of the fields of an entry that are only passed on. They stand as they are written in
the documentation of its binding or in its commands. The condition and the computed arguments of
an entry belong to its command; an entry that lists commands instead keeps of them what one of the
listed commands repeats (`condition_kept_iff`).
-/

set_option autoImplicit false

namespace Keymap

theorem Value.isNull_iff (value : Value) : value.isNull = true ↔ value = .null := by
  cases value <;> simp [isNull]

namespace Fields

/-- One field as a mapping of its own, without it if it is null. -/
def held (fields : Fields) (name : String) : Fields :=
  if (fields.read name).isNull then [] else [(name, fields.read name)]

variable (fields : Fields)

theorem read_held_append (name : String) (rest : Fields)
    (given : fields.read name ≠ .null) :
    Fields.read name (fields.held name ++ rest) = fields.read name := by
  rw [held, if_neg (by rwa [Value.isNull_iff])]
  simp [read, get?]

theorem read_held_append_of_other (name asked : String) (rest : Fields) (other : name ≠ asked) :
    Fields.read asked (fields.held name ++ rest) = rest.read asked := by
  unfold held
  split
  · rfl
  · simp [read, get?, other]

theorem read_flatMap_held (names : List String) (asked : String) :
    Fields.read asked (names.flatMap fields.held) =
      if asked ∈ names then fields.read asked else .null := by
  induction names with
  | nil => rfl
  | cons name rest ih =>
    rw [List.flatMap_cons]
    by_cases same : name = asked
    · subst same
      rw [if_pos List.mem_cons_self]
      by_cases null : fields.read name = .null
      · rw [held, if_pos ((Value.isNull_iff _).mpr null), List.nil_append, ih, null, ite_self]
      · exact read_held_append fields name _ null
    · rw [read_held_append_of_other fields name asked _ same, ih]
      simp [Ne.symm same]

theorem get?_of_read_ne (name : String) (given : fields.read name ≠ .null) :
    ∃ value, fields.get? name = some value ∧ value.isNull = false := by
  unfold read at given
  cases found : fields.get? name with
  | none => simp [found] at given
  | some value =>
    rw [found, Option.getD_some, ne_eq, ← Value.isNull_iff] at given
    exact ⟨value, rfl, by simpa using given⟩

theorem get?_filter (keep : String × Value → Bool) (name : String) (value : Value)
    (found : fields.get? name = some value) (passes : keep (name, value) = true) :
    Fields.get? name (fields.filter keep) = some value := by
  induction fields with
  | nil => cases found
  | cons field rest ih =>
    obtain ⟨known, stored⟩ := field
    by_cases same : known = name
    · rw [get?, if_pos same, Option.some.injEq] at found
      subst same found
      simp [passes, get?]
    · rw [get?, if_neg same] at found
      have later := ih found
      by_cases stays : keep (known, stored) = true
      · simpa [stays, get?, same] using later
      · simpa [stays] using later

end Fields

namespace Schema

theorem mapping_ok (label : String) (value : Value) (fields : Fields)
    (read : mapping label value = .ok fields) : value = .object fields := by
  unfold mapping at read
  split at read <;> cases read
  rfl

theorem readArguments_held (label field : String) (entry args : Fields)
    (read : readArguments label field entry = .ok args) : args = entry.held field := by
  unfold readArguments at read
  split at read
  · next null =>
    cases read
    simp [Fields.held, null, Value.isNull]
  · next given =>
    obtain ⟨fields, mapped, read⟩ := bind_ok _ _ _ read
    cases read
    simp [Fields.held, mapping_ok _ _ fields mapped, Value.isNull]

theorem optionalText_held (label field : String) (entry : Fields) (text : Option String)
    (read : optionalText label (entry.read field) = .ok text) :
    (text.map fun content => (field, Value.text content)).toList = entry.held field := by
  unfold optionalText at read
  split at read <;> cases read <;> simp [Fields.held, Value.isNull, *]

theorem optionalFlag_held (label field : String) (entry : Fields) (flag : Option Bool)
    (read : optionalFlag label (entry.read field) = .ok flag) :
    (flag.map fun value => (field, Value.bool value)).toList = entry.held field := by
  unfold optionalFlag at read
  split at read <;> cases read <;> simp [Fields.held, Value.isNull, *]

theorem optionalFlag_true_iff (label : String) (value : Value) (flag : Option Bool)
    (read : optionalFlag label value = .ok flag) : flag = some true ↔ value = .bool true := by
  unfold optionalFlag at read
  split at read <;> cases read <;> simp

theorem readDocTexts_held (label : String) (entry : Fields) (names : List String) (docs : Fields)
    (read : readDocTexts label entry names = .ok docs) : docs = names.flatMap entry.held := by
  induction names generalizing docs with
  | nil =>
    cases read
    rfl
  | cons name rest ih =>
    obtain ⟨text, reading, read⟩ := bind_ok _ _ _ read
    obtain ⟨others, readingRest, read⟩ := bind_ok _ _ _ read
    cases read
    rw [List.flatMap_cons, optionalText_held _ name entry text reading, ih others readingRest]

theorem readDocFlags_held (label : String) (entry : Fields) (names : List String) (docs : Fields)
    (read : readDocFlags label entry names = .ok docs) : docs = names.flatMap entry.held := by
  induction names generalizing docs with
  | nil =>
    cases read
    rfl
  | cons name rest ih =>
    obtain ⟨flag, reading, read⟩ := bind_ok _ _ _ read
    obtain ⟨others, readingRest, read⟩ := bind_ok _ _ _ read
    cases read
    rw [List.flatMap_cons, optionalFlag_held _ name entry flag reading, ih others readingRest]

theorem readDocs_held (label : String) (entry docs : Fields)
    (read : readDocs label entry = .ok docs) :
    docs = (docTexts ++ docFlags).flatMap entry.held := by
  obtain ⟨texts, readingTexts, read⟩ := bind_ok _ _ _ read
  obtain ⟨flags, readingFlags, read⟩ := bind_ok _ _ _ read
  cases read
  rw [List.flatMap_append, readDocTexts_held label entry _ texts readingTexts,
    readDocFlags_held label entry _ flags readingFlags]

theorem readCommandEntry_held (label : String) (entry : Fields) (command : Command)
    (read : readCommandEntry label entry = .ok command) :
    ∃ name, command =
      ("command", .text name) :: ["args", "computedArgs", "whenComputed"].flatMap entry.held := by
  unfold readCommandEntry at read
  split at read
  · cases read
  obtain ⟨_, _, read⟩ := bind_ok _ _ _ read
  obtain ⟨name, _, read⟩ := bind_ok _ _ _ read
  obtain ⟨args, readingArgs, read⟩ := bind_ok _ _ _ read
  obtain ⟨computed, readingComputed, read⟩ := bind_ok _ _ _ read
  obtain ⟨condition, readingCondition, read⟩ := bind_ok _ _ _ read
  cases read
  refine ⟨name, ?_⟩
  rw [readArguments_held _ _ entry args readingArgs,
    readArguments_held _ _ entry computed readingComputed,
    optionalText_held _ _ entry condition readingCondition]
  simp

/-- The fields of an entry that its command needs to run as it was written. -/
def computedNames : List String := ["whenComputed", "computedArgs"]

theorem computed_passed : ∀ field ∈ computedNames, "command" ≠ field ∧ field ∈ commandFields ∧
    field ∈ ["args", "computedArgs", "whenComputed"] := by
  decide

/-- What stands under a name in a value; only mappings have fields. -/
def fieldOf (field : String) : Value → Value
  | .object fields => Fields.read field fields
  | _ => .null

/-- The commands that an entry lists, if it runs several. -/
def listed? (entry : Fields) : Option (List Value) :=
  if (entry.read "command").text?.map Text.trimmed = some "runCommands" then
    some ((((entry.read "args").object?).bind fun args => (args.read "commands").list?).getD [])
  else none

/-- What the commands of an entry are read from. -/
def sources (entry : Fields) : List Value := (listed? entry).getD [.object entry]

section Commands

variable (field : String) (among : field ∈ computedNames)

include among

theorem readCommandEntry_read (label : String) (entry : Fields) (command : Command)
    (read : readCommandEntry label entry = .ok command) :
    command.read field = entry.read field := by
  obtain ⟨name, rfl⟩ := readCommandEntry_held label entry command read
  obtain ⟨other, _, passed⟩ := computed_passed field among
  have held := Fields.read_flatMap_held entry ["args", "computedArgs", "whenComputed"] field
  rw [if_pos passed] at held
  simpa only [Fields.read, Fields.get?, if_neg other] using held

theorem readCommand_read (label : String) (value : Value) (command : Command)
    (read : readCommand label value = .ok command) :
    command.read field = fieldOf field value := by
  unfold readCommand at read
  split at read
  · obtain ⟨name, _, read⟩ := bind_ok _ _ _ read
    cases read
    have other := (computed_passed field among).1
    simp [Command.named, Fields.read, Fields.get?, other, fieldOf]
  · obtain ⟨entry, mapped, read⟩ := bind_ok _ _ _ read
    cases mapping_ok label value entry mapped
    exact readCommandEntry_read field among label entry command read

theorem readEachCommand_read (label : String) (index : Nat) (values : List Value)
    (commands : List Command) (read : readEachCommand label index values = .ok commands) :
    commands.map (Fields.read field) = values.map (fieldOf field) := by
  induction values generalizing index commands with
  | nil =>
    cases read
    rfl
  | cons value rest ih =>
    obtain ⟨command, reading, read⟩ := bind_ok _ _ _ read
    obtain ⟨others, readingRest, read⟩ := bind_ok _ _ _ read
    cases read
    rw [List.map_cons, List.map_cons, readCommand_read field among _ value command reading,
      ih (index + 1) others readingRest]

theorem read_presentFields (entry : Fields) (given : entry.read field ≠ .null) :
    (presentFields commandFields entry).read field = entry.read field := by
  obtain ⟨value, found, present⟩ := Fields.get?_of_read_ne entry field given
  have known := (computed_passed field among).2.1
  have kept := Fields.get?_filter entry
    (fun field => commandFields.contains field.1 && !field.2.isNull) field value found
    (by simp [known, present])
  rw [presentFields, Fields.read, Fields.read, kept, found]

theorem readEntryCommands_read (label : String) (entry : Fields) (commands : List Command)
    (given : entry.read field ≠ .null) (read : readEntryCommands label entry = .ok commands) :
    commands.map (Fields.read field) = (sources entry).map (fieldOf field) := by
  obtain ⟨name, naming, read⟩ := bind_ok _ _ _ read
  obtain ⟨content, written, rfl⟩ := nonEmptyText_trims _ name _ naming
  unfold sources listed?
  rw [written, Value.text?, Option.map_some]
  split at read
  · next several =>
    obtain ⟨args, mapped, read⟩ := bind_ok _ _ _ read
    split at read
    · next items given =>
      rw [if_pos (congrArg some several), mapping_ok _ _ args mapped]
      simp only [Value.object?, Option.bind_some, given, Value.list?, Option.getD_some]
      exact readEachCommand_read field among _ 0 items commands read
    · cases read
  · next single =>
    obtain ⟨command, reading, read⟩ := bind_ok _ _ _ read
    cases read
    rw [if_neg (by simpa using single)]
    simp [readCommandEntry_read field among label _ command reading,
      read_presentFields field among entry given, fieldOf]

end Commands

/-- What is reported of an entry whose binding is accepted. -/
inductive Doubtful (options : Options) (kinds : List Kind) (entry : Fields) (binding : Binding) :
    Prop
  | finalStep (command : Command) (member : command ∈ binding.commands)
      (steps : command.runs options.stepCommand = true)
      (ends : entry.read "finalKey" = .bool true) : Doubtful options kinds entry binding
  | kind (name : String) (given : entry.read "kind" = .text name) (declared : kinds ≠ [])
      (strange : ∀ known ∈ kinds, known.name ≠ name) : Doubtful options kinds entry binding

section Binding

variable (options : Options) (kinds : List Kind) (label : String) (index : Int) (entry : Fields)

theorem action_problems_iff (action : Action) : 
    action.problems options label ≠ [] ↔
      (∃ command ∈ action.commands, command.runs options.stepCommand = true) ∧
        action.finalKey = some true := by
  rw [← exists_and_right]
  simp [Action.problems, Action.steps, and_assoc]

theorem kindProblems_iff (docs : Fields) :
    kindProblems kinds label docs ≠ [] ↔
      ∃ name, docs.read "kind" = .text name ∧ kinds ≠ [] ∧ ∀ known ∈ kinds, known.name ≠ name := by
  unfold kindProblems
  split
  · next name given =>
    simp [Fields.read, given]
  · next other =>
    refine iff_of_false (fun strange => strange rfl) ?_
    rintro ⟨name, given, _⟩
    obtain ⟨value, found, _⟩ := Fields.get?_of_read_ne docs "kind" (by simp [given])
    rw [Fields.read, found, Option.getD_some] at given
    exact other name (given ▸ found)

/-- A doubt about an accepted binding is reported, and nothing else is. -/
theorem readBinding_reported_iff (binding : Binding)
    (ended : (readBinding options kinds label index (.object entry)).result = .ok binding) :
    (readBinding options kinds label index (.object entry)).notes ≠ [] ↔
      Doubtful options kinds entry binding := by
  obtain ⟨action, docs, reach, acting, documented, _, rfl, notes⟩ :=
    readBinding_parts options kinds label index entry binding ended
  have final := optionalFlag_true_iff _ _ action.finalKey
    (readAction_parts options label entry action acting).2.2
  have kind : docs.read "kind" = entry.read "kind" := by
    rw [readDocs_held label entry docs documented, Fields.read_flatMap_held]
    exact if_pos (by decide)
  rw [notes, ne_eq, List.append_eq_nil_iff, not_and_or, ← ne_eq, ← ne_eq, action_problems_iff,
    kindProblems_iff, final, kind]
  constructor
  · rintro (⟨⟨command, member, steps⟩, ends⟩ | ⟨name, given, declared, strange⟩)
    · exact .finalStep command member steps ends
    · exact .kind name given declared strange
  · rintro (⟨command, member, steps, ends⟩ | ⟨name, given, declared, strange⟩)
    · exact .inl ⟨⟨command, member, steps⟩, ends⟩
    · exact .inr ⟨name, given, declared, strange⟩

/-- An accepted binding keeps the condition and the computed arguments of its entry unless it is
reported, or the entry lists commands of which none has the same. -/
theorem condition_kept_iff (binding : Binding)
    (ended : (readBinding options kinds label index (.object entry)).result = .ok binding)
    (field : String) (among : field ∈ computedNames) (given : entry.read field ≠ .null) :
    ((readBinding options kinds label index (.object entry)).notes ≠ [] ∨
        ∃ command ∈ binding.commands, command.read field = entry.read field) ↔
      Doubtful options kinds entry binding ∨
        ∀ items, listed? entry = some items →
          ∃ item ∈ items, fieldOf field item = entry.read field := by
  obtain ⟨action, docs, reach, acting, _, _, made, _⟩ :=
    readBinding_parts options kinds label index entry binding ended
  have commands : binding.commands = action.commands := by rw [made, Action.binding]
  have reading := (readAction_parts options label entry action acting).2.1
  have same := readEntryCommands_read field among label entry action.commands given reading
  have kept : (∃ command ∈ binding.commands, command.read field = entry.read field) ↔
      ∃ source ∈ sources entry, fieldOf field source = entry.read field := by
    rw [← List.mem_map, ← List.mem_map, commands, ← same]
  rw [readBinding_reported_iff options kinds label index entry binding ended, kept, sources]
  cases listed? entry with
  | none => simp [fieldOf]
  | some items => simp

end Binding

/-- A binding of one command with a condition and computed arguments. -/
def guarded : Fields :=
  [("key", .text "a"), ("command", .text "x"), ("whenComputed", .text "w"),
   ("computedArgs", .object [("count", .text "n")])]

theorem kept_of_guarded :
    ∃ binding, (readBinding .default [] "bind[0]" 0 (.object guarded)).result = .ok binding ∧
      ∀ field ∈ computedNames, guarded.read field ≠ .null ∧
        ((readBinding .default [] "bind[0]" 0 (.object guarded)).notes ≠ [] ∨
          ∃ command ∈ binding.commands, command.read field = guarded.read field) := by
  obtain ⟨binding, ended, _⟩ := ended_of_check
    (readBinding .default [] "bind[0]" 0 (.object guarded)).result (fun _ => true) (by decide)
  have given : ∀ field ∈ computedNames, guarded.read field ≠ .null := by
    simp [computedNames, guarded, Fields.read, Fields.get?]
  refine ⟨binding, ended, fun field among => ⟨given field among, ?_⟩⟩
  refine (condition_kept_iff .default [] "bind[0]" 0 guarded binding ended field among
    (given field among)).mpr (.inr fun items listed => ?_)
  rw [Option.isNone_iff_eq_none.mp (by decide : (listed? guarded).isNone = true)] at listed
  cases listed

/-- The same binding with its command in a list. -/
def guardedList : Fields :=
  [("key", .text "a"), ("command", .text "runCommands"),
   ("args", .object [("commands", .list [.text "x"])]), ("whenComputed", .text "w"),
   ("computedArgs", .object [("count", .text "n")])]

/-- An accepted binding can lose its condition and its computed arguments without a report. -/
theorem condition_lost :
    ¬ ∀ (options : Options) (kinds : List Kind) (label : String) (index : Int) (entry : Fields)
      (binding : Binding),
      (readBinding options kinds label index (.object entry)).result = .ok binding →
      ∀ field ∈ computedNames, entry.read field ≠ .null →
        (readBinding options kinds label index (.object entry)).notes ≠ [] ∨
          ∃ command ∈ binding.commands, command.read field = entry.read field := by
  intro kept
  obtain ⟨binding, ended, plain⟩ := ended_of_check
    (readBinding .default [] "bind[0]" 0 (.object guardedList)).result
    (fun binding => binding.commands.all fun command => (command.read "whenComputed").isNull)
    (by decide)
  rcases kept .default [] "bind[0]" 0 guardedList binding ended "whenComputed" (by decide)
    (by simp [guardedList, Fields.read, Fields.get?]) with reported | ⟨command, member, same⟩
  · exact reported (List.isEmpty_iff.mp (by decide))
  · have null := List.all_eq_true.mp plain command member
    rw [same] at null
    exact absurd null (by decide)

end Schema

end Keymap

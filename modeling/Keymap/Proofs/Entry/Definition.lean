import Keymap.Entry.Definition
import Keymap.Proofs.Noted
import Keymap.Proofs.Value.Fields

/-!
Sequences with references to definitions. A sequence is settled if each of its references is: then
it holds the commands of the definitions in the place of the references and is otherwise as it was.
If not, the defect names the first place with a reference that cannot be settled
(`references_settled`).
-/

set_option autoImplicit false

namespace Keymap

/-- The members of a list pass a check, or there is a first one that does not. -/
theorem all_or_first {Item : Type} (passes : Item → Prop) (items : List Item) :
    (∀ item ∈ items, passes item) ∨ ∃ before item after,
      items = before ++ item :: after ∧ (∀ earlier ∈ before, passes earlier) ∧ ¬ passes item := by
  induction items with
  | nil => exact .inl fun _ member => nomatch member
  | cons item rest ih =>
    by_cases first : passes item
    · rcases ih with all | ⟨before, other, after, rfl, passed, fails⟩
      · exact .inl (List.forall_mem_cons.mpr ⟨first, all⟩)
      · exact .inr ⟨item :: before, other, after, rfl, List.forall_mem_cons.mpr ⟨first, passed⟩,
          fails⟩
    · exact .inr ⟨[], item, rest, rfl, (fun _ member => nomatch member), first⟩

theorem Command.runs_iff (command : Command) (name : String) :
    command.runs name = true ↔ command.get? "command" = some (.text name) := by
  unfold runs
  rw [beq_iff_eq]
  cases command.get? "command" with
  | none => simp
  | some value => cases value <;> simp [Value.text?]

namespace Definition

/-- A command that may stand in a definition: no sequence, and no reference. -/
def Plain : Value → Prop
  | .text content => content ≠ "runCommands"
  | .object fields =>
      Fields.get? "defined" fields = none ∧
        Fields.get? "command" fields ≠ some (.text "runCommands")
  | _ => False

/-- The commands that a definition is written with, one or a list. -/
def written : Value → List Value
  | .list items => items
  | single => [single]

/-- What an item of a sequence stands for: itself, or the commands of a definition. -/
def standsFor (definitions : Fields) (item : Value) : List Value :=
  match reference? item with
  | none => [item]
  | some name => ((definitions.get? name).map written).getD []

/-- A reference is settled by a definition of plain commands; other items need none. -/
def Settled (definitions : Fields) (item : Value) : Prop :=
  ∀ name, reference? item = some name → ∃ definition, definitions.get? name = some definition ∧
    ∀ command ∈ written definition, Plain command

/-- What is said of an item that is not settled. -/
inductive Refused (definitions : Fields) (here : String) (item : Value) : Defect → Prop where
  | missing (name : String) (refers : reference? item = some name)
      (absent : definitions.get? name = none) :
      Refused definitions here item (.missingDefinition here name)
  | nested (name : String) (definition : Value) (before after : List Value) (command : Value)
      (refers : reference? item = some name) (found : definitions.get? name = some definition)
      (holds : written definition = before ++ command :: after)
      (plain : ∀ earlier ∈ before, Plain earlier) (nests : nests command = true) :
      Refused definitions here item (.nestedDefinition here name)
  | noCommand (name : String) (definition : Value) (before after : List Value) (command : Value)
      (refers : reference? item = some name) (found : definitions.get? name = some definition)
      (holds : written definition = before ++ command :: after)
      (plain : ∀ earlier ∈ before, Plain earlier) (other : isCommand command = false) :
      Refused definitions here item (.notDefinition here name)

theorem plain_iff (command : Value) :
    Plain command ↔ nests command = false ∧ isCommand command = true := by
  cases command with
  | object fields =>
    rw [Plain, nests, Bool.or_eq_false_iff, ← Bool.not_eq_true (Command.runs fields _),
      Command.runs_iff]
    simp [Fields.has, isCommand]
  | _ => simp [Plain, nests, isCommand]

theorem checkCommand_plain (label name : String) (command : Value) (plain : Plain command) :
    checkCommand label name command = .ok () := by
  obtain ⟨flat, known⟩ := (plain_iff command).mp plain
  simp [checkCommand, flat, known]

section Commands

variable (label name : String) (definition : Value)

theorem commands_eq : commands label name definition =
    ((written definition).forM (checkCommand label name)).map fun _ => written definition := by
  unfold commands written
  cases definition <;> rfl

theorem checked_past (before rest : List Value) (plain : ∀ earlier ∈ before, Plain earlier) :
    (before ++ rest).forM (checkCommand label name) = rest.forM (checkCommand label name) := by
  induction before with
  | nil => rfl
  | cons earlier others ih =>
    obtain ⟨first, later⟩ := List.forall_mem_cons.mp plain
    have goesOn : (earlier :: (others ++ rest)).forM (checkCommand label name) =
        checkCommand label name earlier >>= fun _ =>
          (others ++ rest).forM (checkCommand label name) := rfl
    rw [List.cons_append, goesOn, checkCommand_plain label name earlier first]
    exact ih later

theorem commands_of_plain (plain : ∀ command ∈ written definition, Plain command) :
    commands label name definition = .ok (written definition) := by
  have passed := checked_past label name (written definition) [] plain
  rw [List.append_nil] at passed
  rw [commands_eq, passed]
  rfl

theorem commands_of_other (before after : List Value) (command : Value)
    (holds : written definition = before ++ command :: after)
    (plain : ∀ earlier ∈ before, Plain earlier) (other : ¬ Plain command) :
    commands label name definition = .error
      (if nests command then .nestedDefinition label name else .notDefinition label name) := by
  rw [commands_eq, holds, checked_past label name before _ plain]
  have stops : (command :: after).forM (checkCommand label name) =
      checkCommand label name command >>= fun _ => after.forM (checkCommand label name) := rfl
  rw [stops, checkCommand]
  rw [plain_iff] at other
  split
  · rfl
  · next flat =>
    have unknown : isCommand command = false := by
      simpa [(Bool.not_eq_true _).mp flat] using other
    simp [unknown, bind, Except.bind, Except.map]

end Commands

/-- Settles one item of a sequence. -/
def settle (definitions : Fields) (here : String) (item : Value) : Except Defect (List Value) :=
  match reference? item with
  | none => .ok [item]
  | some name => match definitions.get? name with
    | some definition => commands here name definition
    | none => .error (.missingDefinition here name)

theorem splice_cons (definitions : Fields) (label : String) (index : Nat) (item : Value)
    (rest : List Value) : splice definitions label index (item :: rest) =
      settle definitions (Schema.itemLabel (label ++ ".args.commands") index) item >>= fun own =>
        splice definitions label (index + 1) rest >>= fun others => pure (own ++ others) := by
  rw [splice, settle]
  cases reference? item with
  | none => rfl
  | some name =>
    dsimp only
    cases definitions.get? name <;> rfl

theorem settle_of_settled (definitions : Fields) (here : String) (item : Value)
    (settled : Settled definitions item) :
    settle definitions here item = .ok (standsFor definitions item) := by
  unfold settle standsFor
  cases refers : reference? item with
  | none => rfl
  | some name =>
    obtain ⟨definition, found, plain⟩ := settled name refers
    simp only [found, Option.map_some, Option.getD_some]
    exact commands_of_plain here name definition plain

theorem settle_of_unsettled (definitions : Fields) (here : String) (item : Value)
    (unsettled : ¬ Settled definitions item) :
    ∃ defect, settle definitions here item = .error defect ∧
      Refused definitions here item defect := by
  unfold Settled at unsettled
  push Not at unsettled
  obtain ⟨name, refers, unsettled⟩ := unsettled
  unfold settle
  rw [refers]
  dsimp only
  cases found : definitions.get? name with
  | none => exact ⟨_, rfl, .missing name refers found⟩
  | some definition =>
    rcases all_or_first Plain (written definition) with
      plain | ⟨before, command, after, holds, plain, other⟩
    · obtain ⟨command, member, other⟩ := unsettled definition found
      exact absurd (plain command member) other
    · refine ⟨_, commands_of_other here name definition before after command holds plain other, ?_⟩
      split
      · next nests =>
        exact .nested name definition before after command refers found holds plain nests
      · next flat =>
        refine .noCommand name definition before after command refers found holds plain ?_
        rw [plain_iff] at other
        simpa [(Bool.not_eq_true _).mp flat] using other

section Sequence

variable (definitions : Fields) (label : String)

theorem splice_past (index : Nat) (before rest : List Value)
    (settled : ∀ earlier ∈ before, Settled definitions earlier) :
    splice definitions label index (before ++ rest) =
      (splice definitions label (index + before.length) rest).map
        (before.flatMap (standsFor definitions) ++ ·) := by
  induction before generalizing index with
  | nil =>
    rw [List.nil_append, List.length_nil, Nat.add_zero]
    cases splice definitions label index rest <;> rfl
  | cons earlier others ih =>
    obtain ⟨first, later⟩ := List.forall_mem_cons.mp settled
    rw [List.cons_append, splice_cons, settle_of_settled definitions _ earlier first,
      ih (index + 1) later, List.length_cons, Nat.add_assoc, Nat.add_comm 1]
    cases splice definitions label (index + (others.length + 1)) rest with
    | error defect => rfl
    | ok result => simp [bind, Except.bind, Except.map, pure, Except.pure]

theorem splice_of_settled (items : List Value)
    (settled : ∀ item ∈ items, Settled definitions item) :
    splice definitions label 0 items = .ok (items.flatMap (standsFor definitions)) := by
  have past := splice_past definitions label 0 items [] settled
  simpa [splice, Except.map] using past

theorem splice_of_first (before after : List Value) (item : Value)
    (settled : ∀ earlier ∈ before, Settled definitions earlier)
    (unsettled : ¬ Settled definitions item) :
    ∃ defect, splice definitions label 0 (before ++ item :: after) = .error defect ∧
      Refused definitions (Schema.itemLabel (label ++ ".args.commands") before.length) item
        defect := by
  obtain ⟨defect, fails, refused⟩ := settle_of_unsettled definitions
    (Schema.itemLabel (label ++ ".args.commands") before.length) item unsettled
  refine ⟨defect, ?_, refused⟩
  rw [splice_past definitions label 0 before _ settled, splice_cons, Nat.zero_add, fails]
  rfl

end Sequence

theorem reference?_eq_none_iff (item : Value) : reference? item = none ↔
    ∀ fields, item = .object fields → Fields.get? "defined" fields = none := by
  cases item <;> simp [reference?]

theorem reference?_of_plain (command : Value) (plain : Plain command) :
    reference? command = none := by
  rw [reference?_eq_none_iff]
  rintro fields rfl
  exact plain.1

theorem reference?_of_standsFor (definitions : Fields) (item command : Value)
    (settled : Settled definitions item) (member : command ∈ standsFor definitions item) :
    reference? command = none := by
  unfold standsFor at member
  cases refers : reference? item with
  | none =>
    rw [refers] at member
    exact List.mem_singleton.mp member ▸ refers
  | some name =>
    obtain ⟨definition, found, plain⟩ := settled name refers
    simp only [refers, found, Option.map_some, Option.getD_some] at member
    exact reference?_of_plain command (plain command member)

theorem append_after (here before name after : String) :
    here ++ before ++ name ++ after = here ++ (before ++ (name ++ after)) := by
  rw [String.append_assoc, String.append_assoc]

theorem Refused.message (definitions : Fields) (here : String) (item : Value) (defect : Defect)
    (refused : Refused definitions here item defect) : ∃ text, defect.message = here ++ text := by
  cases refused with
  | missing name => exact ⟨_, append_after here _ name _⟩
  | nested name => exact ⟨_, append_after here _ name _⟩
  | noCommand name => exact ⟨_, append_after here _ name _⟩

section Resolve

variable (definitions : Fields) (label : String) (entry args : Fields) (items : List Value)
  (runs : entry.get? "command" = some (.text "runCommands"))
  (given : entry.get? "args" = some (.object args))
  (listed : args.get? "commands" = some (.list items))

include runs given listed

theorem resolve_sequence : resolve definitions label entry =
    (splice definitions label 0 items).map fun commands =>
      entry.insert "args" (.object (Fields.insert "commands" (.list commands) args)) := by
  unfold resolve
  rw [if_pos ((Command.runs_iff entry "runCommands").mpr runs)]
  simp only [Fields.read, given, listed, Option.getD_some]
  cases splice definitions label 0 items <;> rfl

/-- A sequence is settled exactly if all of its references are. It then holds, in order, each item
itself or the commands of its definition, no reference is left, and all other fields of the entry
and of its arguments stay. Otherwise the defect names the first item that is not settled. -/
theorem references_settled :
    ((∃ resolved, resolve definitions label entry = .ok resolved) ↔
      ∀ item ∈ items, Settled definitions item) ∧
    (∀ resolved, resolve definitions label entry = .ok resolved →
      (resolved.names = entry.names ∧
        ∀ name, name ≠ "args" → resolved.get? name = entry.get? name) ∧
      ∃ newArgs : Fields, resolved.get? "args" = some (.object newArgs) ∧
        (newArgs.names = args.names ∧
          ∀ name, name ≠ "commands" → newArgs.get? name = args.get? name) ∧
        newArgs.get? "commands" = some (.list (items.flatMap (standsFor definitions))) ∧
        ∀ fields, .object fields ∈ items.flatMap (standsFor definitions) →
          Fields.get? "defined" fields = none) ∧
    ∀ defect, resolve definitions label entry = .error defect → ∃ before item after,
      items = before ++ item :: after ∧ (∀ earlier ∈ before, Settled definitions earlier) ∧
        let here := Schema.itemLabel (label ++ ".args.commands") before.length
        ¬ Settled definitions item ∧ Refused definitions here item defect ∧
          ∃ text, defect.message = here ++ text := by
  rw [resolve_sequence definitions label entry args items runs given listed]
  rcases all_or_first (Settled definitions) items with
    all | ⟨before, item, after, rfl, earlier, unsettled⟩
  · rw [splice_of_settled definitions label items all]
    refine ⟨iff_of_true ⟨_, rfl⟩ all, ?_, ?_⟩
    · intro resolved ended
      cases ended
      have hasArgs : entry.has "args" = true := by simp [Fields.has, given]
      have hasCommands : args.has "commands" = true := by simp [Fields.has, listed]
      refine ⟨⟨Fields.names_insert_of_has _ _ _ hasArgs, ?_⟩,
        Fields.insert "commands" (.list (items.flatMap (standsFor definitions))) args, ?_,
        ⟨Fields.names_insert_of_has _ _ _ hasCommands, ?_⟩, ?_, ?_⟩
      · intro name other
        rw [Fields.get?_insert, if_neg other]
      · rw [Fields.get?_insert, if_pos rfl]
      · intro name other
        rw [Fields.get?_insert, if_neg other]
      · rw [Fields.get?_insert, if_pos rfl]
      · intro fields member
        obtain ⟨item, held, stands⟩ := List.mem_flatMap.mp member
        have resolved := reference?_of_standsFor definitions item _ (all item held) stands
        exact (reference?_eq_none_iff _).mp resolved fields rfl
    · intro defect failed
      cases failed
  · obtain ⟨defect, failed, refused⟩ :=
      splice_of_first definitions label before after item earlier unsettled
    rw [failed]
    refine ⟨iff_of_false ?_ ?_, ?_, ?_⟩
    · rintro ⟨resolved, ended⟩
      cases ended
    · exact fun all => unsettled (all item (by simp))
    · intro resolved ended
      cases ended
    · intro other same
      cases same
      exact ⟨before, item, after, rfl, earlier, unsettled, refused, refused.message⟩

end Resolve

/-- A sequence that refers to one definition twice and to another, which is no list, once. -/
def leaping : List Value :=
  [.object [("defined", .text "leap")], .text "rest", .object [("defined", .text "land")],
   .object [("defined", .text "leap")]]

theorem leaping_settled :
    let definitions := [("leap", .list [.text "up", .object [("command", .text "over")]]),
      ("land", .text "down")]
    let entry := [("command", .text "runCommands"), ("key", .text "l"),
      ("args", .object [("commands", .list leaping), ("note", .null)])]
    ∃ resolved newArgs : Fields, resolve definitions "bind[0]" entry = .ok resolved ∧
      resolved.get? "key" = some (.text "l") ∧ resolved.get? "args" = some (.object newArgs) ∧
      newArgs.get? "note" = some .null ∧ newArgs.get? "commands" = some (.list
        [.text "up", .object [("command", .text "over")], .text "rest", .text "down",
         .text "up", .object [("command", .text "over")]]) := by
  intro definitions entry
  have laws := references_settled definitions "bind[0]" entry
    [("commands", .list leaping), ("note", .null)] leaping rfl rfl rfl
  obtain ⟨resolved, ended, _⟩ := ended_of_check (resolve definitions "bind[0]" entry)
    (fun _ => true) (by decide +kernel)
  obtain ⟨⟨_, kept⟩, newArgs, holds, ⟨_, keptArgs⟩, commands, _⟩ :=
    laws.2.1 resolved ended
  exact ⟨resolved, newArgs, ended, kept "key" (by decide), holds, keptArgs "note" (by decide),
    commands⟩

end Definition

end Keymap

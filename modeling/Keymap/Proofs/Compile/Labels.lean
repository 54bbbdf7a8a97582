import Keymap.Compile.Document
import Keymap.Proofs.Schema.Labels

/-!
An entry of a document declares the same bindings wherever it stands, but for the place that each
of them records (`readEntry_unplaced`).
-/

set_option autoImplicit false

namespace Keymap

variable (here there : String)

theorem DefaultTable.apply_label (table : DefaultTable) (entry : Fields) :
    (table.apply here entry).2 = (table.apply there entry).2 := by
  unfold apply
  dsimp only
  cases table.lookup ((entry.get? "defaults").getD (.text "")).display with
  | none =>
    dsimp only
    split <;> rfl
  | some found => rfl

namespace Definition

theorem checkCommand_agrees (name : String) (command : Value) :
    Agree (checkCommand here name command) (checkCommand there name command) := by
  unfold checkCommand
  split
  · rfl
  · split <;> rfl

theorem checkCommands_agree (name : String) (entries : List Value) :
    Agree (entries.forM (checkCommand here name)) (entries.forM (checkCommand there name)) := by
  induction entries with
  | nil => rfl
  | cons entry rest ih =>
    apply agree_bind (checkCommand_agrees here there name entry)
    intro _
    exact ih

theorem commands_agrees (name : String) (definition : Value) :
    Agree (commands here name definition) (commands there name definition) :=
  agree_then (checkCommands_agree here there name _) _

theorem splice_agrees (definitions : Fields) (index : Nat) (items : List Value) :
    Agree (splice definitions here index items) (splice definitions there index items) := by
  induction items generalizing index with
  | nil => rfl
  | cons item rest ih =>
    rw [splice, splice]
    split
    · exact agree_then (ih (index + 1)) _
    · split
      · apply agree_bind (commands_agrees _ _ _ _)
        intro own
        exact agree_then (ih (index + 1)) _
      · rfl

theorem resolve_agrees (definitions entry : Fields) :
    Agree (resolve definitions here entry) (resolve definitions there entry) := by
  unfold resolve
  split
  · split
    · split
      · exact agree_then (splice_agrees here there definitions 0 _) _
      · rfl
    · rfl
  · rfl

end Definition

namespace Foreach

theorem expandValue_agrees (value : Value) :
    Agree (expandValue here value) (expandValue there value) := by
  cases value with
  | text content =>
    unfold expandValue
    dsimp only
    cases Key.expand content <;> rfl
  | _ => rfl

theorem expandValues_agrees (values : List Value) :
    Agree (expandValues here values) (expandValues there values) := by
  induction values with
  | nil => rfl
  | cons value rest ih =>
    apply agree_bind (expandValue_agrees here there value)
    intro first
    exact agree_then ih _

theorem readEachVariable_agrees (fields : List (String × Value)) :
    Agree (readEachVariable here fields) (readEachVariable there fields) := by
  induction fields with
  | nil => rfl
  | cons field rest ih =>
    obtain ⟨name, value⟩ := field
    cases value with
    | list items =>
      apply agree_bind (expandValues_agrees _ _ items)
      intro values
      exact agree_then ih _
    | _ => rfl

theorem readVariables_agrees (value : Value) :
    Agree (readVariables here value) (readVariables there value) := by
  cases value with
  | object fields => exact readEachVariable_agrees here there fields
  | _ => rfl

theorem expand_agrees (definitions entry : Fields) :
    Agree (expand definitions here entry).result (expand definitions there entry).result := by
  unfold expand
  split
  · rfl
  · apply agree_andThen (readVariables_agrees here there _)
    intro names
    exact agree_refl _

end Foreach

namespace Compile

variable (options : Options)

theorem settleFault_agree {Result : Type} (otherwise : Result) {left right : Except Fault Result}
    (agree : Agree left right) (first second : Result)
    (leftEnded : (settleFault otherwise left).result = .ok first)
    (rightEnded : (settleFault otherwise right).result = .ok second) : first = second := by
  have failed : ∀ (fault : Fault) (result : Result),
      (settleFault otherwise (.error fault)).result = .ok result → result = otherwise := by
    intro fault result ended
    cases fault with
    | defect defect => exact (Except.ok.inj ended).symm
    | _ => cases ended
  cases left with
  | ok result =>
    have other := agree_ok agree result rfl
    subst other
    exact (Except.ok.inj leftEnded).symm.trans (Except.ok.inj rightEnded)
  | error fault =>
    cases right with
    | ok result => cases agree
    | error other =>
      exact (failed fault first leftEnded).trans (failed other second rightEnded).symm

theorem expandEntry_agree (defaults : DefaultTable) (definitions entry : Fields)
    (first second : List Fields)
    (leftEnded : (expandEntry options defaults definitions here entry).result = .ok first)
    (rightEnded : (expandEntry options defaults definitions there entry).result = .ok second) :
    first = second := by
  have same := DefaultTable.apply_label here there defaults entry
  have agree := Definition.resolve_agrees here there definitions (defaults.apply here entry).2
  unfold expandEntry at leftEnded rightEnded
  dsimp only at leftEnded rightEnded
  rw [← same] at rightEnded
  cases resolving : Definition.resolve definitions here (defaults.apply here entry).2 with
  | error defect =>
    cases other : Definition.resolve definitions there (defaults.apply here entry).2 with
    | error second =>
      rw [resolving] at leftEnded
      rw [other] at rightEnded
      exact (Except.ok.inj leftEnded).symm.trans (Except.ok.inj rightEnded)
    | ok resolved =>
      rw [resolving, other] at agree
      cases agree
  | ok resolved =>
    rw [agree_ok agree resolved resolving] at rightEnded
    rw [resolving] at leftEnded
    exact settleFault_agree [] (Foreach.expand_agrees here there definitions resolved) first second
      leftEnded rightEnded

theorem readExpanded_unplaced (kinds : List Kind) (left right : Int) (entries : List Fields) :
    (readExpanded options kinds here left entries).2.map Binding.unplaced =
      (readExpanded options kinds there right entries).2.map Binding.unplaced := by
  induction entries with
  | nil => rfl
  | cons entry rest ih =>
    have first := Schema.readBinding_unplaced here there options kinds left right (.object entry)
    unfold readExpanded
    dsimp only
    cases reading : (Schema.readBinding options kinds here left (.object entry)).result with
    | error defect =>
      cases other : (Schema.readBinding options kinds there right (.object entry)).result with
      | error second => exact ih
      | ok binding =>
        rw [reading, other] at first
        cases first
    | ok binding =>
      cases other : (Schema.readBinding options kinds there right (.object entry)).result with
      | error second =>
        rw [reading, other] at first
        cases first
      | ok second =>
        rw [reading, other] at first
        dsimp only
        rw [List.map_cons, List.map_cons, ih, Option.some.inj first]

/-- Wherever an entry is read without ending the run, it declares the same bindings. -/
theorem readEntry_unplaced (spec : Specification) (defaults : DefaultTable) (left right : Nat)
    (value : Value) (first second : List Binding)
    (leftEnded : (readEntry options spec defaults left value).result = .ok first)
    (rightEnded : (readEntry options spec defaults right value).result = .ok second) :
    first.map Binding.unplaced = second.map Binding.unplaced := by
  unfold readEntry at leftEnded rightEnded
  dsimp only at leftEnded rightEnded
  cases shape : asEntry value with
  | none =>
    rw [shape] at leftEnded rightEnded
    cases leftEnded
    cases rightEnded
    rfl
  | some entry =>
    rw [shape] at leftEnded rightEnded
    obtain ⟨expanded, expanding, leftEnded⟩ := Noted.andThen_ok _ _ _ leftEnded
    obtain ⟨others, expandingToo, rightEnded⟩ := Noted.andThen_ok _ _ _ rightEnded
    obtain rfl := expandEntry_agree _ _ options defaults spec.definitions entry expanded others
      expanding expandingToo
    obtain ⟨_, _, leftEnded⟩ := Noted.andThen_ok _ _ _ leftEnded
    obtain ⟨_, _, rightEnded⟩ := Noted.andThen_ok _ _ _ rightEnded
    cases leftEnded
    cases rightEnded
    exact readExpanded_unplaced _ _ options spec.kinds left right expanded

end Compile

end Keymap

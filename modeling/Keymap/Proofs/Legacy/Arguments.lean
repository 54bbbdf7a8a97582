import Keymap.Legacy.Arguments
import Keymap.Proofs.Noted

/-!
When the arguments of a legacy command cannot be upgraded: a sequence of commands, maybe inside of
other ones, holds something that is not read as a list (`upgradeArgs_fails_iff`).
-/

set_option autoImplicit false

namespace Keymap.Legacy

/-- What is read as a list of commands. -/
def isIterable : Value → Bool
  | .list _ => true
  | .text _ => true
  | .object _ => true
  | value => value.isVacuous

/-- A sequence of commands is no list, here or in the arguments of one of the commands. -/
inductive Stuck : Value → Value → Prop
  | here (command : Value) (fields : Fields) (runs : shortName command = "runCommands")
      (value : Value) (given : ("commands", value) ∈ fields) (bad : isIterable value = false) :
      Stuck command (.object fields)
  | inside (command : Value) (fields : Fields) (runs : shortName command = "runCommands")
      (items : List Value) (given : ("commands", .list items) ∈ fields) (inner : Fields)
      (listed : .object inner ∈ items) (name : String)
      (argument : name = "args" ∨ name = "computedArgs") (value : Value)
      (held : (name, value) ∈ inner) (stuck : Stuck (inner.read "command") value) :
      Stuck command (.object fields)

theorem upgradeSequence_fails_iff (fields : Fields) :
    Fails (upgradeSequence fields) ↔
      ∃ value, ("commands", value) ∈ fields ∧ Fails (upgradeCommands value) := by
  induction fields with
  | nil => exact iff_of_false (not_failsWith_ok _ _) (by simp)
  | cons field rest ih =>
    obtain ⟨name, value⟩ := field
    rw [upgradeSequence, bind_fails_iff _ _ (name = "commands" ∧ Fails (upgradeCommands value)), ih]
    · constructor
      · rintro (⟨found, given, failed⟩ | ⟨rfl, failed⟩)
        · exact ⟨found, .tail _ given, failed⟩
        · exact ⟨value, .head _, failed⟩
      · rintro ⟨found, given, failed⟩
        rcases List.mem_cons.mp given with same | later
        · cases same
          exact .inr ⟨rfl, failed⟩
        · exact .inl ⟨found, later, failed⟩
    · intro after
      by_cases commands : name = "commands"
      · rw [if_pos commands]
        exact (mapped_fails_iff _ _).trans (by simp [commands])
      · rw [if_neg commands]
        exact iff_of_false (not_failsWith_ok _ _) (by simp [commands])

theorem upgradeItems_fails_iff (items : List Value) :
    Fails (upgradeItems items) ↔ ∃ fields, .object fields ∈ items ∧
      Fails (upgradeCommand (Fields.read "command" fields) fields) := by
  induction items with
  | nil => exact iff_of_false (not_failsWith_ok _ _) (by simp)
  | cons item rest ih =>
    cases item with
    | object fields =>
      rw [upgradeItems,
        bind_fails_iff _ _ (Fails (upgradeItems rest)) fun _ => mapped_fails_iff _ _, ih]
      constructor
      · rintro (failed | ⟨found, given, failed⟩)
        · exact ⟨fields, .head _, failed⟩
        · exact ⟨found, .tail _ given, failed⟩
      · rintro ⟨found, given, failed⟩
        rcases List.mem_cons.mp given with same | later
        · cases same
          exact .inl failed
        · exact .inr ⟨found, later, failed⟩
    | _ =>
      refine (mapped_fails_iff _ _).trans ?_
      simp [ih]

theorem upgradeCommand_fails_iff (command : Value) (fields : Fields) :
    Fails (upgradeCommand command fields) ↔
      ∃ name value, (name, value) ∈ fields ∧ (name = "args" ∨ name = "computedArgs") ∧
        Fails (upgradeArgs command value) := by
  induction fields with
  | nil => exact iff_of_false (not_failsWith_ok _ _) (by simp)
  | cons field rest ih =>
    obtain ⟨name, value⟩ := field
    have here : Fails (upgradeCommand command ((name, value) :: rest)) ↔
        ((name = "args" ∨ name = "computedArgs") ∧ Fails (upgradeArgs command value)) ∨
          Fails (upgradeCommand command rest) := by
      rw [upgradeCommand]
      by_cases argument : name = "args" ∨ name = "computedArgs"
      · have asked : (name = "args" || name = "computedArgs") = true := by simpa using argument
        simp only [asked, if_true]
        rw [bind_fails_iff _ _ (Fails (upgradeCommand command rest)) fun _ => mapped_fails_iff _ _]
        simp [argument]
      · have other : (name = "args" || name = "computedArgs") = false := by simpa using argument
        simp only [other, Bool.false_eq_true, if_false]
        exact (mapped_fails_iff (upgradeCommand command rest) _).trans (by simp [argument])
    rw [here, ih]
    constructor
    · rintro (⟨argument, failed⟩ | ⟨found, other, given, argument, failed⟩)
      · exact ⟨name, value, .head _, argument, failed⟩
      · exact ⟨found, other, .tail _ given, argument, failed⟩
    · rintro ⟨found, other, given, argument, failed⟩
      rcases List.mem_cons.mp given with same | later
      · cases same
        exact .inl ⟨argument, failed⟩
      · exact .inr ⟨found, other, later, argument, failed⟩

theorem upgradeCommands_fails_iff (value : Value) :
    Fails (upgradeCommands value) ↔
      isIterable value = false ∨ ∃ items, value = .list items ∧ Fails (upgradeItems items) := by
  cases value with
  | list items => simp [upgradeCommands, isIterable]
  | text content => exact iff_of_false (not_failsWith_ok _ _) (by simp [isIterable])
  | object fields => exact iff_of_false (not_failsWith_ok _ _) (by simp [isIterable])
  | _ =>
    unfold upgradeCommands
    split
    · next vacuous => exact iff_of_false (not_failsWith_ok _ _) (by simp [isIterable, vacuous])
    · next solid => exact iff_of_true ⟨_, rfl, trivial⟩ (.inl (by simpa [isIterable] using solid))

theorem upgradeArgs_fails_of (command value : Value) :
    Fails (upgradeArgs command value) ↔ ∃ fields, value = .object fields ∧
      shortName command = "runCommands" ∧ Fails (upgradeSequence fields) := by
  cases value with
  | object fields =>
    rw [upgradeArgs]
    dsimp only
    by_cases runs : shortName command = "runCommands"
    · rw [if_pos runs]
      exact (mapped_fails_iff _ _).trans (by simp [runs])
    · rw [if_neg runs]
      refine iff_of_false ?_ (by simp [runs])
      rintro ⟨_, failed, _⟩
      split at failed
      · cases failed
      · split at failed <;> cases failed
  | _ => exact iff_of_false (not_failsWith_ok _ _) (by simp)

theorem smaller_of_inside (fields inner : Fields) (items : List Value) (name : String)
    (value : Value) (given : ("commands", .list items) ∈ fields) (listed : .object inner ∈ items)
    (held : (name, value) ∈ inner) : sizeOf value < sizeOf (Value.object fields) := by
  have first := List.sizeOf_lt_of_mem given
  have second := List.sizeOf_lt_of_mem listed
  have third := List.sizeOf_lt_of_mem held
  simp only [Prod.mk.sizeOf_spec, Value.list.sizeOf_spec, Value.object.sizeOf_spec] at *
  omega

theorem stuck_of_fails (command value : Value) (failed : Fails (upgradeArgs command value)) :
    Stuck command value := by
  obtain ⟨fields, rfl, runs, failed⟩ := (upgradeArgs_fails_of command value).mp failed
  obtain ⟨sequence, given, failed⟩ := (upgradeSequence_fails_iff fields).mp failed
  rcases (upgradeCommands_fails_iff sequence).mp failed with bad | ⟨items, rfl, failed⟩
  · exact .here command fields runs sequence given bad
  obtain ⟨inner, listed, failed⟩ := (upgradeItems_fails_iff items).mp failed
  obtain ⟨name, value, held, argument, failed⟩ := (upgradeCommand_fails_iff _ inner).mp failed
  exact .inside command fields runs items given inner listed name argument value held
    (stuck_of_fails (Fields.read "command" inner) value failed)
termination_by sizeOf value
decreasing_by
  subst_vars
  exact smaller_of_inside fields inner items name value given listed held

theorem upgradeArgs_fails_iff (command value : Value) :
    Fails (upgradeArgs command value) ↔ Stuck command value := by
  refine ⟨stuck_of_fails command value, fun stuck => ?_⟩
  induction stuck with
  | here command fields runs value given bad =>
    exact (upgradeArgs_fails_of command _).mpr ⟨fields, rfl, runs,
      (upgradeSequence_fails_iff fields).mpr
        ⟨value, given, (upgradeCommands_fails_iff value).mpr (.inl bad)⟩⟩
  | inside command fields runs items given inner listed name argument value held _ failed =>
    have nested := (upgradeCommand_fails_iff _ inner).mpr ⟨name, value, held, argument, failed⟩
    exact (upgradeArgs_fails_of command _).mpr ⟨fields, rfl, runs,
      (upgradeSequence_fails_iff fields).mpr ⟨.list items, given,
        (upgradeCommands_fails_iff _).mpr
          (.inr ⟨items, rfl, (upgradeItems_fails_iff items).mpr ⟨inner, listed, nested⟩⟩)⟩⟩

end Keymap.Legacy

import Keymap.Proofs.Noted
import Keymap.Schema.Binding

/-!
Labels name the place of an entry in problems and nothing else: under any two labels an entry is
read alike, or refused alike.
-/

set_option autoImplicit false

namespace Keymap

section Agreement

variable {Failure Result Next : Type}

/-- Both come to the same result, or both fail, whatever they say of it. -/
def Agree (left right : Except Failure Result) : Prop := left.toOption = right.toOption

theorem agree_refl (attempt : Except Failure Result) : Agree attempt attempt := rfl

theorem agree_bind {left right : Except Failure Result}
    {onLeft onRight : Result → Except Failure Next}
    (first : Agree left right) (next : ∀ value, Agree (onLeft value) (onRight value)) :
    Agree (left >>= onLeft) (right >>= onRight) := by
  cases left with
  | error failure =>
    cases right with
    | error other => rfl
    | ok value => cases first
  | ok value =>
    cases right with
    | error failure => cases first
    | ok other =>
      obtain rfl : value = other := Option.some.inj first
      exact next value

/-- The same step after two computations that agree. -/
theorem agree_then {left right : Except Failure Result} (first : Agree left right)
    (next : Result → Except Failure Next) : Agree (left >>= next) (right >>= next) :=
  agree_bind first fun value => agree_refl (next value)

theorem agree_andThen {Note : Type} {left right : Noted Note Failure Result}
    {onLeft onRight : Result → Noted Note Failure Next} (first : Agree left.result right.result)
    (next : ∀ value, Agree (onLeft value).result (onRight value).result) :
    Agree (left.andThen onLeft).result (right.andThen onRight).result := by
  have whole := agree_bind first next
  rw [← Noted.result_andThen, ← Noted.result_andThen] at whole
  exact whole

theorem agree_ok {left right : Except Failure Result} (agree : Agree left right) (value : Result)
    (ended : left = .ok value) : right = .ok value := by
  subst ended
  cases right with
  | error failure => cases agree
  | ok other => rw [← Option.some.inj agree]

/-- Where the last steps agree only in part, so do the whole computations. -/
theorem view_andThen {Note View : Type} {view : Next → View}
    {left right : Noted Note Failure Result} {onLeft onRight : Result → Noted Note Failure Next}
    (first : Agree left.result right.result)
    (next : ∀ value, (onLeft value).result.toOption.map view =
      (onRight value).result.toOption.map view) :
    (left.andThen onLeft).result.toOption.map view =
      (right.andThen onRight).result.toOption.map view := by
  rw [Noted.result_andThen, Noted.result_andThen]
  cases passed : left.result with
  | error failure =>
    cases other : right.result with
    | error second => rfl
    | ok value =>
      rw [passed, other] at first
      cases first
  | ok value =>
    rw [passed] at first
    rw [agree_ok first value rfl]
    exact next value

end Agreement

/-- Without the place of its entry. -/
def Binding.unplaced (binding : Binding) : Binding := { binding with index := 0 }

namespace Schema

variable (here there : String)

theorem mapping_agrees (value : Value) : Agree (mapping here value) (mapping there value) := by
  cases value <;> rfl

theorem nonEmptyText_agrees (value : Value) :
    Agree (nonEmptyText here value) (nonEmptyText there value) := by
  cases value with
  | text content =>
    unfold nonEmptyText
    dsimp only
    split <;> rfl
  | _ => rfl

theorem optionalText_agrees (value : Value) :
    Agree (optionalText here value) (optionalText there value) := by
  cases value <;> rfl

theorem optionalFlag_agrees (value : Value) :
    Agree (optionalFlag here value) (optionalFlag there value) := by
  cases value <;> rfl

theorem optionalNumber_agrees (value : Value) :
    Agree (optionalNumber here value) (optionalNumber there value) := by
  cases value <;> rfl

theorem rejectUnknown_agrees (allowed : List String) (fields : Fields) :
    Agree (rejectUnknown here allowed fields) (rejectUnknown there allowed fields) := by
  unfold rejectUnknown
  dsimp only
  split <;> rfl

theorem eachText_agrees (index : Nat) (values : List Value) :
    Agree (eachText here index values) (eachText there index values) := by
  induction values generalizing index with
  | nil => rfl
  | cons value rest ih =>
    cases value with
    | text content => exact agree_then (ih (index + 1)) _
    | _ => rfl

theorem textList_agrees (value : Value) :
    Agree (textList here value) (textList there value) := by
  cases value with
  | list items => exact eachText_agrees here there 0 items
  | _ => rfl

theorem readKey_agrees (value : Value) :
    Agree (readKey here value) (readKey there value) := by
  apply agree_bind (nonEmptyText_agrees here there value)
  intro key
  split <;> rfl

theorem readArguments_agrees (field : String) (entry : Fields) :
    Agree (readArguments here field entry) (readArguments there field entry) := by
  unfold readArguments
  split
  · rfl
  · exact agree_then (mapping_agrees _ _ _) _

theorem readCommandEntry_agrees (entry : Fields) :
    Agree (readCommandEntry here entry) (readCommandEntry there entry) := by
  unfold readCommandEntry
  split
  · rfl
  · apply agree_bind (rejectUnknown_agrees here there _ _)
    intro _
    apply agree_bind (nonEmptyText_agrees _ _ _)
    intro name
    apply agree_bind (readArguments_agrees here there _ _)
    intro args
    apply agree_bind (readArguments_agrees here there _ _)
    intro computed
    exact agree_then (optionalText_agrees _ _ _) _

theorem readCommand_agrees (value : Value) :
    Agree (readCommand here value) (readCommand there value) := by
  have onMapping : ∀ value, Agree (mapping here value >>= readCommandEntry here)
      (mapping there value >>= readCommandEntry there) := by
    intro value
    exact agree_bind (mapping_agrees here there value) (readCommandEntry_agrees here there)
  cases value with
  | text content => exact agree_then (nonEmptyText_agrees _ _ _) _
  | _ => exact onMapping _

theorem readEachCommand_agrees (index : Nat) (values : List Value) :
    Agree (readEachCommand here index values) (readEachCommand there index values) := by
  induction values generalizing index with
  | nil => rfl
  | cons value rest ih =>
    apply agree_bind (readCommand_agrees _ _ value)
    intro command
    exact agree_then (ih (index + 1)) _

theorem readCommands_agrees (value : Value) :
    Agree (readCommands here value) (readCommands there value) := by
  cases value with
  | list items => exact readEachCommand_agrees here there 0 items
  | text content => exact agree_then (readCommand_agrees here there _) _
  | object entry => exact agree_then (readCommand_agrees here there _) _
  | _ => rfl

theorem readEntryCommands_agrees (entry : Fields) :
    Agree (readEntryCommands here entry) (readEntryCommands there entry) := by
  apply agree_bind (nonEmptyText_agrees _ _ _)
  intro name
  split
  · apply agree_bind (mapping_agrees _ _ _)
    intro args
    split
    · exact readCommands_agrees _ _ _
    · rfl
  · exact agree_then (readCommandEntry_agrees here there _) _

theorem readRepeat_agrees (value : Value) :
    Agree (readRepeat here value) (readRepeat there value) := by
  have onNumber : ∀ value, Agree (readRepeat here (.number value))
      (readRepeat there (.number value)) := by
    intro value
    apply agree_bind (optionalNumber_agrees _ _ (.number value))
    intro amount
    cases amount with
    | none => rfl
    | some amount =>
      dsimp only
      split <;> rfl
  cases value with
  | number amount => exact onNumber amount
  | _ => rfl

theorem readAction_agrees (options : Options) (entry : Fields) :
    Agree (readAction options here entry) (readAction options there entry) := by
  apply agree_bind (rejectUnknown_agrees here there _ _)
  intro _
  split
  · rfl
  apply agree_bind (readKey_agrees _ _ _)
  intro key
  apply agree_bind (readEntryCommands_agrees here there entry)
  intro commands
  dsimp only
  split
  · rfl
  apply agree_bind (readRepeat_agrees here there _)
  intro repeatCount
  exact agree_then (optionalFlag_agrees _ _ _) _

theorem readDocTexts_agrees (entry : Fields) (names : List String) :
    Agree (readDocTexts here entry names) (readDocTexts there entry names) := by
  induction names with
  | nil => rfl
  | cons name rest ih =>
    apply agree_bind (optionalText_agrees _ _ _)
    intro text
    exact agree_then ih _

theorem readDocFlags_agrees (entry : Fields) (names : List String) :
    Agree (readDocFlags here entry names) (readDocFlags there entry names) := by
  induction names with
  | nil => rfl
  | cons name rest ih =>
    apply agree_bind (optionalFlag_agrees _ _ _)
    intro flag
    exact agree_then ih _

theorem readDocs_agrees (entry : Fields) :
    Agree (readDocs here entry) (readDocs there entry) := by
  apply agree_bind (readDocTexts_agrees here there entry docTexts)
  intro texts
  exact agree_then (readDocFlags_agrees here there entry docFlags) _

theorem readModes_agrees (value : Value) :
    Agree (readModes here value) (readModes there value) := by
  unfold readModes
  split
  · rfl
  · apply agree_bind (textList_agrees here there _)
    intro modes
    dsimp only
    split <;> rfl

theorem readEachLead_agrees (index : Nat) (leads : List String) :
    Agree (readEachLead here index leads) (readEachLead there index leads) := by
  induction leads generalizing index with
  | nil => rfl
  | cons lead rest ih =>
    have first : Agree
        (if (Text.trimmed lead).isEmpty then pure ""
          else readKey (itemLabel here index) (.text lead))
        (if (Text.trimmed lead).isEmpty then pure ""
          else readKey (itemLabel there index) (.text lead)) := by
      split
      · rfl
      · exact readKey_agrees _ _ _
    have whole := agree_bind first fun key => agree_then (ih (index + 1)) fun others =>
      (pure (key :: others) : Except Defect (List String))
    rw [readEachLead, readEachLead]
    split
    · next blank =>
      rw [if_pos blank, if_pos blank] at whole
      exact whole
    · next shown =>
      rw [if_neg shown, if_neg shown] at whole
      exact whole

theorem readPrefixes_agrees (value : Value) :
    Agree (readPrefixes here value) (readPrefixes there value) := by
  unfold readPrefixes
  split
  · rfl
  · split
    · rfl
    · exact readEachLead_agrees _ _ _ _
  · apply agree_bind (textList_agrees here there _)
    intro leads
    exact readEachLead_agrees _ _ _ _

theorem readPriority_agrees (value : Value) :
    Agree (readPriority here value) (readPriority there value) :=
  agree_then (optionalNumber_agrees here there value) _

theorem readReach_agrees (entry : Fields) :
    Agree (readReach here entry) (readReach there entry) := by
  apply agree_bind (agree_then (textList_agrees _ _ _) _)
  intro guards
  apply agree_bind (readModes_agrees _ _ _)
  intro modes
  apply agree_bind (readPrefixes_agrees _ _ _)
  intro leads
  exact agree_then (readPriority_agrees _ _ _) _

/-- Wherever an entry stands, it declares the same binding but for its place. -/
theorem readBinding_unplaced (options : Options) (kinds : List Kind) (left right : Int)
    (value : Value) :
    (readBinding options kinds here left value).result.toOption.map Binding.unplaced =
      (readBinding options kinds there right value).result.toOption.map Binding.unplaced := by
  apply view_andThen (mapping_agrees here there value)
  intro entry
  apply view_andThen (readAction_agrees here there options entry)
  intro action
  apply view_andThen (agree_refl (.ok ()))
  intro _
  apply view_andThen (readDocs_agrees here there entry)
  intro docs
  apply view_andThen (agree_refl (.ok ()))
  intro _
  apply view_andThen (readReach_agrees here there entry)
  intro reach
  rfl

end Schema

end Keymap

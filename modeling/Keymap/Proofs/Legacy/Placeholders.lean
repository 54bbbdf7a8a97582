import Keymap.Proofs.Expr.Filling
import Keymap.Proofs.Legacy.Braces
import Keymap.Proofs.Legacy.Names

/-!
Which placeholders of a legacy binding stay in single braces: those outside of its variables and
arguments, and those that the arguments of a sequence of commands hold beside the arguments of each
command (`placeholders_left_iff`).
-/

set_option autoImplicit false

namespace Keymap

namespace Legacy

open Braces (HoldsSingle)

/-- One of some texts holds a name in single braces. -/
def HoldsAmong (name : String) (texts : List String) : Prop :=
  ∃ text ∈ texts, HoldsSingle name.toList text.toList

section Arguments

variable (name : String)

@[simp] theorem holdsAmong_nil : ¬ HoldsAmong name [] := by
  rintro ⟨_, among, _⟩
  cases among

@[simp] theorem holdsAmong_append (left right : List String) :
    HoldsAmong name (left ++ right) ↔ HoldsAmong name left ∨ HoldsAmong name right := by
  simp [HoldsAmong, or_and_right, exists_or]

theorem not_holdsAmong_plain (texts : List String) (plain : ∀ text ∈ texts, '{' ∉ text.toList) :
    ¬ HoldsAmong name texts := by
  rintro ⟨text, among, _, before, after, same, _⟩
  exact plain text among (by simp [same])

theorem not_holdsAmong_doubled (texts : List String) :
    ¬ HoldsAmong name (texts.map Braces.double) := by
  rintro ⟨text, doubled, holds⟩
  obtain ⟨written, _, rfl⟩ := List.mem_map.mp doubled
  exact Braces.double_clears name.toList written holds

mutual

theorem texts_doubleIn : (value : Value) →
    (Braces.doubleIn value).texts = value.texts.map Braces.double
  | .undefined => rfl
  | .null => rfl
  | .bool _ => rfl
  | .number _ => rfl
  | .text _ => rfl
  | .list items => by rw [Braces.doubleIn, Value.texts, Value.texts, texts_doubleInItems items]
  | .object fields => by rw [Braces.doubleIn, Value.texts, Value.texts, texts_doubleInFields fields]

theorem texts_doubleInItems : (items : List Value) →
    Value.textsOfItems (Braces.doubleInItems items) =
      (Value.textsOfItems items).map Braces.double
  | [] => rfl
  | item :: rest => by
      rw [Braces.doubleInItems, Value.textsOfItems, Value.textsOfItems, List.map_append,
        texts_doubleIn item, texts_doubleInItems rest]

theorem texts_doubleInFields : (fields : List (String × Value)) →
    Value.textsOfFields (Braces.doubleInFields fields) =
      (Value.textsOfFields fields).map Braces.double
  | [] => rfl
  | (_, value) :: rest => by
      rw [Braces.doubleInFields, Value.textsOfFields, Value.textsOfFields, List.map_append,
        texts_doubleIn value, texts_doubleInFields rest]

end

theorem not_holdsAmong_doubleIn (value : Value) :
    ¬ HoldsAmong name (Braces.doubleIn value).texts := by
  rw [texts_doubleIn]
  exact not_holdsAmong_doubled name value.texts

theorem textsOfFields_append (left right : Fields) :
    Value.textsOfFields (left ++ right) =
      Value.textsOfFields left ++ Value.textsOfFields right := by
  induction left with
  | nil => rfl
  | cons field rest ih =>
    obtain ⟨known, value⟩ := field
    rw [List.cons_append, Value.textsOfFields, Value.textsOfFields, ih, List.append_assoc]

mutual

/-- The texts in the arguments of a command that are kept as they are. -/
def keptTexts (command : Value) : Value → List String
  | .object fields => if shortName command = "runCommands" then keptInSequence fields else []
  | _ => []

def keptInSequence : List (String × Value) → List String
  | [] => []
  | (name, value) :: rest =>
      (if name = "commands" then keptInCommands value else value.texts) ++ keptInSequence rest

/-- The names of a mapping are read as a list of commands. -/
def keptInCommands : Value → List String
  | .list items => keptInItems items
  | .object fields => Fields.names fields
  | _ => []

def keptInItems : List Value → List String
  | [] => []
  | .object fields :: rest =>
      keptInCommand (Fields.read "command" fields) fields ++ keptInItems rest
  | item :: rest => item.texts ++ keptInItems rest

/-- Of one command of a sequence only the arguments change. -/
def keptInCommand (command : Value) : List (String × Value) → List String
  | [] => []
  | (name, value) :: rest =>
      (if name = "args" || name = "computedArgs" then keptTexts command value else value.texts) ++
        keptInCommand command rest

end

theorem not_holdsAmong_registerArgs (fields : Fields) :
    ¬ HoldsAmong name (registerArgs fields).texts := by
  have doubled := not_holdsAmong_doubled name
    [((fields.get? "description").getD (.text "")).display,
      ((fields.get? "name").getD (.text "")).display]
  simpa [registerArgs, doubledText, Value.texts, Value.textsOfFields] using doubled

theorem not_holdsAmong_condition (fields : Fields) (old new : String) :
    ¬ HoldsAmong name (Value.textsOfFields (condition fields old new)) := by
  unfold condition
  dsimp only
  split
  · exact holdsAmong_nil name
  · simpa [doubledText, Value.texts, Value.textsOfFields] using
      not_holdsAmong_doubled name [(fields.read old).display]

theorem not_holdsAmong_historyArgs (fields : Fields) :
    ¬ HoldsAmong name (historyArgs fields).texts := by
  rw [historyArgs, Value.texts, textsOfFields_append, holdsAmong_append, not_or]
  exact ⟨not_holdsAmong_condition name fields _ _, not_holdsAmong_condition name fields _ _⟩

theorem textsOfItems_map {Entry : Type} (text : Entry → String) (entries : List Entry) :
    Value.textsOfItems (entries.map fun entry => .text (text entry)) = entries.map text := by
  induction entries with
  | nil => rfl
  | cons entry rest ih =>
    rw [List.map_cons, List.map_cons, Value.textsOfItems, ih]
    rfl

/-- A placeholder has two braces. -/
theorem not_holdsAmong_letters (letters : List Char) :
    ¬ HoldsAmong name (letters.map fun c => String.ofList [c]) := by
  rintro ⟨text, among, _, before, after, same, _⟩
  obtain ⟨c, _, rfl⟩ := List.mem_map.mp among
  have long := congrArg List.length same
  simp only [String.toList_ofList, List.length_append, List.length_cons, List.length_nil] at long
  omega

mutual

theorem upgradeArgs_texts (command : Value) : (value result : Value) →
    upgradeArgs command value = .ok result →
      (HoldsAmong name result.texts ↔ HoldsAmong name (keptTexts command value))
  | .object fields, result, ended => by
      rw [upgradeArgs] at ended
      dsimp only at ended
      rw [keptTexts]
      split at ended
      · next runs =>
        obtain ⟨sequence, here, ended⟩ := bind_ok _ _ _ ended
        cases ended
        have plain : Value.textsOfFields
            (if Fields.has "commands" fields then [] else [("commands", Value.list [])]) = [] := by
          split <;> rfl
        rw [Value.texts, textsOfFields_append, plain, List.append_nil, if_pos runs]
        exact upgradeSequence_texts fields sequence here
      · next other =>
        rw [if_neg other]
        refine iff_of_false ?_ (holdsAmong_nil name)
        split at ended
        · cases ended
          exact not_holdsAmong_registerArgs name fields
        · split at ended
          · cases ended
            exact not_holdsAmong_historyArgs name fields
          · cases ended
            exact not_holdsAmong_doubleIn name _
  | .undefined, _, ended | .null, _, ended | .bool _, _, ended | .number _, _, ended
  | .text _, _, ended | .list _, _, ended => by
      cases ended
      exact iff_of_false (not_holdsAmong_doubleIn name _) (holdsAmong_nil name)
termination_by structural value => value

theorem upgradeSequence_texts : (fields : List (String × Value)) → (result : Fields) →
    upgradeSequence fields = .ok result →
      (HoldsAmong name (Value.textsOfFields result) ↔ HoldsAmong name (keptInSequence fields))
  | [], result, ended => by
      cases ended
      rfl
  | (known, value) :: rest, result, ended => by
      rw [upgradeSequence] at ended
      obtain ⟨after, later, ended⟩ := bind_ok _ _ _ ended
      have others := upgradeSequence_texts rest after later
      rw [keptInSequence, holdsAmong_append, ← others]
      split at ended
      · next commands =>
        obtain ⟨items, here, ended⟩ := bind_ok _ _ _ ended
        cases ended
        rw [Value.textsOfFields, Value.texts, holdsAmong_append, if_pos commands,
          upgradeCommands_texts value items here]
      · next other =>
        cases ended
        rw [Value.textsOfFields, holdsAmong_append, if_neg other]
termination_by structural fields => fields

theorem upgradeCommands_texts : (value : Value) → (result : List Value) →
    upgradeCommands value = .ok result →
      (HoldsAmong name (Value.textsOfItems result) ↔ HoldsAmong name (keptInCommands value))
  | .list items, result, ended => upgradeItems_texts items result ended
  | .text content, _, ended => by
      cases ended
      rw [textsOfItems_map]
      exact iff_of_false (not_holdsAmong_letters name content.toList) (holdsAmong_nil name)
  | .object fields, _, ended => by
      cases ended
      rw [textsOfItems_map]
      rfl
  | .undefined, _, ended | .null, _, ended | .bool _, _, ended | .number _, _, ended => by
      unfold upgradeCommands at ended
      split at ended <;> cases ended
      rfl
termination_by structural value => value

theorem upgradeItems_texts : (items result : List Value) → upgradeItems items = .ok result →
    (HoldsAmong name (Value.textsOfItems result) ↔ HoldsAmong name (keptInItems items))
  | [], result, ended => by
      cases ended
      rfl
  | .object fields :: rest, result, ended => by
      rw [upgradeItems] at ended
      obtain ⟨command, here, ended⟩ := bind_ok _ _ _ ended
      obtain ⟨others, later, ended⟩ := bind_ok _ _ _ ended
      cases ended
      rw [keptInItems, Value.textsOfItems, Value.texts, holdsAmong_append, holdsAmong_append,
        upgradeCommand_texts _ fields command here, upgradeItems_texts rest others later]
  | .undefined :: rest, _, ended | .null :: rest, _, ended | .bool _ :: rest, _, ended
  | .number _ :: rest, _, ended | .text _ :: rest, _, ended | .list _ :: rest, _, ended => by
      obtain ⟨others, later, ended⟩ := bind_ok _ _ _ ended
      cases ended
      rw [keptInItems, Value.textsOfItems, holdsAmong_append, holdsAmong_append,
        upgradeItems_texts rest others later]
      rintro _ ⟨⟩
termination_by structural items => items

theorem upgradeCommand_texts (command : Value) : (fields : List (String × Value)) →
    (result : Fields) → upgradeCommand command fields = .ok result →
      (HoldsAmong name (Value.textsOfFields result) ↔
        HoldsAmong name (keptInCommand command fields))
  | [], result, ended => by
      cases ended
      rfl
  | (known, value) :: rest, result, ended => by
      rw [upgradeCommand] at ended
      rw [keptInCommand, holdsAmong_append]
      have here : ∃ upgraded : Value,
          (HoldsAmong name upgraded.texts ↔ HoldsAmong name
            (if known = "args" || known = "computedArgs" then keptTexts command value
              else value.texts)) ∧
          (upgradeCommand command rest >>= fun after =>
            pure (if upgraded.isNull then after else (known, upgraded) :: after)) = .ok result := by
        split at ended
        · next argument =>
          obtain ⟨upgraded, inside, ended⟩ := bind_ok _ _ _ ended
          rw [if_pos argument]
          exact ⟨upgraded, upgradeArgs_texts command value upgraded inside, ended⟩
        · next other =>
          rw [if_neg other]
          exact ⟨value, .rfl, ended⟩
      obtain ⟨upgraded, same, ended⟩ := here
      obtain ⟨after, later, ended⟩ := bind_ok _ _ _ ended
      cases ended
      rw [← same, ← upgradeCommand_texts command rest after later]
      cases upgraded with
      | null => simp [Value.isNull, Value.texts]
      | _ => simp [Value.isNull, Value.textsOfFields]
termination_by structural fields => fields

end

end Arguments

section Entries

variable (name : String)

theorem holdsAmong_fields_iff (fields : Fields) : HoldsAmong name (Value.textsOfFields fields) ↔
    ∃ field ∈ fields, HoldsAmong name field.2.texts := by
  induction fields with
  | nil => simp [Value.textsOfFields]
  | cons field rest ih =>
    obtain ⟨known, value⟩ := field
    rw [Value.textsOfFields, holdsAmong_append, ih, List.exists_mem_cons_iff]

theorem not_holdsAmong_allPrefixes : ¬ HoldsAmong name [allPrefixes] :=
  not_holdsAmong_doubled name ["\x7ball_prefixes\x7d"]

/-- The texts under one field of a binding that are kept as they are. -/
def keptInField (command : Value) (field : String) (value : Value) : List String :=
  if field = "foreach" then []
  else if field = "args" ∨ field = "computedArgs" then keptTexts command value
  else value.texts

theorem bindingField_texts (command : Value) (field : String) (old new : Value)
    (becomes : BindingField command field old new) :
    HoldsAmong name new.texts ↔ HoldsAmong name (keptInField command field old) := by
  unfold BindingField at becomes
  unfold keptInField
  split at becomes
  · next prefixes =>
    subst prefixes
    change HoldsAmong name new.texts ↔ HoldsAmong name old.texts
    split at becomes
    · next all =>
      cases old with
      | text content =>
        cases all
        rw [becomes]
        exact iff_of_false (not_holdsAmong_allPrefixes name)
          (not_holdsAmong_plain name ["<all-prefixes>"] (by decide))
      | _ => cases all
    · rw [becomes]
  split at becomes
  · next placeholders =>
    rw [becomes, if_pos placeholders]
    exact iff_of_false (not_holdsAmong_doubleIn name old) (holdsAmong_nil name)
  · next other =>
    rw [if_neg other]
    split at becomes
    · next argument =>
      rw [if_pos argument]
      exact upgradeArgs_texts name command old new becomes
    · next argument => rw [if_neg argument, becomes]

/-- A text of a binding that is kept as it is holds a name in single braces. Of two fields that get
one name the later counts. -/
def LeavesSingle (entry : Fields) : Prop :=
  ∃ field, latest bindingNames.current (bindingNames.current field.1) entry = some field ∧
    HoldsAmong name (keptInField (entry.read "command") field.1 field.2)

variable (root : Fields) (items : List Value) (index : Nat) (entry : Fields)
  (listed : root.get? "bind" = some (.list items))
  (stands : items[index]? = some (.object entry)) (once : (Value.object entry).namesOnce = true)
  (upgraded : Fields)
  (walked : upgradeFields rules root [.field "bind", .item index] [] entry = .ok upgraded)

include listed stands once walked

/-- What stands in an upgraded binding comes from the last field that gets its name. -/
theorem get?_binding (asked : String) :
    match latest bindingNames.current asked entry with
    | some field => ∃ value, BindingField (entry.read "command") field.1 field.2 value ∧
        upgraded.get? asked = some value
    | none => upgraded.get? asked = none := by
  have placed := get?_upgradeFields rules root _ [] entry upgraded asked walked
  rw [nameAfter_inBinding] at placed
  cases found : latest bindingNames.current asked entry with
  | none =>
    rw [found] at placed
    exact placed
  | some field =>
    rw [found] at placed
    obtain ⟨value, here, set⟩ := placed
    have given := (latest_named bindingNames.current asked entry field found).1
    have within := ((Value.namesOnce_object entry).mp once).2 field given
    exact ⟨value, bindingField_of_walk root items index (.object entry) field.1 field.2 value
      listed stands within here, set⟩

theorem holdsAmong_binding_iff :
    HoldsAmong name (Value.object upgraded).texts ↔ LeavesSingle name entry := by
  have distinct :=
    ((Value.namesOnce_object upgraded).mp (walked_once rules root _ entry upgraded once walked)).1
  have placed := get?_binding root items index entry listed stands once upgraded walked
  rw [Value.texts, holdsAmong_fields_iff]
  constructor
  · rintro ⟨⟨asked, value⟩, held, holds⟩
    have became := placed asked
    have set := Fields.get?_of_mem asked value upgraded distinct held
    cases found : latest bindingNames.current asked entry with
    | none =>
      rw [found] at became
      cases became.symm.trans set
    | some field =>
      rw [found] at became
      obtain ⟨there, becomes, same⟩ := became
      cases same.symm.trans set
      have named := (latest_named bindingNames.current asked entry field found).2
      exact ⟨field, named ▸ found, (bindingField_texts name _ _ _ value becomes).mp holds⟩
  · rintro ⟨field, found, kept⟩
    have became := placed (bindingNames.current field.1)
    rw [found] at became
    obtain ⟨value, becomes, set⟩ := became
    exact ⟨_, Fields.mem_of_get? _ value upgraded set,
      (bindingField_texts name _ _ _ value becomes).mpr kept⟩

theorem foreach_doubled (ranges : Fields) (given : entry.get? "foreach" = some (.object ranges)) :
    upgraded.get? "foreach" = some (Braces.doubleIn (.object ranges)) := by
  have became := get?_binding root items index entry listed stands once upgraded walked "foreach"
  rw [Renames.latest_other bindingNames "foreach" entry ((Value.namesOnce_object entry).mp once).1
    (by decide) (by decide), given] at became
  obtain ⟨value, becomes, set⟩ := became
  rw [set]
  exact congrArg some becomes

end Entries

/-- Every binding with variables keeps them, and a variable is left in single braces somewhere in it
exactly if a text that the upgrade keeps holds the variable so. In a text that is doubled it becomes
a span to be filled. -/
theorem placeholders_left_iff (root : Fields) (current : Value)
    (once : (Value.object root).namesOnce = true) (legacy : (Value.object root).isLegacy = true)
    (yields : Yields (.object root) current) :
    ∃ fields, current = .object fields ∧ ∀ index (entry ranges : Fields),
      bindingAt root index = some entry → entry.get? "foreach" = some (.object ranges) →
        ∃ upgraded : Fields, bindingAt fields index = some upgraded ∧
          upgraded.get? "foreach" = some (Braces.doubleIn (.object ranges)) ∧
          ∀ name ∈ ranges.names,
            (HoldsAmong name (Value.object upgraded).texts ↔ LeavesSingle name entry) ∧
            ∀ text : String, Braces.OpensOnce text.toList →
              HoldsSingle name.toList text.toList →
                .span name.toList ∈ Template.segments (Braces.double text).toList := by
  obtain ⟨fields, rfl, walked⟩ := fields_of_yields root current legacy yields
  refine ⟨fields, rfl, fun index entry ranges found given => ?_⟩
  have became := bindingAt_walked root once fields walked index
  rw [found] at became
  obtain ⟨upgraded, within, placed⟩ := became
  obtain ⟨items, listed, stands⟩ := (entryAt_eq_some_iff _ index entry).mp found
  have sections := ((Value.namesOnce_object root).mp once).2 _
    (Fields.mem_of_get? "bind" _ root listed)
  have entries := entryAt_once _ index entry sections (listed ▸ found)
  refine ⟨upgraded, placed, ?_, fun name _ => ⟨?_, Braces.span_of_single name.toList⟩⟩
  · exact foreach_doubled root items index entry listed stands entries upgraded within ranges given
  · exact holdsAmong_binding_iff name root items index entry listed stands entries upgraded within

def movingEntry : Fields :=
  [("key", .text "j"), ("foreach", .object [("to", .list [.text "up", .text "down"])]),
   ("command", .text "cursorMove"), ("args", .object [("to", .text "{to}")])]

def movingDocument : Fields :=
  [("header", .object [("version", .text "1.0")]), ("bind", .list [.object movingEntry])]

def movingUpgraded : Fields :=
  [("key", .text "j"), ("foreach", .object [("to", .list [.text "up", .text "down"])]),
   ("command", .text "cursorMove"), ("args", .object [("to", .text (Braces.double "{to}"))])]

theorem moving_cleared :
    Yields (.object movingDocument) (.object
      [("header", .object [("version", .text "2.0")]), ("bind", .list [.object movingUpgraded])]) ∧
    ¬ HoldsAmong "to" (Value.object movingUpgraded).texts := by
  have yields : Yields (.object movingDocument) (.object
      [("header", .object [("version", .text "2.0")]),
       ("bind", .list [.object movingUpgraded])]) := ⟨by decide +kernel, rfl⟩
  obtain ⟨fields, same, each⟩ := placeholders_left_iff movingDocument _ (by decide +kernel)
    (by decide +kernel) yields
  cases same
  obtain ⟨upgraded, placed, -, left⟩ := each 0 movingEntry
    [("to", .list [.text "up", .text "down"])] rfl rfl
  cases placed
  have plain : ∀ field ∈ movingEntry,
      ∀ text ∈ keptInField (movingEntry.read "command") field.1 field.2, '{' ∉ text.toList := by
    decide +kernel
  refine ⟨yields, fun holds => ?_⟩
  obtain ⟨field, found, kept⟩ := (left "to" (by decide)).1.mp holds
  exact not_holdsAmong_plain "to" _ (plain field (latest_named _ _ _ field found).1) kept

def turningEntry : Fields :=
  [("key", .text "{to}"), ("foreach", .object [("to", .list [.text "Up", .text "Down"])]),
   ("command", .text "runCommands"),
   ("args", .object [("commands", .list [.text "cursor{to}"])])]

def turningDocument : Fields :=
  [("header", .object [("version", .text "1.0")]), ("bind", .list [.object turningEntry])]

/-- The variable of a binding is left in single braces in its key, and in a command that its
arguments name. -/
theorem placeholders_left : ¬ ∀ (root : Fields) (current : Value),
    (Value.object root).namesOnce = true → (Value.object root).isLegacy = true →
    Yields (.object root) current →
      ∃ fields, current = .object fields ∧ ∀ index (entry ranges : Fields),
        bindingAt root index = some entry → entry.get? "foreach" = some (.object ranges) →
          ∃ upgraded : Fields, bindingAt fields index = some upgraded ∧
            ∀ name ∈ ranges.names, ¬ HoldsAmong name (Value.object upgraded).texts := by
  intro always
  have yields : Yields (.object turningDocument) (.object
      [("header", .object [("version", .text "2.0")]), ("bind", .list [.object turningEntry])]) :=
    ⟨by decide +kernel, rfl⟩
  obtain ⟨fields, same, each⟩ := always turningDocument _ (by decide +kernel) (by decide +kernel)
    yields
  cases same
  obtain ⟨upgraded, placed, cleared⟩ := each 0 turningEntry
    [("to", .list [.text "Up", .text "Down"])] rfl rfl
  cases placed
  refine cleared "to" (by decide) ⟨"{to}", by decide +kernel, ⟨by decide, by decide⟩, [], [], ?_⟩
  decide

end Legacy

end Keymap

import Keymap.Legacy.Upgrade
import Keymap.Proofs.Legacy.Arguments

/-!
When a legacy document cannot be brought to the current layout. The rules reach three steps into a
document, and of what they convert only the arguments of a binding's command can fail
(`upgrade_fails_iff`).
-/

set_option autoImplicit false

namespace Keymap.Legacy

/-- What a rename leaves of a place: the place itself, or the last field under another name. -/
def Renamed (table : List Rule) (path target : Path) : Prop :=
  target = path ∨ ∃ rule ∈ table, ∃ name, rule.action = .rename name ∧
    target = path.dropLast ++ [.field name]

section Table

variable (table : List Rule)

theorem settle_renames (fuel : Nat) (path : Path) (long : path ≠ []) :
    Renamed table path (settle table fuel path).1 := by
  induction fuel generalizing path with
  | zero => exact .inl rfl
  | succ fuel ih =>
    unfold settle
    split
    · next place name found =>
      have rule := List.mem_of_find?_eq_some found
      rcases ih (path.dropLast ++ [.field name]) (by simp) with
        same | ⟨other, among, last, renames, same⟩
      · exact .inr ⟨_, rule, name, rfl, same⟩
      · exact .inr ⟨other, among, last, renames, by simpa using same⟩
    · exact .inl rfl
    · exact .inl rfl

theorem settle_converts (fuel : Nat) (path : Path) (conversion : Conversion)
    (converts : (settle table fuel path).2 = some conversion) :
    ∃ rule ∈ table, rule.applies (settle table fuel path).1 = true ∧
      rule.action = .convert conversion := by
  induction fuel generalizing path with
  | zero => cases converts
  | succ fuel ih =>
    unfold settle at converts ⊢
    split at converts
    · exact ih _ converts
    · next place other found =>
      cases converts
      have applies := List.find?_some found
      exact ⟨_, List.mem_of_find?_eq_some found, applies, rfl⟩
    · cases converts

theorem destination_length (path : Path) (long : path ≠ []) :
    (destination table path).1.length = path.length := by
  rcases settle_renames table table.length path long with same | ⟨_, _, _, _, same⟩
  · rw [destination, same]
  · have positive := List.length_pos_iff.mpr long
    rw [destination, same, List.length_append, List.length_dropLast, List.length_singleton]
    omega

end Table

theorem applies_length (rule : Rule) (path : Path) (applies : rule.applies path = true) :
    path.length = rule.place.length := by
  simp only [Rule.applies, Bool.and_eq_true, decide_eq_true_eq] at applies
  exact applies.1.symm

theorem conversion_at (path : Path) (long : path ≠ []) (conversion : Conversion)
    (converts : (destination rules path).2 = some conversion) :
    ∃ rule ∈ rules, rule.applies (destination rules path).1 = true ∧
      rule.place.length = path.length ∧ rule.action = .convert conversion := by
  obtain ⟨rule, among, applies, action⟩ :=
    settle_converts rules rules.length path conversion converts
  refine ⟨rule, among, applies, ?_, action⟩
  rw [← applies_length rule _ applies]
  exact destination_length rules path long

/-- Nothing is converted but the version, at the second step, and fields of bindings. -/
theorem unconverted_first (step : Step) : (destination rules [step]).2 = none := by
  cases converts : (destination rules [step]).2 with
  | none => rfl
  | some conversion =>
    obtain ⟨rule, among, _, length, action⟩ := conversion_at [step] (by simp) conversion converts
    have renames : ∀ rule ∈ rules, rule.place.length = 1 → rule.action = .rename "default" := by
      decide
    cases (renames rule among length).symm.trans action

theorem unconverted_deep (path : Path) (deep : 3 < path.length) :
    (destination rules path).2 = none := by
  cases converts : (destination rules path).2 with
  | none => rfl
  | some conversion =>
    have long : path ≠ [] := by
      rintro rfl
      cases deep
    obtain ⟨rule, among, _, length, _⟩ := conversion_at path long conversion converts
    have few : ∀ rule ∈ rules, rule.place.length ≤ 3 := by decide
    have := few rule among
    omega

theorem version_second (path : Path) (second : path.length = 2) (conversion : Conversion)
    (converts : (destination rules path).2 = some conversion) : conversion = .version := by
  have long : path ≠ [] := by
    rintro rfl
    cases second
  obtain ⟨rule, among, _, length, action⟩ := conversion_at path long conversion converts
  have versions : ∀ rule ∈ rules, rule.place.length = 2 → rule.action = .convert .version := by
    decide
  cases (versions rule among (length.trans second)).symm.trans action
  rfl

def isArgument (name : String) : Prop := name = "args" ∨ name = "computedArgs"

theorem applies_inBinding (rule : Rule) (name : String) (path : Path)
    (place : rule.place = inBinding name) (applies : rule.applies path = true) :
    ∃ index, path = [.field "bind", .item index, .field name] := by
  simp only [Rule.applies, place, inBinding, Bool.and_eq_true, decide_eq_true_eq] at applies
  obtain ⟨length, slots⟩ := applies
  rcases path with _ | ⟨top, _ | ⟨entry, _ | ⟨last, _ | _⟩⟩⟩ <;> simp at length
  cases top <;> cases entry <;> cases last <;> simp [Slot.holds] at slots
  obtain ⟨rfl, rfl⟩ := slots
  exact ⟨_, rfl⟩

theorem arguments_third (path : Path) (long : path ≠ [])
    (converts : (destination rules path).2 = some .arguments) :
    ∃ index name, isArgument name ∧
      (destination rules path).1 = [.field "bind", .item index, .field name] := by
  obtain ⟨rule, among, applies, length, action⟩ := conversion_at path long _ converts
  have places : ∀ rule ∈ rules, rule.action = .convert .arguments →
      rule.place = inBinding "args" ∨ rule.place = inBinding "computedArgs" := by
    decide
  rcases places rule among action with place | place
  · obtain ⟨index, same⟩ := applies_inBinding rule _ _ place applies
    exact ⟨index, _, .inl rfl, same⟩
  · obtain ⟨index, same⟩ := applies_inBinding rule _ _ place applies
    exact ⟨index, _, .inr rfl, same⟩

theorem destination_bind : destination rules [.field "bind"] = ([.field "bind"], none) := by decide

theorem destination_entry (index : Nat) :
    destination rules [.field "bind", .item index] = ([.field "bind", .item index], none) := rfl

theorem destination_argument (index : Nat) (name : String) (argument : isArgument name) :
    destination rules [.field "bind", .item index, .field name] =
      ([.field "bind", .item index, .field name], some .arguments) := by
  rcases argument with rfl | rfl <;> rfl

/-- Only a last field that is the new name of a rule may have had another name before. -/
theorem destination_kept (path front : Path) (step : Step) (long : path ≠ [])
    (never : ∀ rule ∈ rules, ∀ name, rule.action = .rename name → step ≠ .field name)
    (same : (destination rules path).1 = front ++ [step]) : path = front ++ [step] := by
  rcases settle_renames rules rules.length path long with kept | ⟨rule, among, name, renames, last⟩
  · exact kept.symm.trans same
  · have ends := last.symm.trans same
    obtain ⟨_, one⟩ := List.append_inj' ends rfl
    exact absurd (List.cons.inj one).1.symm (never rule among name renames)

theorem field_kept (path front : Path) (name : String) (long : path ≠ [])
    (never : ∀ rule ∈ rules, rule.action ≠ .rename name)
    (same : (destination rules path).1 = front ++ [.field name]) :
    path = front ++ [.field name] := by
  refine destination_kept path front _ long ?_ same
  rintro rule among other renames last
  cases last
  exact never rule among renames

theorem item_kept (path front : Path) (index : Nat) (long : path ≠ [])
    (same : (destination rules path).1 = front ++ [.item index]) :
    path = front ++ [.item index] := by
  refine destination_kept path front _ long ?_ same
  rintro _ _ _ _ last
  cases last

theorem argument_never_renamed (name : String) (argument : isArgument name) :
    ∀ rule ∈ rules, rule.action ≠ .rename name := by
  rcases argument with rfl | rfl <;> decide

/-- One step down from a value. -/
inductive Child : Value → Step → Value → Prop
  | field (fields : Fields) (name : String) (value : Value) (given : (name, value) ∈ fields) :
      Child (.object fields) (.field name) value
  | item (items : List Value) (index : Nat) (value : Value) (stands : items[index]? = some value) :
      Child (.list items) (.item index) value

theorem child_smaller (value child : Value) (step : Step) (inside : Child value step child) :
    sizeOf child < sizeOf value := by
  cases inside with
  | field fields name child given =>
    have smaller := List.sizeOf_lt_of_mem given
    simp only [Prod.mk.sizeOf_spec, Value.object.sizeOf_spec] at smaller ⊢
    omega
  | item items index child stands =>
    have smaller := List.sizeOf_lt_of_mem (List.mem_of_getElem? stands)
    simp only [Value.list.sizeOf_spec]
    omega

section Walk

variable (table : List Rule) (root : Fields)

/-- What becomes of a value one step further down. -/
def upgradeAt (path : Path) (step : Step) (child : Value) : Except Fault Value :=
  upgradeValue table root (destination table (path ++ [step])).1
    (destination table (path ++ [step])).2 child

theorem upgradeFields_fails_iff (path : Path) (before fields : Fields) :
    Fails (upgradeFields table root path before fields) ↔
      ∃ name value, (name, value) ∈ fields ∧
        Fails (upgradeAt table root path (.field name) value) := by
  induction fields generalizing before with
  | nil => exact iff_of_false (not_failsWith_ok _ _) (by simp)
  | cons field rest ih =>
    obtain ⟨name, value⟩ := field
    rw [upgradeFields]
    refine (bind_fails_iff _ _ _ fun upgraded => ih _).trans ?_
    constructor
    · rintro (failed | ⟨other, child, given, failed⟩)
      · exact ⟨name, value, .head _, failed⟩
      · exact ⟨other, child, .tail _ given, failed⟩
    · rintro ⟨other, child, given, failed⟩
      rcases List.mem_cons.mp given with same | later
      · cases same
        exact .inl failed
      · exact .inr ⟨other, child, later, failed⟩

theorem upgradeList_fails_iff (path : Path) (index : Nat) (items : List Value) :
    Fails (upgradeList table root path index items) ↔
      ∃ place item, items[place]? = some item ∧
        Fails (upgradeAt table root path (.item (index + place)) item) := by
  induction items generalizing index with
  | nil => exact iff_of_false (not_failsWith_ok _ _) (by simp)
  | cons item rest ih =>
    rw [upgradeList]
    refine (bind_fails_iff _ _ _ fun upgraded => (mapped_fails_iff _ _).trans (ih _)).trans ?_
    constructor
    · rintro (failed | ⟨place, child, stands, failed⟩)
      · exact ⟨0, item, rfl, failed⟩
      · refine ⟨place + 1, child, by simpa using stands, ?_⟩
        rwa [show index + (place + 1) = index + 1 + place by omega]
    · rintro ⟨place, child, stands, failed⟩
      cases place with
      | zero =>
        cases stands
        exact .inl failed
      | succ place =>
        refine .inr ⟨place, child, by simpa using stands, ?_⟩
        rwa [show index + 1 + place = index + (place + 1) by omega]

theorem upgradeValue_fails_iff (path : Path) (value : Value) :
    Fails (upgradeValue table root path none value) ↔
      ∃ step child, Child value step child ∧ Fails (upgradeAt table root path step child) := by
  cases value with
  | object fields =>
    rw [upgradeValue]
    have failing := upgradeFields_fails_iff table root path [] fields
    refine (mapped_fails_iff _ _).trans (failing.trans ?_)
    constructor
    · rintro ⟨name, child, given, failed⟩
      exact ⟨_, child, .field fields name child given, failed⟩
    · rintro ⟨_, child, inside, failed⟩
      cases inside with
      | field _ name _ given => exact ⟨name, child, given, failed⟩
  | list items =>
    rw [upgradeValue]
    refine (mapped_fails_iff _ _).trans ((upgradeList_fails_iff table root path 0 items).trans ?_)
    constructor
    · rintro ⟨place, child, stands, failed⟩
      exact ⟨_, child, .item items _ child (by simpa using stands), failed⟩
    · rintro ⟨_, child, inside, failed⟩
      cases inside with
      | item _ place _ stands => exact ⟨place, child, stands, by simpa using failed⟩
  | _ =>
    refine iff_of_false (not_failsWith_ok _ _) ?_
    rintro ⟨_, _, inside, _⟩
    cases inside

theorem upgradeValue_converts (path : Path) (conversion : Conversion) (value : Value) :
    upgradeValue table root path (some conversion) value = conversion.apply root path value := by
  cases value <;> rfl

theorem converted_fails_iff (path : Path) (conversion : Conversion) (value : Value) :
    Fails (upgradeValue table root path (some conversion) value) ↔
      conversion = .arguments ∧ Stuck (commandAt root path) value := by
  rw [upgradeValue_converts]
  cases conversion with
  | arguments =>
    rw [Conversion.apply, upgradeArgs_fails_iff]
    simp
  | prefixes =>
    refine iff_of_false ?_ (by simp)
    unfold Conversion.apply
    dsimp only
    split <;> exact not_failsWith_ok _ _
  | _ => exact iff_of_false (not_failsWith_ok _ _) (by simp)

/-- Nothing fails below a place under which nothing is converted. -/
theorem kept_upgrades (path : Path)
    (unconverted : ∀ further, path.length < further.length →
      (destination table further).2 = none) (value : Value) :
    ¬ Fails (upgradeValue table root path none value) := by
  rw [upgradeValue_fails_iff]
  rintro ⟨step, child, inside, failed⟩
  have further : path.length < (path ++ [step]).length := by simp
  have same := destination_length table (path ++ [step]) (by simp)
  rw [upgradeAt, unconverted _ further] at failed
  have smaller := child_smaller value child step inside
  refine kept_upgrades _ (fun deeper long => unconverted deeper ?_) child failed
  exact Nat.lt_trans further (same ▸ long)
termination_by sizeOf value

end Walk

/-- Some arguments of a binding's command hold a sequence of commands that is no list. -/
def HoldsStuck (root : Fields) : Prop :=
  ∃ items index binding name value, ("bind", .list items) ∈ root ∧
    items[index]? = some (.object binding) ∧ (name, value) ∈ binding ∧ isArgument name ∧
    Stuck (commandAt root [.field "bind", .item index, .field name]) value

theorem fails_of_holdsStuck (root : Fields) (holds : HoldsStuck root) :
    Fails (upgradeValue rules root [] none (.object root)) := by
  obtain ⟨items, index, binding, name, value, listed, stands, held, argument, stuck⟩ := holds
  have third : Fails (upgradeAt rules root [.field "bind", .item index] (.field name) value) := by
    rw [upgradeAt, List.cons_append, List.cons_append, List.nil_append,
      destination_argument index name argument, converted_fails_iff]
    exact ⟨rfl, stuck⟩
  have second : Fails (upgradeAt rules root [.field "bind"] (.item index) (.object binding)) := by
    rw [upgradeAt, List.cons_append, List.nil_append, destination_entry, upgradeValue_fails_iff]
    exact ⟨_, value, .field binding name value held, third⟩
  have first : Fails (upgradeAt rules root [] (.field "bind") (.list items)) := by
    rw [upgradeAt, List.nil_append, destination_bind, upgradeValue_fails_iff]
    exact ⟨_, _, .item items index _ stands, second⟩
  exact (upgradeValue_fails_iff rules root [] _).mpr ⟨_, _, .field root "bind" _ listed, first⟩

/-- The third step that fails leads to the arguments of a binding's command. -/
theorem third_fails (root : Fields) (path : Path) (two : path.length = 2) (step : Step)
    (child : Value) (failed : Fails (upgradeAt rules root path step child)) :
    ∃ index name, isArgument name ∧ path = [.field "bind", .item index] ∧ step = .field name ∧
      Stuck (commandAt root [.field "bind", .item index, .field name]) child := by
  have long : path ++ [step] ≠ [] := by simp
  have three : (path ++ [step]).length = 3 := by simp [two]
  unfold upgradeAt at failed
  cases converts : (destination rules (path ++ [step])).2 with
  | none =>
    rw [converts] at failed
    refine absurd failed (kept_upgrades rules root _ (fun further deeper => ?_) child)
    rw [destination_length rules _ long, three] at deeper
    exact unconverted_deep further deeper
  | some conversion =>
    rw [converts, converted_fails_iff] at failed
    obtain ⟨rfl, stuck⟩ := failed
    obtain ⟨index, name, argument, same⟩ := arguments_third _ long converts
    have kept := field_kept _ [.field "bind", .item index] name long
      (argument_never_renamed name argument) same
    obtain ⟨rfl, last⟩ := List.append_inj' kept rfl
    rw [same] at stuck
    exact ⟨index, name, argument, rfl, (List.cons.inj last).1, stuck⟩

theorem holdsStuck_of_fails (root : Fields)
    (failed : Fails (upgradeValue rules root [] none (.object root))) : HoldsStuck root := by
  obtain ⟨top, listed, inRoot, failed⟩ := (upgradeValue_fails_iff rules root [] _).mp failed
  rw [upgradeAt, List.nil_append, unconverted_first, upgradeValue_fails_iff] at failed
  obtain ⟨entry, binding, inSection, failed⟩ := failed
  have one : (destination rules [top]).1.length = 1 := destination_length rules [top] (by simp)
  have long : (destination rules [top]).1 ++ [entry] ≠ [] := by simp
  have two : ((destination rules [top]).1 ++ [entry]).length = 2 := by simp [one]
  have unconverted : (destination rules ((destination rules [top]).1 ++ [entry])).2 = none := by
    cases converts : (destination rules ((destination rules [top]).1 ++ [entry])).2 with
    | none => rfl
    | some conversion =>
      rw [upgradeAt, converts, converted_fails_iff] at failed
      cases (version_second _ two conversion converts).symm.trans failed.1
  rw [upgradeAt, unconverted, upgradeValue_fails_iff] at failed
  obtain ⟨step, value, inBinding, failed⟩ := failed
  obtain ⟨index, name, argument, second, rfl, stuck⟩ :=
    third_fails root _ ((destination_length rules _ long).trans two) step value failed
  -- No name that leads there is a new one, so the document has all three of them.
  have first := item_kept _ [.field "bind"] index long second
  obtain ⟨bound, last⟩ := List.append_inj' first rfl
  obtain rfl := (List.cons.inj last).1
  have start := field_kept [top] [] "bind" (by simp) (by decide) bound
  obtain rfl := (List.cons.inj start).1
  cases inRoot with
  | field _ _ _ given =>
    cases inSection with
    | item items _ _ stands =>
      cases inBinding with
      | field fields _ _ held =>
        exact ⟨items, index, fields, name, value, given, stands, held, argument, stuck⟩

theorem upgrade_fails_iff (document : Value) :
    Fails (upgrade document) ↔
      document.isLegacy = true ∧ ∃ root, document = .object root ∧ HoldsStuck root := by
  cases document with
  | object root =>
    rw [upgrade]
    by_cases legacy : (Value.object root).isLegacy = true
    · rw [if_pos legacy]
      refine ⟨fun failed => ⟨legacy, root, rfl, holdsStuck_of_fails root failed⟩, ?_⟩
      rintro ⟨_, _, same, holds⟩
      cases same
      exact fails_of_holdsStuck root holds
    · rw [if_neg legacy]
      have copied := kept_upgrades [] root [] (fun _ _ => rfl) (.object root)
      exact iff_of_false copied fun stuck => legacy stuck.1
  | _ => exact iff_of_false (not_failsWith_ok _ _) (by simp)

end Keymap.Legacy

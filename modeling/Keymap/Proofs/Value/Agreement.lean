import Keymap.Proofs.Number.Order
import Keymap.Proofs.Value.Merge
import Mathlib.Data.List.Perm.Subperm

/-!
Equality of values by content. Leaves agree if they are the same or count as numbers of one value;
two lists, or two mappings, agree if they do at every step inside (`agrees_inside`). So agreement is
symmetric and transitive, and reflexive where every number inside is one.
-/

set_option autoImplicit false

namespace Keymap

open Legacy (Step)

namespace Value

mutual

/-- Whether a double that is no number stands anywhere inside of a value. -/
def holdsNaN : Value → Bool
  | .number amount => amount.isNaN
  | .list items => itemsHoldNaN items
  | .object fields => fieldsHoldNaN fields
  | _ => false

def itemsHoldNaN : List Value → Bool
  | [] => false
  | item :: rest => holdsNaN item || itemsHoldNaN rest

def fieldsHoldNaN : List (String × Value) → Bool
  | [] => false
  | (_, value) :: rest => holdsNaN value || fieldsHoldNaN rest

end

theorem itemsHoldNaN_iff (items : List Value) :
    itemsHoldNaN items = false ↔ ∀ item ∈ items, holdsNaN item = false := by
  induction items with
  | nil => simp [itemsHoldNaN]
  | cons item rest ih => simp [itemsHoldNaN, ih]

theorem fieldsHoldNaN_iff (fields : List (String × Value)) :
    fieldsHoldNaN fields = false ↔ ∀ field ∈ fields, holdsNaN field.2 = false := by
  induction fields with
  | nil => simp [fieldsHoldNaN]
  | cons field rest ih => simp [fieldsHoldNaN, ih]

/-- A leaf agrees with itself only or, if it counts as a number, with what equals that number. -/
theorem agrees_leaf (left right : Value) (isLeaf : left.isLeaf = true) :
    left.agrees right = true ↔ (left.asNumber? = none ∧ left = right) ∨
      ∃ a b, left.asNumber? = some a ∧ right.asNumber? = some b ∧ a.equals b = true := by
  cases left with
  | list items => cases isLeaf
  | object fields => cases isLeaf
  | _ => cases right <;> simp [agrees, asNumber?]

/-- What agrees are two leaves or two values of one kind. -/
theorem agrees_cases (left right : Value) (agree : left.agrees right = true) :
    (left.isLeaf = true ∧ right.isLeaf = true) ∨ sameKind left right = true := by
  cases left <;> cases right <;> simp_all [agrees, isLeaf, sameKind, asNumber?]

theorem itemsAgree_iff (left right : List Value) : itemsAgree left right = true ↔
    ∀ index : Nat, Option.Rel (fun first second => agrees first second = true) left[index]?
      right[index]? := by
  induction left generalizing right with
  | nil =>
    cases right with
    | nil => simp [itemsAgree]
    | cons second others =>
      refine iff_of_false nofun fun related => ?_
      cases related 0
  | cons first rest ih =>
    cases right with
    | nil =>
      refine iff_of_false nofun fun related => ?_
      cases related 0
    | cons second others =>
      rw [itemsAgree, Bool.and_eq_true, ih]
      constructor
      · rintro ⟨here, later⟩ index
        cases index with
        | zero => exact .some here
        | succ index => exact later index
      · intro related
        refine ⟨?_, fun index => related (index + 1)⟩
        cases related 0 with
        | some here => exact here

theorem fieldsAgree_iff (left : List (String × Value)) (right : Fields) :
    fieldsAgree left right = true ↔ ∀ field ∈ left,
      Option.Rel (fun first second => agrees first second = true) (some field.2)
        (right.get? field.1) := by
  induction left with
  | nil => simp [fieldsAgree]
  | cons field rest ih =>
    obtain ⟨name, value⟩ := field
    rw [fieldsAgree, Bool.and_eq_true, ih, List.forall_mem_cons]
    apply and_congr_left'
    cases right.get? name <;> simp

/-- Mappings agree if they have the same names and agree under each. -/
theorem agrees_object (left right : Fields) (leftOnce : left.names.Nodup)
    (rightOnce : right.names.Nodup) :
    (Value.object left).agrees (.object right) = true ↔ ∀ name,
      Option.Rel (fun first second => agrees first second = true) (left.get? name)
        (right.get? name) := by
  rw [agrees, Bool.and_eq_true, beq_iff_eq, fieldsAgree_iff]
  constructor
  · rintro ⟨sizes, each⟩ name
    have within : left.names ⊆ right.names := by
      intro name member
      obtain ⟨field, given, rfl⟩ := List.mem_map.mp member
      by_contra absent
      have here := each field given
      rw [(Fields.get?_eq_none_iff field.1 right).mpr absent] at here
      cases here
    have same : left.names.Perm right.names :=
      (List.subperm_of_subset leftOnce within).perm_of_length_le
        (by simp [Fields.names, sizes])
    cases stands : left.get? name with
    | none =>
      have absent : name ∉ right.names :=
        fun member => (Fields.get?_eq_none_iff name left).mp stands (same.mem_iff.mpr member)
      rw [(Fields.get?_eq_none_iff name right).mpr absent]
      exact .none
    | some value => exact each (name, value) (Fields.mem_of_get? name value left stands)
  · intro related
    have same : left.names.Perm right.names := by
      rw [List.perm_ext_iff_of_nodup leftOnce rightOnce]
      intro name
      rw [← not_iff_not, ← Fields.get?_eq_none_iff, ← Fields.get?_eq_none_iff]
      have here := related name
      generalize left.get? name = first at here
      generalize right.get? name = second at here
      cases here <;> simp
    refine ⟨by simpa [Fields.names] using same.length_eq, ?_⟩
    intro field given
    rw [← Fields.get?_of_mem field.1 field.2 left leftOnce given]
    exact related field.1

/-- Two lists, or two mappings, agree if they agree at every step inside. -/
theorem agrees_inside (left right : Value) (alike : sameKind left right = true)
    (leftOnce : left.namesOnce = true) (rightOnce : right.namesOnce = true) :
    left.agrees right = true ↔ ∀ step,
      Option.Rel (fun first second => agrees first second = true) (left.child? step)
        (right.child? step) := by
  cases left with
  | list items =>
    cases right with
    | list others =>
      rw [agrees, itemsAgree_iff]
      constructor
      · intro related step
        cases step with
        | field name => exact .none
        | item index => exact related index
      · exact fun related index => related (.item index)
    | _ => cases alike
  | object fields =>
    cases right with
    | object others =>
      rw [agrees_object fields others ((namesOnce_object fields).mp leftOnce).1
        ((namesOnce_object others).mp rightOnce).1]
      constructor
      · intro related step
        cases step with
        | field name => exact related name
        | item index => exact .none
      · exact fun related name => related (.field name)
    | _ => cases alike
  | _ => cases alike

/-- What passes from the values one step inside to the whole holds of every value. -/
@[elab_as_elim]
theorem bySteps {motive : Value → Prop}
    (whole : ∀ value, (∀ step child, value.child? step = some child → motive child) → motive value)
    (value : Value) : motive value := by
  induction value using byContents with
  | leaf value isLeaf =>
    apply whole
    intro step child stands
    cases value with
    | list items => cases isLeaf
    | object fields => cases isLeaf
    | _ => cases stands
  | list items ih =>
    apply whole
    intro step child stands
    cases step with
    | field name => cases stands
    | item index => exact ih child (List.mem_of_getElem? stands)
  | object fields ih =>
    apply whole
    intro step child stands
    cases step with
    | field name => exact ih _ (Fields.mem_of_get? name child fields stands)
    | item index => cases stands

theorem child_holdsNaN (value child : Value) (step : Step) (numbers : value.holdsNaN = false)
    (stands : value.child? step = some child) : child.holdsNaN = false := by
  cases value with
  | object fields =>
    cases step with
    | field name =>
      exact (fieldsHoldNaN_iff fields).mp numbers _ (Fields.mem_of_get? name child fields stands)
    | item index => cases stands
  | list items =>
    cases step with
    | field name => cases stands
    | item index => exact (itemsHoldNaN_iff items).mp numbers _ (List.mem_of_getElem? stands)
  | _ => cases stands

/-- A value of the language: its mappings name no field twice, and no number in it is none. -/
structure Ordinary (value : Value) : Prop where
  once : value.namesOnce = true
  numbers : value.holdsNaN = false

theorem Ordinary.child {value child : Value} (ordinary : Ordinary value) (step : Step)
    (stands : value.child? step = some child) : Ordinary child where
  once := child_namesOnce value child step ordinary.once stands
  numbers := child_holdsNaN value child step ordinary.numbers stands

theorem sameKind_self (value : Value) (inner : value.isLeaf = false) :
    sameKind value value = true := by
  cases value with
  | list items => rfl
  | object fields => rfl
  | _ => cases inner

theorem sameKind_symm (left right : Value) (alike : sameKind left right = true) :
    sameKind right left = true := by
  cases left <;> cases right <;> first | rfl | cases alike

theorem sameKind_trans (first second third : Value) (left : sameKind first second = true)
    (right : sameKind second third = true) : sameKind first third = true := by
  cases first with
  | list items =>
    cases second with
    | list others => cases third <;> exact right
    | _ => cases left
  | object fields =>
    cases second with
    | object others => cases third <;> exact right
    | _ => cases left
  | _ => cases left

section Options

variable {Related : Value → Value → Prop} {first second third : Option Value}

theorem rel_flip (turn : ∀ a ∈ first, ∀ b ∈ second, Related a b → Related b a)
    (related : Option.Rel Related first second) : Option.Rel Related second first := by
  cases related with
  | some here => exact .some (turn _ rfl _ rfl here)
  | none => exact .none

theorem rel_chain
    (join : ∀ a ∈ first, ∀ b ∈ second, ∀ c ∈ third, Related a b → Related b c → Related a c)
    (left : Option.Rel Related first second) (right : Option.Rel Related second third) :
    Option.Rel Related first third := by
  cases left with
  | some here =>
    cases right with
    | some there => exact .some (join _ rfl _ rfl _ rfl here there)
  | none =>
    cases right with
    | none => exact .none

end Options

theorem agrees_self (value : Value) (ordinary : Ordinary value) : value.agrees value = true := by
  induction value using bySteps with
  | whole value ih =>
    cases kind : value.isLeaf with
    | true =>
      rw [agrees_leaf value value kind]
      cases value with
      | number amount =>
        exact .inr ⟨amount, amount, rfl, rfl, Number.equals_self amount ordinary.numbers⟩
      | bool flag => exact .inr ⟨_, _, rfl, rfl, Number.equals_self _ rfl⟩
      | _ => exact .inl ⟨rfl, rfl⟩
    | false =>
      rw [agrees_inside value value (sameKind_self value kind) ordinary.once ordinary.once]
      intro step
      cases stands : value.child? step with
      | none => exact .none
      | some child => exact .some (ih step child stands (ordinary.child step stands))

theorem agrees_symm (left right : Value) (leftOnce : left.namesOnce = true)
    (rightOnce : right.namesOnce = true) (agree : left.agrees right = true) :
    right.agrees left = true := by
  induction left using bySteps generalizing right with
  | whole left ih =>
    rcases agrees_cases left right agree with ⟨leftLeaf, rightLeaf⟩ | alike
    · rcases (agrees_leaf left right leftLeaf).mp agree with ⟨_, rfl⟩ | ⟨a, b, first, second, same⟩
      · exact agree
      · exact (agrees_leaf right left rightLeaf).mpr
          (.inr ⟨b, a, second, first, Number.equals_comm a b ▸ same⟩)
    · rw [agrees_inside left right alike leftOnce rightOnce] at agree
      rw [agrees_inside right left (sameKind_symm left right alike) rightOnce leftOnce]
      intro step
      apply rel_flip _ (agree step)
      intro first stands second standsToo
      exact ih step first stands second (child_namesOnce left first step leftOnce stands)
        (child_namesOnce right second step rightOnce standsToo)

theorem agrees_trans (first second third : Value) (firstOnce : first.namesOnce = true)
    (secondOnce : second.namesOnce = true) (thirdOnce : third.namesOnce = true)
    (left : first.agrees second = true) (right : second.agrees third = true) :
    first.agrees third = true := by
  induction first using bySteps generalizing second third with
  | whole first ih =>
    rcases agrees_cases first second left with ⟨firstLeaf, secondLeaf⟩ | alike
    · rcases (agrees_leaf first second firstLeaf).mp left with ⟨_, rfl⟩ | ⟨a, b, isA, isB, same⟩
      · exact right
      · rcases (agrees_leaf second third secondLeaf).mp right with
          ⟨_, rfl⟩ | ⟨b', c, isB', isC, sameToo⟩
        · exact left
        · obtain rfl : b = b' := Option.some.inj (isB.symm.trans isB')
          exact (agrees_leaf first third firstLeaf).mpr
            (.inr ⟨a, c, isA, isC, Number.equals_trans a b c same sameToo⟩)
    · have alikeToo : sameKind second third = true := by
        rcases agrees_cases second third right with ⟨secondLeaf, _⟩ | alikeToo
        · rw [sameKind_leaf first second secondLeaf] at alike
          cases alike
        · exact alikeToo
      rw [agrees_inside first second alike firstOnce secondOnce] at left
      rw [agrees_inside second third alikeToo secondOnce thirdOnce] at right
      rw [agrees_inside first third (sameKind_trans first second third alike alikeToo) firstOnce
        thirdOnce]
      intro step
      apply rel_chain _ (left step) (right step)
      intro a standsA b standsB c standsC
      exact ih step a standsA b c (child_namesOnce first a step firstOnce standsA)
        (child_namesOnce second b step secondOnce standsB)
        (child_namesOnce third c step thirdOnce standsC)

end Value

end Keymap

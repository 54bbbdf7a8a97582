import Keymap.Value.Basic
import Mathlib.Data.List.Nodup

/-!
Mappings that name no field twice, as those of a document do. Such a mapping is settled by its names
in their order and by what stands under each of them (`Fields.ext_of_names`).
-/

set_option autoImplicit false

namespace Keymap

namespace Fields

theorem mem_names_iff (name : String) (fields : Fields) :
    name ∈ fields.names ↔ ∃ value, (name, value) ∈ fields := by
  simp [names]

theorem get?_eq_none_iff (name : String) (fields : Fields) :
    fields.get? name = none ↔ name ∉ fields.names := by
  induction fields with
  | nil => simp [get?, names]
  | cons field rest ih =>
    obtain ⟨known, value⟩ := field
    by_cases same : known = name
    · simp [get?, names, same]
    · simpa [get?, names, same, Ne.symm same] using ih

theorem mem_of_get? (name : String) (value : Value) (fields : Fields)
    (found : fields.get? name = some value) : (name, value) ∈ fields := by
  induction fields with
  | nil => cases found
  | cons field rest ih =>
    obtain ⟨known, held⟩ := field
    by_cases same : known = name
    · rw [get?, if_pos same] at found
      cases found
      exact same ▸ List.mem_cons_self
    · rw [get?, if_neg same] at found
      exact List.mem_cons_of_mem _ (ih found)

theorem get?_of_mem (name : String) (value : Value) (fields : Fields)
    (distinct : fields.names.Nodup) (given : (name, value) ∈ fields) :
    fields.get? name = some value := by
  induction fields with
  | nil => cases given
  | cons field rest ih =>
    obtain ⟨known, held⟩ := field
    obtain ⟨new, apart⟩ := List.nodup_cons.mp distinct
    rcases List.mem_cons.mp given with first | later
    · cases first
      simp [get?]
    · have other : known ≠ name := by
        rintro rfl
        exact new ((mem_names_iff known rest).mpr ⟨value, later⟩)
      rw [get?, if_neg other]
      exact ih apart later

theorem names_insert (name : String) (value : Value) (fields : Fields) :
    (fields.insert name value).names =
      if name ∈ fields.names then fields.names else fields.names ++ [name] := by
  induction fields with
  | nil => simp [insert, names]
  | cons field rest ih =>
    obtain ⟨known, held⟩ := field
    by_cases same : known = name
    · simp [insert, names, same]
    · simp only [names] at ih
      by_cases later : name ∈ rest.map Prod.fst
      · simp [insert, names, same, Ne.symm same, ih, later]
      · simp [insert, names, same, Ne.symm same, ih, later]

theorem nodup_insert (name : String) (value : Value) (fields : Fields)
    (distinct : fields.names.Nodup) : (fields.insert name value).names.Nodup := by
  rw [names_insert]
  split
  · exact distinct
  · next new =>
    rw [← List.concat_eq_append]
    exact distinct.concat new

theorem insert_of_new (name : String) (value : Value) (fields : Fields)
    (new : name ∉ fields.names) : fields.insert name value = fields ++ [(name, value)] := by
  induction fields with
  | nil => rfl
  | cons field rest ih =>
    obtain ⟨known, held⟩ := field
    simp only [names, List.map_cons, List.mem_cons, not_or] at new
    rw [insert, if_neg (Ne.symm new.1), ih new.2, List.cons_append]

theorem mem_insert (name : String) (value : Value) (fields : Fields)
    (field : String × Value) (held : field ∈ fields.insert name value) :
    field ∈ fields ∨ field = (name, value) := by
  induction fields with
  | nil => exact .inr (List.mem_singleton.mp held)
  | cons first rest ih =>
    obtain ⟨known, old⟩ := first
    rw [insert] at held
    split at held
    · rcases List.mem_cons.mp held with set | later
      · exact .inr set
      · exact .inl (.tail _ later)
    · rcases List.mem_cons.mp held with first | later
      · exact .inl (first ▸ List.mem_cons_self)
      · exact (ih later).imp (.tail _) id

/-- Fields set one after the other, each to what becomes of its value and of what stood under its
name. -/
def setAll (combine : String × Value → Option Value → Value) (base upper : Fields) : Fields :=
  upper.foldl (fun fields field =>
    fields.insert field.1 (combine field (fields.get? field.1))) base

theorem get?_setAll (combine : String × Value → Option Value → Value) (base upper : Fields)
    (distinct : upper.names.Nodup) (name : String) :
    (setAll combine base upper).get? name =
      match upper.get? name with
      | some value => some (combine (name, value) (base.get? name))
      | none => base.get? name := by
  unfold setAll
  induction upper generalizing base with
  | nil => rfl
  | cons field rest ih =>
    obtain ⟨known, value⟩ := field
    obtain ⟨new, apart⟩ := List.nodup_cons.mp distinct
    rw [List.foldl_cons, ih _ apart, get?_insert, get?]
    by_cases same : known = name
    · subst same
      rw [(get?_eq_none_iff known rest).mpr new, if_pos rfl, if_pos rfl]
    · rw [if_neg (Ne.symm same), if_neg same]

/-- A field is that of the upper mapping, or else that of the base. -/
theorem get?_overlay (base upper : Fields) (distinct : upper.names.Nodup) (name : String) :
    (base.overlay upper).get? name = (upper.get? name).or (base.get? name) := by
  rw [show base.overlay upper = setAll (fun field _ => field.2) base upper from rfl,
    get?_setAll _ _ _ distinct]
  cases upper.get? name <;> rfl

/-- Mappings with the same names in the same order that hold the same are the same. -/
theorem ext_of_names (left right : Fields) (distinct : left.names.Nodup)
    (alike : left.names = right.names) (same : ∀ name, left.get? name = right.get? name) :
    left = right := by
  induction left generalizing right with
  | nil =>
    cases right with
    | nil => rfl
    | cons field rest => cases alike
  | cons field rest ih =>
    cases right with
    | nil => cases alike
    | cons other others =>
      obtain ⟨name, value⟩ := field
      obtain ⟨known, held⟩ := other
      simp only [names, List.map_cons, List.cons.injEq] at alike
      obtain ⟨rfl, later⟩ := alike
      have first := same name
      simp only [get?, if_true, Option.some.injEq] at first
      subst first
      obtain ⟨new, apart⟩ := List.nodup_cons.mp distinct
      congr 1
      apply ih others apart later
      intro asked
      by_cases here : name = asked
      · subst here
        have absent := new
        rw [show rest.map Prod.fst = others.map Prod.fst from later] at absent
        rw [(get?_eq_none_iff name rest).mpr new, (get?_eq_none_iff name others).mpr absent]
      · simpa [get?, here] using same asked

end Fields

namespace Value

mutual

/-- Whether no mapping inside of a value names a field twice. -/
def namesOnce : Value → Bool
  | .list items => itemsNameOnce items
  | .object fields => decide (Fields.names fields).Nodup && fieldsNameOnce fields
  | _ => true

def itemsNameOnce : List Value → Bool
  | [] => true
  | item :: rest => namesOnce item && itemsNameOnce rest

def fieldsNameOnce : List (String × Value) → Bool
  | [] => true
  | (_, value) :: rest => namesOnce value && fieldsNameOnce rest

end

theorem namesOnce_list (items : List Value) :
    namesOnce (.list items) = true ↔ ∀ item ∈ items, namesOnce item = true := by
  rw [namesOnce]
  induction items with
  | nil => simp [itemsNameOnce]
  | cons item rest ih => simp [itemsNameOnce, ih]

theorem fieldsNameOnce_iff (fields : List (String × Value)) :
    fieldsNameOnce fields = true ↔ ∀ field ∈ fields, namesOnce field.2 = true := by
  induction fields with
  | nil => simp [fieldsNameOnce]
  | cons field rest ih =>
    obtain ⟨name, value⟩ := field
    simp [fieldsNameOnce, ih]

theorem namesOnce_object (fields : Fields) :
    namesOnce (.object fields) = true ↔
      fields.names.Nodup ∧ ∀ field ∈ fields, namesOnce field.2 = true := by
  rw [namesOnce, Bool.and_eq_true, decide_eq_true_iff, fieldsNameOnce_iff]

def isLeaf : Value → Bool
  | .list _ => false
  | .object _ => false
  | _ => true

/-- What holds of all leaves and passes from the contents of a list or a mapping to the whole holds
of every value. -/
@[elab_as_elim]
theorem byContents {motive : Value → Prop}
    (leaf : ∀ value, isLeaf value = true → motive value)
    (list : ∀ items, (∀ item ∈ items, motive item) → motive (.list items))
    (object : ∀ fields : Fields, (∀ field ∈ fields, motive field.2) → motive (.object fields))
    (value : Value) : motive value := by
  match value with
  | .list items =>
    apply list
    intro item member
    exact byContents leaf list object item
  | .object fields =>
    apply object
    intro field member
    exact byContents leaf list object field.2
  | .undefined | .null | .bool _ | .number _ | .text _ => exact leaf _ rfl
termination_by sizeOf value
decreasing_by
  · have smaller := List.sizeOf_lt_of_mem member
    simp only [Value.list.sizeOf_spec]
    omega
  · have smaller := List.sizeOf_lt_of_mem member
    obtain ⟨name, held⟩ := field
    simp only [Prod.mk.sizeOf_spec] at smaller
    simp only [Value.object.sizeOf_spec]
    omega

end Value

end Keymap

import Keymap.Legacy.Upgrade
import Keymap.Value.Merge
import Keymap.Proofs.Value.Fields

/-!
What deep merging keeps. Merging goes step by step: where both values are mappings or both are
lists, the merge holds at every step what the two hold there, merged (`child?_merge`). So it is
settled once (`merge_merge`), every leaf of the upper value comes through, and so does whatever the
base holds where the upper value has nothing (`merge_laws`).
-/

set_option autoImplicit false

namespace Keymap

open Legacy (Step Path)

namespace Value

/-- What stands one step further inside. -/
def child? : Value → Step → Option Value
  | .object fields, .field name => Fields.get? name fields
  | .list items, .item index => items[index]?
  | _, _ => none

/-- What a path leads to. -/
def at? : Value → Path → Option Value
  | value, [] => some value
  | value, step :: rest => match value.child? step with
    | some child => child.at? rest
    | none => none

/-- Two mappings, or two lists. -/
def sameKind : Value → Value → Bool
  | .object _, .object _ => true
  | .list _, .list _ => true
  | _, _ => false

/-- A path into the base that comes to a step which the upper value lacks, the two being of one
kind up to there. -/
inductive Leaves : Value → Value → Path → Prop where
  | here (base upper : Value) (step : Step) (rest : Path) (alike : sameKind base upper = true)
      (lacks : upper.child? step = none) : Leaves base upper (step :: rest)
  | further (base upper old new : Value) (step : Step) (rest : Path)
      (alike : sameKind base upper = true) (below : base.child? step = some old)
      (above : upper.child? step = some new) (later : Leaves old new rest) :
      Leaves base upper (step :: rest)

/-- What a step of a merge holds, from what the base and the upper value hold there. -/
def mergeChild? : Option Value → Option Value → Option Value
  | some old, some new => some (old.merge new)
  | none, some new => some new
  | old, none => old

theorem mergeChild?_none (old : Option Value) : mergeChild? old none = old := by
  cases old <;> rfl

theorem mergeChild?_twice (old new : Option Value)
    (self : ∀ value ∈ new, value.merge value = value)
    (twice : ∀ known ∈ old, ∀ value ∈ new, (known.merge value).merge value = known.merge value) :
    mergeChild? (mergeChild? old new) new = mergeChild? old new := by
  cases new with
  | none => rw [mergeChild?_none]
  | some value =>
    cases old with
    | none => exact congrArg some (self value rfl)
    | some known => exact congrArg some (twice known rfl value rfl)

theorem merge_replaces (base upper : Value) (apart : sameKind base upper = false) :
    base.merge upper = upper := by
  cases upper with
  | list items =>
    cases base with
    | list => cases apart
    | _ => simp [merge]
  | object fields =>
    cases base with
    | object => cases apart
    | _ => simp [merge]
  | _ => simp [merge]

theorem sameKind_leaf (base leaf : Value) (isLeaf : leaf.isLeaf = true) :
    sameKind base leaf = false := by
  cases leaf with
  | list => cases isLeaf
  | object => cases isLeaf
  | _ => cases base <;> rfl

theorem mergeFields_eq (base : Fields) (upper : List (String × Value)) :
    mergeFields base upper =
      Fields.setAll (fun field old => (old.map (merge · field.2)).getD field.2) base upper := by
  induction upper generalizing base with
  | nil => rfl
  | cons field rest ih =>
    rw [mergeFields, ih, Fields.setAll, Fields.setAll, List.foldl_cons]
    cases base.get? field.1 <;> rfl

theorem get?_mergeFields (base : Fields) (upper : List (String × Value))
    (distinct : (Fields.names upper).Nodup) (name : String) :
    (mergeFields base upper).get? name = mergeChild? (base.get? name) (Fields.get? name upper) := by
  rw [mergeFields_eq, Fields.get?_setAll _ _ _ distinct]
  cases Fields.get? name upper with
  | none => rw [mergeChild?_none]
  | some value => cases base.get? name <;> rfl

theorem nodup_mergeFields (base : Fields) (upper : List (String × Value))
    (distinct : base.names.Nodup) : (mergeFields base upper).names.Nodup := by
  induction upper generalizing base with
  | nil => exact distinct
  | cons field rest ih => exact ih _ (Fields.nodup_insert _ _ base distinct)

/-- Where the base names all that the upper mapping does, it keeps its names in their order. -/
theorem names_mergeFields (base : Fields) (upper : List (String × Value))
    (within : ∀ name ∈ Fields.names upper, name ∈ base.names) :
    (mergeFields base upper).names = base.names := by
  induction upper generalizing base with
  | nil => rfl
  | cons field rest ih =>
    obtain ⟨name, value⟩ := field
    have first : name ∈ base.names := within name List.mem_cons_self
    have kept : ∀ merged, (base.insert name merged).names = base.names := by
      intro merged
      rw [Fields.names_insert, if_pos first]
    rw [mergeFields, ih, kept]
    intro other later
    rw [kept]
    exact within other (List.mem_cons_of_mem _ later)

theorem getElem?_mergeItems (base upper : List Value) (index : Nat) :
    (mergeItems base upper)[index]? = mergeChild? base[index]? upper[index]? := by
  induction upper generalizing base index with
  | nil => rw [mergeItems, List.getElem?_nil, mergeChild?_none]
  | cons value rest ih =>
    cases base with
    | nil =>
      rw [mergeItems, List.getElem?_nil]
      cases (value :: rest)[index]? <;> rfl
    | cons old others =>
      rw [mergeItems]
      cases index with
      | zero => rfl
      | succ index => exact ih others index

/-- Merging two values of one kind goes step by step. -/
theorem child?_merge (base upper : Value) (alike : sameKind base upper = true)
    (once : upper.namesOnce = true) (step : Step) :
    (base.merge upper).child? step = mergeChild? (base.child? step) (upper.child? step) := by
  cases upper with
  | object fields =>
    cases base with
    | object known =>
      rw [merge]
      cases step with
      | field name => exact get?_mergeFields known fields ((namesOnce_object fields).mp once).1 name
      | item index => rfl
    | _ => cases alike
  | list items =>
    cases base with
    | list known =>
      rw [merge]
      cases step with
      | field name => rfl
      | item index => exact getElem?_mergeItems known items index
    | _ => cases alike
  | _ => cases base <;> cases alike

theorem child_namesOnce (value child : Value) (step : Step) (once : value.namesOnce = true)
    (stands : value.child? step = some child) : child.namesOnce = true := by
  cases value with
  | object fields =>
    cases step with
    | field name =>
      exact ((namesOnce_object fields).mp once).2 _ (Fields.mem_of_get? name child fields stands)
    | item index => cases stands
  | list items =>
    cases step with
    | field name => cases stands
    | item index => exact (namesOnce_list items).mp once _ (List.mem_of_getElem? stands)
  | _ => cases stands

theorem merge_self (value : Value) (once : value.namesOnce = true) : value.merge value = value := by
  induction value using byContents with
  | leaf value isLeaf => exact merge_replaces value value (sameKind_leaf value value isLeaf)
  | list items ih =>
    have inside := (namesOnce_list items).mp once
    rw [merge]
    congr 1
    apply List.ext_getElem?
    intro index
    rw [getElem?_mergeItems]
    cases stands : items[index]? with
    | none => rfl
    | some item =>
      have member := List.mem_of_getElem? stands
      exact congrArg some (ih item member (inside item member))
  | object fields ih =>
    obtain ⟨distinct, inside⟩ := (namesOnce_object fields).mp once
    rw [merge]
    congr 1
    have names := names_mergeFields fields fields fun _ member => member
    apply Fields.ext_of_names _ _ (names ▸ distinct) names
    intro name
    rw [get?_mergeFields fields fields distinct]
    cases stands : fields.get? name with
    | none => rfl
    | some value =>
      have member := Fields.mem_of_get? name value fields stands
      exact congrArg some (ih (name, value) member (inside _ member))

theorem merge_replaced (base upper : Value) (once : upper.namesOnce = true)
    (apart : sameKind base upper = false) : (base.merge upper).merge upper = base.merge upper := by
  rw [merge_replaces base upper apart]
  exact merge_self upper once

theorem names_within_mergeFields (base upper : Fields) (distinct : upper.names.Nodup) :
    ∀ name ∈ upper.names, name ∈ (mergeFields base upper).names := by
  intro name member
  obtain ⟨value, given⟩ := (Fields.mem_names_iff name upper).mp member
  by_contra absent
  have lost := (Fields.get?_eq_none_iff name _).mpr absent
  rw [get?_mergeFields base upper distinct, Fields.get?_of_mem name value upper distinct given]
    at lost
  cases old : base.get? name <;> rw [old] at lost <;> cases lost

/-- Merging the upper value once more changes nothing. -/
theorem merge_merge (base upper : Value) (baseOnce : base.namesOnce = true)
    (once : upper.namesOnce = true) : (base.merge upper).merge upper = base.merge upper := by
  induction upper using byContents generalizing base with
  | leaf upper isLeaf => exact merge_replaced base upper once (sameKind_leaf base upper isLeaf)
  | list items ih =>
    cases base with
    | list known =>
      have inside := (namesOnce_list items).mp once
      have below := (namesOnce_list known).mp baseOnce
      simp only [merge]
      congr 1
      apply List.ext_getElem?
      intro index
      rw [getElem?_mergeItems, getElem?_mergeItems]
      apply mergeChild?_twice
      · intro new above
        exact merge_self new (inside new (List.mem_of_getElem? above))
      · intro old stands new above
        have member := List.mem_of_getElem? above
        exact ih new member old (below old (List.mem_of_getElem? stands)) (inside new member)
    | _ => exact merge_replaced _ _ once rfl
  | object fields ih =>
    cases base with
    | object known =>
      obtain ⟨distinct, inside⟩ := (namesOnce_object fields).mp once
      obtain ⟨apart, below⟩ := (namesOnce_object known).mp baseOnce
      simp only [merge]
      congr 1
      have names := names_mergeFields _ fields (names_within_mergeFields known fields distinct)
      apply Fields.ext_of_names _ _ (names ▸ nodup_mergeFields known fields apart) names
      intro name
      rw [get?_mergeFields _ fields distinct, get?_mergeFields known fields distinct]
      apply mergeChild?_twice
      · intro new above
        exact merge_self new (inside _ (Fields.mem_of_get? name new fields above))
      · intro old stands new above
        have member := Fields.mem_of_get? name new fields above
        exact ih (name, new) member old (below _ (Fields.mem_of_get? name old known stands))
          (inside _ member)
    | _ => exact merge_replaced _ _ once rfl

theorem at?_merge_of_leaf (base upper leaf : Value) (path : Path) (once : upper.namesOnce = true)
    (isLeaf : leaf.isLeaf = true) (leads : upper.at? path = some leaf) :
    (base.merge upper).at? path = some leaf := by
  induction path generalizing base upper with
  | nil =>
    cases leads
    rw [merge_replaces base leaf (sameKind_leaf base leaf isLeaf), at?]
  | cons step rest ih =>
    cases alike : sameKind base upper with
    | false => rw [merge_replaces base upper alike, leads]
    | true =>
      rw [at?] at leads
      cases above : upper.child? step with
      | none =>
        rw [above] at leads
        cases leads
      | some new =>
        rw [above] at leads
        rw [at?, child?_merge base upper alike once, above]
        cases base.child? step with
        | none => exact leads
        | some old => exact ih old new (child_namesOnce upper new step once above) leads

theorem at?_merge_of_leaves (base upper value : Value) (path : Path)
    (once : upper.namesOnce = true) (leads : base.at? path = some value)
    (leaves : Leaves base upper path) : (base.merge upper).at? path = some value := by
  induction leaves with
  | here base upper step rest alike lacks =>
    rw [at?] at leads ⊢
    rw [child?_merge base upper alike once, lacks, mergeChild?_none]
    exact leads
  | further base upper old new step rest alike below above later ih =>
    rw [at?, below] at leads
    rw [at?, child?_merge base upper alike once, below, above]
    exact ih (child_namesOnce upper new step once above) leads

/-- Merging a value with itself changes nothing, nor does merging the same value twice. A merge
holds every leaf of the upper value where the upper value has it, and whatever the base holds past
the point where the upper value has nothing more. -/
theorem merge_laws (base upper : Value) (baseOnce : base.namesOnce = true)
    (once : upper.namesOnce = true) :
    base.merge base = base ∧ (base.merge upper).merge upper = base.merge upper ∧
    (∀ path leaf, leaf.isLeaf = true → upper.at? path = some leaf →
      (base.merge upper).at? path = some leaf) ∧
    ∀ path value, base.at? path = some value → Leaves base upper path →
      (base.merge upper).at? path = some value :=
  ⟨merge_self base baseOnce, merge_merge base upper baseOnce once,
    fun path leaf isLeaf leads => at?_merge_of_leaf base upper leaf path once isLeaf leads,
    fun path value leads leaves => at?_merge_of_leaves base upper value path once leads leaves⟩

/-- The arguments of a command, and those that a binding sets over them. -/
def inherited : Value := .object
  [("to", .list [.text "left", .object [("by", .text "line"), ("value", ofInt 2)]]),
   ("select", .bool false)]

def given : Value := .object
  [("to", .list [.text "right", .object [("value", ofInt 1)]]), ("register", .text "a")]

theorem given_over_inherited :
    inherited.merge inherited = inherited ∧
    (inherited.merge given).merge given = inherited.merge given ∧
    (inherited.merge given).at? [.field "to", .item 0] = some (.text "right") ∧
    (inherited.merge given).at? [.field "to", .item 1, .field "by"] = some (.text "line") := by
  obtain ⟨self, twice, leaves, kept⟩ := merge_laws inherited given rfl rfl
  refine ⟨self, twice, leaves _ _ rfl rfl, kept _ _ rfl ?_⟩
  apply Leaves.further _ _ _ _ _ _ rfl rfl rfl
  apply Leaves.further _ _ _ _ _ _ rfl rfl rfl
  exact Leaves.here _ _ _ _ rfl rfl

end Value

end Keymap

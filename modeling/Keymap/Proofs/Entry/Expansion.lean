import Keymap.Proofs.Entry.Foreach
import Keymap.Proofs.Expr.Dependence
import Keymap.Proofs.Value.Fields
import Mathlib.Data.List.Perm.Basic
import Mathlib.Algebra.BigOperators.Group.List.Basic

/-!
An expansion as a list of fillings, one after the other, for a list of combinations. The
combinations are the ways to choose a value for each variable (`mem_combinations_iff`); with the
variables in another order they are the same up to the order in them (`combinations_reordered`).
-/

set_option autoImplicit false

namespace Keymap

theorem mapM_ok_iff {Item Failure Result : Type} (step : Item → Except Failure Result)
    (items : List Item) (results : List Result) :
    items.mapM step = .ok results ↔ items.map step = results.map Except.ok := by
  induction items generalizing results with
  | nil => cases results <;> simp [pure, Except.pure]
  | cons item rest ih =>
    rw [List.mapM_cons, List.map_cons]
    cases first : step item with
    | error failure => cases results <;> simp [bind, Except.bind]
    | ok value =>
      cases others : rest.mapM step with
      | error failure =>
        cases results with
        | nil => simp [bind, Except.bind]
        | cons held tail =>
          have differs := (ih tail).not.mp (by simp [others])
          simp [bind, Except.bind, differs]
      | ok values =>
        have whole := (ih values).mp others
        cases results with
        | nil => simp [bind, Except.bind, pure, Except.pure]
        | cons held tail =>
          simp [bind, Except.bind, pure, Except.pure, whole,
            List.map_inj_right (fun _ _ => Except.ok.inj)]

/-- Steps that all succeed do so in any order of the items. -/
theorem mapM_reordered {Item Failure Result : Type} (step : Item → Except Failure Result)
    (items others : List Item) (same : items.Perm others) (results : List Result)
    (ended : items.mapM step = .ok results) :
    ∃ reordered : List Result, others.mapM step = .ok reordered ∧ results.Perm reordered := by
  have each := (mapM_ok_iff step items results).mp ended
  have turned : (others.map step).Perm (results.map Except.ok) := each ▸ (same.map step).symm
  have composed := congrFun (congrFun
    (List.eq_map_comp_perm (Except.ok (ε := Failure) (α := Result))) (others.map step)) results
  obtain ⟨reordered, listed, alike⟩ := composed.mpr turned
  exact ⟨reordered, (mapM_ok_iff step others reordered).mpr listed, alike.symm⟩

namespace Noted

variable {Note Failure Result : Type}

/-- Computations one after the other, up to the first that fails. -/
def inTurn : List (Noted Note Failure Result) → Noted Note Failure (List Result)
  | [] => .done []
  | attempt :: rest => do
      let first ← attempt
      return first :: (← inTurn rest)

theorem result_inTurn (attempts : List (Noted Note Failure Result)) :
    (inTurn attempts).result = attempts.mapM Noted.result := by
  induction attempts with
  | nil => rfl
  | cons attempt rest ih =>
    rw [inTurn, bind_eq, result_andThen, List.mapM_cons, ← ih]
    simp only [bind_eq, result_andThen]
    rfl

theorem each_of_inTurn {Item : Type} (step : Item → Noted Note Failure Result)
    (items : List Item) (results : List Result)
    (ended : (inTurn (items.map step)).result = .ok results) :
    List.Forall₂ (fun item result => (step item).result = .ok result) items results := by
  rw [result_inTurn, mapM_ok_iff, List.map_map] at ended
  have alike := List.forall₂_eq_eq_eq ▸ ended
  exact List.forall₂_map_left_iff.mp (List.forall₂_map_right_iff.mp alike)

theorem notes_inTurn (attempts : List (Noted Note Failure Result))
    (ends : (inTurn attempts).Ends) :
    (inTurn attempts).notes = attempts.flatMap Noted.notes := by
  induction attempts with
  | nil => rfl
  | cons attempt rest ih =>
    rw [inTurn, bind_eq] at ends ⊢
    obtain ⟨value, passed, later⟩ := (andThen_ends_iff _ _).mp ends
    have others := (mapped_ends_iff _ _).mp later
    obtain ⟨values, ended⟩ := others
    rw [notes_andThen_of_ok _ value _ passed, bind_eq, notes_andThen_of_ok _ values _ ended,
      ih ⟨values, ended⟩, List.flatMap_cons]
    simp [pure_eq, done]

/-- Computations that all come to their end do so in any order. -/
theorem inTurn_reordered (attempts others : List (Noted Note Failure Result))
    (same : attempts.Perm others) (results : List Result)
    (ended : (inTurn attempts).result = .ok results) :
    ∃ reordered : List Result, (inTurn others).result = .ok reordered ∧ results.Perm reordered ∧
      (inTurn attempts).notes.Perm (inTurn others).notes := by
  rw [result_inTurn] at ended
  obtain ⟨reordered, endedToo, alike⟩ := mapM_reordered _ attempts others same results ended
  rw [← result_inTurn] at ended endedToo
  refine ⟨reordered, endedToo, alike, ?_⟩
  rw [notes_inTurn attempts ⟨results, ended⟩, notes_inTurn others ⟨reordered, endedToo⟩]
  exact same.flatMap_right _

end Noted

namespace Fields

theorem erase_insert_self (name : String) (value : Value) (fields : Fields) :
    (fields.insert name value).erase name = fields.erase name := by
  unfold erase
  induction fields with
  | nil => simp [insert]
  | cons field rest ih =>
    obtain ⟨known, held⟩ := field
    by_cases same : known = name
    · simp [insert, same]
    · simpa [insert, same] using ih

theorem get?_erase (asked name : String) (fields : Fields) :
    (fields.erase name).get? asked = if asked = name then none else fields.get? asked := by
  unfold erase
  induction fields with
  | nil => simp [get?]
  | cons field rest ih =>
    obtain ⟨known, value⟩ := field
    by_cases gone : known = name
    · rw [List.filter_cons_of_neg (by simpa using gone), ih, get?]
      by_cases asks : asked = name
      · simp [asks]
      · simp [asks, gone, Ne.symm asks]
    · rw [List.filter_cons_of_pos (by simpa using gone), get?, get?, ih]
      by_cases asks : known = asked
      · simp [asks, asks ▸ gone]
      · simp [asks]

/-- In a mapping that names no field twice the order of the fields does not matter. -/
theorem get?_reordered (left right : Fields) (same : left.Perm right)
    (distinct : left.names.Nodup) (name : String) : left.get? name = right.get? name := by
  have distinctToo : right.names.Nodup := (same.map Prod.fst).nodup_iff.mp distinct
  cases found : left.get? name with
  | none =>
    have absent := (get?_eq_none_iff name left).mp found
    have absentToo : name ∉ right.names := fun there =>
      absent ((same.map Prod.fst).mem_iff.mpr there)
    exact ((get?_eq_none_iff name right).mpr absentToo).symm
  | some value =>
    have held := mem_of_get? name value left found
    exact (get?_of_mem name value right distinctToo (same.mem_iff.mp held)).symm

/-- What is set over two mappings that agree on a name keeps them so. -/
theorem get?_overlay_congr (name : String) (left right upper : Fields)
    (same : left.get? name = right.get? name) :
    (left.overlay upper).get? name = (right.overlay upper).get? name := by
  unfold overlay
  induction upper generalizing left right with
  | nil => exact same
  | cons field rest ih =>
    rw [List.foldl_cons, List.foldl_cons]
    apply ih
    rw [get?_insert, get?_insert, same]

end Fields

namespace Foreach

section Reading

variable (label : String)

/-- What is read of one variable. -/
def readVariable (field : String × Value) : Except Fault Variable :=
  match field.2 with
  | .list items => do return (field.1, ← expandValues (label ++ ".foreach." ++ field.1) items)
  | _ => .error (.defect (.notList (label ++ ".foreach." ++ field.1)))

theorem readEachVariable_eq (ranges : Fields) :
    readEachVariable label ranges = ranges.mapM (readVariable label) := by
  induction ranges with
  | nil => rfl
  | cons field rest ih =>
    obtain ⟨name, value⟩ := field
    rw [List.mapM_cons, ← ih]
    cases value with
    | list items =>
      rw [readVariable]
      cases read : expandValues (label ++ ".foreach." ++ name) items <;>
        simp only [readEachVariable, read] <;> rfl
    | _ => rfl

theorem readVariable_named (field : String × Value) (range : Variable)
    (read : readVariable label field = .ok range) : range.1 = field.1 := by
  rw [readVariable] at read
  split at read
  · obtain ⟨values, _, made⟩ := bind_ok _ _ _ read
    cases made
    rfl
  · cases read

theorem names_of_read (given : Fields) (ranges : List Variable)
    (read : given.mapM (readVariable label) = .ok ranges) :
    ranges.map Prod.fst = given.names := by
  have each := (mapM_ok_iff _ given ranges).mp read
  clear read
  induction given generalizing ranges with
  | nil => rw [List.map_eq_nil_iff.mp each.symm]; rfl
  | cons field rest ih =>
    cases ranges with
    | nil => cases each
    | cons range others =>
      obtain ⟨first, later⟩ := List.cons.inj each
      exact congrArg₂ List.cons (readVariable_named label field range first) (ih others later)

end Reading

section Combinations

variable (ranges : List Variable)

/-- The combinations take one value of each variable. -/
theorem mem_combinations_iff (combination : Fields) :
    combination ∈ combinations ranges ↔
      List.Forall₂ (fun choice range => choice.1 = range.1 ∧ choice.2 ∈ range.2)
        combination ranges := by
  induction ranges generalizing combination with
  | nil => simp [combinations]
  | cons range rest ih =>
    obtain ⟨name, values⟩ := range
    cases combination with
    | nil => simp [combinations]
    | cons choice others =>
      obtain ⟨known, value⟩ := choice
      simp only [combinations, List.mem_flatMap, List.mem_map, List.cons.injEq, Prod.mk.injEq,
        List.forall₂_cons, ← ih]
      constructor
      · rintro ⟨held, among, _, member, ⟨rfl, rfl⟩, rfl⟩
        exact ⟨⟨rfl, among⟩, member⟩
      · rintro ⟨⟨rfl, among⟩, member⟩
        exact ⟨value, among, others, member, ⟨rfl, rfl⟩, rfl⟩

theorem length_combinations :
    (combinations ranges).length = (ranges.map fun range => range.2.length).prod := by
  induction ranges with
  | nil => rfl
  | cons range rest ih =>
    obtain ⟨name, values⟩ := range
    simp [combinations, List.length_flatMap, ih]

theorem names_combination (combination : Fields) (member : combination ∈ combinations ranges) :
    combination.names = ranges.map Prod.fst := by
  have chosen := (mem_combinations_iff ranges combination).mp member
  clear member
  induction chosen with
  | nil => rfl
  | cons first _ ih => exact congrArg₂ List.cons first.1 ih

theorem combinations_append (others : List Variable) :
    combinations (ranges ++ others) = (combinations ranges).flatMap fun front =>
      (combinations others).map fun back => front ++ back := by
  induction ranges with
  | nil => simp [combinations]
  | cons range rest ih =>
    obtain ⟨name, values⟩ := range
    simp [combinations, ih, List.flatMap_assoc, List.map_flatMap, List.flatMap_map,
      Function.comp_def]

end Combinations

/-- Choices that do not depend on each other can be made in either order. -/
theorem flatMap_swap {First Second Result : Type} (firsts : List First) (seconds : List Second)
    (results : First → Second → List Result) :
    (firsts.flatMap fun first => seconds.flatMap fun second => results first second).Perm
      (seconds.flatMap fun second => firsts.flatMap fun first => results first second) := by
  induction firsts with
  | nil => simp
  | cons first rest ih =>
    simp only [List.flatMap_cons]
    exact (ih.append_left _).trans (List.flatMap_append_perm seconds _ _)

/-- What does not depend on the order within a combination is the same, up to its order, for
variables in another order. -/
theorem combinations_reordered {Result : Type} (ranges others : List Variable)
    (same : ranges.Perm others) (result : Fields → Result)
    (unordered : ∀ left right : Fields, left.names.Perm (ranges.map Prod.fst) →
      left.Perm right → result left = result right) :
    ((combinations ranges).map result).Perm ((combinations others).map result) := by
  induction same generalizing result with
  | nil => rfl
  | cons range same ih =>
    obtain ⟨name, values⟩ := range
    simp only [combinations, List.map_flatMap, List.map_map]
    refine List.Perm.flatMap_left values fun value _ => ?_
    apply ih
    intro left right named alike
    exact unordered _ _ (named.cons name) (alike.cons (name, value))
  | swap second first rest =>
    obtain ⟨name, values⟩ := first
    obtain ⟨other, held⟩ := second
    simp only [combinations, List.map_flatMap, List.map_map]
    refine (flatMap_swap values held _).trans ?_
    refine List.Perm.of_eq ?_
    congr 1
    funext value
    congr 1
    funext taken
    apply List.map_congr_left
    intro combination member
    have named := names_combination rest combination member
    apply unordered
    · exact .of_eq (by simp [Fields.names, ← named])
    · exact List.Perm.swap _ _ _
  | trans first second ihFirst ihSecond =>
    refine (ihFirst result unordered).trans (ihSecond result fun left right named alike => ?_)
    exact unordered left right (named.trans (first.map Prod.fst).symm) alike

section Filling

variable (template : Template) (definitions : Fields)

/-- The names in the texts that are filled. -/
def Template.templateNames : List String :=
  (Value.textsOfFields template.fields).flatMap Keymap.Template.names

theorem Template.fill_congr (other combination alike : Fields)
    (agree : Fields.AgreeOn template.templateNames (definitions.overlay combination)
      (other.overlay alike)) :
    template.fill definitions combination = template.fill other alike := by
  rw [Template.fill, Template.fill, Value.fillFields_congr _ _ template.fields agree]

theorem Template.fillAll_eq (chosen : List Fields) :
    template.fillAll definitions chosen =
      Noted.inTurn (chosen.map (template.fill definitions)) := by
  induction chosen with
  | nil => rfl
  | cons combination rest ih =>
    rw [Template.fillAll, ih, List.map_cons, Noted.inTurn]

theorem expand_of_read (label : String) (entry : Fields) (value : Value)
    (given : entry.get? "foreach" = some value) (ranges : List Variable)
    (read : readVariables label value = .ok ranges) :
    expand definitions label entry =
      Noted.inTurn ((combinations ranges).map ((Template.ofEntry entry).fill definitions)) := by
  rw [expand, given]
  simp only [read, Template.fillAll_eq]
  rfl

/-- What an entry is filled from does not change with its variables. -/
theorem ofEntry_insert_variables (entry : Fields) (value : Value) :
    Template.ofEntry (entry.insert "foreach" value) = Template.ofEntry entry := by
  rw [Template.ofEntry, Template.ofEntry, Fields.erase_insert_self]

end Filling

end Foreach

end Keymap

import Keymap.Proofs.Mode.Settled

/-!
The copies of bindings in the modes of a table. A mode has one explicit copy of every binding that
picks it, and one implicit copy of every binding that picks the mode it falls back to, both in the
order of the bindings (`expand_by_mode`).
-/

set_option autoImplicit false

namespace Keymap

namespace ModeTable

/-- The modes that a selector picks. Without one it is the default mode. Where an entry excludes a
mode these are the modes of the table that none excludes, else the ones that are listed. -/
def Picks (table : List Mode) (mode : String) : Option (List String) → Prop
  | none => ∃ chosen ∈ table, chosen.isDefault = true ∧ chosen.name = mode
  | some entries =>
      ((∃ name, "!" ++ name ∈ entries) ∧ mode ∈ table.map (·.name) ∧ "!" ++ mode ∉ entries) ∨
        ((¬ ∃ name, "!" ++ name ∈ entries) ∧ mode ∈ entries)

/-- Whether a selector picks the mode that another mode falls back to. The empty text is the name
of no fallback. -/
def PicksFallback (table : List Mode) (mode : String) (selector : Option (List String)) : Prop :=
  ∃ falling ∈ table, falling.name = mode ∧
    ∃ target ∈ falling.fallback, target ≠ "" ∧ Picks table target selector

theorem excluded?_iff (entry name : String) : excluded? entry = some name ↔ entry = "!" ++ name := by
  unfold excluded?
  split
  · next rest written =>
    rw [Option.some.injEq, ← String.toList_inj, ← String.toList_inj, String.toList_append, written]
    simp
  · next unmarked =>
    refine iff_of_false nofun fun same => unmarked name.toList ?_
    rw [same, String.toList_append]
    rfl

theorem mem_excluded (entries : List String) (name : String) :
    name ∈ entries.filterMap excluded? ↔ "!" ++ name ∈ entries := by
  simp [List.mem_filterMap, excluded?_iff]

theorem none_excluded_iff (entries : List String) :
    (entries.filterMap excluded?).isEmpty = true ↔ ¬ ∃ name, "!" ++ name ∈ entries := by
  rw [List.isEmpty_iff, List.eq_nil_iff_forall_not_mem]
  simp only [mem_excluded, not_exists]

instance decidableExcludes (entries : List String) : Decidable (∃ name, "!" ++ name ∈ entries) :=
  decidable_of_iff _ (not_congr (none_excluded_iff entries) |>.trans not_not)

instance decidablePicks (table : List Mode) (mode : String) :
    (selector : Option (List String)) → Decidable (Picks table mode selector)
  | none => inferInstanceAs (Decidable (∃ chosen ∈ table, _))
  | some _ => inferInstanceAs (Decidable (_ ∨ _))

instance decidablePicksFallback (table : List Mode) (mode : String)
    (selector : Option (List String)) : Decidable (PicksFallback table mode selector) :=
  inferInstanceAs (Decidable (∃ falling ∈ table, _))

theorem mem_defaultNames (table : List Mode) (mode : String) :
    mode ∈ defaultNames table ↔ ∃ chosen ∈ table, chosen.isDefault = true ∧ chosen.name = mode := by
  simp [defaultNames, List.mem_map, List.mem_filter, and_assoc]

theorem mem_select_iff (table : List Mode) (single : ∃ chosen, defaultNames table = [chosen])
    (key mode : String) (selector : Option (List String)) :
    mode ∈ (select table key selector).2 ↔ Picks table mode selector := by
  cases selector with
  | none =>
    obtain ⟨chosen, only⟩ := single
    rw [Picks, ← mem_defaultNames, select, defaultMode, only]
    rfl
  | some entries =>
    unfold select Picks
    dsimp only
    split
    · next unexcluded =>
      have unmarked := (none_excluded_iff entries).mp unexcluded
      simp only [unmarked, false_and, not_false_eq_true, true_and, false_or, mem_firsts,
        List.not_mem_nil, and_true]
    · next marked =>
      have excludes := not_not.mp (mt (none_excluded_iff entries).mpr marked)
      simp only [excludes, true_and, not_true, false_and, or_false, List.mem_filter,
        List.contains_eq_mem, Bool.not_eq_true', decide_eq_false_iff_not, mem_excluded]

theorem mem_fallen_iff (table : List Mode) (single : ∃ chosen, defaultNames table = [chosen])
    (key mode : String) (selector : Option (List String)) :
    mode ∈ implicitModes table (select table key selector).2 ↔ PicksFallback table mode selector := by
  simp only [mem_implicitModes_iff, mem_select_iff table single, PicksFallback]

/-- Whether a binding is a copy in just this mode that came there in this way. -/
def isCopy (mode : String) (implicit : Bool) (copy : Binding) : Bool :=
  copy.modes = some [mode] && copy.implicit == implicit

section Copies

variable (table : List Mode) (mode : String)

theorem isCopy_placed (binding : Binding) (implicit : Bool) (name : String) :
    isCopy mode implicit (place binding implicit name) = decide (name = mode) := by
  simp [isCopy, place]

theorem other_kind (binding : Binding) (implicit asked : Bool) (names : List String)
    (differ : implicit ≠ asked) :
    (names.map (place binding implicit)).filter (isCopy mode asked) = [] := by
  rw [List.filter_eq_nil_iff]
  intro copy made
  obtain ⟨name, _, rfl⟩ := List.mem_map.mp made
  simp [isCopy, place, differ]

/-- Where each binding has at most one copy of a kind in a mode, these are the copies of the
bindings that have one, in their order. -/
theorem expand_of_kind (implicit : Bool) (has : Binding → Prop) [DecidablePred has]
    (each : ∀ binding, (copies table binding).2.filter (isCopy mode implicit) =
      if has binding then [place binding implicit mode] else [])
    (bindings : List Binding) :
    (expand table bindings).2.filter (isCopy mode implicit) =
      (bindings.filter has).map (place · implicit mode) := by
  induction bindings with
  | nil => rfl
  | cons binding rest ih =>
    rw [expand_cons, List.filter_append, each, ih]
    by_cases here : has binding
    · rw [if_pos here, List.filter_cons_of_pos (by simpa using here)]
      rfl
    · rw [if_neg here, List.filter_cons_of_neg (by simpa using here)]
      rfl

variable (single : ∃ chosen, defaultNames table = [chosen])

include single

theorem explicit_copies (different : (table.map (·.name)).Nodup) (binding : Binding) :
    (copies table binding).2.filter (isCopy mode false) =
      if Picks table mode binding.modes then [place binding false mode] else [] := by
  rw [copies_eq, List.filter_append, other_kind mode binding true false _ nofun, List.append_nil,
    filter_placed binding false mode _ _ (select_nodup table different _ _)
      (isCopy_placed mode binding false)]
  simp only [mem_select_iff table single]

theorem implicit_copies (binding : Binding) :
    (copies table binding).2.filter (isCopy mode true) =
      if PicksFallback table mode binding.modes then [place binding true mode] else [] := by
  rw [copies_eq, List.filter_append, other_kind mode binding false true _ nofun, List.nil_append,
    filter_placed binding true mode _ _ (implicitModes_nodup table _)
      (isCopy_placed mode binding true)]
  simp only [mem_fallen_iff table single]

end Copies

/-- In every mode the explicit copies are, in order and once each, those of the bindings that pick
it, and the implicit ones those of the bindings that pick the mode it falls back to. Only its mode
and whether it is implicit tell a copy from its binding, and binding after binding the explicit
copies stand before the implicit ones. -/
theorem expand_by_mode (declared : List Mode) (bindings : List Binding) :
    let table := (ofModes declared).2
    let placed := (expand table bindings).2
    (∀ mode,
      placed.filter (isCopy mode false) =
        (bindings.filter fun binding => Picks table mode binding.modes).map (fun binding =>
          { binding with modes := some [mode], implicit := false }) ∧
      placed.filter (isCopy mode true) =
        (bindings.filter fun binding => PicksFallback table mode binding.modes).map (fun binding =>
          { binding with modes := some [mode], implicit := true })) ∧
    ∃ explicit implicit : Binding → List String, placed = bindings.flatMap fun binding =>
      (explicit binding).map (fun mode =>
        { binding with modes := some [mode], implicit := false }) ++
      (implicit binding).map (fun mode =>
        { binding with modes := some [mode], implicit := true }) := by
  intro table placed
  have different : (table.map (·.name)).Nodup := ofModes_names declared
  have single : ∃ chosen, defaultNames table = [chosen] := table_oneDefault declared
  refine ⟨fun mode => ⟨?_, ?_⟩, fun binding => (select table binding.key binding.modes).2,
    fun binding => implicitModes table (select table binding.key binding.modes).2,
    expand_eq table bindings⟩
  · exact expand_of_kind table mode false _ (explicit_copies table mode single different) bindings
  · exact expand_of_kind table mode true _ (implicit_copies table mode single) bindings

end ModeTable

end Keymap

import Keymap.Compile.Document
import Keymap.Proofs.Entry.Foreach

/-!
How the entries of a document can end a run. Everything that is wrong with an entry is reported,
but for what ends the run while the entry is expanded (`expandEntries_ends_iff`).
-/

set_option autoImplicit false

namespace Keymap

namespace Compile

open Foreach (Halts)
open Schema (itemLabel)

/-- An entry with the fields of its default and the commands of its definitions. -/
def prepared (spec : Specification) (index : Nat) (entry : Fields) : Except Defect Fields :=
  Definition.resolve spec.definitions (itemLabel "bind" index)
    ((DefaultTable.ofEntries spec.defaults).2.apply (itemLabel "bind" index) entry).2

/-- Whether the run ends at an entry of the document. -/
def EntryHalts (spec : Specification) (index : Nat) (value : Value) : Prop :=
  ∃ entry resolved, value = .object entry ∧ prepared spec index entry = .ok resolved ∧
    Halts spec.definitions (itemLabel "bind" index) resolved

variable (options : Options) (kind : Fault → Prop)

theorem settleFault_failsWith_iff {Result : Type} (otherwise : Result)
    (attempt : Except Fault Result) :
    FailsWith kind (settleFault otherwise attempt).result ↔
      FailsWith (fun fault => fault.isDefect = false ∧ kind fault) attempt := by
  cases attempt with
  | ok result => exact iff_of_false (not_failsWith_ok _ _) (not_failsWith_ok _ _)
  | error fault =>
    rw [failsWith_error_iff]
    cases fault with
    | defect defect => exact iff_of_false (not_failsWith_ok _ _) (by simp [Fault.isDefect])
    | _ => simp [settleFault, Noted.fail, failsWith_error_iff, Fault.isDefect]

section Entry

variable (spec : Specification) (index : Nat) (entry : Fields)

theorem expandEntry_refused (defect : Defect)
    (refused : prepared spec index entry = .error defect) :
    expandEntry options (DefaultTable.ofEntries spec.defaults).2 spec.definitions
        (itemLabel "bind" index) entry =
      ⟨((DefaultTable.ofEntries spec.defaults).2.apply (itemLabel "bind" index) entry).1 ++
        [.defect defect], .ok []⟩ := by
  unfold prepared at refused
  simp only [expandEntry, refused]

theorem expandEntry_ready (resolved : Fields) (ready : prepared spec index entry = .ok resolved) :
    let expanding := Foreach.expand spec.definitions (itemLabel "bind" index) resolved
    expandEntry options (DefaultTable.ofEntries spec.defaults).2 spec.definitions
        (itemLabel "bind" index) entry =
      ⟨((DefaultTable.ofEntries spec.defaults).2.apply (itemLabel "bind" index) entry).1 ++
        (settleFault [] expanding.result).notes ++
        ((Evaluator.new options.errorLimit).note expanding.notes).reported.map .complaint,
        (settleFault [] expanding.result).result⟩ := by
  unfold prepared at ready
  simp only [expandEntry, ready]

theorem expandEntry_failsWith_iff :
    FailsWith kind (expandEntry options (DefaultTable.ofEntries spec.defaults).2 spec.definitions
        (itemLabel "bind" index) entry).result ↔
      ∃ resolved, prepared spec index entry = .ok resolved ∧
        FailsWith (fun fault => fault.isDefect = false ∧ kind fault)
          (Foreach.expand spec.definitions (itemLabel "bind" index) resolved).result := by
  cases ready : prepared spec index entry with
  | error defect =>
    rw [expandEntry_refused options spec index entry defect ready]
    exact iff_of_false (not_failsWith_ok _ _) (by simp)
  | ok resolved =>
    rw [expandEntry_ready options spec index entry resolved ready, settleFault_failsWith_iff]
    simp

end Entry

/-- Of all that is done with an entry only its expansion can fail. -/
theorem readEntry_failsWith_iff (spec : Specification) (index : Nat) (value : Value) :
    FailsWith kind
        (readEntry options spec (DefaultTable.ofEntries spec.defaults).2 index value).result ↔
      ∃ entry resolved, value = .object entry ∧ prepared spec index entry = .ok resolved ∧
        FailsWith (fun fault => fault.isDefect = false ∧ kind fault)
          (Foreach.expand spec.definitions (itemLabel "bind" index) resolved).result := by
  unfold readEntry
  dsimp only
  cases value with
  | object entry =>
    refine (Noted.andThen_failsWith_iff _ _ _).trans ?_
    rw [expandEntry_failsWith_iff, or_iff_left]
    · constructor
      · rintro ⟨resolved, passed, failed⟩
        exact ⟨entry, resolved, rfl, passed, failed⟩
      · rintro ⟨_, resolved, same, passed, failed⟩
        cases same
        exact ⟨resolved, passed, failed⟩
    · rintro ⟨_, _, failed⟩
      exact not_failsWith_ok _ _ failed
  | _ =>
    refine iff_of_false (not_failsWith_ok _ _) ?_
    rintro ⟨_, _, same, _⟩
    cases same

theorem readEntry_ends_iff (spec : Specification) (index : Nat) (value : Value) :
    (readEntry options spec (DefaultTable.ofEntries spec.defaults).2 index value).Ends ↔
      ¬ EntryHalts spec index value := by
  rw [Noted.ends_iff, Fails, readEntry_failsWith_iff]
  simp only [and_true, EntryHalts, ← Foreach.expand_stops_iff]

theorem readEntries_ends_iff (spec : Specification) (index : Nat) (values : List Value) :
    (readEntries options spec (DefaultTable.ofEntries spec.defaults).2 index values).Ends ↔
      ∀ place value, values[place]? = some value → ¬ EntryHalts spec (index + place) value := by
  induction values generalizing index with
  | nil => exact iff_of_true (Noted.ends_done _) (by simp)
  | cons value rest ih =>
    refine (Noted.both_ends_iff _ _ _).trans ?_
    rw [readEntry_ends_iff, ih]
    constructor
    · rintro ⟨first, later⟩ place other stands
      cases place with
      | zero =>
        cases stands
        exact first
      | succ place =>
        rw [show index + (place + 1) = index + 1 + place by omega]
        exact later place other (by simpa using stands)
    · intro each
      refine ⟨each 0 value rfl, fun place other stands => ?_⟩
      rw [show index + 1 + place = index + (place + 1) by omega]
      exact each (place + 1) other (by simpa using stands)

/-- The entries of a document come to bindings and problems unless one of them ends the run. -/
theorem expandEntries_ends_iff (spec : Specification) :
    (expandEntries options spec).Ends ↔
      ∀ index value, spec.bindings[index]? = some value → ¬ EntryHalts spec index value := by
  have read := readEntries_ends_iff options spec 0 spec.bindings
  simp only [Nat.zero_add] at read
  rw [← read]
  refine (Noted.andThen_ends_iff (Noted.note _) _).trans ?_
  constructor
  · rintro ⟨_, _, ends⟩
    exact ends
  · exact fun ends => ⟨(), rfl, ends⟩

theorem readEntries_failsWith (spec : Specification) (index : Nat) (values : List Value)
    (failed : FailsWith kind
      (readEntries options spec (DefaultTable.ofEntries spec.defaults).2 index values).result) :
    ∃ place value, FailsWith kind
      (readEntry options spec (DefaultTable.ofEntries spec.defaults).2 place value).result := by
  induction values generalizing index with
  | nil => exact absurd failed (not_failsWith_ok _ _)
  | cons value rest ih =>
    rcases (Noted.both_failsWith_iff _ _ _ _).mp failed with first | ⟨_, later⟩
    · exact ⟨index, value, first⟩
    · exact ih (index + 1) later

theorem expandEntries_failsWith (spec : Specification)
    (failed : FailsWith kind (expandEntries options spec).result) :
    ∃ label resolved, FailsWith (fun fault => fault.isDefect = false ∧ kind fault)
      (Foreach.expand spec.definitions label resolved).result := by
  rcases (Noted.andThen_failsWith_iff _ _ _).mp failed with first | ⟨_, _, later⟩
  · exact absurd first (not_failsWith_ok _ _)
  · obtain ⟨place, value, failed⟩ := readEntries_failsWith options kind spec 0 _ later
    obtain ⟨_, resolved, _, _, failed⟩ :=
      (readEntry_failsWith_iff options kind spec place value).mp failed
    exact ⟨_, resolved, failed⟩

end Compile

end Keymap

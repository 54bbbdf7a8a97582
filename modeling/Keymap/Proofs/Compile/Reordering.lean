import Keymap.Proofs.Compile.Labels
import Keymap.Proofs.Compile.Priority
import Keymap.Proofs.Compile.Unplaced
import Mathlib.Data.Fintype.Basic
import Mathlib.Data.List.Perm.Basic
import Mathlib.Logic.Equiv.Fin.Rotate
import Mathlib.Tactic.FinCases

/-!
The order of entries in a document. Two documents that differ only in where entries of different
priorities stand among each other compile to the same codes, the same counts of conflicts, and the
same bindings up to order and places (`reordering_keeps_bindings`).
-/

set_option autoImplicit false

namespace Keymap

open Binding (Alike unplaced)
open Sorting (Reordered)

/-- As the editor takes it, without the place of its entry. -/
def ConcreteBinding.unplaced (binding : ConcreteBinding) : ConcreteBinding :=
  { binding with index := 0 }

theorem ConcreteBinding.ofBinding_unplaced (options : Options) (codes : CodeTable)
    (binding : Binding) :
    (ofBinding options codes binding).toOption.map unplaced =
      (ofBinding options codes binding.unplaced).toOption := by
  have leads : binding.unplaced.prefixes = binding.prefixes := rfl
  unfold ofBinding
  rw [leads]
  cases codesOf codes binding.prefixes <;> rfl

namespace Schema

/-- A document with a list of entries in its section for bindings. -/
def withEntries (root : Fields) (values : List Value) : Value :=
  .object (root.insert "bind" (.list values))

theorem read_withEntries (root : Fields) (values : List Value) (name : String)
    (other : name ≠ "bind") : (root.insert "bind" (.list values)).read name = root.read name := by
  rw [Fields.read, Fields.get?_insert, if_neg other, Fields.read]

theorem read_other (root : Fields) (values others : List Value) (name : String)
    (other : name ≠ "bind") :
    (root.insert "bind" (.list others)).read name =
      (root.insert "bind" (.list values)).read name := by
  rw [read_withEntries root others name other, read_withEntries root values name other]

theorem version_withEntries (root : Fields) (values : List Value) :
    (withEntries root values).version = (Value.object root).version := by
  unfold withEntries Value.version
  dsimp only
  rw [read_withEntries root values "header" (by decide)]

theorem entries_withEntries (root : Fields) (values : List Value) :
    entries (root.insert "bind" (.list values)) "bind" = .ok values := by
  rw [entries, Fields.read, Fields.get?_insert, if_pos rfl]
  rfl

theorem entries_other (root : Fields) (values others : List Value) (name : String)
    (different : name ≠ "bind") (read : List Value)
    (ended : entries (root.insert "bind" (.list values)) name = .ok read) :
    entries (root.insert "bind" (.list others)) name = .ok read := by
  rw [← ended, entries, entries, read_other root values others name different]

/-- The sections beside the entries are read whatever the entries are. -/
theorem readSpecification_withEntries (root : Fields) (values others : List Value)
    (spec : Specification)
    (ended : (readSpecification (withEntries root values)).result = .ok spec) :
    spec.bindings = values ∧
    (readSpecification (withEntries root others)).result =
      .ok { spec with bindings := others } := by
  obtain ⟨_, mapped, ended⟩ := Noted.andThen_ok _ _ _ ended
  cases mapped
  obtain ⟨_, _, ended⟩ := Noted.andThen_ok _ _ _ ended
  obtain ⟨header, readingHeader, ended⟩ := Noted.andThen_ok _ _ _ ended
  obtain ⟨bindings, readingBindings, ended⟩ := Noted.andThen_ok _ _ _ ended
  obtain ⟨modeEntries, listingModes, ended⟩ := Noted.andThen_ok _ _ _ ended
  obtain ⟨modes, readingModes, ended⟩ := Noted.andThen_ok _ _ _ ended
  obtain ⟨kindEntries, listingKinds, ended⟩ := Noted.andThen_ok _ _ _ ended
  obtain ⟨kinds, readingKinds, ended⟩ := Noted.andThen_ok _ _ _ ended
  obtain ⟨defaultEntries, listingDefaults, ended⟩ := Noted.andThen_ok _ _ _ ended
  obtain ⟨defaults, readingDefaults, ended⟩ := Noted.andThen_ok _ _ _ ended
  obtain ⟨definitions, readingDefinitions, ended⟩ := Noted.andThen_ok _ _ _ ended
  cases ended
  constructor
  · exact Except.ok.inj (readingBindings.symm.trans (entries_withEntries root values))
  have sameHeader : readHeader ((root.insert "bind" (.list others)).read "header") =
      .ok header := by
    rw [read_other root values others "header" (by decide)]
    exact readingHeader
  have sameDefinitions :
      readDefinitions ((root.insert "bind" (.list others)).read "define") = .ok definitions := by
    rw [read_other root values others "define" (by decide)]
    exact readingDefinitions
  have sameModes := entries_other root values others "mode" (by decide) modeEntries listingModes
  have sameKinds := entries_other root values others "kind" (by decide) kindEntries listingKinds
  have sameDefaults :=
    entries_other root values others "default" (by decide) defaultEntries listingDefaults
  refine (Noted.andThen_of_ok (.ofExcept _) _ (root.insert "bind" (.list others)) rfl).trans ?_
  refine (Noted.andThen_of_ok (.note _) _ () rfl).trans ?_
  refine (Noted.andThen_of_ok (.ofExcept _) _ header sameHeader).trans ?_
  refine (Noted.andThen_of_ok (.ofExcept _) _ others (entries_withEntries root others)).trans ?_
  refine (Noted.andThen_of_ok (.ofExcept _) _ modeEntries sameModes).trans ?_
  refine (Noted.andThen_of_ok _ _ modes readingModes).trans ?_
  refine (Noted.andThen_of_ok (.ofExcept _) _ kindEntries sameKinds).trans ?_
  refine (Noted.andThen_of_ok _ _ kinds readingKinds).trans ?_
  refine (Noted.andThen_of_ok (.ofExcept _) _ defaultEntries sameDefaults).trans ?_
  refine (Noted.andThen_of_ok _ _ defaults readingDefaults).trans ?_
  refine (Noted.andThen_of_ok (.ofExcept _) _ definitions sameDefinitions).trans ?_
  rfl

end Schema

namespace Compile

open Schema (withEntries)

variable (options : Options) (spec : Specification)

/-- A binding that an entry declares, wherever the entry stands. -/
def Declared (value : Value) (binding : Binding) : Prop :=
  ∃ index bindings,
    (readEntry options spec (DefaultTable.ofEntries spec.defaults).2 index value).result =
      .ok bindings ∧ binding ∈ bindings

/-- Entries that declare bindings of one priority. -/
def SamePriority (left right : Value) : Prop :=
  ∃ first second, Declared options spec left first ∧ Declared options spec right second ∧
    first.priority.equals second.priority = true

theorem declared_at (place : Nat) (value : Value) (own : List Binding)
    (reading : (readEntry options spec (DefaultTable.ofEntries spec.defaults).2 place
      value).result = .ok own) (binding : Binding) (declared : Declared options spec value binding) :
    ∃ source ∈ own, source.unplaced = binding.unplaced := by
  obtain ⟨index, bindings, ended, given⟩ := declared
  have same := readEntry_unplaced options spec _ index place value bindings own ended reading
  exact List.mem_map.mp (same ▸ List.mem_map_of_mem given)

theorem declares_alike : ∃ declares : Value → List Binding, ∀ value index bindings,
    (readEntry options spec (DefaultTable.ofEntries spec.defaults).2 index value).result =
      .ok bindings → bindings.map unplaced = declares value := by
  have each : ∀ value, ∃ declared : List Binding, ∀ index bindings,
      (readEntry options spec (DefaultTable.ofEntries spec.defaults).2 index value).result =
        .ok bindings → bindings.map unplaced = declared := by
    intro value
    by_cases read : ∃ index bindings,
        (readEntry options spec (DefaultTable.ofEntries spec.defaults).2 index value).result =
          .ok bindings
    · obtain ⟨index, bindings, ended⟩ := read
      refine ⟨bindings.map unplaced, fun other others endedToo => ?_⟩
      exact readEntry_unplaced options spec _ other index value others bindings endedToo ended
    · exact ⟨[], fun index bindings ended => absurd ⟨index, bindings, ended⟩ read⟩
  choose declares same using each
  exact ⟨declares, same⟩

section Read

variable (declares : Value → List Binding)
  (same : ∀ value index bindings,
    (readEntry options spec (DefaultTable.ofEntries spec.defaults).2 index value).result =
      .ok bindings → bindings.map unplaced = declares value)
  (values : List Value)

include same in
theorem readEntries_unplaced (index : Nat) (bindings : List Binding)
    (ended : (readEntries options spec (DefaultTable.ofEntries spec.defaults).2 index
      values).result = .ok bindings) :
    bindings.map unplaced = values.flatMap declares := by
  induction values generalizing index bindings with
  | nil =>
    cases ended
    rfl
  | cons value rest ih =>
    obtain ⟨first, reading, ended⟩ := Noted.andThen_ok _ _ _ ended
    obtain ⟨others, readingRest, ended⟩ := Noted.andThen_ok _ _ _ ended
    cases ended
    rw [List.map_append, List.flatMap_cons, same value index first reading,
      ih (index + 1) others readingRest]

theorem readEntries_sources (index : Nat) (bindings : List Binding)
    (ended : (readEntries options spec (DefaultTable.ofEntries spec.defaults).2 index
      values).result = .ok bindings) :
    (∀ binding ∈ bindings, ∃ value ∈ values, Declared options spec value binding) ∧
      ∀ value ∈ values, ∃ place own, (readEntry options spec
        (DefaultTable.ofEntries spec.defaults).2 place value).result = .ok own := by
  induction values generalizing index bindings with
  | nil =>
    cases ended
    exact ⟨nofun, nofun⟩
  | cons value rest ih =>
    obtain ⟨first, reading, ended⟩ := Noted.andThen_ok _ _ _ ended
    obtain ⟨others, readingRest, ended⟩ := Noted.andThen_ok _ _ _ ended
    cases ended
    have later := ih (index + 1) others readingRest
    constructor
    · intro binding member
      rcases List.mem_append.mp member with here | there
      · exact ⟨value, .head _, index, first, reading, here⟩
      · obtain ⟨source, given, declared⟩ := later.1 binding there
        exact ⟨source, .tail _ given, declared⟩
    · exact List.forall_mem_cons.mpr ⟨⟨index, first, reading⟩, later.2⟩

end Read

theorem byPriority_unplaced (bindings : List Binding) :
    (byPriority bindings).map unplaced = byPriority (bindings.map unplaced) :=
  (Sorting.sort_map (fun left right : Binding => !(right.priority.less left.priority)) unplaced
    bindings).symm

/-- What entries declare of one kind depends only on the entries that declare something of it. -/
theorem filter_declared (declares : Value → List Binding) (keep : Binding → Bool)
    (values : List Value) : (values.flatMap declares).filter keep =
      (values.filter fun value => (declares value).any keep).flatMap fun value =>
        (declares value).filter keep := by
  induction values with
  | nil => rfl
  | cons value rest ih =>
    rw [List.flatMap_cons, List.filter_append, ih, List.filter_cons]
    cases keeps : (declares value).any keep with
    | true => rw [if_pos rfl, List.flatMap_cons]
    | false =>
      have dropped : (declares value).filter keep = [] := by
        apply List.filter_eq_nil_iff.mpr
        intro binding member kept
        rw [List.any_eq_false] at keeps
        exact keeps binding member kept
      rw [dropped, if_neg Bool.false_ne_true, List.nil_append]

theorem readEntries_numbers (values : List Value) (index : Nat) (bindings : List Binding)
    (ended : (readEntries options spec (DefaultTable.ofEntries spec.defaults).2 index
      values).result = .ok bindings)
    (numbers : ∀ value ∈ values, ∀ binding, Declared options spec value binding →
      binding.priority.isNaN = false) :
    ∀ binding ∈ bindings.map unplaced, binding.priority.isNaN = false := by
  intro binding member
  obtain ⟨source, given, rfl⟩ := List.mem_map.mp member
  obtain ⟨value, among, declared⟩ :=
    (readEntries_sources options spec values index bindings ended).1 source given
  exact numbers value among source declared

section Reordered

variable (values others : List Value)
  (numbers : ∀ value ∈ values, ∀ binding, Declared options spec value binding →
    binding.priority.isNaN = false)
  (reordered : Reordered (SamePriority options spec) values others)

include numbers reordered

/-- Sorting by priority takes away how entries of different priorities stood. -/
theorem byPriority_alike (left right : List Binding)
    (leftEnded : (readEntries options spec (DefaultTable.ofEntries spec.defaults).2 0
      values).result = .ok left)
    (rightEnded : (readEntries options spec (DefaultTable.ofEntries spec.defaults).2 0
      others).result = .ok right) : Alike (byPriority left) (byPriority right) := by
  obtain ⟨declares, same⟩ := declares_alike options spec
  have sources := readEntries_sources options spec values 0 left leftEnded
  have leftNumbers := readEntries_numbers options spec values 0 left leftEnded numbers
  have rightNumbers := readEntries_numbers options spec others 0 right rightEnded
    fun value among => numbers value ((reordered.mem_iff value).mp among)
  -- What an entry declares, an entry at that place declared.
  have found : ∀ value ∈ values, ∀ binding ∈ declares value,
      ∃ source, Declared options spec value source ∧ source.priority = binding.priority := by
    intro value among binding member
    obtain ⟨place, own, reading⟩ := sources.2 value among
    rw [← same value place own reading] at member
    obtain ⟨source, given, rfl⟩ := List.mem_map.mp member
    exact ⟨source, ⟨place, own, reading, given⟩, rfl⟩
  rw [Alike, byPriority_unplaced, byPriority_unplaced, byPriority_eq _ leftNumbers,
    byPriority_eq _ rightNumbers, readEntries_unplaced options spec declares same values 0 left
      leftEnded, readEntries_unplaced options spec declares same others 0 right rightEnded]
  apply Sorting.sort_eq_of_ranks
  intro rank
  rw [filter_declared, filter_declared]
  rw [reordered.filter_eq]
  intro first firstIn second secondIn firstHas secondHas
  obtain ⟨left, leftMade, leftRank⟩ := List.any_eq_true.mp firstHas
  obtain ⟨right, rightMade, rightRank⟩ := List.any_eq_true.mp secondHas
  obtain ⟨leftSource, leftDeclared, leftPriority⟩ := found first firstIn left leftMade
  obtain ⟨rightSource, rightDeclared, rightPriority⟩ := found second secondIn right rightMade
  refine ⟨leftSource, rightSource, leftDeclared, rightDeclared, ?_⟩
  rw [Number.equals_iff _ _ (numbers first firstIn leftSource leftDeclared)
    (numbers second secondIn rightSource rightDeclared), leftPriority, rightPriority]
  exact (of_decide_eq_true leftRank).trans (of_decide_eq_true rightRank).symm

end Reordered

theorem placed_alike (modes : List Mode) {left right : List Binding}
    (alike : Alike (byPriority left) (byPriority right)) :
    Alike (placed modes left) (placed modes right) :=
  Docs.merge_alike (ModeTable.expand_alike modes (Sequence.splitAll_alike alike))

theorem assemble_unplaced (codes : CodeTable) (bindings : List Binding)
    (concrete : List ConcreteBinding) (assembled : assemble options codes bindings = .ok concrete) :
    (concrete.map ConcreteBinding.unplaced).map some =
      (bindings.map unplaced).map fun binding =>
        (ConcreteBinding.ofBinding options codes binding).toOption := by
  induction bindings generalizing concrete with
  | nil =>
    cases assembled
    rfl
  | cons binding rest ih =>
    obtain ⟨made, others, making, assembling, rfl⟩ := assemble_cons _ _ _ _ _ assembled
    have first := ConcreteBinding.ofBinding_unplaced options codes binding
    rw [making] at first
    simp only [List.map_cons]
    rw [ih others assembling, ← first]
    rfl

theorem specification_conflicts (result : CompileResult)
    (ended : (specification options spec).result = .ok result) (expanded : List Binding)
    (expanding : (expandEntries options spec).result = .ok expanded) :
    result.diagnostics.conflicts =
      sortedCounters (Sequence.compile options (placed result.modes expanded)).table.counters := by
  obtain ⟨_, _, ended⟩ := Noted.andThen_ok _ _ _ ended
  obtain ⟨source, expandingToo, ended⟩ := Noted.andThen_ok _ _ _ ended
  obtain ⟨_, _, ended⟩ := Noted.andThen_ok _ _ _ ended
  obtain ⟨_, _, ended⟩ := Noted.andThen_ok _ _ _ ended
  obtain ⟨_, _, ended⟩ := Noted.andThen_ok _ _ _ ended
  cases ended
  rw [Except.ok.inj (expanding.symm.trans expandingToo)]
  rfl

/-- The same codes, the same counts of conflicts, and the same bindings in some order, but for the
places of their entries. -/
structure SameOutcome (left right : CompileResult) : Prop where
  codes : left.codes = right.codes
  conflicts : left.diagnostics.conflicts = right.diagnostics.conflicts
  bindings : (left.bindings.map ConcreteBinding.unplaced).Perm
    (right.bindings.map ConcreteBinding.unplaced)

theorem sameOutcome_of_alike (other : Specification) (modes : other.modes = spec.modes)
    (left right : CompileResult) (leftEnded : (specification options spec).result = .ok left)
    (rightEnded : (specification options other).result = .ok right)
    (alike : ∀ expanded others, (expandEntries options spec).result = .ok expanded →
      (expandEntries options other).result = .ok others →
        Alike (byPriority expanded) (byPriority others)) : SameOutcome left right := by
  obtain ⟨expanded, expanding, leftModes, leftCodes, _, leftMade⟩ :=
    specification_stages options spec left leftEnded
  obtain ⟨others, expandingToo, rightModes, rightCodes, _, rightMade⟩ :=
    specification_stages options other right rightEnded
  have sameModes : right.modes = left.modes := by rw [rightModes, modes, leftModes]
  have twin := Sequence.twin_compile options
    (placed_alike left.modes (alike expanded others expanding expandingToo))
  have codes : left.codes = right.codes := by rw [leftCodes, rightCodes, sameModes, twin.codes]
  refine ⟨codes, ?_, ?_⟩
  · rw [specification_conflicts options spec left leftEnded expanded expanding,
      specification_conflicts options other right rightEnded others expandingToo, sameModes,
      twin.table.counters]
  · rw [← codes, sameModes] at rightMade
    have bindings := (BindingTable.bindings_twin twin.table).map fun binding =>
      (ConcreteBinding.ofBinding options left.codes binding).toOption
    rw [← assemble_unplaced options left.codes _ left.bindings leftMade,
      ← assemble_unplaced options left.codes _ right.bindings rightMade] at bindings
    exact (List.map_perm_map_iff (Option.some_injective _)).mp bindings

theorem readEntries_bindings (others : List Value) (defaults : DefaultTable) (index : Nat)
    (values : List Value) :
    readEntries options { spec with bindings := others } defaults index values =
      readEntries options spec defaults index values := by
  induction values generalizing index with
  | nil => rfl
  | cons value rest ih =>
    rw [readEntries, readEntries, ih]
    rfl

theorem document_current (document : Value) (compiled : Compiled)
    (current : document.isLegacy = false)
    (reading : (Schema.readSpecification document).result = .ok spec)
    (ended : Compile.document options document = .ok compiled) :
    ∃ result, (specification options spec).result = .ok result ∧
      ∃ problems, compiled.result = withProblems problems result := by
  obtain ⟨source, other, result, upgrading, readingToo, compiling, made⟩ :=
    document_sections options document compiled ended
  have same : document = source := by
    unfold upgraded at upgrading
    rw [current] at upgrading
    split at upgrading
    · cases upgrading
    · exact Except.ok.inj upgrading
  subst same
  obtain rfl : spec = other := Except.ok.inj (reading.symm.trans readingToo)
  exact ⟨result, compiling, _, made⟩

/-- Two documents that differ in the order of their entries alone, where those of one priority
stand as they did, compile to the same codes, the same counts of conflicts, and the same bindings
up to order and places. -/
theorem reordering_keeps_bindings (root : Fields) (values others : List Value)
    (current : (withEntries root values).isLegacy = false)
    (reading : (Schema.readSpecification (withEntries root values)).result = .ok spec)
    (numbers : ∀ value ∈ values, ∀ binding, Declared options spec value binding →
      binding.priority.isNaN = false)
    (reordered : Reordered (SamePriority options spec) values others) (left right : Compiled)
    (leftEnded : Compile.document options (withEntries root values) = .ok left)
    (rightEnded : Compile.document options (withEntries root others) = .ok right) :
    SameOutcome left.result right.result := by
  obtain ⟨own, readingOther⟩ := Schema.readSpecification_withEntries root values others spec reading
  have currentToo : (withEntries root others).isLegacy = false := by
    rw [Value.isLegacy, Schema.version_withEntries, ← Schema.version_withEntries root values]
    exact current
  obtain ⟨first, compilingLeft, problems, leftMade⟩ :=
    document_current options spec (withEntries root values) left current reading leftEnded
  obtain ⟨second, compilingRight, otherProblems, rightMade⟩ :=
    document_current options _ (withEntries root others) right currentToo readingOther rightEnded
  have same := sameOutcome_of_alike options spec { spec with bindings := others } rfl first second
    compilingLeft compilingRight (by
      intro expanded expandedOthers expanding expandingToo
      obtain ⟨_, _, expanding⟩ := Noted.andThen_ok _ _ _ expanding
      obtain ⟨_, _, expandingToo⟩ := Noted.andThen_ok _ _ _ expandingToo
      rw [own] at expanding
      rw [readEntries_bindings] at expandingToo
      exact byPriority_alike options spec values others numbers reordered expanded expandedOthers
        expanding expandingToo)
  rw [leftMade, rightMade]
  exact ⟨same.codes, same.conflicts, same.bindings⟩

def shuffledRoot : Fields := [("header", .object [("version", .text "2.0")])]

def shuffledEntry (key command : String) (priority : Int) : Value :=
  .object [("key", .text key), ("command", .text command), ("priority", Value.ofInt priority)]

theorem shuffled_priority (spec : Specification) (value : Value) (priority : Int)
    (all : (readEntry .default spec (DefaultTable.ofEntries spec.defaults).2 0
      value).result.toOption.any (fun own => own.all fun binding =>
        binding.priority = .int priority) = true) (binding : Binding)
    (declared : Declared .default spec value binding) : binding.priority = .int priority := by
  obtain ⟨own, reading, same⟩ := ended_of_check _ _ all
  obtain ⟨source, given, alike⟩ := declared_at .default spec 0 value own reading binding declared
  have stands := of_decide_eq_true (List.all_eq_true.mp same source given)
  exact (congrArg Binding.priority alike).symm.trans stands

/-- The first of three items may go behind the others where it is like neither. -/
theorem rotated {Item : Type} (alike : Item → Item → Prop) (first second third : Item)
    (notSecond : ¬ alike first second) (notThird : ¬ alike first third) :
    Reordered alike [first, second, third] [second, third, first] := by
  let place : Fin 3 ≃ Fin 3 := (finRotate 3).symm
  refine ⟨place, ?_, ?_⟩
  · change ∀ index : Fin 3, _
    intro index
    fin_cases index <;> rfl
  · change ∀ earlier later : Fin 3, _
    intro earlier later before related
    fin_cases earlier <;> fin_cases later
    case «0».«1» => exact absurd related notSecond
    case «0».«2» => exact absurd related notThird
    case «1».«2» => exact (by decide : (0 : Fin 3) < 1)
    all_goals simp at before

/-- An entry of a high priority may stand before or after two of a low one. -/
theorem shuffled_outcome :
    let high := shuffledEntry "a" "high" 1
    let low := shuffledEntry "a" "low" 0
    let longer := shuffledEntry "b c" "longer" 0
    ∃ left right,
      Compile.document .default (withEntries shuffledRoot [high, low, longer]) = .ok left ∧
      Compile.document .default (withEntries shuffledRoot [low, longer, high]) = .ok right ∧
      left.result.bindings.map (·.index) = [0, 2, 2] ∧
      right.result.bindings.map (·.index) = [1, 1, 2] ∧
      SameOutcome left.result right.result := by
  intro high low longer
  obtain ⟨left, leftEnded, leftPlaces⟩ := ended_of_check
    (Compile.document .default (withEntries shuffledRoot [high, low, longer]))
    (fun compiled => compiled.result.bindings.map (·.index) = [0, 2, 2]) (by decide +kernel)
  obtain ⟨right, rightEnded, rightPlaces⟩ := ended_of_check
    (Compile.document .default (withEntries shuffledRoot [low, longer, high]))
    (fun compiled => compiled.result.bindings.map (·.index) = [1, 1, 2]) (by decide +kernel)
  let spec : Specification := { unmoded [] with bindings := [high, low, longer] }
  have highest := shuffled_priority spec high 1 (by decide +kernel)
  have lowFirst := shuffled_priority spec low 0 (by decide +kernel)
  have lowSecond := shuffled_priority spec longer 0 (by decide +kernel)
  have apart : ∀ value, (∀ binding, Declared .default spec value binding →
      binding.priority = .int 0) → ¬ SamePriority .default spec high value := by
    rintro value lower ⟨first, second, declared, declaredToo, same⟩
    rw [highest first declared, lower second declaredToo] at same
    revert same
    decide
  have numbers : ∀ value ∈ [high, low, longer], ∀ binding, Declared .default spec value binding →
      binding.priority.isNaN = false := by
    intro value among binding declared
    simp only [List.mem_cons, List.not_mem_nil, or_false] at among
    rcases among with rfl | rfl | rfl
    · rw [highest binding declared]
      rfl
    · rw [lowFirst binding declared]
      rfl
    · rw [lowSecond binding declared]
      rfl
  refine ⟨left, right, leftEnded, rightEnded, by simpa using leftPlaces, by simpa using rightPlaces,
    ?_⟩
  exact reordering_keeps_bindings .default spec shuffledRoot _ _ (by decide +kernel) rfl numbers
    (rotated _ high low longer (apart low lowFirst) (apart longer lowSecond)) left right leftEnded
    rightEnded

end Compile

end Keymap

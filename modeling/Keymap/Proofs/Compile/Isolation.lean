import Keymap.Proofs.Compile.Entries
import Mathlib.Data.List.Basic

/-!
The entries of a document beside each other. One evaluator serves them all, and the complaints of
an entry wait in it until they are reported; but it is empty again whenever an entry is done
(`serve_fresh`). So an entry that is replaced, whatever is wrong with the old one or the new one,
leaves the problems and the bindings of all others as they were (`entries_isolated`).
-/

set_option autoImplicit false

namespace Keymap

/-- A document with another value in the place of one entry. -/
def Specification.replaced (spec : Specification) (place : Nat) (value : Value) : Specification :=
  { spec with bindings := spec.bindings.set place value }

namespace Compile

/-- What one entry of a document leaves. -/
structure Contribution where
  problems : List Problem
  bindings : List Binding

/-- The contribution of an entry that does not end the run, as it was read. -/
def Contribution.reading (own : Contribution) : Noted Problem Fault (List Binding) :=
  ⟨own.problems, .ok own.bindings⟩

theorem Contribution.reading_injective : Function.Injective Contribution.reading := by
  intro own other same
  cases own
  cases other
  cases same
  rfl

/-- Expands an entry with an evaluator that other entries may have used. What is pending in it is
reported however the entry ends. -/
def expandWith (evaluator : Evaluator) (defaults : DefaultTable) (definitions : Fields)
    (label : String) (entry : Fields) : Noted Problem Fault (List Fields) × Evaluator :=
  let (problems, merged) := defaults.apply label entry
  let (settled, filled) : Noted Problem Fault (List Fields) × Evaluator :=
    match Definition.resolve definitions label merged with
    | .error defect => (⟨[.defect defect], .ok []⟩, evaluator)
    | .ok resolved =>
        let expanding := Foreach.expand definitions label resolved
        (settleFault [] expanding.result, evaluator.note expanding.notes)
  let (shown, cleared) := filled.report
  (⟨problems ++ settled.notes ++ shown.map .complaint, settled.result⟩, cleared)

section Loop

variable (options : Options) (spec : Specification) (defaults : DefaultTable)

/-- The bindings of one entry, and the evaluator for the next. -/
def serve (evaluator : Evaluator) (index : Nat) (value : Value) :
    Noted Problem Fault (List Binding) × Evaluator :=
  let label := Schema.itemLabel "bind" index
  match asEntry value with
  | none => (⟨[.defect (.notMapping label)], .ok []⟩, evaluator)
  | some entry =>
      let (expanding, cleared) := expandWith evaluator defaults spec.definitions label entry
      let reading := expanding.andThen fun expanded =>
        let (problems, bindings) := readExpanded options spec.kinds label index expanded
        ⟨problems, .ok bindings⟩
      (reading, cleared)

/-- What the entries leave, one by one, as a single evaluator goes through all of them. -/
def serveAll (evaluator : Evaluator) (index : Nat) :
    List Value → Except Fault (List Contribution)
  | [] => .ok []
  | value :: rest =>
      let (reading, cleared) := serve options spec defaults evaluator index value
      match reading.result with
      | .error fault => .error fault
      | .ok bindings => do
          return ⟨reading.notes, bindings⟩ :: (← serveAll cleared (index + 1) rest)

end Loop

def contributions (options : Options) (spec : Specification) : Except Fault (List Contribution) :=
  serveAll options spec (DefaultTable.ofEntries spec.defaults).2 (.new options.errorLimit) 0
    spec.bindings

section Entries

variable (options : Options) (spec : Specification) (defaults : DefaultTable)

/-- An evaluator without pending complaints is left without them. -/
theorem expandWith_fresh (label : String) (entry : Fields) :
    expandWith (.new options.errorLimit) defaults spec.definitions label entry =
      (expandEntry options defaults spec.definitions label entry, .new options.errorLimit) := by
  unfold expandWith expandEntry
  dsimp only
  cases Definition.resolve spec.definitions label (defaults.apply label entry).2 with
  | error defect =>
    have silent : (Evaluator.new options.errorLimit).report = ([], .new options.errorLimit) := by
      simp [Evaluator.report, Evaluator.reported, Evaluator.new]
    simp [silent]
  | ok resolved => rfl

theorem serve_fresh (index : Nat) (value : Value) :
    serve options spec defaults (.new options.errorLimit) index value =
      (readEntry options spec defaults index value, .new options.errorLimit) := by
  unfold serve readEntry
  dsimp only
  cases asEntry value with
  | none => rfl
  | some entry =>
    dsimp only
    rw [expandWith_fresh]
    simp [Noted.bind_eq, Noted.pure_eq, Noted.andThen, Noted.note, Noted.done]

variable (index : Nat) (values : List Value)

/-- The entries come to what they leave one by one. -/
theorem served_of_ended (bindings : List Binding)
    (ended : (readEntries options spec defaults index values).result = .ok bindings) :
    ∃ each, serveAll options spec defaults (.new options.errorLimit) index values = .ok each ∧
      (readEntries options spec defaults index values).notes = each.flatMap (·.problems) ∧
      bindings = each.flatMap (·.bindings) := by
  induction values generalizing index bindings with
  | nil =>
    cases ended
    exact ⟨[], rfl, rfl, rfl⟩
  | cons value rest ih =>
    obtain ⟨first, reading, ended⟩ := Noted.andThen_ok _ _ _ ended
    obtain ⟨others, readingRest, ended⟩ := Noted.andThen_ok _ _ _ ended
    cases ended
    obtain ⟨each, served, notes, rfl⟩ := ih (index + 1) others readingRest
    refine ⟨⟨(readEntry options spec defaults index value).notes, first⟩ :: each, ?_, ?_, rfl⟩
    · unfold serveAll
      simp only [serve_fresh, reading, served]
      rfl
    · unfold readEntries
      rw [Noted.bind_eq, Noted.notes_andThen_of_ok _ _ _ reading, Noted.bind_eq,
        Noted.notes_andThen_of_ok _ _ _ readingRest, notes]
      simp [Noted.pure_eq, Noted.done]

/-- What an entry leaves is made of that entry and its place alone. -/
theorem served_readings (each : List Contribution)
    (served : serveAll options spec defaults (.new options.errorLimit) index values = .ok each) :
    each.map (·.reading) =
      values.mapIdx fun place value => readEntry options spec defaults (index + place) value := by
  induction values generalizing index each with
  | nil =>
    cases served
    rfl
  | cons value rest ih =>
    unfold serveAll at served
    rw [serve_fresh] at served
    dsimp only at served
    split at served
    · cases served
    next bindings reading =>
    obtain ⟨others, servedRest, served⟩ := bind_ok _ _ _ served
    cases served
    rw [List.map_cons, List.mapIdx_cons, ih (index + 1) others servedRest, Contribution.reading,
      ← reading]
    simp only [Nat.add_zero, Nat.add_assoc, Nat.add_comm 1]

end Entries

section Document

variable (options : Options) (spec : Specification)

/-- A run over the entries is what they contribute, after the problems of the defaults. -/
theorem expandEntries_contributions (bindings : List Binding)
    (ended : (expandEntries options spec).result = .ok bindings) :
    ∃ each, contributions options spec = .ok each ∧
      (expandEntries options spec).notes =
        (DefaultTable.ofEntries spec.defaults).1 ++ each.flatMap (·.problems) ∧
      bindings = each.flatMap (·.bindings) := by
  obtain ⟨_, _, ended⟩ := Noted.andThen_ok _ _ _ ended
  obtain ⟨each, served, notes, all⟩ := served_of_ended options spec _ 0 _ bindings ended
  refine ⟨each, served, ?_, all⟩
  rw [← notes]
  rfl

theorem contributions_readings (each : List Contribution)
    (served : contributions options spec = .ok each) :
    each.map (·.reading) = spec.bindings.mapIdx
      (readEntry options spec (DefaultTable.ofEntries spec.defaults).2) := by
  simpa only [Nat.zero_add] using served_readings options spec _ 0 _ each served

theorem contribution_index (each : List Contribution)
    (served : contributions options spec = .ok each) (place : Nat) (own : Contribution)
    (stands : each[place]? = some own) (binding : Binding) (member : binding ∈ own.bindings) :
    binding.index = place := by
  have reading := congrArg (·[place]?) (contributions_readings options spec each served)
  simp only [List.getElem?_map, List.getElem?_mapIdx, stands, Option.map_some] at reading
  obtain ⟨value, _, read⟩ := Option.map_eq_some_iff.mp reading.symm
  refine (readEntry_kept options spec (DefaultTable.ofEntries spec.defaults).2 place value
    own.bindings ?_ binding member).1
  rw [read, Contribution.reading]

/-- Of two documents that differ in one entry the contributions differ in that entry at most. -/
theorem contributions_replaced (place : Nat) (value : Value) (each others : List Contribution)
    (served : contributions options spec = .ok each)
    (servedToo : contributions options (spec.replaced place value) = .ok others) :
    ∃ own, others = each.set place own := by
  have before := contributions_readings options spec each served
  have after := contributions_readings options (spec.replaced place value) others servedToo
  have changed : others.map (·.reading) = (each.map (·.reading)).set place
      (readEntry options spec (DefaultTable.ofEntries spec.defaults).2 place value) := by
    rw [before, after]
    exact List.mapIdx_set
  have sameLength : others.length = each.length := by
    simpa using congrArg List.length changed
  have injective := List.map_injective_iff.mpr Contribution.reading_injective
  by_cases inside : place < others.length
  · refine ⟨others[place], injective ?_⟩
    calc
      others.map (·.reading)
        = (others.map (·.reading)).set place others[place].reading := by
          rw [← List.map_set, List.set_getElem_self]
      _ = (each.map (·.reading)).set place others[place].reading := by rw [changed, List.set_set]
      _ = (each.set place others[place]).map (·.reading) := List.map_set.symm
  · refine ⟨⟨[], []⟩, injective ?_⟩
    rw [List.set_eq_of_length_le (by omega), changed, List.set_eq_of_length_le]
    rw [List.length_map]
    omega

/-- The bindings of all entries but one. -/
def apart (place : Nat) (bindings : List Binding) : List Binding :=
  bindings.filter fun binding => binding.index ≠ (place : Int)

theorem apart_append (place : Nat) (left right : List Binding) :
    apart place (left ++ right) = apart place left ++ apart place right :=
  List.filter_append left right

theorem apart_own (place : Nat) (bindings : List Binding)
    (indexed : ∀ binding ∈ bindings, binding.index = place) : apart place bindings = [] :=
  List.filter_eq_nil_iff.mpr fun binding member => by simp [indexed binding member]

theorem apart_set (each : List Contribution) (place : Nat) (own : Contribution)
    (inside : place < each.length)
    (indexed : ∀ binding ∈ each[place].bindings, binding.index = place)
    (indexedToo : ∀ binding ∈ own.bindings, binding.index = place) :
    apart place ((each.set place own).flatMap (·.bindings)) =
      apart place (each.flatMap (·.bindings)) := by
  have split (member : Contribution) (here : ∀ binding ∈ member.bindings, binding.index = place) :
      apart place ((each.set place member).flatMap (·.bindings)) =
        apart place ((each.take place).flatMap (·.bindings)) ++
          apart place ((each.drop (place + 1)).flatMap (·.bindings)) := by
    rw [List.set_eq_take_append_cons_drop, if_pos inside, List.flatMap_append, List.flatMap_cons,
      apart_append, apart_append, apart_own place member.bindings here, List.nil_append]
  calc
    apart place ((each.set place own).flatMap (·.bindings))
      = apart place ((each.set place each[place]).flatMap (·.bindings)) :=
        (split own indexedToo).trans (split each[place] indexed).symm
    _ = apart place (each.flatMap (·.bindings)) := by rw [List.set_getElem_self inside]

/-- When one entry of a document is replaced by any other value, every other entry contributes the
same problems and the same bindings. -/
theorem entries_isolated (place : Nat) (value : Value) (before after : List Binding)
    (ended : (expandEntries options spec).result = .ok before)
    (endedToo : (expandEntries options (spec.replaced place value)).result = .ok after) :
    apart place after = apart place before ∧
    ∃ each own,
      contributions options spec = .ok each ∧ each.length = spec.bindings.length ∧
      contributions options (spec.replaced place value) = .ok (each.set place own) ∧
      before = each.flatMap (·.bindings) ∧
      after = (each.set place own).flatMap (·.bindings) ∧
      (expandEntries options spec).notes =
        (DefaultTable.ofEntries spec.defaults).1 ++ each.flatMap (·.problems) ∧
      (expandEntries options (spec.replaced place value)).notes =
        (DefaultTable.ofEntries spec.defaults).1 ++
          (each.set place own).flatMap (·.problems) := by
  obtain ⟨each, served, notes, rfl⟩ := expandEntries_contributions options spec before ended
  obtain ⟨others, servedToo, notesToo, rfl⟩ :=
    expandEntries_contributions options (spec.replaced place value) after endedToo
  obtain ⟨own, rfl⟩ := contributions_replaced options spec place value each others served servedToo
  have sameLength : each.length = spec.bindings.length := by
    simpa using congrArg List.length (contributions_readings options spec each served)
  refine ⟨?_, each, own, served, sameLength, servedToo, rfl, rfl, notes, notesToo⟩
  by_cases inside : place < each.length
  · refine apart_set each place own inside ?_ ?_
    · exact contribution_index options spec each served place _ (List.getElem?_eq_getElem inside)
    · exact contribution_index options (spec.replaced place value) _ servedToo place own
        (List.getElem?_set_self inside)
  · rw [List.set_eq_of_length_le (by omega)]

end Document

/-- A document whose second entry leaves two complaints and whose third has no known default. -/
def disturbed : Specification where
  header := ⟨"2.0", none, none, []⟩
  bindings :=
    [.object [("key", .text "a"), ("command", .text "first")],
     .object [("key", .text "\x7b\x7b key \x7d\x7d"), ("command", .text "\x7b\x7b other \x7d\x7d"),
       ("foreach", .object [("key", .list [.text "b", .text "c"])])],
     .object [("key", .text "d"), ("command", .text "last"), ("defaults", .text "undeclared")]]
  modes := []
  kinds := []
  defaults := [⟨"declared", [("command", .text "second")], []⟩]
  definitions := []

theorem isolated_of_disturbed :
    ∃ before after each own, (expandEntries .default disturbed).result = .ok before ∧
      (expandEntries .default (disturbed.replaced 1 (.bool true))).result = .ok after ∧
      before.length = 4 ∧ after.length = 2 ∧ apart 1 after = apart 1 before ∧
      contributions .default disturbed = .ok each ∧
      contributions .default (disturbed.replaced 1 (.bool true)) = .ok (each.set 1 own) := by
  obtain ⟨before, ended, four⟩ := ended_of_check (expandEntries .default disturbed).result
    (fun bindings => bindings.length = 4) (by decide +kernel)
  obtain ⟨after, endedToo, two⟩ := ended_of_check
    (expandEntries .default (disturbed.replaced 1 (.bool true))).result
    (fun bindings => bindings.length = 2) (by decide +kernel)
  obtain ⟨same, each, own, served, _, servedToo, _⟩ :=
    entries_isolated .default disturbed 1 (.bool true) before after ended endedToo
  exact ⟨before, after, each, own, ended, endedToo, by simpa using four, by simpa using two, same,
    served, servedToo⟩

end Compile

end Keymap

import Keymap.Entry.Foreach
import Keymap.Proofs.Expr.Filling

/-!
When the entries that an entry stands for come to nothing. A malformed variable is a defect that
is reported; what ends a run are patterns that count too far or ask for two character sets, and
numbers of too many digits (`expand_stops_iff`).
-/

set_option autoImplicit false

namespace Keymap

/-- Whether a fault can be reported beside a result. -/
def Fault.isDefect : Fault → Bool
  | .defect _ => true
  | _ => false

def Pattern.Fault.isMalformed : Pattern.Fault → Bool
  | .malformed _ _ => true
  | _ => false

theorem Fault.isDefect_ofPattern (label pattern : String) (fault : Pattern.Fault) :
    (Fault.ofPattern label pattern fault).isDefect = fault.isMalformed := by
  cases fault <;> rfl

/-- Whether a computation fails with more than a defect. -/
abbrev Stops {Result : Type} (attempt : Except Fault Result) : Prop :=
  FailsWith (fun fault => fault.isDefect = false) attempt

namespace Foreach

/-- Whether a value is no text whose pattern fails. -/
def Expandable (value : Value) : Prop :=
  ∀ content, value = .text content → ∃ texts, Key.expand content = .ok texts

/-- Of the patterns that fail the first is not malformed, but ends the run. -/
def Breaks : List Value → Prop
  | [] => False
  | value :: rest =>
      (∃ content fault pattern, value = .text content ∧
        Key.expand content = .error (fault, pattern) ∧ fault.isMalformed = false) ∨
      Expandable value ∧ Breaks rest

/-- The same among the values of variables, as far as these are lists. -/
def VariablesBreak : List (String × Value) → Prop
  | [] => False
  | (_, .list items) :: rest =>
      Breaks items ∨ (∀ item ∈ items, Expandable item) ∧ VariablesBreak rest
  | _ :: _ => False

/-- What of an entry with variables ends the run: a pattern, or a number somewhere in one of the
entries that it stands for. -/
inductive Halts (definitions : Fields) (label : String) (entry : Fields) : Prop
  | pattern (ranges : Fields) (given : entry.get? "foreach" = some (.object ranges))
      (breaks : VariablesBreak ranges)
  | number (value : Value) (given : entry.get? "foreach" = some value) (ranges : List Variable)
      (read : readVariables label value = .ok ranges) (combination : Fields)
      (chosen : combination ∈ combinations ranges) (text : String)
      (inside : text ∈ Value.textsOfFields (Template.ofEntry entry).fields)
      (long : ¬ Template.Writable (definitions.overlay combination) text)

variable (label : String)

theorem expandValue_stops_iff (value : Value) :
    Stops (expandValue label value) ↔ ∃ content fault pattern, value = .text content ∧
      Key.expand content = .error (fault, pattern) ∧ fault.isMalformed = false := by
  unfold expandValue
  split
  · next content =>
    cases expanded : Key.expand content with
    | ok texts =>
      refine iff_of_false (not_failsWith_ok _ _) ?_
      rintro ⟨_, _, _, same, failed, _⟩
      cases same
      cases expanded.symm.trans failed
    | error failure =>
      obtain ⟨fault, pattern⟩ := failure
      rw [Stops, failsWith_error_iff, Fault.isDefect_ofPattern]
      constructor
      · exact fun ends => ⟨content, fault, pattern, rfl, expanded, ends⟩
      · rintro ⟨_, _, _, same, failed, ends⟩
        cases same
        cases expanded.symm.trans failed
        exact ends
  · next other =>
    refine iff_of_false (not_failsWith_ok _ _) ?_
    rintro ⟨content, _, _, same, _⟩
    exact other content same

theorem expandValue_ok_iff (value : Value) :
    (∃ values, expandValue label value = .ok values) ↔ Expandable value := by
  unfold expandValue Expandable
  split
  · next content =>
    cases expanded : Key.expand content with
    | ok texts => exact iff_of_true ⟨_, rfl⟩ (by simp [expanded])
    | error failure =>
      refine iff_of_false (by simp) fun each => ?_
      obtain ⟨texts, passed⟩ := each content rfl
      cases expanded.symm.trans passed
  · next other => exact iff_of_true ⟨_, rfl⟩ fun content same => absurd same (other content)

theorem expandValues_ok_iff (values : List Value) :
    (∃ expanded, expandValues label values = .ok expanded) ↔
      ∀ value ∈ values, Expandable value := by
  induction values with
  | nil => exact iff_of_true ⟨_, rfl⟩ (by simp)
  | cons value rest ih =>
    rw [List.forall_mem_cons, ← expandValue_ok_iff label value, ← ih]
    exact both_ok_iff _ _ _

theorem expandValues_stops_iff (values : List Value) :
    Stops (expandValues label values) ↔ Breaks values := by
  induction values with
  | nil => exact iff_of_false (not_failsWith_ok _ _) id
  | cons value rest ih =>
    rw [Breaks, ← expandValue_stops_iff label value, ← expandValue_ok_iff label value, ← ih]
    exact both_failsWith_iff _ _ _ _

theorem readEachVariable_stops_iff (ranges : Fields) :
    Stops (readEachVariable label ranges) ↔ VariablesBreak ranges := by
  induction ranges with
  | nil => exact iff_of_false (not_failsWith_ok _ _) id
  | cons field rest ih =>
    obtain ⟨name, value⟩ := field
    cases value with
    | list items =>
      rw [VariablesBreak, ← expandValues_stops_iff (label ++ ".foreach." ++ name),
        ← expandValues_ok_iff (label ++ ".foreach." ++ name), ← ih]
      exact both_failsWith_iff _ _ _ _
    | _ =>
      refine iff_of_false ?_ id
      rintro ⟨fault, failed, ends⟩
      cases failed
      cases ends

theorem readVariables_stops_iff (value : Value) :
    Stops (readVariables label value) ↔
      ∃ ranges, value = .object ranges ∧ VariablesBreak ranges := by
  unfold readVariables
  split
  · next ranges =>
    rw [readEachVariable_stops_iff]
    constructor
    · exact fun breaks => ⟨ranges, rfl, breaks⟩
    · rintro ⟨_, same, breaks⟩
      cases same
      exact breaks
  · next other =>
    rw [Stops, failsWith_error_iff]
    refine iff_of_false (by simp [Fault.isDefect]) ?_
    rintro ⟨ranges, same, _⟩
    exact other ranges same

section Fill

variable (template : Template) (definitions : Fields)

/-- Filling fails in one way only. -/
theorem fill_stops_iff_not_ends (combination : Fields) :
    Stops (template.fill definitions combination).result ↔
      ¬ (Value.fillFields (definitions.overlay combination) template.fields).Ends := by
  cases result : (Value.fillFields (definitions.overlay combination) template.fields).result with
  | error overlong =>
    simp [Template.fill, Noted.Ends, result, Stops, failsWith_error_iff, Fault.isDefect]
  | ok fields => simp [Template.fill, Noted.Ends, result, Stops, not_failsWith_ok]

theorem fill_ends (combination : Fields)
    (ends : (Value.fillFields (definitions.overlay combination) template.fields).Ends) :
    (template.fill definitions combination).Ends := by
  obtain ⟨fields, result⟩ := ends
  exact ⟨_, by rw [Template.fill, result]⟩

theorem fillAll_stops_iff (chosen : List Fields) :
    Stops (template.fillAll definitions chosen).result ↔
      ∃ combination ∈ chosen, ∃ text ∈ Value.textsOfFields template.fields,
        ¬ Template.Writable (definitions.overlay combination) text := by
  induction chosen with
  | nil => exact iff_of_false (not_failsWith_ok _ _) (by simp)
  | cons combination rest ih =>
    have first : (∃ text ∈ Value.textsOfFields template.fields,
        ¬ Template.Writable (definitions.overlay combination) text) ↔
          Stops (template.fill definitions combination).result := by
      rw [fill_stops_iff_not_ends, Value.fillFields_ends_iff]
      simp
    simp only [List.mem_cons, exists_eq_or_imp]
    rw [first, ← ih]
    refine (Noted.both_failsWith_iff _ _ _ _).trans ?_
    by_cases ends : (Value.fillFields (definitions.overlay combination) template.fields).Ends
    · simp [fill_ends template definitions combination ends]
    · simp [(fill_stops_iff_not_ends template definitions combination).mpr ends]

end Fill

/-- The entries of an entry come to nothing but defects, unless a pattern or a number ends the
run. -/
theorem expand_stops_iff (definitions : Fields) (label : String) (entry : Fields) :
    Stops (expand definitions label entry).result ↔ Halts definitions label entry := by
  unfold expand
  split
  · next alone =>
    refine iff_of_false (not_failsWith_ok _ _) ?_
    rintro (⟨_, given, _⟩ | ⟨_, given, _⟩) <;> cases alone.symm.trans given
  · next value given =>
    rw [Stops, Noted.bind_eq, Noted.andThen_failsWith_iff]
    constructor
    · rintro (stops | ⟨ranges, read, stops⟩)
      · obtain ⟨ranges, rfl, breaks⟩ := (readVariables_stops_iff label value).mp stops
        exact .pattern ranges given breaks
      · obtain ⟨combination, chosen, text, inside, long⟩ :=
          (fillAll_stops_iff _ definitions _).mp stops
        exact .number value given ranges read combination chosen text inside long
    · rintro (⟨ranges, same, breaks⟩ |
        ⟨_, same, ranges, read, combination, chosen, text, inside, long⟩)
      · cases given.symm.trans same
        exact .inl ((readVariables_stops_iff label _).mpr ⟨ranges, rfl, breaks⟩)
      · cases given.symm.trans same
        exact .inr ⟨ranges, read, (fillAll_stops_iff _ definitions _).mpr
          ⟨combination, chosen, text, inside, long⟩⟩

/-! No code is asked for yet. -/

section Codes

variable (lead : String)

theorem expandValue_uncoded (value : Value) :
    ¬ FailsWith (· = .noCode lead) (expandValue label value) := by
  rintro ⟨fault, failed, rfl⟩
  unfold expandValue at failed
  split at failed
  · split at failed
    · cases failed
    · next fault _ _ => cases fault <;> cases failed
  · cases failed

theorem expandValues_uncoded (values : List Value) :
    ¬ FailsWith (· = .noCode lead) (expandValues label values) := by
  induction values with
  | nil => exact not_failsWith_ok _ _
  | cons value rest ih =>
    refine fun failed => ?_
    rcases (both_failsWith_iff _ _ _ _).mp failed with first | ⟨_, later⟩
    · exact expandValue_uncoded label lead value first
    · exact ih later

theorem readEachVariable_uncoded (ranges : Fields) :
    ¬ FailsWith (· = .noCode lead) (readEachVariable label ranges) := by
  induction ranges with
  | nil => exact not_failsWith_ok _ _
  | cons field rest ih =>
    obtain ⟨name, value⟩ := field
    cases value with
    | list items =>
      refine fun failed => ?_
      rcases (both_failsWith_iff _ _ _ _).mp failed with first | ⟨_, later⟩
      · exact expandValues_uncoded _ lead items first
      · exact ih later
    | _ =>
      rintro ⟨_, failed, rfl⟩
      cases failed

theorem fillAll_uncoded (template : Template) (definitions : Fields) (chosen : List Fields) :
    ¬ FailsWith (· = .noCode lead) (template.fillAll definitions chosen).result := by
  induction chosen with
  | nil => exact not_failsWith_ok _ _
  | cons combination rest ih =>
    refine fun failed => ?_
    rcases (Noted.both_failsWith_iff _ _ _ _).mp failed with first | ⟨_, later⟩
    · obtain ⟨_, same, rfl⟩ := first
      unfold Template.fill at same
      dsimp only at same
      split at same <;> cases same
    · exact ih later

theorem expand_uncoded (definitions : Fields) (entry : Fields) :
    ¬ FailsWith (· = .noCode lead) (expand definitions label entry).result := by
  unfold expand
  split
  · exact not_failsWith_ok _ _
  · refine fun failed => ?_
    rcases (Noted.andThen_failsWith_iff _ _ _).mp failed with first | ⟨_, _, later⟩
    · unfold readVariables at first
      split at first
      · exact readEachVariable_uncoded label lead _ first
      · obtain ⟨_, same, rfl⟩ := first
        cases same
    · exact fillAll_uncoded lead _ definitions _ later

end Codes

end Foreach

end Keymap

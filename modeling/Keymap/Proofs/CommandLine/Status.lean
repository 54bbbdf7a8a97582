import Keymap.CommandLine.Run
import Keymap.Proofs.Expr.Substitution
import Keymap.Proofs.Noted

/-!
The status that a query ends with. It is read off the complaints that are shown, so it tells whether
an expression failed only where the limit lets one of them be shown; and a value that is too long to
be printed has the status of a failure (`status_tells_iff`). That does not depend on how the
variables of a query are read: it holds for every reader of YAML.
-/

set_option autoImplicit false

namespace Keymap

namespace Template

open Text (trim)

/-- A span fails if its expression has no value or an undefined one. -/
def spanFails (scope : Fields) : Segment → Bool
  | .plain _ => false
  | .span inner => match Expr.valueOf (String.ofList (trim inner)) scope with
    | .ok (.error _) => true
    | .ok (.ok .undefined) => true
    | _ => false

theorem complaints_of_piece (whole : String) (scope : Fields) (piece : Segment)
    (text : List Char) (notes : List Complaint) (becomes : Becomes whole scope piece text notes) :
    notes.length = if spanFails scope piece then 1 else 0 := by
  cases becomes with
  | plain text => rfl
  | value inner expr value text reads yields defined written =>
    have valued := Expr.valueOf_parsed _ scope expr reads
    cases value with
    | undefined => exact absurd rfl defined
    | _ => simp [spanFails, valued, yields, Except.mapError]
  | undefined inner expr reads yields =>
    have valued := Expr.valueOf_parsed _ scope expr reads
    simp [spanFails, valued, yields, Except.mapError]
  | failed inner expr failure reads fails =>
    have valued := Expr.valueOf_parsed _ scope expr reads
    simp [spanFails, valued, fails, Except.mapError]
  | rejected inner rejection refused reported =>
    simp [spanFails, Expr.valueOf_rejected _ scope rejection refused reported]

theorem complaints_of_pieces (whole : String) (scope : Fields) (pieces : List Segment)
    (text : List Char) (notes : List Complaint) (spliced : Spliced whole scope pieces text notes) :
    notes.length = pieces.countP (spanFails scope) := by
  induction spliced with
  | nil => rfl
  | cons piece rest own others left later first following ih =>
    rw [List.length_append, complaints_of_piece whole scope piece own left first, ih,
      List.countP_cons, Nat.add_comm]

/-- A text that is filled leaves one complaint for each span that fails. -/
theorem complaints_of_fill (scope : Fields) (text result : String)
    (filled : (fill scope text).result = .ok result) :
    (fill scope text).notes.length = (segments text.toList).countP (spanFails scope) := by
  have whole : fill scope text = ⟨(fill scope text).notes, .ok result⟩ := by
    rw [← filled]
  obtain ⟨written, done, _⟩ := (Noted.mapped_yields_iff _ String.ofList _ result).mp whole
  apply complaints_of_pieces text scope _ written
  exact (fillSegments_yields_iff text scope _ written _).mp done

end Template

namespace CommandLine

theorem run_evaluate (yaml : Yaml.Codec) {Run : Type → Type} [Monad Run] [LawfulMonad Run]
    (disk : File.Disk Run) (query : Query) :
    runWith yaml disk (.evaluate query) = pure (finish (query.outcome yaml)) := by
  simp [runWith, runCommand, ExceptT.mk, ExceptT.run]

namespace Query

variable (query : Query) (scope : Fields)

/-- How many expressions of a query fail: the one that it is, or spans of the template. -/
def failures : Nat :=
  if query.isTemplate then
    (Template.segments query.expression.toList).countP (Template.spanFails scope)
  else match Expr.valueOf query.expression scope with
    | .ok (.error _) => 1
    | _ => 0

/-- Whether the evaluator comes to its end. -/
def Evaluated : Prop :=
  let evaluator := Evaluator.new query.errorLimit
  if query.isTemplate then ∃ text, (evaluator.fillText query.expression scope).1 = .ok text
  else ∃ value, (evaluator.evaluate query.expression scope).1 = .ok value

/-- Whether the value, if there is one, holds no integer that is too long to be printed. -/
def Printable : Prop :=
  query.isTemplate = true ∨
    ∀ value, Expr.valueOf query.expression scope = .ok (.ok value) → value.fitsDigits = true

/-- Whether the limit lets a complaint of so many be shown. -/
def Shows (limit : Int) (count : Nat) : Prop := 0 < limit ∨ limit < 0 ∧ limit.natAbs < count

/-- Once its variables are read, what a query ends with does not depend on the reader. -/
theorem outcome_defined (yaml : Yaml.Codec)
    (defined : scopeOf yaml [] query.definitions = .ok scope) :
    query.outcome yaml = query.outcomeIn scope := by
  rw [outcome, defined]
  rfl

theorem reported_isEmpty_iff (evaluator : Evaluator) : evaluator.reported.isEmpty = false ↔
    0 < evaluator.pending.length ∧ Shows evaluator.limit evaluator.pending.length := by
  rw [← Bool.not_eq_true, List.isEmpty_iff_length_eq_zero]
  unfold Evaluator.reported Shows
  split
  · rw [List.length_take]
    omega
  · rw [List.length_take]
    omega

theorem printed_fits_iff (value : Value) :
    (∃ text, printed value = .ok text) ↔ value.fitsDigits = true := by
  cases value with
  | undefined => exact iff_of_true ⟨_, rfl⟩ rfl
  | text content => exact iff_of_true ⟨_, rfl⟩ rfl
  | _ =>
    unfold printed
    dsimp only
    split
    · next fits => exact iff_of_true ⟨_, rfl⟩ fits
    · next long => exact iff_of_false (fun ⟨_, same⟩ => nomatch same) long

/-- A query with an answer ends with it, and with the status that the complaints give. -/
theorem outcome_of_answer (text : String) (complaints : List Complaint)
    (answered : query.answer scope = (.ok text, (Evaluator.new query.errorLimit).note complaints)) :
    ∃ outcome, finish (query.outcomeIn scope) = .exits outcome ∧ outcome.status ≤ 1 ∧
      (outcome.status = 1 ↔
        0 < complaints.length ∧ Shows query.errorLimit complaints.length) := by
  have ended : query.outcomeIn scope = .ok
      ⟨if ((Evaluator.new query.errorLimit).note complaints).reported.isEmpty then 0 else 1,
        text ++ "\n",
        complaintLines ((Evaluator.new query.errorLimit).note complaints).reported⟩ := by
    unfold outcomeIn
    rw [answered]
    rfl
  have told := reported_isEmpty_iff ((Evaluator.new query.errorLimit).note complaints)
  rw [ended]
  refine ⟨_, rfl, ?_, ?_⟩
  · dsimp only
    split <;> decide
  · apply Iff.trans ?_ told
    dsimp only
    cases ((Evaluator.new query.errorLimit).note complaints).reported.isEmpty <;> decide

/-- A query whose value cannot be printed has the status of a failure. -/
theorem outcome_of_unprinted (overlong : Overlong) (evaluator : Evaluator)
    (answered : query.answer scope = (.error overlong, evaluator)) :
    ∃ outcome, finish (query.outcomeIn scope) = .exits outcome ∧ outcome.status = 1 := by
  have stopped : query.outcomeIn scope = .error (.fault (.overlong overlong)) := by
    unfold outcomeIn
    rw [answered]
    rfl
  rw [stopped]
  exact ⟨_, rfl, rfl⟩

theorem status_of_template (template : query.isTemplate = true)
    (evaluated : query.Evaluated scope) :
    ∃ outcome, finish (query.outcomeIn scope) = .exits outcome ∧ outcome.status ≤ 1 ∧
      (outcome.status = 1 ↔
        0 < query.failures scope ∧ Shows query.errorLimit (query.failures scope)) := by
  unfold Evaluated at evaluated
  rw [template] at evaluated
  obtain ⟨text, filled⟩ := evaluated
  have answered : query.answer scope = (.ok text, (Evaluator.new query.errorLimit).note
      (Template.fill scope query.expression).notes) := by
    unfold answer
    rw [if_pos template]
    exact Prod.ext filled rfl
  have counted : query.failures scope = (Template.fill scope query.expression).notes.length := by
    rw [Template.complaints_of_fill scope query.expression text filled, failures, if_pos template]
  rw [counted]
  exact outcome_of_answer query scope text _ answered

section Expression

variable (single : query.isTemplate = false)

include single

theorem status_of_failed (failure : Failure)
    (valued : Expr.valueOf query.expression scope = .ok (.error failure)) :
    ∃ outcome, finish (query.outcomeIn scope) = .exits outcome ∧ outcome.status ≤ 1 ∧
      (outcome.status = 1 ↔ Shows query.errorLimit 1) := by
  have answered : query.answer scope = (.ok "undefined",
      (Evaluator.new query.errorLimit).note [.evaluation query.expression failure]) := by
    unfold answer
    rw [if_neg (by simp [single])]
    simp only [Evaluator.evaluate, valued]
    rfl
  simpa using outcome_of_answer query scope _ _ answered

theorem status_of_value (value : Value)
    (valued : Expr.valueOf query.expression scope = .ok (.ok value)) :
    ∃ outcome, finish (query.outcomeIn scope) = .exits outcome ∧ outcome.status ≤ 1 ∧
      (outcome.status = 1 ↔ ¬ value.fitsDigits = true) := by
  have answered : query.answer scope =
      (printed value, (Evaluator.new query.errorLimit).note []) := by
    unfold answer
    rw [if_neg (by simp [single])]
    simp only [Evaluator.evaluate, valued]
    rfl
  rw [← printed_fits_iff]
  cases shown : printed value with
  | error overlong =>
    rw [shown] at answered
    obtain ⟨outcome, ended, failed⟩ := outcome_of_unprinted query scope overlong _ answered
    exact ⟨outcome, ended, failed.le, by simp [failed]⟩
  | ok text =>
    rw [shown] at answered
    simpa using outcome_of_answer query scope text _ answered

/-- Of one expression at most one failure is counted, and then there is no value to print. -/
theorem status_of_expression (evaluated : query.Evaluated scope) :
    ∃ outcome, finish (query.outcomeIn scope) = .exits outcome ∧ outcome.status ≤ 1 ∧
      (outcome.status = 1 ↔ ¬ query.Printable scope ∨
        0 < query.failures scope ∧ Shows query.errorLimit (query.failures scope)) := by
  have plain : ¬ query.isTemplate = true := by simp [single]
  unfold Evaluated at evaluated
  rw [single] at evaluated
  obtain ⟨answer, found⟩ := evaluated
  rw [failures, if_neg plain, Printable]
  cases valued : Expr.valueOf query.expression scope with
  | error overlong => simp [Evaluator.evaluate, valued] at found
  | ok valuation =>
    cases valuation with
    | error failure =>
      simpa [single] using status_of_failed query scope single failure valued
    | ok value => simpa [single] using status_of_value query scope single value valued

end Expression

theorem printable_of_failed (failed : query.failures scope ≠ 0) : query.Printable scope := by
  unfold failures at failed
  split at failed
  · next template => exact .inl template
  · refine .inr fun value valued => ?_
    rw [valued] at failed
    exact absurd rfl failed

/-- Whatever reads the values of its variables: where the evaluator comes to its end, a query ends
with status nought or one. It is one exactly if the value cannot be printed, or some expression
failed and the limit lets a complaint be shown. So the status tells whether an expression failed
exactly if, where none failed, the value can be printed and, where some did, the limit is positive
or leaves out fewer complaints than there are. -/
theorem status_tells_iff (yaml : Yaml.Codec)
    (defined : scopeOf yaml [] query.definitions = .ok scope) (evaluated : query.Evaluated scope) :
    ∃ outcome, (∀ {Run : Type → Type} [Monad Run] [LawfulMonad Run] (disk : File.Disk Run),
        runWith yaml disk (.evaluate query) = pure (.exits outcome)) ∧
      let failed := query.failures scope
      outcome.status ≤ 1 ∧
      (outcome.status = 1 ↔
        ¬ query.Printable scope ∨ 0 < failed ∧ Shows query.errorLimit failed) ∧
      ((outcome.status = if failed = 0 then 0 else 1) ↔
        if failed = 0 then query.Printable scope else Shows query.errorLimit failed) := by
  have settled : ∃ outcome, finish (query.outcomeIn scope) = .exits outcome ∧
      outcome.status ≤ 1 ∧ (outcome.status = 1 ↔ ¬ query.Printable scope ∨
        0 < query.failures scope ∧ Shows query.errorLimit (query.failures scope)) := by
    cases kind : query.isTemplate with
    | true =>
      have printable : query.Printable scope := .inl kind
      simpa [printable] using status_of_template query scope kind evaluated
    | false => exact status_of_expression query scope kind evaluated
  obtain ⟨outcome, ended, bound, told⟩ := settled
  refine ⟨outcome, fun disk => ?_, bound, told, ?_⟩
  · rw [run_evaluate, outcome_defined query scope yaml defined, ended]
  by_cases nothing : query.failures scope = 0
  · simp only [nothing, if_true]
    simp only [nothing, Nat.lt_irrefl, false_and, or_false] at told
    rw [← not_iff_not, ← told]
    omega
  · have counted : 0 < query.failures scope := Nat.pos_of_ne_zero nothing
    have printable := printable_of_failed query scope nothing
    simp only [nothing, if_false]
    simpa [printable, counted] using told

/-- Two of three spans fail, and of the complaints the limit leaves out the last. -/
def partlyShown : Query where
  expression := "\x7b\x7b1 / 0\x7d\x7d \x7b\x7bup\x7d\x7d \x7b\x7bx\x7d\x7d"
  isTemplate := true
  definitions := ["x=y"]
  errorLimit := -1

theorem partlyShown_fails :
    ∃ scope outcome, scopeOf Yaml.basic [] partlyShown.definitions = .ok scope ∧
      partlyShown.Evaluated scope ∧ partlyShown.failures scope = 2 ∧
      run File.Tree.disk (.evaluate partlyShown) = pure (.exits outcome) ∧ outcome.status = 1 := by
  obtain ⟨scope, defined, checked⟩ := ended_of_check
    (scopeOf Yaml.basic [] partlyShown.definitions)
    (fun scope => partlyShown.failures scope = 2 &&
      (Template.fill scope partlyShown.expression).result.isOk) (by decide +kernel)
  rw [Bool.and_eq_true, decide_eq_true_eq] at checked
  obtain ⟨two, filled⟩ := checked
  have evaluated : partlyShown.Evaluated scope := by
    cases ended : (Template.fill scope partlyShown.expression).result with
    | error overlong => simp [ended, Except.isOk, Except.toBool] at filled
    | ok text => exact ⟨text, ended⟩
  obtain ⟨outcome, ended, _, told, _⟩ :=
    status_tells_iff partlyShown scope Yaml.basic defined evaluated
  refine ⟨scope, outcome, defined, evaluated, two, ended File.Tree.disk, told.mpr (.inr ?_)⟩
  rw [two]
  exact ⟨by decide, .inr (by decide)⟩

/-- With a limit of nought a failure leaves the status at nought, whatever reads the variables. -/
theorem failure_untold :
    ¬ ∃ yaml : Yaml.Codec, ∀ (query : Query) (scope : Fields),
      scopeOf yaml [] query.definitions = .ok scope → query.Evaluated scope →
        ∃ outcome, finish (query.outcome yaml) = .exits outcome ∧
          outcome.status = if query.failures scope = 0 then 0 else 1 := by
  rintro ⟨yaml, tells⟩
  obtain ⟨shown, ended, status⟩ := tells ⟨"1 / 0", false, [], 0⟩ [] rfl ⟨.undefined, rfl⟩
  rw [outcome_defined _ [] yaml rfl] at ended
  have nought : finish (outcomeIn ⟨"1 / 0", false, [], 0⟩ []) = .exits ⟨0, "undefined\n", ""⟩ := by
    decide +kernel
  have one : failures ⟨"1 / 0", false, [], 0⟩ [] = 1 := by decide +kernel
  rw [one] at status
  cases nought.symm.trans ended
  exact absurd status (by decide)

end Query

end CommandLine

end Keymap

import Keymap.Expr.Template
import Mathlib.Data.List.Basic

/-!
What the reports of an evaluator show. Complaints wait in the order in which they were recorded, and
a report forgets them all, so none is shown twice or by a later report. The limit bounds a report
unless it is negative: then a report shows all but the last complaints (`report_bounded_iff`).
-/

set_option autoImplicit false

namespace Keymap.Evaluator

/-- What an evaluator is asked for. -/
inductive Request where
  | evaluate (source : String) (scope : Fields)
  | fillText (text : String) (scope : Fields)
  | fillValue (value : Value) (scope : Fields)
  | report

/-- The complaints that a request records, also if it does not come to its end. -/
def Request.records : Request → List Complaint
  | .evaluate source scope => match Expr.valueOf source scope with
    | .ok (.error failure) => [.evaluation source failure]
    | _ => []
  | .fillText text scope => (Template.fill scope text).notes
  | .fillValue value scope => (value.fill scope).notes
  | .report => []

def serve (evaluator : Evaluator) : Request → Evaluator
  | .evaluate source scope => (evaluator.evaluate source scope).2
  | .fillText text scope => (evaluator.fillText text scope).2
  | .fillValue value scope => (evaluator.fillValue value scope).2
  | .report => evaluator.report.2

def serveAll (evaluator : Evaluator) (history : List Request) : Evaluator :=
  history.foldl serve evaluator

/-- What the reports of a history show, one after the other. -/
def shown (evaluator : Evaluator) : List Request → List (List Complaint)
  | [] => []
  | .report :: rest => evaluator.report.1 :: shown evaluator.report.2 rest
  | request :: rest => shown (evaluator.serve request) rest

theorem serve_limit (evaluator : Evaluator) (request : Request) :
    (evaluator.serve request).limit = evaluator.limit := by
  cases request with
  | evaluate source scope =>
    unfold serve evaluate
    dsimp only
    split <;> rfl
  | _ => rfl

/-- All requests but a report add what they record to what waits. -/
theorem serve_records (evaluator : Evaluator) (request : Request) (asks : request ≠ .report) :
    (evaluator.serve request).pending = evaluator.pending ++ request.records := by
  cases request with
  | evaluate source scope =>
    simp only [serve, evaluate, Request.records]
    rcases Expr.valueOf source scope with _ | _ | _ <;> simp [note]
  | report => exact absurd rfl asks
  | _ => rfl

theorem serveAll_limit (evaluator : Evaluator) (history : List Request) :
    (evaluator.serveAll history).limit = evaluator.limit := by
  induction history generalizing evaluator with
  | nil => rfl
  | cons request rest ih => exact (ih _).trans (serve_limit evaluator request)

theorem serveAll_append (evaluator : Evaluator) (past later : List Request) :
    evaluator.serveAll (past ++ later) = (evaluator.serveAll past).serveAll later :=
  List.foldl_append

/-- Without a report all that is recorded waits, in its order. -/
theorem serveAll_quiet (evaluator : Evaluator) (between : List Request)
    (quiet : Request.report ∉ between) :
    (evaluator.serveAll between).pending =
      evaluator.pending ++ between.flatMap Request.records := by
  induction between generalizing evaluator with
  | nil => simp [serveAll]
  | cons request rest ih =>
    obtain ⟨asks, quiet⟩ := not_or.mp (mt List.mem_cons.mpr quiet)
    have first := serve_records evaluator request (Ne.symm asks)
    rw [serveAll, List.foldl_cons, ← serveAll, ih _ quiet, first, List.flatMap_cons,
      List.append_assoc]

/-- At the start and right after a report nothing waits. -/
theorem serveAll_fresh (limit : Int) (past : List Request)
    (fresh : past = [] ∨ past.getLast? = some .report) :
    ((new limit).serveAll past).pending = [] := by
  rcases fresh with rfl | last
  · rfl
  · obtain ⟨earlier, rfl⟩ := List.getLast?_eq_some_iff.mp last
    rw [serveAll_append]
    rfl

theorem reported_from_start (evaluator : Evaluator) : evaluator.reported <+: evaluator.pending := by
  unfold reported
  split <;> exact List.take_prefix _ _

/-- A report shows as many of the first complaints as the limit allows unless that is negative and
fewer than that many are left out. -/
theorem reported_eq_iff (evaluator : Evaluator) :
    evaluator.reported = evaluator.pending.take evaluator.limit.toNat ↔
      0 ≤ evaluator.limit ∨ evaluator.pending.length ≤ evaluator.limit.natAbs := by
  unfold reported
  by_cases allows : 0 ≤ evaluator.limit
  · simp [allows]
  · have nought : evaluator.limit.toNat = 0 := by omega
    rw [if_neg allows, nought, List.take_zero, List.take_eq_nil_iff]
    simp only [allows, false_or, ← List.length_eq_zero_iff]
    omega

theorem reported_length_iff (evaluator : Evaluator) :
    (evaluator.reported.length : Int) ≤ max evaluator.limit 0 ↔
      0 ≤ evaluator.limit ∨ evaluator.pending.length ≤ evaluator.limit.natAbs := by
  unfold reported
  split <;> rw [List.length_take] <;> omega

/-- All that is shown was recorded, in that order and no more often. -/
theorem shown_sublist (evaluator : Evaluator) (history : List Request) :
    (evaluator.shown history).flatten.Sublist
      (evaluator.pending ++ history.flatMap Request.records) := by
  induction history generalizing evaluator with
  | nil => exact List.nil_sublist _
  | cons request rest ih =>
    rw [List.flatMap_cons]
    cases request with
    | report =>
      rw [shown, List.flatten_cons]
      refine (reported_from_start evaluator).sublist.append ?_
      simpa [Request.records, report] using ih evaluator.report.2
    | _ =>
      rw [shown, ← List.append_assoc, ← serve_records evaluator _ (by simp)]
      · exact ih _
      · simp

theorem shown_append (evaluator : Evaluator) (past later : List Request) :
    evaluator.shown (past ++ later) =
      evaluator.shown past ++ (evaluator.serveAll past).shown later := by
  induction past generalizing evaluator with
  | nil => rfl
  | cons request rest ih =>
    cases request with
    | report =>
      rw [List.cons_append, shown, shown, ih]
      rfl
    | _ => exact ih _

theorem shown_quiet (evaluator : Evaluator) (between : List Request)
    (quiet : Request.report ∉ between) : evaluator.shown between = [] := by
  induction between generalizing evaluator with
  | nil => rfl
  | cons request rest ih =>
    obtain ⟨asks, others⟩ := not_or.mp (mt List.mem_cons.mpr quiet)
    cases request with
    | report => exact absurd rfl asks
    | _ => exact ih _ others

/-- Whatever was asked for before, a report shows the first of the complaints that were recorded
since the report before, and none waits afterwards. It shows as many as the limit allows, and not
more, exactly if the limit is not negative or leaves out all of them. -/
theorem report_bounded_iff (limit : Int) (past between : List Request)
    (fresh : past = [] ∨ past.getLast? = some .report) (quiet : Request.report ∉ between) :
    let state := (new limit).serveAll (past ++ between)
    let recorded := between.flatMap Request.records
    state.pending = recorded ∧ state.report.1 <+: recorded ∧ state.report.2.pending = [] ∧
    (state.report.1 = recorded.take limit.toNat ↔
      0 ≤ limit ∨ recorded.length ≤ limit.natAbs) ∧
    ((state.report.1.length : Int) ≤ max limit 0 ↔
      0 ≤ limit ∨ recorded.length ≤ limit.natAbs) ∧
    ∀ future, let history := past ++ between ++ .report :: future
      (new limit).shown history =
        (new limit).shown past ++ state.report.1 :: state.report.2.shown future ∧
      ((new limit).shown history).flatten.Sublist (history.flatMap Request.records) := by
  intro state recorded
  have waits : ((new limit).serveAll (past ++ between)).pending = recorded := by
    rw [serveAll_append, serveAll_quiet _ between quiet, serveAll_fresh limit past fresh,
      List.nil_append]
  have kept : ((new limit).serveAll (past ++ between)).limit = limit :=
    serveAll_limit (new limit) (past ++ between)
  have shows := reported_from_start ((new limit).serveAll (past ++ between))
  have allowed := reported_eq_iff ((new limit).serveAll (past ++ between))
  have counted := reported_length_iff ((new limit).serveAll (past ++ between))
  rw [waits] at shows
  rw [waits, kept] at allowed counted
  refine ⟨waits, shows, rfl, allowed, counted, fun future => ⟨?_, shown_sublist (new limit) _⟩⟩
  rw [shown_append, shown_append, shown_quiet _ between quiet, List.append_nil]
  rfl

/-- A division by nought, a text with two unknown names, and a name that is known. -/
def mistakes : List Request :=
  [.evaluate "1 / 0" [], .fillText "\x7b\x7bup\x7d\x7d \x7b\x7bdown\x7d\x7d" [],
   .evaluate "up" [("up", .null)]]

theorem mistakes_bounded :
    let state := (new 2).serveAll ([.evaluate "1 / 0" [], .report] ++ mistakes)
    state.pending.length = 3 ∧ state.report.1 = (mistakes.flatMap Request.records).take 2 ∧
      state.report.2.pending = [] := by
  obtain ⟨waits, _, forgets, allowed, _, _⟩ := report_bounded_iff 2
    [.evaluate "1 / 0" [], .report] mistakes (.inr rfl) (by simp [mistakes])
  refine ⟨?_, allowed.mpr (.inl (by decide)), forgets⟩
  rw [waits]
  decide +kernel

/-- With a negative limit a report shows more than the limit allows. -/
theorem negative_limit_exceeded :
    ¬ ∀ (limit : Int) (history : List Request), ∀ answer ∈ (new limit).shown history,
      (answer.length : Int) ≤ max limit 0 := by
  intro bounded
  exact absurd (bounded (-1) [.evaluate "1 / 0" [], .evaluate "2 / 0" [], .report])
    (by decide +kernel)

end Keymap.Evaluator

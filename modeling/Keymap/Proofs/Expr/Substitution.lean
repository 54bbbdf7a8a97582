import Keymap.Proofs.Expr.Filling
import Keymap.Proofs.Value.Fields
import Mathlib.Data.List.Infix
import Mathlib.Order.WellFounded

/-!
What filling makes of a value. A text is divided in one way into plain text and spans, each span
opening as early and closing as early as it can (`Template.exists_scanned`, `Scanned.unique`). The
filled value has the shape of the value; in its texts the spans that have a value are replaced,
once, and each of the others stays and leaves one complaint (`fillValue_spliced`).
-/

set_option autoImplicit false

namespace Keymap

namespace Noted

variable {Note Failure Result Other Next : Type}

theorem mapped_yields_iff (first : Noted Note Failure Result) (change : Result → Next)
    (notes : List Note) (last : Next) :
    (first.andThen fun value => (pure (change value) : Noted Note Failure Next)) =
        ⟨notes, .ok last⟩ ↔
      ∃ value, first = ⟨notes, .ok value⟩ ∧ last = change value := by
  obtain ⟨own, result⟩ := first
  cases result with
  | error failure => simp [andThen]
  | ok value =>
    simp only [andThen, pure_eq, done, List.append_nil, Noted.mk.injEq, Except.ok.injEq]
    constructor
    · rintro ⟨rfl, rfl⟩
      exact ⟨value, ⟨rfl, rfl⟩, rfl⟩
    · rintro ⟨_, ⟨rfl, rfl⟩, rfl⟩
      exact ⟨rfl, rfl⟩

theorem both_yields_iff (first : Noted Note Failure Result) (second : Noted Note Failure Other)
    (combine : Result → Other → Next) (notes : List Note) (last : Next) :
    (first.andThen fun left => second.andThen fun right =>
        (pure (combine left right) : Noted Note Failure Next)) = ⟨notes, .ok last⟩ ↔
      ∃ left right own others, first = ⟨own, .ok left⟩ ∧ second = ⟨others, .ok right⟩ ∧
        last = combine left right ∧ notes = own ++ others := by
  obtain ⟨own, result⟩ := first
  cases result with
  | error failure => simp [andThen]
  | ok left =>
    obtain ⟨others, later⟩ := second
    cases later with
    | error failure => simp [andThen]
    | ok right =>
      simp only [andThen, pure_eq, done, List.append_nil, Noted.mk.injEq, Except.ok.injEq]
      constructor
      · rintro ⟨rfl, rfl⟩
        exact ⟨left, right, own, others, ⟨rfl, rfl⟩, ⟨rfl, rfl⟩, rfl, rfl⟩
      · rintro ⟨_, _, _, _, ⟨rfl, rfl⟩, ⟨rfl, rfl⟩, rfl, rfl⟩
        exact ⟨rfl, rfl⟩

end Noted

namespace Template

open Text (trim)

section Scanning

/-- A span between what comes before and after it. -/
def spanned (before inner after : List Char) : List Char :=
  before ++ '{' :: '{' :: (inner ++ '}' :: '}' :: after)

/-- The first span of a text opens as early as any, and closes as early as it can. -/
structure FirstSpan (text before inner after : List Char) : Prop where
  whole : text = spanned before inner after
  leftmost : ∀ earlier other rest, text = spanned earlier other rest →
    before.length ≤ earlier.length
  shortest : ∀ other rest, text = spanned before other rest → inner.length ≤ other.length

/-- The pieces of a text: what comes before its first span, the span, and the pieces of the rest. -/
inductive Scanned : List Char → List Segment → Prop
  | last (text : List Char) (spanless : ∀ before inner after, text ≠ spanned before inner after) :
      Scanned text [.plain text]
  | next (text before inner after : List Char) (pieces : List Segment)
      (first : FirstSpan text before inner after) (others : Scanned after pieces) :
      Scanned text (.plain before :: .span inner :: pieces)

theorem spanned_cons (c : Char) (before inner after : List Char) :
    spanned (c :: before) inner after = c :: spanned before inner after := rfl

/-- Behind its first character a text with a span still holds where the span closes. -/
theorem spanned_tail (c : Char) (before inner after rest : List Char)
    (same : spanned before inner after = c :: rest) :
    ∃ other, rest = other ++ '}' :: '}' :: after := by
  cases before with
  | nil => exact ⟨'{' :: inner, (List.cons.inj same).2.symm⟩
  | cons d before =>
    refine ⟨before ++ '{' :: '{' :: inner, ?_⟩
    rw [← (List.cons.inj same).2]
    simp

theorem exists_firstSpan (before inner after : List Char) :
    ∃ first own rest, FirstSpan (spanned before inner after) first own rest := by
  let text := spanned before inner after
  obtain ⟨⟨first, other, tail⟩, opens, earliest⟩ :=
    (measure fun cut : List Char × List Char × List Char => cut.1.length).wf.has_min
      {cut | text = spanned cut.1 cut.2.1 cut.2.2} ⟨(before, inner, after), rfl⟩
  obtain ⟨⟨own, rest⟩, closes, soonest⟩ :=
    (measure fun cut : List Char × List Char => cut.1.length).wf.has_min
      {cut | text = spanned first cut.1 cut.2} ⟨(other, tail), opens⟩
  refine ⟨first, own, rest, closes, fun earlier inner after same => ?_, fun inner after same => ?_⟩
  · exact not_lt.mp (earliest (earlier, inner, after) same)
  · exact not_lt.mp (soonest (inner, after) same)

theorem FirstSpan.unique {text before inner after first own rest : List Char}
    (left : FirstSpan text before inner after) (right : FirstSpan text first own rest) :
    before = first ∧ inner = own ∧ after = rest := by
  have whole := left.whole.symm.trans right.whole
  have sameStart : before.length = first.length :=
    le_antisymm (left.leftmost _ _ _ right.whole) (right.leftmost _ _ _ left.whole)
  obtain ⟨rfl, spans⟩ := List.append_inj whole sameStart
  have sameSize : inner.length = own.length :=
    le_antisymm (left.shortest _ _ right.whole) (right.shortest _ _ left.whole)
  obtain ⟨rfl, closed⟩ := List.append_inj (List.cons.inj (List.cons.inj spans).2).2 sameSize
  exact ⟨rfl, rfl, (List.cons.inj (List.cons.inj closed).2).2⟩

theorem FirstSpan.shorter {text before inner after : List Char}
    (first : FirstSpan text before inner after) : after.length < text.length := by
  rw [first.whole, spanned]
  simp
  omega

theorem exists_scanned (text : List Char) : ∃ pieces, Scanned text pieces := by
  by_cases spans : ∃ before inner after, text = spanned before inner after
  · obtain ⟨before, inner, after, rfl⟩ := spans
    obtain ⟨first, own, rest, found⟩ := exists_firstSpan before inner after
    have shorter := found.shorter
    obtain ⟨pieces, others⟩ := exists_scanned rest
    exact ⟨_, .next _ first own rest pieces found others⟩
  · refine ⟨_, .last text fun before inner after same => spans ⟨before, inner, after, same⟩⟩
termination_by text.length

theorem Scanned.unique {text : List Char} {pieces others : List Segment}
    (left : Scanned text pieces) (right : Scanned text others) : pieces = others := by
  induction left generalizing others with
  | last text none =>
    cases right with
    | last => rfl
    | next _ before inner after _ first => exact absurd first.whole (none before inner after)
  | next text before inner after pieces first _ ih =>
    cases right with
    | last _ none => exact absurd first.whole (none before inner after)
    | next _ _ _ _ _ found rest =>
      obtain ⟨rfl, rfl, rfl⟩ := first.unique found
      rw [ih rest]

end Scanning

section Cutting

variable (whole : String) (scope : Fields)

theorem cut_closing (inner after passed : List Char)
    (shortest : ∀ other rest, inner ++ '}' :: '}' :: after = other ++ '}' :: '}' :: rest →
      inner.length ≤ other.length) :
    cut (.inside passed) (inner ++ '}' :: '}' :: after) =
      .span (passed.reverse ++ inner) :: cut (.outside []) after := by
  induction inner generalizing passed with
  | nil => simp [cut]
  | cons c inner ih =>
    rw [List.cons_append, cut, ih (c :: passed)]
    · simp
    · intro other rest same
      have longer := shortest (c :: other) rest (by rw [List.cons_append, List.cons_append, same])
      simpa using longer
    · -- Two closing braces here would have closed the span before.
      rintro rest rfl same
      have earlier := shortest [] rest (by rw [List.cons_append, same]; rfl)
      simp at earlier

theorem cut_unclosed (text passed : List Char)
    (unclosed : ∀ other rest, text ≠ other ++ '}' :: '}' :: rest) :
    cut (.inside passed) text = [.plain ('{' :: '{' :: (passed.reverse ++ text))] := by
  induction text generalizing passed with
  | nil => simp [cut]
  | cons c text ih =>
    rw [cut, ih (c :: passed)]
    · simp
    · intro other rest same
      exact unclosed (c :: other) rest (by rw [same, List.cons_append])
    · rintro rest rfl rfl
      exact unclosed [] rest rfl

/-- Up to its first span a text is plain, and after it the cut starts anew. -/
theorem cut_first (text before inner after passed : List Char)
    (first : FirstSpan text before inner after) :
    cut (.outside passed) text =
      .plain (passed.reverse ++ before) :: .span inner :: cut (.outside []) after := by
  induction before generalizing text passed with
  | nil =>
    have closes := cut_closing inner after [] fun other rest same =>
      first.shortest other rest (by rw [first.whole, spanned, spanned, same])
    rw [first.whole, spanned, List.nil_append, cut, closes, List.append_nil]
    rfl
  | cons c before ih =>
    have later : FirstSpan (spanned before inner after) before inner after := by
      refine ⟨rfl, fun earlier other rest same => ?_, fun other rest same => ?_⟩
      · have within := first.leftmost (c :: earlier) other rest
          (by rw [first.whole, spanned_cons, spanned_cons, same])
        simpa using within
      · exact first.shortest other rest (by rw [first.whole, spanned_cons, spanned_cons, same])
    rw [first.whole, spanned_cons, cut, ih _ (c :: passed) later]
    · simp
    · -- Two opening braces here would have opened a span that closes where this one does.
      rintro rest rfl same
      obtain ⟨other, rfl⟩ := spanned_tail '{' before inner after rest same
      have earlier := first.leftmost [] other after (by rw [first.whole, spanned_cons, same]; rfl)
      simp at earlier

theorem fillSegments_plain (text : List Char) (rest : List Segment) (filled : List Char)
    (others : fillSegments whole scope rest = .done filled) :
    fillSegments whole scope (.plain text :: rest) = .done (text ++ filled) := by
  rw [fillSegments, others]
  rfl

theorem fillSegments_without_span (text passed : List Char)
    (spanless : ∀ before inner after, text ≠ spanned before inner after) :
    fillSegments whole scope (cut (.outside passed) text) = .done (passed.reverse ++ text) := by
  induction text generalizing passed with
  | nil => exact fillSegments_plain whole scope passed.reverse [] [] rfl
  | cons c text ih =>
    by_cases opens : c = '{' ∧ ∃ tail, text = '{' :: tail
    · obtain ⟨rfl, tail, rfl⟩ := opens
      have unclosed : ∀ other rest, tail ≠ other ++ '}' :: '}' :: rest := fun other rest same =>
        spanless [] other rest (by rw [same]; rfl)
      rw [cut, cut_unclosed tail [] unclosed]
      apply fillSegments_plain
      simpa using fillSegments_plain whole scope ('{' :: '{' :: tail) [] [] rfl
    · rw [cut, ih (c :: passed)]
      · simp
      · intro before inner after same
        exact spanless (c :: before) inner after (by rw [same, spanned_cons])
      · rintro tail rfl rfl
        exact opens ⟨rfl, tail, rfl⟩

/-- A text is filled piece by piece. -/
theorem fillSegments_scanned (text : List Char) (pieces : List Segment)
    (scanned : Scanned text pieces) :
    fillSegments whole scope (segments text) = fillSegments whole scope pieces := by
  unfold segments
  induction scanned with
  | last text none =>
    rw [fillSegments_without_span whole scope text [] none,
      fillSegments_plain whole scope text [] [] rfl, List.append_nil]
    rfl
  | next text before inner after pieces first others ih =>
    rw [cut_first text before inner after [] first]
    simp only [fillSegments, ih]
    rfl

end Cutting

section Splicing

/-- What one piece of a text becomes, and the complaints it leaves. A span whose expression has a
value is replaced by the text of the value; any other stays as it is written and leaves one. -/
inductive Becomes (whole : String) (scope : Fields) : Segment → List Char → List Complaint → Prop
  | plain (text : List Char) : Becomes whole scope (.plain text) text []
  | value (inner : List Char) (expr : Expr) (value : Value) (text : String)
      (reads : Expr.parse (trim inner) = .ok expr) (yields : expr.evaluate scope = .ok value)
      (defined : value ≠ .undefined) (written : value.splice = .ok text) :
      Becomes whole scope (.span inner) text.toList []
  | undefined (inner : List Char) (expr : Expr) (reads : Expr.parse (trim inner) = .ok expr)
      (yields : expr.evaluate scope = .ok .undefined) :
      Becomes whole scope (.span inner) (Segment.span inner).written
        [.span (String.ofList (Segment.span inner).written) whole none]
  | failed (inner : List Char) (expr : Expr) (failure : EvalError)
      (reads : Expr.parse (trim inner) = .ok expr) (fails : expr.evaluate scope = .error failure) :
      Becomes whole scope (.span inner) (Segment.span inner).written
        [.span (String.ofList (Segment.span inner).written) whole (some (.failed failure))]
  | rejected (inner : List Char) (rejection : Expr.Rejection)
      (refused : Expr.parse (trim inner) = .error rejection)
      (reported : ¬ ∃ digits, rejection = .overlong digits) :
      Becomes whole scope (.span inner) (Segment.span inner).written
        [.span (String.ofList (Segment.span inner).written) whole
          (some (.rejected (String.ofList (trim inner)) rejection))]

/-- The pieces of a text one after the other. What a span was replaced by is not looked at again. -/
inductive Spliced (whole : String) (scope : Fields) :
    List Segment → List Char → List Complaint → Prop
  | nil : Spliced whole scope [] [] []
  | cons (piece : Segment) (rest : List Segment) (own others : List Char)
      (left later : List Complaint) (first : Becomes whole scope piece own left)
      (following : Spliced whole scope rest others later) :
      Spliced whole scope (piece :: rest) (own ++ others) (left ++ later)

/-- A text and what it is filled to, with the complaints. -/
def Filled (scope : Fields) (text result : String) (notes : List Complaint) : Prop :=
  ∃ pieces, Scanned text.toList pieces ∧ Spliced text scope pieces result.toList notes

variable (whole : String) (scope : Fields)

section Spans

variable (inner : List Char)

theorem fillSegment_overlong (overlong : Overlong)
    (valued : Expr.valueOf (String.ofList (trim inner)) scope = .error overlong) :
    fillSegment whole scope (.span inner) = .fail overlong := by
  simp only [fillSegment, valued]

theorem fillSegment_failed (failure : Failure)
    (valued : Expr.valueOf (String.ofList (trim inner)) scope = .ok (.error failure)) :
    fillSegment whole scope (.span inner) =
      ⟨[.span (String.ofList (Segment.span inner).written) whole (some failure)],
        .ok (Segment.span inner).written⟩ := by
  simp only [fillSegment, valued]

theorem fillSegment_undefined
    (valued : Expr.valueOf (String.ofList (trim inner)) scope = .ok (.ok .undefined)) :
    fillSegment whole scope (.span inner) =
      ⟨[.span (String.ofList (Segment.span inner).written) whole none],
        .ok (Segment.span inner).written⟩ := by
  simp only [fillSegment, valued]

variable (value : Value) (defined : value ≠ .undefined)
  (valued : Expr.valueOf (String.ofList (trim inner)) scope = .ok (.ok value))

include defined valued

theorem fillSegment_written (text : String) (written : value.splice = .ok text) :
    fillSegment whole scope (.span inner) = .done text.toList := by
  cases value with
  | undefined => exact absurd rfl defined
  | _ => simp only [fillSegment, valued, written]

theorem fillSegment_unwritten (fault : Number.Fault) (long : value.splice = .error fault) :
    fillSegment whole scope (.span inner) = .fail .written := by
  cases value with
  | undefined => exact absurd rfl defined
  | _ => simp only [fillSegment, valued, long]

end Spans

theorem becomes_of_fillSegment (segment : Segment) (text : List Char) (notes : List Complaint)
    (filled : fillSegment whole scope segment = ⟨notes, .ok text⟩) :
    Becomes whole scope segment text notes := by
  cases segment with
  | plain own =>
    cases filled
    exact .plain _
  | span inner =>
    cases parsed : Expr.parse (trim inner) with
    | error rejection =>
      by_cases long : ∃ digits, rejection = .overlong digits
      · obtain ⟨digits, rfl⟩ := long
        rw [fillSegment_overlong whole scope inner _
          (Expr.valueOf_overlong _ scope digits parsed)] at filled
        cases filled
      · rw [fillSegment_failed whole scope inner _
          (Expr.valueOf_rejected _ scope rejection parsed long)] at filled
        cases filled
        exact .rejected inner rejection parsed long
    | ok expr =>
      have valued := Expr.valueOf_parsed _ scope expr parsed
      cases evaluated : expr.evaluate scope with
      | error failure =>
        rw [evaluated] at valued
        rw [fillSegment_failed whole scope inner _ valued] at filled
        cases filled
        exact .failed inner expr failure parsed evaluated
      | ok value =>
        rw [evaluated] at valued
        by_cases defined : value = .undefined
        · rw [defined] at valued evaluated
          rw [fillSegment_undefined whole scope inner valued] at filled
          cases filled
          exact .undefined inner expr parsed evaluated
        · cases written : value.splice with
          | error fault =>
            rw [fillSegment_unwritten whole scope inner value defined valued fault written]
              at filled
            cases filled
          | ok own =>
            rw [fillSegment_written whole scope inner value defined valued own written] at filled
            cases filled
            exact .value inner expr value own parsed evaluated defined written

theorem fillSegment_of_becomes (segment : Segment) (text : List Char) (notes : List Complaint)
    (becomes : Becomes whole scope segment text notes) :
    fillSegment whole scope segment = ⟨notes, .ok text⟩ := by
  cases becomes with
  | plain text => rfl
  | value inner expr value text reads yields defined written =>
    have valued := Expr.valueOf_parsed _ scope expr reads
    rw [yields] at valued
    exact fillSegment_written whole scope inner value defined valued text written
  | undefined inner expr reads yields =>
    have valued := Expr.valueOf_parsed _ scope expr reads
    rw [yields] at valued
    exact fillSegment_undefined whole scope inner valued
  | failed inner expr failure reads fails =>
    have valued := Expr.valueOf_parsed _ scope expr reads
    rw [fails] at valued
    exact fillSegment_failed whole scope inner _ valued
  | rejected inner rejection refused reported =>
    exact fillSegment_failed whole scope inner _
      (Expr.valueOf_rejected _ scope rejection refused reported)

theorem fillSegments_yields_iff (pieces : List Segment) (text : List Char)
    (notes : List Complaint) :
    fillSegments whole scope pieces = ⟨notes, .ok text⟩ ↔
      Spliced whole scope pieces text notes := by
  induction pieces generalizing text notes with
  | nil =>
    constructor
    · intro filled
      cases filled
      exact .nil
    · intro spliced
      cases spliced
      rfl
  | cons piece rest ih =>
    rw [fillSegments]
    refine (Noted.both_yields_iff _ _ (· ++ ·) notes text).trans ?_
    constructor
    · rintro ⟨own, others, left, later, first, following, rfl, rfl⟩
      exact .cons piece rest own others left later
        (becomes_of_fillSegment whole scope piece own left first) ((ih others later).mp following)
    · intro spliced
      cases spliced with
      | cons _ _ own others left later first following =>
        exact ⟨own, others, left, later, fillSegment_of_becomes whole scope piece own left first,
          (ih others later).mpr following, rfl, rfl⟩

theorem fill_yields_iff (text result : String) (notes : List Complaint) :
    fill scope text = ⟨notes, .ok result⟩ ↔ Filled scope text result notes := by
  rw [fill]
  refine (Noted.mapped_yields_iff _ String.ofList notes result).trans ?_
  constructor
  · rintro ⟨filled, done, rfl⟩
    obtain ⟨pieces, scanned⟩ := exists_scanned text.toList
    rw [fillSegments_scanned text scope text.toList pieces scanned] at done
    refine ⟨pieces, scanned, ?_⟩
    rw [String.toList_ofList]
    exact (fillSegments_yields_iff text scope pieces filled notes).mp done
  · rintro ⟨pieces, scanned, spliced⟩
    refine ⟨result.toList, ?_, (String.ofList_toList).symm⟩
    rw [fillSegments_scanned text scope text.toList pieces scanned]
    exact (fillSegments_yields_iff text scope pieces result.toList notes).mpr spliced

end Splicing

end Template

namespace Value

mutual

/-- A value and what it is filled to, with the complaints in the order of its texts. Names of
fields, lengths of lists and all leaves but texts are the same. -/
inductive Filled (scope : Fields) : Value → Value → List Complaint → Prop
  | bare (value : Value) (leaf : value.isLeaf = true) (textless : value.text? = none) :
      Filled scope value value []
  | text (content result : String) (notes : List Complaint)
      (filled : Template.Filled scope content result notes) :
      Filled scope (.text content) (.text result) notes
  | list (items results : List Value) (notes : List Complaint)
      (filled : ItemsFilled scope items results notes) :
      Filled scope (.list items) (.list results) notes
  | object (fields results : List (String × Value)) (notes : List Complaint)
      (filled : FieldsFilled scope fields results notes) :
      Filled scope (.object fields) (.object results) notes

inductive ItemsFilled (scope : Fields) : List Value → List Value → List Complaint → Prop
  | nil : ItemsFilled scope [] [] []
  | cons (item result : Value) (rest results : List Value) (own others : List Complaint)
      (first : Filled scope item result own) (following : ItemsFilled scope rest results others) :
      ItemsFilled scope (item :: rest) (result :: results) (own ++ others)

inductive FieldsFilled (scope : Fields) :
    List (String × Value) → List (String × Value) → List Complaint → Prop
  | nil : FieldsFilled scope [] [] []
  | cons (name : String) (value result : Value) (rest results : List (String × Value))
      (own others : List Complaint) (first : Filled scope value result own)
      (following : FieldsFilled scope rest results others) :
      FieldsFilled scope ((name, value) :: rest) ((name, result) :: results) (own ++ others)

end

variable (scope : Fields)

theorem bare_yields_iff (value filled : Value) (notes : List Complaint)
    (leaf : value.isLeaf = true) (textless : value.text? = none) :
    (Noted.done value : Filling Value) = ⟨notes, .ok filled⟩ ↔
      Filled scope value filled notes := by
  constructor
  · intro same
    cases same
    exact .bare value leaf textless
  · intro holds
    cases holds with
    | bare => rfl
    | text => cases textless
    | list | object => cases leaf

mutual

theorem fill_yields_iff : (value filled : Value) → (notes : List Complaint) →
    (value.fill scope = ⟨notes, .ok filled⟩ ↔ Filled scope value filled notes)
  | .undefined, filled, notes => bare_yields_iff scope .undefined filled notes rfl rfl
  | .null, filled, notes => bare_yields_iff scope .null filled notes rfl rfl
  | .bool flag, filled, notes => bare_yields_iff scope (.bool flag) filled notes rfl rfl
  | .number amount, filled, notes => bare_yields_iff scope (.number amount) filled notes rfl rfl
  | .text content, filled, notes => by
      rw [Value.fill]
      refine (Noted.mapped_yields_iff _ Value.text notes filled).trans ?_
      simp only [Template.fill_yields_iff]
      constructor
      · rintro ⟨result, holds, rfl⟩
        exact .text content result notes holds
      · intro holds
        cases holds with
        | bare _ _ textless => cases textless
        | text _ result _ within => exact ⟨result, within, rfl⟩
  | .list items, filled, notes => by
      rw [Value.fill]
      refine (Noted.mapped_yields_iff _ Value.list notes filled).trans ?_
      simp only [fillItems_yields_iff items]
      constructor
      · rintro ⟨results, holds, rfl⟩
        exact .list items results notes holds
      · intro holds
        cases holds with
        | bare _ leaf => cases leaf
        | list _ results _ within => exact ⟨results, within, rfl⟩
  | .object fields, filled, notes => by
      rw [Value.fill]
      refine (Noted.mapped_yields_iff _ Value.object notes filled).trans ?_
      simp only [fillFields_yields_iff fields]
      constructor
      · rintro ⟨results, holds, rfl⟩
        exact .object fields results notes holds
      · intro holds
        cases holds with
        | bare _ leaf => cases leaf
        | object _ results _ within => exact ⟨results, within, rfl⟩

theorem fillItems_yields_iff : (items filled : List Value) → (notes : List Complaint) →
    (fillItems scope items = ⟨notes, .ok filled⟩ ↔ ItemsFilled scope items filled notes)
  | [], filled, notes => by
      constructor
      · intro same
        cases same
        exact .nil
      · intro holds
        cases holds
        rfl
  | item :: rest, filled, notes => by
      rw [fillItems]
      refine (Noted.both_yields_iff _ _ List.cons notes filled).trans ?_
      simp only [fill_yields_iff item, fillItems_yields_iff rest]
      constructor
      · rintro ⟨result, results, own, others, first, following, rfl, rfl⟩
        exact .cons item result rest results own others first following
      · intro holds
        cases holds with
        | cons _ result _ results own others first following =>
          exact ⟨result, results, own, others, first, following, rfl, rfl⟩

theorem fillFields_yields_iff : (fields filled : List (String × Value)) →
    (notes : List Complaint) →
    (fillFields scope fields = ⟨notes, .ok filled⟩ ↔ FieldsFilled scope fields filled notes)
  | [], filled, notes => by
      constructor
      · intro same
        cases same
        exact .nil
      · intro holds
        cases holds
        rfl
  | (name, value) :: rest, filled, notes => by
      rw [fillFields]
      refine (Noted.both_yields_iff _ _ (fun first others => (name, first) :: others)
        notes filled).trans ?_
      simp only [fill_yields_iff value, fillFields_yields_iff rest]
      constructor
      · rintro ⟨result, results, own, others, first, following, rfl, rfl⟩
        exact .cons name value result rest results own others first following
      · intro holds
        cases holds with
        | cons _ _ result _ results own others first following =>
          exact ⟨result, results, own, others, first, following, rfl, rfl⟩

end

theorem filled_without_braces (text : String) (unopened : ¬ ['{', '{'] <:+: text.toList) :
    Template.Filled scope text text [] := by
  refine ⟨[.plain text.toList], .last _ fun before inner after same => ?_, ?_⟩
  · apply unopened
    rw [same]
    exact ⟨before, inner ++ '}' :: '}' :: after, by simp [Template.spanned]⟩
  · simpa using Template.Spliced.cons _ [] text.toList [] [] [] (.plain text.toList) .nil

mutual

theorem filled_self : (value : Value) →
    (∀ text ∈ value.texts, ¬ ['{', '{'] <:+: text.toList) → Filled scope value value []
  | .undefined, _ => .bare _ rfl rfl
  | .null, _ => .bare _ rfl rfl
  | .bool _, _ => .bare _ rfl rfl
  | .number _, _ => .bare _ rfl rfl
  | .text content, unopened =>
      .text content content []
        (filled_without_braces scope content (unopened content (by simp [texts])))
  | .list items, unopened => .list items items [] (itemsFilled_self items unopened)
  | .object fields, unopened => .object fields fields [] (fieldsFilled_self fields unopened)

theorem itemsFilled_self : (items : List Value) →
    (∀ text ∈ textsOfItems items, ¬ ['{', '{'] <:+: text.toList) → ItemsFilled scope items items []
  | [], _ => .nil
  | item :: rest, unopened => by
      rw [textsOfItems] at unopened
      obtain ⟨first, others⟩ := List.forall_mem_append.mp unopened
      exact .cons item item rest rest [] [] (filled_self item first) (itemsFilled_self rest others)

theorem fieldsFilled_self : (fields : List (String × Value)) →
    (∀ text ∈ textsOfFields fields, ¬ ['{', '{'] <:+: text.toList) →
      FieldsFilled scope fields fields []
  | [], _ => .nil
  | (name, value) :: rest, unopened => by
      rw [textsOfFields] at unopened
      obtain ⟨first, others⟩ := List.forall_mem_append.mp unopened
      exact .cons name value value rest rest [] [] (filled_self value first)
        (fieldsFilled_self rest others)

end

end Value

namespace Evaluator

theorem fillValue_yields_iff (evaluator after : Evaluator) (value filled : Value)
    (scope : Fields) :
    evaluator.fillValue value scope = (.ok filled, after) ↔
      ∃ notes, Value.Filled scope value filled notes ∧ after = evaluator.note notes := by
  rw [fillValue, take, Prod.mk.injEq]
  constructor
  · rintro ⟨ended, rfl⟩
    refine ⟨(value.fill scope).notes, (Value.fill_yields_iff scope value filled _).mp ?_, rfl⟩
    rw [← ended]
  · rintro ⟨notes, holds, rfl⟩
    rw [(Value.fill_yields_iff scope value filled notes).mpr holds]
    exact ⟨rfl, rfl⟩

/-- A value is filled text by text, and each text span by span; what is recorded is one complaint
for each span that stays, in the order of the spans. Without two opening braces in a row nothing
changes. -/
theorem fillValue_spliced (evaluator : Evaluator) (value : Value) (scope : Fields) :
    (∀ text : List Char, ∃! pieces, Template.Scanned text pieces) ∧
    (∀ filled after, evaluator.fillValue value scope = (.ok filled, after) ↔
      ∃ notes, Value.Filled scope value filled notes ∧
        after = { evaluator with pending := evaluator.pending ++ notes }) ∧
    ((∀ text ∈ value.texts, ¬ ['{', '{'] <:+: text.toList) →
      evaluator.fillValue value scope = (.ok value, evaluator)) := by
  refine ⟨fun text => ?_, fun filled after => ?_, fun unopened => ?_⟩
  · obtain ⟨pieces, scanned⟩ := Template.exists_scanned text
    exact ⟨pieces, scanned, fun others also => also.unique scanned⟩
  · exact fillValue_yields_iff evaluator after value filled scope
  · refine (fillValue_yields_iff evaluator evaluator value value scope).mpr
      ⟨[], Value.filled_self scope value unopened, ?_⟩
    rw [note, List.append_nil]

/-- A text with a known name before and after one that is not known. -/
def partlyKnown : Value :=
  .object [("to", .text "\x7b\x7b n \x7d\x7d \x7b\x7bup\x7d\x7d\x7b\x7bn\x7d\x7d")]

/-- The span without a value stays and leaves the one complaint; a value that reads as a span is
spliced as it is. A single brace opens no span. -/
theorem unknown_span_kept :
    (∃ filled notes, Value.Filled [("n", .text "\x7b\x7bn\x7d\x7d")] partlyKnown filled notes ∧
      filled.texts = ["\x7b\x7bn\x7d\x7d \x7b\x7bup\x7d\x7d\x7b\x7bn\x7d\x7d"] ∧
      notes.length = 1) ∧
    (new 3).fillValue (.list [.text "\x7b a \x7d\x7d", .null]) [("a", .null)] =
      (.ok (.list [.text "\x7b a \x7d\x7d", .null]), new 3) := by
  refine ⟨?_, (fillValue_spliced (new 3) _ _).2.2 ?_⟩
  · obtain ⟨filled, ended, written⟩ := ended_of_check
      ((new 3).fillValue partlyKnown [("n", .text "\x7b\x7bn\x7d\x7d")]).1
      (fun filled => filled.texts = ["\x7b\x7bn\x7d\x7d \x7b\x7bup\x7d\x7d\x7b\x7bn\x7d\x7d"])
      (by decide +kernel)
    have counted : ((new 3).fillValue partlyKnown
      [("n", .text "\x7b\x7bn\x7d\x7d")]).2.pending.length = 1 := by decide +kernel
    have spliced := (fillValue_spliced (new 3) partlyKnown [("n", .text "\x7b\x7bn\x7d\x7d")]).2.1
    -- Left as it is, the run would be evaluated by every unification below.
    generalize (new 3).fillValue partlyKnown [("n", .text "\x7b\x7bn\x7d\x7d")] = run at *
    obtain ⟨result, after⟩ := run
    obtain ⟨notes, holds, rfl⟩ := (spliced filled after).mp (by rw [← ended])
    exact ⟨filled, notes, holds, of_decide_eq_true written, by simpa [new] using counted⟩
  · intro text inside
    rw [show text = "\x7b a \x7d\x7d" by simpa [Value.texts, Value.textsOfItems] using inside]
    decide

end Evaluator

end Keymap

import Keymap.Expr.Template
import Keymap.Proofs.Noted

/-!
When the texts inside a value can be filled. Almost nothing stops a template: an expression that
cannot be read or has no value stays as it is written. Only numbers of too many digits do, those
written in an expression and those inside its value (`fill_ends_iff`).
-/

set_option autoImplicit false

namespace Keymap

namespace Value

theorem isOk_spliceNumber (amount : Number) :
    (spliceNumber amount).isOk = (Value.number amount).fitsDigits := by
  cases amount with
  | int value =>
    rw [spliceNumber, fitsDigits]
    cases Number.fitsDigits value <;> rfl
  | float x =>
    rw [spliceNumber]
    split <;> rfl

mutual

/-- A value can be written if all its integers can. -/
theorem isOk_splice : (value : Value) → value.splice.isOk = value.fitsDigits
  | .undefined => rfl
  | .null => rfl
  | .bool true => rfl
  | .bool false => rfl
  | .number amount => isOk_spliceNumber amount
  | .text _ => rfl
  | .list items => by
      rw [splice, fitsDigits, ← isOk_spliceItems items]
      cases spliceItems items <;> rfl
  | .object fields => by
      rw [splice]
      cases (Value.object fields).fitsDigits <;> rfl

theorem isOk_spliceItems : (items : List Value) →
    (spliceItems items).isOk = itemsFitDigits items
  | [] => rfl
  | item :: rest => by
      rw [itemsFitDigits, ← isOk_splice item, ← isOk_spliceItems rest]
      have both (first : Except Number.Fault String) : (do
          let text ← first
          return text :: (← spliceItems rest)).isOk = (first.isOk && (spliceItems rest).isOk) := by
        cases first <;> cases spliceItems rest <;> rfl
      -- Null is spliced as the empty text here; that is a text all the same.
      cases item <;> exact both _

end

end Value

namespace Expr

variable (text : List Char) (scope : Fields)

theorem valueOf_overlong (digits : Nat) (parsed : parse text = .error (.overlong digits)) :
    valueOf (String.ofList text) scope = .error (.read digits) := by
  simp [valueOf, parsed]

theorem valueOf_rejected (rejection : Rejection) (parsed : parse text = .error rejection)
    (short : ¬ ∃ digits, rejection = .overlong digits) :
    valueOf (String.ofList text) scope =
      .ok (.error (.rejected (String.ofList text) rejection)) := by
  cases rejection with
  | overlong digits => exact absurd ⟨digits, rfl⟩ short
  | _ => simp [valueOf, parsed]

theorem valueOf_parsed (expr : Expr) (parsed : parse text = .ok expr) :
    valueOf (String.ofList text) scope = .ok ((expr.evaluate scope).mapError .failed) := by
  simp [valueOf, parsed]

end Expr

namespace Template

open Text (trim)

/-- Whether the expression of a span holds no integer that is too long, and its value neither. -/
def Segment.Writable (scope : Fields) : Segment → Prop
  | .plain _ => True
  | .span inner =>
      (∀ digits, Expr.parse (trim inner) ≠ .error (.overlong digits)) ∧
      ∀ expr value, Expr.parse (trim inner) = .ok expr → expr.evaluate scope = .ok value →
        value.fitsDigits = true

def Writable (scope : Fields) (text : String) : Prop :=
  ∀ segment ∈ segments text.toList, segment.Writable scope

variable (scope : Fields)

theorem fillSegment_of_value (whole : String) (inner : List Char) (value : Value)
    (valued : Expr.valueOf (String.ofList (trim inner)) scope = .ok (.ok value)) :
    (fillSegment whole scope (.span inner)).Ends ↔ value.fitsDigits = true := by
  have spliced : (fillSegment whole scope (.span inner)).Ends ↔ value.splice.isOk = true := by
    unfold fillSegment
    simp only [valued]
    split
    · next failed => cases failed
    · next failed => cases failed
    · next undefined =>
      cases undefined
      exact iff_of_true ⟨_, rfl⟩ rfl
    · next given _ same =>
      obtain rfl : value = given := Except.ok.inj (Except.ok.inj same)
      cases value.splice with
      | ok text => exact iff_of_true (Noted.ends_done _) rfl
      | error _ => exact iff_of_false (fun ⟨_, ended⟩ => nomatch ended) Bool.false_ne_true
  rw [spliced, Value.isOk_splice]

theorem fillSegment_ends_iff (whole : String) (segment : Segment) :
    (fillSegment whole scope segment).Ends ↔ segment.Writable scope := by
  cases segment with
  | plain text => exact iff_of_true (Noted.ends_done text) trivial
  | span inner =>
    cases parsed : Expr.parse (trim inner) with
    | error rejection =>
      by_cases long : ∃ digits, rejection = .overlong digits
      · obtain ⟨digits, rfl⟩ := long
        refine iff_of_false ?_ fun writable => writable.1 digits parsed
        simp [fillSegment, Expr.valueOf_overlong _ scope digits parsed, Noted.Ends, Noted.fail]
      · refine iff_of_true ?_ ⟨fun digits read => ?_, fun expr _ read => ?_⟩
        · simp [fillSegment, Expr.valueOf_rejected _ scope rejection parsed long, Noted.Ends]
        · exact long ⟨digits, Except.error.inj (parsed.symm.trans read)⟩
        · cases parsed.symm.trans read
    | ok expr =>
      have valued := Expr.valueOf_parsed _ scope expr parsed
      cases evaluated : expr.evaluate scope with
      | error failure =>
        rw [evaluated] at valued
        have failed : Expr.valueOf (String.ofList (trim inner)) scope =
          .ok (.error (.failed failure)) := valued
        refine iff_of_true ?_ ⟨fun digits read => ?_, fun other value read ended => ?_⟩
        · simp [fillSegment, failed, Noted.Ends]
        · cases parsed.symm.trans read
        · cases parsed.symm.trans read
          cases evaluated.symm.trans ended
      | ok value =>
        rw [evaluated] at valued
        rw [fillSegment_of_value scope whole inner value valued]
        constructor
        · refine fun fits => ⟨fun digits read => ?_, fun other result read ended => ?_⟩
          · cases parsed.symm.trans read
          · cases parsed.symm.trans read
            cases evaluated.symm.trans ended
            exact fits
        · exact fun writable => writable.2 expr value parsed evaluated

theorem fillSegments_ends_iff (whole : String) (cut : List Segment) :
    (fillSegments whole scope cut).Ends ↔ ∀ segment ∈ cut, segment.Writable scope := by
  induction cut with
  | nil => exact iff_of_true (Noted.ends_done _) (by simp)
  | cons segment rest ih =>
    rw [fillSegments, List.forall_mem_cons, ← ih, ← fillSegment_ends_iff scope whole segment]
    exact Noted.both_ends_iff _ _ _

theorem fill_ends_iff (text : String) : (fill scope text).Ends ↔ Writable scope text := by
  rw [Writable, ← fillSegments_ends_iff scope text]
  exact Noted.mapped_ends_iff _ _

end Template

namespace Value

open Template (Writable)

mutual

/-- The texts inside a value; the names of fields are none of them. -/
def texts : Value → List String
  | .text content => [content]
  | .list items => textsOfItems items
  | .object fields => textsOfFields fields
  | _ => []

def textsOfItems : List Value → List String
  | [] => []
  | item :: rest => texts item ++ textsOfItems rest

def textsOfFields : List (String × Value) → List String
  | [] => []
  | (_, value) :: rest => texts value ++ textsOfFields rest

end

variable (scope : Fields)

mutual

theorem fill_ends_iff : (value : Value) →
    ((value.fill scope).Ends ↔ ∀ text ∈ value.texts, Writable scope text)
  | .undefined => iff_of_true (Noted.ends_done _) (by simp [texts])
  | .null => iff_of_true (Noted.ends_done _) (by simp [texts])
  | .bool _ => iff_of_true (Noted.ends_done _) (by simp [texts])
  | .number _ => iff_of_true (Noted.ends_done _) (by simp [texts])
  | .text content => by
      rw [Value.fill, texts, List.forall_mem_singleton, ← Template.fill_ends_iff]
      exact Noted.mapped_ends_iff _ _
  | .list items => by
      rw [Value.fill, texts, ← fillItems_ends_iff items]
      exact Noted.mapped_ends_iff _ _
  | .object fields => by
      rw [Value.fill, texts, ← fillFields_ends_iff fields]
      exact Noted.mapped_ends_iff _ _

theorem fillItems_ends_iff : (items : List Value) →
    ((fillItems scope items).Ends ↔ ∀ text ∈ textsOfItems items, Writable scope text)
  | [] => iff_of_true (Noted.ends_done _) (by simp [textsOfItems])
  | item :: rest => by
      rw [fillItems, textsOfItems, List.forall_mem_append, ← fill_ends_iff item,
        ← fillItems_ends_iff rest]
      exact Noted.both_ends_iff _ _ _

theorem fillFields_ends_iff : (fields : List (String × Value)) →
    ((fillFields scope fields).Ends ↔ ∀ text ∈ textsOfFields fields, Writable scope text)
  | [] => iff_of_true (Noted.ends_done _) (by simp [textsOfFields])
  | (name, value) :: rest => by
      rw [fillFields, textsOfFields, List.forall_mem_append, ← fill_ends_iff value,
        ← fillFields_ends_iff rest]
      exact Noted.both_ends_iff _ _ fun first others => (name, first) :: others

end

end Value

end Keymap

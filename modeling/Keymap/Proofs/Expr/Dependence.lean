import Keymap.Proofs.Expr.Filling

/-!
What an expression and a template depend on. Of a scope only the names count that stand in the
expression as names: scopes that agree there give the same value or the same failure
(`Expr.evaluate_congr`), and so a template or a value is filled alike and leaves the same complaints
(`Value.fill_congr`).
-/

set_option autoImplicit false

namespace Keymap

/-- Each of some names stands for one value in both scopes, or for none in either. -/
def Fields.AgreeOn (names : List String) (left right : Fields) : Prop :=
  ∀ name ∈ names, left.get? name = right.get? name

namespace Fields.AgreeOn

variable {names others : List String} {left right : Fields}

theorem inLeft (agree : Fields.AgreeOn (names ++ others) left right) :
    Fields.AgreeOn names left right :=
  fun name member => agree name (List.mem_append_left _ member)

theorem inRight (agree : Fields.AgreeOn (names ++ others) left right) :
    Fields.AgreeOn others left right :=
  fun name member => agree name (List.mem_append_right _ member)

end Fields.AgreeOn

namespace Expr

mutual

/-- The names that stand in an expression. Those of members, and texts, are none of them. -/
def names : Expr → List String
  | .constant _ => []
  | .name known => [known]
  | .member target _ => names target
  | .index target key => names target ++ names key
  | .unary _ operand => names operand
  | .binary _ left right => names left ++ names right
  | .conditional test whenTrue whenFalse => names test ++ (names whenTrue ++ names whenFalse)
  | .array items => itemsNames items

def itemsNames : List Expr → List String
  | [] => []
  | item :: rest => names item ++ itemsNames rest

end

mutual

theorem evaluate_congr (left right : Fields) : (expr : Expr) →
    Fields.AgreeOn expr.names left right → expr.evaluate left = expr.evaluate right
  | .constant _, _ => rfl
  | .name known, agree => by
      rw [evaluate, evaluate, agree known (List.mem_singleton_self known)]
  | .member target known, agree => by
      rw [evaluate, evaluate, evaluate_congr left right target agree]
  | .index target key, agree => by
      rw [evaluate, evaluate, evaluate_congr left right target agree.inLeft,
        evaluate_congr left right key agree.inRight]
  | .unary op operand, agree => by
      rw [evaluate, evaluate, evaluate_congr left right operand agree]
  | .binary op first second, agree => by
      rw [evaluate, evaluate, evaluate_congr left right first agree.inLeft,
        evaluate_congr left right second agree.inRight]
  | .conditional test whenTrue whenFalse, agree => by
      rw [evaluate, evaluate, evaluate_congr left right test agree.inLeft,
        evaluate_congr left right whenTrue agree.inRight.inLeft,
        evaluate_congr left right whenFalse agree.inRight.inRight]
  | .array items, agree => by
      rw [evaluate, evaluate, evaluateItems_congr left right items agree]

theorem evaluateItems_congr (left right : Fields) : (items : List Expr) →
    Fields.AgreeOn (itemsNames items) left right →
      evaluateItems left items = evaluateItems right items
  | [], _ => rfl
  | item :: rest, agree => by
      rw [evaluateItems, evaluateItems, evaluate_congr left right item agree.inLeft,
        evaluateItems_congr left right rest agree.inRight]

end

/-- The names of the expression that a text is; none if it is no expression. -/
def namesIn (text : List Char) : List String :=
  match parse text with
  | .ok expr => expr.names
  | .error _ => []

theorem valueOf_congr (left right : Fields) (text : List Char)
    (agree : Fields.AgreeOn (namesIn text) left right) :
    valueOf (String.ofList text) left = valueOf (String.ofList text) right := by
  unfold namesIn at agree
  cases parsed : parse text with
  | error rejection => cases rejection <;> simp [valueOf, parsed]
  | ok expr =>
    rw [parsed] at agree
    rw [valueOf_parsed text left expr parsed, valueOf_parsed text right expr parsed,
      evaluate_congr left right expr agree]

end Expr

namespace Template

def Segment.names : Segment → List String
  | .plain _ => []
  | .span inner => Expr.namesIn (Text.trim inner)

/-- The names in the spans of a text. -/
def names (text : String) : List String := (segments text.toList).flatMap Segment.names

variable (left right : Fields)

theorem fillSegment_congr (whole : String) (segment : Segment)
    (agree : Fields.AgreeOn segment.names left right) :
    fillSegment whole left segment = fillSegment whole right segment := by
  cases segment with
  | plain text => rfl
  | span inner =>
    have same := Expr.valueOf_congr left right (Text.trim inner) agree
    simp only [fillSegment, same]

theorem fillSegments_congr (whole : String) (cut : List Segment)
    (agree : Fields.AgreeOn (cut.flatMap Segment.names) left right) :
    fillSegments whole left cut = fillSegments whole right cut := by
  induction cut with
  | nil => rfl
  | cons segment rest ih =>
    rw [List.flatMap_cons] at agree
    rw [fillSegments, fillSegments, fillSegment_congr left right whole segment agree.inLeft,
      ih agree.inRight]

theorem fill_congr (text : String) (agree : Fields.AgreeOn (names text) left right) :
    fill left text = fill right text := by
  rw [fill, fill, fillSegments_congr left right text (segments text.toList) agree]

end Template

namespace Value

mutual

theorem fill_congr (left right : Fields) : (value : Value) →
    Fields.AgreeOn (value.texts.flatMap Template.names) left right →
      value.fill left = value.fill right
  | .undefined, _ => rfl
  | .null, _ => rfl
  | .bool _, _ => rfl
  | .number _, _ => rfl
  | .text content, agree => by
      rw [texts, List.flatMap_singleton] at agree
      rw [Value.fill, Value.fill, Template.fill_congr left right content agree]
  | .list items, agree => by
      rw [Value.fill, Value.fill, fillItems_congr left right items agree]
  | .object fields, agree => by
      rw [Value.fill, Value.fill, fillFields_congr left right fields agree]

theorem fillItems_congr (left right : Fields) : (items : List Value) →
    Fields.AgreeOn ((textsOfItems items).flatMap Template.names) left right →
      fillItems left items = fillItems right items
  | [], _ => rfl
  | item :: rest, agree => by
      rw [textsOfItems, List.flatMap_append] at agree
      rw [fillItems, fillItems, fill_congr left right item agree.inLeft,
        fillItems_congr left right rest agree.inRight]

theorem fillFields_congr (left right : Fields) : (fields : List (String × Value)) →
    Fields.AgreeOn ((textsOfFields fields).flatMap Template.names) left right →
      fillFields left fields = fillFields right fields
  | [], _ => rfl
  | (name, value) :: rest, agree => by
      rw [textsOfFields, List.flatMap_append] at agree
      rw [fillFields, fillFields, fill_congr left right value agree.inLeft,
        fillFields_congr left right rest agree.inRight]

end

end Value

end Keymap

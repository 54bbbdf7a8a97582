import Keymap.Proofs.Binding.Conjunction
import Keymap.Proofs.Noted
import Keymap.Proofs.Value.Agreement

/-!
The two equalities of expressions. Strict equality is agreement of two values of one kind, so it is
an equivalence of the values in which every number is one. Loose equality converts, and is not
transitive; it is reflexive and symmetric, and it holds wherever strict equality does. So a guard
that holds is not false with loose equality in the place of strict equality, under an even number of
negations (`equalities`).
-/

set_option autoImplicit false

namespace Keymap

namespace Value

/-- Integers and doubles are of one kind; truth values are of another. -/
inductive Kind where
  | undefined
  | null
  | truth
  | number
  | text
  | list
  | mapping
deriving DecidableEq

def kind : Value → Kind
  | .undefined => .undefined
  | .null => .null
  | .bool _ => .truth
  | .number _ => .number
  | .text _ => .text
  | .list _ => .list
  | .object _ => .mapping

theorem flags_agree (left right : Bool) :
    (Value.bool left).agrees (.bool right) = (left == right) := by
  cases left <;> cases right <;> decide +kernel

theorem strictlyEqual_iff (left right : Value) : left.strictlyEqual right = true ↔
    left.kind = right.kind ∧ left.agrees right = true := by
  cases left with
  | bool flag =>
    cases right with
    | bool other => simp [strictlyEqual, kind, flags_agree]
    | _ => simp [strictlyEqual, kind]
  | _ => cases right <;> simp [strictlyEqual, kind, agrees, asNumber?]

theorem strictlyEqual_self (value : Value) (ordinary : Ordinary value) :
    value.strictlyEqual value = true :=
  (strictlyEqual_iff value value).mpr ⟨rfl, agrees_self value ordinary⟩

theorem strictlyEqual_symm (left right : Value) (leftOnce : left.namesOnce = true)
    (rightOnce : right.namesOnce = true) (equal : left.strictlyEqual right = true) :
    right.strictlyEqual left = true := by
  obtain ⟨kinds, agree⟩ := (strictlyEqual_iff left right).mp equal
  exact (strictlyEqual_iff right left).mpr
    ⟨kinds.symm, agrees_symm left right leftOnce rightOnce agree⟩

theorem strictlyEqual_trans (first second third : Value) (firstOnce : first.namesOnce = true)
    (secondOnce : second.namesOnce = true) (thirdOnce : third.namesOnce = true)
    (left : first.strictlyEqual second = true) (right : second.strictlyEqual third = true) :
    first.strictlyEqual third = true := by
  obtain ⟨kinds, agree⟩ := (strictlyEqual_iff first second).mp left
  obtain ⟨kindsToo, agreeToo⟩ := (strictlyEqual_iff second third).mp right
  exact (strictlyEqual_iff first third).mpr ⟨kinds.trans kindsToo,
    agrees_trans first second third firstOnce secondOnce thirdOnce agree agreeToo⟩

theorem looselyEqual_self (value : Value) (ordinary : Ordinary value) :
    value.looselyEqual value = true := by
  cases value with
  | number amount => exact Number.equals_self amount ordinary.numbers
  | bool flag => exact Number.equals_self _ rfl
  | text content => exact beq_self_eq_true content
  | list items => exact agrees_self _ ordinary
  | object fields => exact agrees_self _ ordinary
  | _ => rfl

/-- What strict equality relates loose equality relates, whatever the values hold. -/
theorem looselyEqual_of_strictly (left right : Value) (equal : left.strictlyEqual right = true) :
    left.looselyEqual right = true := by
  obtain ⟨kinds, agree⟩ := (strictlyEqual_iff left right).mp equal
  cases left with
  | bool flag =>
    cases right with
    | bool other =>
      rw [flags_agree, beq_iff_eq] at agree
      exact agree ▸ Number.equals_self _ rfl
    | _ => cases kinds
  | _ =>
    cases right with
    | bool other => cases kinds
    | _ => first | exact agree | cases kinds

/-- Scalars that are not both texts compare as numbers. -/
theorem looselyEqual_scalars (left right : Value) (leftScalar : left.isScalar = true)
    (rightScalar : right.isScalar = true) (oneOther : left.text? = none ∨ right.text? = none) :
    left.looselyEqual right = true ↔ ∃ a b, left.numeric? = some a ∧ right.numeric? = some b ∧
      a.equals b = true := by
  have compared : left.looselyEqual right =
      left.numeric?.elim false fun a => right.numeric?.elim false a.equals := by
    unfold looselyEqual
    generalize left.numeric? = first
    generalize right.numeric? = second
    cases left <;> cases right <;> first
      | exact absurd leftScalar Bool.false_ne_true
      | exact absurd rightScalar Bool.false_ne_true
      | exact oneOther.elim (absurd · (Option.some_ne_none _)) (absurd · (Option.some_ne_none _))
      | cases first <;> cases second <;> rfl
  rw [compared]
  cases left.numeric? <;> cases right.numeric? <;> simp

theorem looselyEqual_symm (left right : Value) (leftOnce : left.namesOnce = true)
    (rightOnce : right.namesOnce = true) (equal : left.looselyEqual right = true) :
    right.looselyEqual left = true := by
  by_cases scalars : (left.isScalar = true ∧ right.isScalar = true) ∧
      (left.text? = none ∨ right.text? = none)
  · obtain ⟨⟨leftScalar, rightScalar⟩, oneOther⟩ := scalars
    rw [looselyEqual_scalars left right leftScalar rightScalar oneOther] at equal
    rw [looselyEqual_scalars right left rightScalar leftScalar oneOther.symm]
    obtain ⟨a, b, first, second, same⟩ := equal
    exact ⟨b, a, second, first, Number.equals_comm a b ▸ same⟩
  · -- Nothing equals nothing; two texts, and whatever has contents, are compared by content.
    cases left <;> cases right <;> first
      | rfl
      | exact agrees_symm _ _ leftOnce rightOnce equal
      | exact absurd ⟨⟨rfl, rfl⟩, .inl rfl⟩ scalars
      | exact absurd ⟨⟨rfl, rfl⟩, .inr rfl⟩ scalars

end Value

namespace Expr

/-- The operator that a left operand of this truth value settles. -/
def connective : Bool → BinaryOp
  | true => .or
  | false => .and

/-- Loose equality in the place of strict equality where a guard holds the more the more of its
comparisons hold, and for `false` where it holds the less: a negation changes between the two. -/
inductive Rewritten : Bool → Expr → Expr → Prop where
  | same (up : Bool) (guard : Expr) : Rewritten up guard guard
  | compared (left right : Expr) :
      Rewritten true (.binary .identical left right) (.binary .equal left right)
  | negated (up : Bool) (guard loose : Expr) (inner : Rewritten (!up) guard loose) :
      Rewritten up (.unary .not guard) (.unary .not loose)
  | joined (up settled : Bool) (left right newLeft newRight : Expr)
      (first : Rewritten up left newLeft) (second : Rewritten up right newRight) :
      Rewritten up (.binary (connective settled) left right)
        (.binary (connective settled) newLeft newRight)
  | chosen (up : Bool) (test left right newLeft newRight : Expr)
      (first : Rewritten up left newLeft) (second : Rewritten up right newRight) :
      Rewritten up (.conditional test left right) (.conditional test newLeft newRight)

/-- A rewritten guard in which nothing is evaluated that was not. Where it holds the more, both
operands of an "or" may be rewritten, and of an "and" only the right one; where it holds the less,
it is the other way about. -/
inductive Relaxed : Bool → Expr → Expr → Prop where
  | same (up : Bool) (guard : Expr) : Relaxed up guard guard
  | compared (left right : Expr) :
      Relaxed true (.binary .identical left right) (.binary .equal left right)
  | negated (up : Bool) (guard loose : Expr) (inner : Relaxed (!up) guard loose) :
      Relaxed up (.unary .not guard) (.unary .not loose)
  | joined (up : Bool) (left right newLeft newRight : Expr) (first : Relaxed up left newLeft)
      (second : Relaxed up right newRight) :
      Relaxed up (.binary (connective up) left right) (.binary (connective up) newLeft newRight)
  | after (up settled : Bool) (left right newRight : Expr) (second : Relaxed up right newRight) :
      Relaxed up (.binary (connective settled) left right)
        (.binary (connective settled) left newRight)
  | chosen (up : Bool) (test left right newLeft newRight : Expr)
      (first : Relaxed up left newLeft) (second : Relaxed up right newRight) :
      Relaxed up (.conditional test left right) (.conditional test newLeft newRight)

/-- A rewritten guard in which the left operands of an "or" are relaxed, and where it holds the less
those of an "and". What else is evaluated now was evaluated before, if the guard held. -/
inductive Loosened : Bool → Expr → Expr → Prop where
  | relaxed (up : Bool) (guard loose : Expr) (relaxed : Relaxed up guard loose) :
      Loosened up guard loose
  | negated (up : Bool) (guard loose : Expr) (inner : Loosened (!up) guard loose) :
      Loosened up (.unary .not guard) (.unary .not loose)
  | both (up : Bool) (left right newLeft newRight : Expr) (first : Loosened up left newLeft)
      (second : Loosened up right newRight) :
      Loosened up (.binary (connective !up) left right)
        (.binary (connective !up) newLeft newRight)
  | either (up : Bool) (left right newLeft newRight : Expr) (first : Relaxed up left newLeft)
      (second : Loosened up right newRight) :
      Loosened up (.binary (connective up) left right) (.binary (connective up) newLeft newRight)
  | chosen (up : Bool) (test left right newLeft newRight : Expr)
      (first : Loosened up left newLeft) (second : Loosened up right newRight) :
      Loosened up (.conditional test left right) (.conditional test newLeft newRight)

/-- A condition compares what its two operands evaluate to. -/
theorem holdsIn_relation (op : BinaryOp) (relates : Value → Value → Bool)
    (always : ∀ value, settles op value = .ok false)
    (applied : ∀ a b, applyBinary a b op = .ok (.bool (relates a b))) (scope : Fields)
    (left right : Expr) :
    holdsIn scope (.binary op left right) = left.evaluate scope >>= fun a =>
      right.evaluate scope >>= fun b => .ok (relates a b) := by
  unfold holdsIn
  rw [evaluate]
  cases left.evaluate scope with
  | error failure => rfl
  | ok a =>
    cases right.evaluate scope with
    | error failure => simp [always, bind, Except.bind]
    | ok b => simp [always, applied, bind, Except.bind, Value.holds]

theorem holdsIn_or (scope : Fields) (left right : Expr) :
    holdsIn scope (.binary .or left right) =
      holdsIn scope left >>= fun held => if held then .ok true else holdsIn scope right := by
  unfold holdsIn
  rw [evaluate]
  cases first : evaluate scope left with
  | error error => rfl
  | ok value =>
    cases truth : value.holds with
    | error error => simp [settles, truth, bind, Except.bind]
    | ok held =>
      cases held with
      | true => simp [settles, truth, bind, Except.bind, pure, Except.pure]
      | false =>
        cases evaluate scope right <;> simp [settles, truth, applyBinary, bind, Except.bind]

/-- The left operand of a connective settles it, or leaves it to the right one. -/
theorem holdsIn_connective (scope : Fields) (settled : Bool) (left right : Expr) :
    holdsIn scope (.binary (connective settled) left right) = holdsIn scope left >>= fun held =>
      if held = settled then .ok settled else holdsIn scope right := by
  cases settled with
  | true => exact holdsIn_or scope left right
  | false =>
    rw [connective, holdsIn_and]
    cases holdsIn scope left with
    | error failure => rfl
    | ok held => cases held <;> rfl

theorem holdsIn_not (scope : Fields) (guard : Expr) :
    holdsIn scope (.unary .not guard) = holdsIn scope guard >>= fun held => .ok !held := by
  unfold holdsIn
  rw [evaluate]
  cases evaluate scope guard with
  | error error => rfl
  | ok value =>
    have applied : applyUnary .not value = value.holds >>= fun held => .ok (.bool !held) := rfl
    change applyUnary .not value >>= Value.holds = value.holds >>= _
    rw [applied]
    cases value.holds <;> rfl

theorem holdsIn_conditional (scope : Fields) (test left right : Expr) :
    holdsIn scope (.conditional test left right) =
      holdsIn scope test >>= fun held =>
        if held then holdsIn scope left else holdsIn scope right := by
  unfold holdsIn
  rw [evaluate]
  cases evaluate scope test with
  | error error => rfl
  | ok value =>
    cases truth : value.holds with
    | error error => simp [truth, bind, Except.bind]
    | ok held => cases held <;> simp [truth, bind, Except.bind]

/-- A comparison that holds strictly holds loosely, and it is evaluated as far. -/
theorem holdsIn_compared (scope : Fields) (left right : Expr) (held : Bool)
    (defined : holdsIn scope (.binary .identical left right) = .ok held) :
    ∃ now, holdsIn scope (.binary .equal left right) = .ok now ∧ (held = true → now = true) := by
  rw [holdsIn_relation .identical Value.strictlyEqual (fun _ => rfl) (fun _ _ => rfl)] at defined
  rw [holdsIn_relation .equal Value.looselyEqual (fun _ => rfl) (fun _ _ => rfl)]
  obtain ⟨a, first, defined⟩ := bind_ok _ _ _ defined
  obtain ⟨b, second, compared⟩ := bind_ok _ _ _ defined
  rw [first, second]
  refine ⟨a.looselyEqual b, rfl, ?_⟩
  rw [← Except.ok.inj compared]
  exact Value.looselyEqual_of_strictly a b

/-- A negation turns what the guard inside keeps. -/
theorem negation_keeps (up held now : Bool) (kept : held = (!up) → now = (!up))
    (is : (!held) = up) : (!now) = up := by
  have inner : held = (!up) := by rw [← is, Bool.not_not]
  rw [kept inner, Bool.not_not]

/-- If a left operand settles a connective that it did not settle before, it has gained the truth
that is kept. -/
theorem up_of_gained (up settled held now : Bool) (kept : held = up → now = up)
    (left : held ≠ settled) (settles : now = settled) : settled = up := by
  by_contra other
  have was : held = up := (Bool.eq_not.mpr left).trans (Bool.eq_not.mpr (Ne.symm other)).symm
  exact other (settles.symm.trans (kept was))

/-- Where both have a value, the rewritten guard has the truth that the guard had, if that is the one
that the comparisons bring about. -/
theorem holdsIn_rewritten (scope : Fields) (up : Bool) (guard loose : Expr)
    (rewritten : Rewritten up guard loose) (held now : Bool)
    (before : holdsIn scope guard = .ok held) (after : holdsIn scope loose = .ok now) :
    held = up → now = up := by
  induction rewritten generalizing held now with
  | same up guard =>
    obtain rfl : held = now := Except.ok.inj (before.symm.trans after)
    exact id
  | compared left right =>
    obtain ⟨_, nowHeld, kept⟩ := holdsIn_compared scope left right held before
    obtain rfl := Except.ok.inj (nowHeld.symm.trans after)
    exact kept
  | negated up guard loose _ kept =>
    rw [holdsIn_not] at before after
    obtain ⟨inner, first, same⟩ := bind_ok _ _ _ before
    obtain ⟨nowInner, second, sameToo⟩ := bind_ok _ _ _ after
    rw [← Except.ok.inj same, ← Except.ok.inj sameToo]
    exact negation_keeps up inner nowInner (kept inner nowInner first second)
  | joined up settled left right newLeft newRight _ _ leftKept rightKept =>
    rw [holdsIn_connective] at before after
    obtain ⟨inner, first, rest⟩ := bind_ok _ _ _ before
    obtain ⟨nowInner, second, restToo⟩ := bind_ok _ _ _ after
    have kept := leftKept inner nowInner first second
    by_cases settles : inner = settled
    · rw [if_pos settles] at rest
      intro is
      have same : settled = up := (Except.ok.inj rest).trans is
      rw [if_pos ((kept (settles.trans same)).trans same.symm)] at restToo
      exact (Except.ok.inj restToo).symm.trans same
    · rw [if_neg settles] at rest
      by_cases settlesNow : nowInner = settled
      · rw [if_pos settlesNow] at restToo
        rw [← Except.ok.inj restToo]
        exact fun _ => up_of_gained up settled inner nowInner kept settles settlesNow
      · rw [if_neg settlesNow] at restToo
        exact rightKept held now rest restToo
  | chosen up test left right newLeft newRight _ _ leftKept rightKept =>
    rw [holdsIn_conditional] at before after
    obtain ⟨truth, tested, rest⟩ := bind_ok _ _ _ before
    obtain ⟨_, testedToo, restToo⟩ := bind_ok _ _ _ after
    obtain rfl := Except.ok.inj (tested.symm.trans testedToo)
    cases truth with
    | true => exact leftKept held now rest restToo
    | false => exact rightKept held now rest restToo

/-- A guard that is relaxed fails nowhere else, and keeps the truth that the comparisons bring
about. -/
theorem holdsIn_relaxed (scope : Fields) (up : Bool) (guard loose : Expr)
    (relaxed : Relaxed up guard loose) (held : Bool)
    (defined : holdsIn scope guard = .ok held) :
    ∃ now, holdsIn scope loose = .ok now ∧ (held = up → now = up) := by
  induction relaxed generalizing held with
  | same up guard => exact ⟨held, defined, id⟩
  | compared left right => exact holdsIn_compared scope left right held defined
  | negated up guard loose _ ih =>
    rw [holdsIn_not] at defined ⊢
    obtain ⟨inner, first, same⟩ := bind_ok _ _ _ defined
    obtain ⟨nowInner, second, kept⟩ := ih inner first
    rw [second, ← Except.ok.inj same]
    exact ⟨!nowInner, rfl, negation_keeps up inner nowInner kept⟩
  | joined up left right newLeft newRight _ _ leftRelaxed rightRelaxed =>
    rw [holdsIn_connective] at defined ⊢
    obtain ⟨inner, first, rest⟩ := bind_ok _ _ _ defined
    obtain ⟨nowInner, second, kept⟩ := leftRelaxed inner first
    rw [second]
    by_cases settlesNow : nowInner = up
    · exact ⟨up, if_pos settlesNow, fun _ => rfl⟩
    · -- So the left operand did not settle the guard before either.
      rw [if_neg (mt kept settlesNow)] at rest
      obtain ⟨now, after, keptToo⟩ := rightRelaxed held rest
      exact ⟨now, (if_neg settlesNow).trans after, keptToo⟩
  | after up settled left right newRight _ rightRelaxed =>
    rw [holdsIn_connective] at defined ⊢
    obtain ⟨inner, first, rest⟩ := bind_ok _ _ _ defined
    rw [first]
    by_cases settles : inner = settled
    · rw [if_pos settles] at rest
      exact ⟨held, (if_pos settles).trans rest, id⟩
    · rw [if_neg settles] at rest
      obtain ⟨now, after, kept⟩ := rightRelaxed held rest
      exact ⟨now, (if_neg settles).trans after, kept⟩
  | chosen up test left right newLeft newRight _ _ leftRelaxed rightRelaxed =>
    rw [holdsIn_conditional] at defined ⊢
    obtain ⟨truth, tested, rest⟩ := bind_ok _ _ _ defined
    rw [tested]
    cases truth with
    | true => exact leftRelaxed held rest
    | false => exact rightRelaxed held rest

/-- A connective has the truth that does not settle it where both operands have that truth. -/
theorem holdsIn_unsettled_iff (scope : Fields) (up : Bool) (left right : Expr) :
    holdsIn scope (.binary (connective !up) left right) = .ok up ↔
      holdsIn scope left = .ok up ∧ holdsIn scope right = .ok up := by
  rw [holdsIn_connective]
  cases holdsIn scope left with
  | error failure => exact iff_of_false nofun fun both => nomatch both.1
  | ok held => cases up <;> cases held <;> simp [bind, Except.bind]

/-- A guard that is loosened has the truth that the comparisons bring about, if it had it. -/
theorem holdsIn_loosened (scope : Fields) (up : Bool) (guard loose : Expr)
    (loosened : Loosened up guard loose) (holds : holdsIn scope guard = .ok up) :
    holdsIn scope loose = .ok up := by
  induction loosened with
  | relaxed up guard loose relaxed =>
    obtain ⟨_, now, kept⟩ := holdsIn_relaxed scope up guard loose relaxed up holds
    rw [now, kept rfl]
  | negated up guard loose _ ih =>
    rw [holdsIn_not] at holds ⊢
    obtain ⟨inner, first, same⟩ := bind_ok _ _ _ holds
    have turned : inner = (!up) := by rw [← Except.ok.inj same, Bool.not_not]
    rw [ih (turned ▸ first)]
    exact congrArg Except.ok (Bool.not_not up)
  | both up left right newLeft newRight _ _ leftHolds rightHolds =>
    rw [holdsIn_unsettled_iff] at holds ⊢
    exact ⟨leftHolds holds.1, rightHolds holds.2⟩
  | either up left right newLeft newRight first _ rightHolds =>
    rw [holdsIn_connective] at holds ⊢
    obtain ⟨inner, held, rest⟩ := bind_ok _ _ _ holds
    obtain ⟨nowInner, now, kept⟩ := holdsIn_relaxed scope up left newLeft first inner held
    rw [now]
    by_cases settlesNow : nowInner = up
    · exact if_pos settlesNow
    · rw [if_neg (mt kept settlesNow)] at rest
      exact (if_neg settlesNow).trans (rightHolds rest)
  | chosen up test left right newLeft newRight _ _ leftHolds rightHolds =>
    rw [holdsIn_conditional] at holds ⊢
    obtain ⟨truth, tested, rest⟩ := bind_ok _ _ _ holds
    rw [tested]
    cases truth with
    | true => exact leftHolds rest
    | false => exact rightHolds rest

end Expr

/-- On values in which every number is one, strict equality is reflexive, symmetric and transitive,
loose equality is reflexive and symmetric, and what is strictly equal is loosely equal. So a guard
that holds does not become false where loose equality replaces strict equality under an even number
of negations. It may fail, on what an "and" now evaluates; it holds where inside the left operand of
an "or" no left operand of an "and" is rewritten, the two operators in turned roles under an odd
number of negations. -/
theorem equalities (first second third : Value) (ordinary : Value.Ordinary first)
    (ordinaryToo : Value.Ordinary second) (ordinaryAlso : Value.Ordinary third) :
    (first.strictlyEqual first = true ∧
      (first.strictlyEqual second = true → second.strictlyEqual first = true) ∧
      (first.strictlyEqual second = true → second.strictlyEqual third = true →
        first.strictlyEqual third = true)) ∧
    (first.looselyEqual first = true ∧
      (first.looselyEqual second = true → second.looselyEqual first = true)) ∧
    (first.strictlyEqual second = true → first.looselyEqual second = true) ∧
    ∀ (scope : Fields) (guard loose : Expr), Expr.holdsIn scope guard = .ok true →
      (Expr.Rewritten true guard loose → Expr.holdsIn scope loose ≠ .ok false) ∧
        (Expr.Loosened true guard loose → Expr.holdsIn scope loose = .ok true) := by
  refine ⟨⟨?_, ?_, ?_⟩, ⟨?_, ?_⟩, ?_, ?_⟩
  · exact first.strictlyEqual_self ordinary
  · exact first.strictlyEqual_symm second ordinary.once ordinaryToo.once
  · exact first.strictlyEqual_trans second third ordinary.once ordinaryToo.once ordinaryAlso.once
  · exact first.looselyEqual_self ordinary
  · exact first.looselyEqual_symm second ordinary.once ordinaryToo.once
  · exact first.looselyEqual_of_strictly second
  · intro scope guard loose holds
    refine ⟨fun rewritten isFalse => ?_, fun loosened => ?_⟩
    · cases Expr.holdsIn_rewritten scope true guard loose rewritten true false holds isFalse rfl
    · exact Expr.holdsIn_loosened scope true guard loose loosened holds

/-- A list of a number and a mapping. -/
def pairOf (amount flag : Value) : Value :=
  .list [amount, .object [("held", flag), ("name", .text "j")]]

/-- The same with the fields of the mapping in the other order. -/
def turnedPairOf (amount flag : Value) : Value :=
  .list [amount, .object [("name", .text "j"), ("held", flag)]]

theorem pairs_equal :
    let one : Value := .number (.float (Float.ofBits 0x3ff0000000000000))
    let first := pairOf (Value.ofInt 1) (.bool true)
    let second := turnedPairOf one (Value.ofInt 1)
    let third := pairOf (.bool true) one
    let guard (op : BinaryOp) : Expr := .binary .and (.name "a")
      (.binary .or (.name "off") (.binary op (.name "a") (.name "b")))
    let denied : Expr → Expr := .unary .not
    let scope := [("a", first), ("b", third)]
    (Value.Ordinary first ∧ Value.Ordinary second ∧ Value.Ordinary third) ∧
      first.strictlyEqual second = true ∧ second.strictlyEqual third = true ∧
      first.strictlyEqual third = true ∧ third.looselyEqual first = true ∧
      Expr.holdsIn scope (guard .identical) = .ok true ∧
      Expr.holdsIn scope (guard .equal) ≠ .ok false ∧
      Expr.holdsIn scope (denied (denied (guard .equal))) = .ok true := by
  intro one first second third guard denied scope
  have ordinary : Value.Ordinary first := ⟨by decide +kernel, by decide +kernel⟩
  have ordinaryToo : Value.Ordinary second := ⟨by decide +kernel, by decide +kernel⟩
  have ordinaryAlso : Value.Ordinary third := ⟨by decide +kernel, by decide +kernel⟩
  have left : first.strictlyEqual second = true := by decide +kernel
  have right : second.strictlyEqual third = true := by decide +kernel
  obtain ⟨⟨_, _, joined⟩, _, _, loosened⟩ :=
    equalities first second third ordinary ordinaryToo ordinaryAlso
  obtain ⟨_, ⟨_, turned⟩, implied, _⟩ := equalities first third first ordinary ordinaryAlso ordinary
  have equal := joined left right
  have holds : Expr.holdsIn scope (guard .identical) = .ok true := by decide +kernel
  have twice : Expr.holdsIn scope (denied (denied (guard .identical))) = .ok true := by
    decide +kernel
  have rewriting : Expr.Rewritten true (guard .identical) (guard .equal) :=
    .joined true false _ _ _ _ (.same _ _)
      (.joined true true _ _ _ _ (.same _ _) (.compared _ _))
  have loosening : Expr.Loosened true (denied (denied (guard .identical)))
      (denied (denied (guard .equal))) :=
    .negated _ _ _ (.negated _ _ _ (.both true _ _ _ _ (.relaxed _ _ _ (.same _ _))
      (.relaxed _ _ _ (.joined true _ _ _ _ (.same _ _) (.compared _ _)))))
  exact ⟨⟨ordinary, ordinaryToo, ordinaryAlso⟩, left, right, equal, turned (implied equal), holds,
    (loosened scope _ _ holds).1 rewriting, (loosened scope _ _ twice).2 loosening⟩

/-- Under one negation a guard holds less with loose equality. Without a negation it may fail, where
strict equality kept an "and" from evaluating what follows; so it may where a negation stands before
an "or" in that place. -/
theorem guards_not_loosened :
    let compared (op : BinaryOp) : Expr := .binary op (.name "x") (.name "y")
    let denied (op : BinaryOp) : Expr := .unary .not (compared op)
    let spared (guard : Expr) : Expr := .binary .or guard (.constant (.bool true))
    let member : Expr := .member (.name "z") "w"
    let both (op : BinaryOp) : Expr := spared (.binary .and (compared op) member)
    let neither (op : BinaryOp) : Expr := spared (.unary .not (.binary .or (denied op) member))
    let scope := [("x", Value.ofInt 1), ("y", .bool true)]
    (Expr.holdsIn scope (denied .identical) = .ok true ∧
      Expr.holdsIn scope (denied .equal) = .ok false) ∧
    (Expr.holdsIn scope (both .identical) = .ok true ∧
      Expr.holdsIn scope (both .equal) = .error (.noMember "w" "undefined")) ∧
    (Expr.holdsIn scope (neither .identical) = .ok true ∧
      Expr.holdsIn scope (neither .equal) = .error (.noMember "w" "undefined")) := by
  decide +kernel

end Keymap

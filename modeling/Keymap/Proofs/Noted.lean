import Keymap.Noted

/-!
Computations that came to their end, taken apart into their steps.
-/

set_option autoImplicit false

namespace Keymap

variable {Note Failure Result Next : Type}

namespace Noted

theorem andThen_ok (first : Noted Note Failure Result)
    (next : Result → Noted Note Failure Next) (last : Next)
    (ended : (first.andThen next).result = .ok last) :
    ∃ value, first.result = .ok value ∧ (next value).result = .ok last := by
  unfold Noted.andThen at ended
  split at ended
  · cases ended
  · next value passed => exact ⟨value, passed, ended⟩

theorem result_andThen (first : Noted Note Failure Result)
    (next : Result → Noted Note Failure Next) :
    (first.andThen next).result = first.result >>= fun value => (next value).result := by
  unfold Noted.andThen
  cases first.result <;> rfl

theorem andThen_of_ok (first : Noted Note Failure Result)
    (next : Result → Noted Note Failure Next) (value : Result)
    (passed : first.result = .ok value) : (first.andThen next).result = (next value).result := by
  rw [result_andThen, passed]
  rfl

/-- Whether a computation comes to its end. -/
def Ends (attempt : Noted Note Failure Result) : Prop := ∃ value, attempt.result = .ok value

theorem ends_done (value : Result) : (done value : Noted Note Failure Result).Ends := ⟨value, rfl⟩

theorem andThen_ends_iff (first : Noted Note Failure Result)
    (next : Result → Noted Note Failure Next) :
    (first.andThen next).Ends ↔ ∃ value, first.result = .ok value ∧ (next value).Ends := by
  constructor
  · rintro ⟨last, ended⟩
    obtain ⟨value, passed, ended⟩ := andThen_ok first next last ended
    exact ⟨value, passed, last, ended⟩
  · rintro ⟨value, passed, last, ended⟩
    refine ⟨last, ?_⟩
    rw [andThen, passed]
    exact ended

theorem mapped_ends_iff (first : Noted Note Failure Result) (change : Result → Next) :
    (first.andThen fun value => (pure (change value) : Noted Note Failure Next)).Ends ↔
      first.Ends := by
  rw [andThen_ends_iff]
  constructor
  · rintro ⟨value, passed, _⟩
    exact ⟨value, passed⟩
  · rintro ⟨value, passed⟩
    exact ⟨value, passed, ends_done _⟩

/-- Two computations whose results are combined both have to come to their end. -/
theorem both_ends_iff {Other : Type} (first : Noted Note Failure Result)
    (second : Noted Note Failure Other) (combine : Result → Other → Next) :
    (first.andThen fun left => second.andThen fun right =>
      (pure (combine left right) : Noted Note Failure Next)).Ends ↔ first.Ends ∧ second.Ends := by
  rw [andThen_ends_iff]
  constructor
  · rintro ⟨left, passed, ends⟩
    exact ⟨⟨left, passed⟩, (mapped_ends_iff _ _).mp ends⟩
  · rintro ⟨⟨left, passed⟩, ends⟩
    exact ⟨left, passed, (mapped_ends_iff _ _).mpr ends⟩

theorem mem_first_notes (first : Noted Note Failure Result)
    (next : Result → Noted Note Failure Next) (note : Note) (left : note ∈ first.notes) :
    note ∈ (first.andThen next).notes := by
  unfold Noted.andThen
  split
  · exact left
  · exact List.mem_append_left _ left

theorem mem_notes_andThen (first : Noted Note Failure Result)
    (next : Result → Noted Note Failure Next) (value : Result)
    (passed : first.result = .ok value) (note : Note) (left : note ∈ (next value).notes) :
    note ∈ (first.andThen next).notes := by
  rw [notes_andThen_of_ok first value next passed]
  exact List.mem_append_right _ left

theorem map_eq (change : Result → Next) (attempt : Noted Note Failure Result) :
    change <$> attempt = ⟨attempt.notes, change <$> attempt.result⟩ := by
  change attempt.andThen (fun value => done (change value)) = _
  unfold andThen
  split
  · next failure failed => rw [failed]; rfl
  · next value passed =>
    rw [passed]
    exact congrArg (Noted.mk · (.ok (change value))) (List.append_nil _)

theorem ofExcept_ok (value : Result) :
    (ofExcept (.ok value) : Noted Note Failure Result) = pure value := rfl

theorem andThen_assoc {Last : Type} (attempt : Noted Note Failure Result)
    (next : Result → Noted Note Failure Next) (last : Next → Noted Note Failure Last) :
    (attempt.andThen next).andThen last =
      attempt.andThen fun value => (next value).andThen last := by
  unfold andThen
  cases attempt.result with
  | error failure => rfl
  | ok value =>
    dsimp only
    cases (next value).result with
    | error failure => rfl
    | ok other => simp only [List.append_assoc]

instance : LawfulMonad (Noted Note Failure) :=
  .mk' _ (fun attempt => by rw [map_eq, id_map]) (fun _ _ => rfl) andThen_assoc

end Noted

theorem bind_ok (first : Except Failure Result) (next : Result → Except Failure Next)
    (last : Next) (ended : (first >>= next) = .ok last) :
    ∃ value, first = .ok value ∧ next value = .ok last := by
  cases first with
  | error failure => cases ended
  | ok value => exact ⟨value, rfl, ended⟩

/-- Computations that come to the same under a change both fail alike or both come to their end. -/
theorem map_alike (change : Result → Next) {left right : Except Failure Result}
    (same : change <$> left = change <$> right) :
    (∃ failure, left = .error failure ∧ right = .error failure) ∨
      ∃ first second, left = .ok first ∧ right = .ok second ∧ change first = change second := by
  cases left with
  | error failure =>
    cases right with
    | error other =>
      cases same
      exact .inl ⟨failure, rfl, rfl⟩
    | ok second => cases same
  | ok first =>
    cases right with
    | error other => cases same
    | ok second => exact .inr ⟨first, second, rfl, rfl, Except.ok.inj same⟩

theorem mapError_ok_iff {Other : Type} (change : Failure → Other)
    (attempt : Except Failure Result) (value : Result) :
    attempt.mapError change = .ok value ↔ attempt = .ok value := by
  cases attempt with
  | error failure => exact iff_of_false (fun same => by cases same) (fun same => by cases same)
  | ok other =>
    change (.ok other : Except Other Result) = .ok value ↔ _
    rw [Except.ok.injEq, Except.ok.injEq]

/-- Whether a computation fails in a given way. -/
def FailsWith (kind : Failure → Prop) (attempt : Except Failure Result) : Prop :=
  ∃ failure, attempt = .error failure ∧ kind failure

theorem not_failsWith_ok (kind : Failure → Prop) (value : Result) :
    ¬ FailsWith kind (.ok value) := by
  rintro ⟨_, failed, _⟩
  cases failed

theorem failsWith_error_iff (kind : Failure → Prop) (failure : Failure) :
    FailsWith kind (.error failure : Except Failure Result) ↔ kind failure := by
  constructor
  · rintro ⟨_, same, fits⟩
    cases same
    exact fits
  · exact fun fits => ⟨failure, rfl, fits⟩

theorem mapError_failsWith_iff {Other : Type} (kind : Other → Prop) (change : Failure → Other)
    (attempt : Except Failure Result) :
    FailsWith kind (attempt.mapError change) ↔
      FailsWith (fun failure => kind (change failure)) attempt := by
  cases attempt with
  | error failure =>
    rw [failsWith_error_iff]
    exact failsWith_error_iff kind (change failure)
  | ok value => exact iff_of_false (not_failsWith_ok _ value) (not_failsWith_ok _ value)

theorem bind_failsWith_iff (kind : Failure → Prop) (first : Except Failure Result)
    (next : Result → Except Failure Next) :
    FailsWith kind (first >>= next) ↔
      FailsWith kind first ∨ ∃ value, first = .ok value ∧ FailsWith kind (next value) := by
  cases first with
  | error failure =>
    have stays : (Except.error failure >>= next) = .error failure := rfl
    simp [stays, failsWith_error_iff]
  | ok value =>
    refine ⟨fun failed => .inr ⟨value, rfl, failed⟩, ?_⟩
    rintro (failed | ⟨_, passed, failed⟩)
    · exact absurd failed (not_failsWith_ok kind value)
    · cases passed
      exact failed

/-- Whether a computation does not come to its end. -/
abbrev Fails (attempt : Except Failure Result) : Prop := FailsWith (fun _ => True) attempt

/-- Where what comes next fails under a condition that does not depend on the first result, the
whole fails under that condition or where the first does. -/
theorem bind_fails_iff (first : Except Failure Result) (next : Result → Except Failure Next)
    (condition : Prop) (same : ∀ value, Fails (next value) ↔ condition) :
    Fails (first >>= next) ↔ Fails first ∨ condition := by
  rw [Fails, bind_failsWith_iff]
  cases first with
  | error failure => simp [failsWith_error_iff]
  | ok value => simp [not_failsWith_ok, same]

theorem mapped_fails_iff (first : Except Failure Result) (change : Result → Next) :
    Fails (first >>= fun value => (pure (change value) : Except Failure Next)) ↔ Fails first := by
  rw [bind_fails_iff _ _ False, or_false]
  exact fun value => iff_of_false (not_failsWith_ok _ _) id

theorem Noted.ends_iff (attempt : Noted Note Failure Result) :
    attempt.Ends ↔ ¬ Fails attempt.result := by
  unfold Noted.Ends
  cases attempt.result with
  | error failure => simp [failsWith_error_iff]
  | ok value => simp [not_failsWith_ok]

theorem Noted.andThen_failsWith_iff (kind : Failure → Prop) (first : Noted Note Failure Result)
    (next : Result → Noted Note Failure Next) :
    FailsWith kind (first.andThen next).result ↔
      FailsWith kind first.result ∨
        ∃ value, first.result = .ok value ∧ FailsWith kind (next value).result := by
  rw [← bind_failsWith_iff kind first.result fun value => (next value).result, Noted.andThen]
  cases first.result <;> rfl

theorem Noted.andThen_fails_iff (first : Noted Note Failure Result)
    (next : Result → Noted Note Failure Next) (condition : Prop)
    (same : ∀ value, Fails (next value).result ↔ condition) :
    Fails (first.andThen next).result ↔ Fails first.result ∨ condition := by
  rw [← bind_fails_iff first.result (fun value => (next value).result) condition same,
    Noted.andThen]
  cases first.result <;> rfl

theorem Noted.passed_failsWith_iff (kind : Failure → Prop) (first : Noted Note Failure Result)
    (value : Result) (passed : first.result = .ok value)
    (next : Result → Noted Note Failure Next) :
    FailsWith kind (first.andThen next).result ↔ FailsWith kind (next value).result := by
  rw [Noted.andThen, passed]

/-- Where the results of two computations are combined, the second is only asked for after the
first. -/
theorem both_failsWith_iff {Other : Type} (kind : Failure → Prop) (first : Except Failure Result)
    (second : Except Failure Other) (combine : Result → Other → Next) :
    FailsWith kind (first >>= fun left => second >>= fun right =>
        (pure (combine left right) : Except Failure Next)) ↔
      FailsWith kind first ∨ (∃ value, first = .ok value) ∧ FailsWith kind second := by
  have combined (left : Result) : FailsWith kind (second >>= fun right =>
      (pure (combine left right) : Except Failure Next)) ↔ FailsWith kind second := by
    rw [bind_failsWith_iff, or_iff_left]
    rintro ⟨_, _, failed⟩
    exact not_failsWith_ok kind _ failed
  simp only [bind_failsWith_iff kind first, combined, exists_and_right]

theorem Noted.both_failsWith_iff {Other : Type} (kind : Failure → Prop)
    (first : Noted Note Failure Result) (second : Noted Note Failure Other)
    (combine : Result → Other → Next) :
    FailsWith kind (first.andThen fun left => second.andThen fun right =>
        (pure (combine left right) : Noted Note Failure Next)).result ↔
      FailsWith kind first.result ∨ first.Ends ∧ FailsWith kind second.result := by
  have combined (left : Result) : FailsWith kind (second.andThen fun right =>
      (pure (combine left right) : Noted Note Failure Next)).result ↔
        FailsWith kind second.result := by
    rw [andThen_failsWith_iff, or_iff_left]
    rintro ⟨_, _, failed⟩
    exact not_failsWith_ok kind _ failed
  simp only [andThen_failsWith_iff kind first, combined, exists_and_right, Ends]

theorem both_ok_iff {Other : Type} (first : Except Failure Result)
    (second : Except Failure Other) (combine : Result → Other → Next) :
    (∃ last, (first >>= fun left => second >>= fun right =>
        (pure (combine left right) : Except Failure Next)) = .ok last) ↔
      (∃ left, first = .ok left) ∧ ∃ right, second = .ok right := by
  constructor
  · rintro ⟨_, ended⟩
    obtain ⟨left, passed, ended⟩ := bind_ok _ _ _ ended
    obtain ⟨right, passedToo, _⟩ := bind_ok _ _ _ ended
    exact ⟨⟨left, passed⟩, right, passedToo⟩
  · rintro ⟨⟨left, rfl⟩, right, rfl⟩
    exact ⟨_, rfl⟩

/-- A computation that comes to its end with a result that passes a check. -/
theorem ended_of_check (computation : Except Failure Result) (check : Result → Bool)
    (passes : computation.toOption.any check = true) :
    ∃ result, computation = .ok result ∧ check result = true := by
  cases computation with
  | error failure => cases passes
  | ok result => exact ⟨result, rfl, passes⟩

end Keymap

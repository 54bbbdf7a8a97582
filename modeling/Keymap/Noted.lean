/-!
Computations that leave notes and may fail. Notes left before a failure stay.
-/

set_option autoImplicit false

namespace Keymap

structure Noted (Note Failure Result : Type) where
  notes : List Note
  result : Except Failure Result

namespace Noted

variable {Note Failure Result Next : Type}

def done (value : Result) : Noted Note Failure Result := ⟨[], .ok value⟩

def fail (failure : Failure) : Noted Note Failure Result := ⟨[], .error failure⟩

def ofExcept (result : Except Failure Result) : Noted Note Failure Result := ⟨[], result⟩

def note (notes : List Note) : Noted Note Failure Unit := ⟨notes, .ok ()⟩

def andThen (first : Noted Note Failure Result) (next : Result → Noted Note Failure Next) :
    Noted Note Failure Next :=
  match first.result with
  | .error failure => ⟨first.notes, .error failure⟩
  | .ok value => ⟨first.notes ++ (next value).notes, (next value).result⟩

instance : Monad (Noted Note Failure) where
  pure := done
  bind := andThen

theorem pure_eq (value : Result) : (pure value : Noted Note Failure Result) = done value := rfl

theorem bind_eq (first : Noted Note Failure Result) (next : Result → Noted Note Failure Next) :
    first >>= next = first.andThen next := rfl

theorem notes_andThen_of_ok (first : Noted Note Failure Result) (value : Result)
    (next : Result → Noted Note Failure Next) (passed : first.result = .ok value) :
    (first.andThen next).notes = first.notes ++ (next value).notes := by
  simp [andThen, passed]

end Noted

end Keymap

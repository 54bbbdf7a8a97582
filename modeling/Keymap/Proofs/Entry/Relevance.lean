import Keymap.Proofs.Entry.Expansion

/-!
What an expansion depends on. Of the definitions only those count that a template of the entry
names. A variable that no template names counts by the number of its values alone: each entry is
there once for each of them (`unnamed_ignored`).
-/

set_option autoImplicit false

namespace Keymap

open Fields (AgreeOn)

theorem flatMap_const {Item Result : Type} (items : List Item) (results : List Result) :
    (items.flatMap fun _ => results) = (List.replicate items.length results).flatten := by
  induction items with
  | nil => rfl
  | cons item rest ih => simp [List.replicate_succ, ih]

theorem Noted.inTurn_repeated {Note Failure Result : Type} (count : Nat)
    (attempts : List (Noted Note Failure Result)) (results : List Result)
    (ended : (inTurn attempts).result = .ok results) :
    (inTurn (List.replicate count attempts).flatten).result =
        .ok (List.replicate count results).flatten ∧
      (inTurn (List.replicate count attempts).flatten).notes =
        (List.replicate count (inTurn attempts).notes).flatten := by
  have each := ended
  rw [result_inTurn, mapM_ok_iff] at each
  have whole : (inTurn (List.replicate count attempts).flatten).result =
      .ok (List.replicate count results).flatten := by
    rw [result_inTurn, mapM_ok_iff]
    simp [List.map_flatten, each]
  refine ⟨whole, ?_⟩
  rw [notes_inTurn _ ⟨_, whole⟩, notes_inTurn attempts ⟨results, ended⟩, List.flatMap_def,
    List.map_flatten, List.map_replicate, List.flatten_flatten, List.map_replicate,
    ← List.flatMap_def]

theorem Fields.get?_overlay_beside (base front back : Fields) (name : String) (value : Value)
    (asked : String) (other : asked ≠ name) :
    (base.overlay (front ++ (name, value) :: back)).get? asked =
      (base.overlay (front ++ back)).get? asked := by
  unfold overlay
  rw [List.foldl_append, List.foldl_append, List.foldl_cons]
  apply get?_overlay_congr asked _ _ back
  rw [get?_insert, if_neg other]

namespace Foreach

theorem expand_congr (definitions other : Fields) (label : String) (entry : Fields)
    (agree : AgreeOn (Template.ofEntry entry).templateNames definitions other) :
    expand definitions label entry = expand other label entry := by
  have alike (combination : Fields) : (Template.ofEntry entry).fill definitions combination =
      (Template.ofEntry entry).fill other combination :=
    Template.fill_congr _ _ _ _ _ fun name named =>
      Fields.get?_overlay_congr name definitions other combination (agree name named)
  simp only [expand, Template.fillAll_eq, funext alike]

section Beside

variable (definitions : Fields) (label : String) (entry front back : Fields)

/-- The expansion of an entry with some variables before and some after a further one that has a
number of values but stands in no template. -/
def expandBeside (count : Nat) : Expanding (List Fields) :=
  (Noted.ofExcept (front.mapM (readVariable label))).andThen fun before =>
    (Noted.ofExcept (back.mapM (readVariable label))).andThen fun after =>
      Noted.inTurn ((combinations before).flatMap fun first =>
        (List.replicate count ((combinations after).map fun last =>
          (Template.ofEntry entry).fill definitions (first ++ last))).flatten)

theorem expand_between (between : Fields) (taken : List Variable)
    (read : between.mapM (readVariable label) = .ok taken) :
    expand definitions label (entry.insert "foreach" (.object (front ++ (between ++ back)))) =
      (Noted.ofExcept (front.mapM (readVariable label))).andThen fun before =>
        (Noted.ofExcept (back.mapM (readVariable label))).andThen fun after =>
          Noted.inTurn ((combinations (before ++ (taken ++ after))).map
            ((Template.ofEntry entry).fill definitions)) := by
  rw [expand, Fields.get?_insert, if_pos rfl]
  simp only [readVariables, readEachVariable_eq, ofEntry_insert_variables, Template.fillAll_eq,
    Noted.bind_eq, List.mapM_append, read]
  cases front.mapM (readVariable label) with
  | error fault => rfl
  | ok before => cases back.mapM (readVariable label) <;> rfl

theorem expand_alone :
    expand definitions label (entry.insert "foreach" (.object (front ++ back))) =
      expandBeside definitions label entry front back 1 := by
  rw [← List.nil_append back, expand_between definitions label entry front back [] [] rfl,
    expandBeside]
  simp [combinations_append, List.map_flatMap, Function.comp_def]

theorem expand_along (name : String) (items values : List Value)
    (unnamed : name ∉ (Template.ofEntry entry).templateNames)
    (read : expandValues (label ++ ".foreach." ++ name) items = .ok values) :
    expand definitions label
        (entry.insert "foreach" (.object (front ++ (name, .list items) :: back))) =
      expandBeside definitions label entry front back values.length := by
  have beside (first last : Fields) (value : Value) :
      (Template.ofEntry entry).fill definitions (first ++ (name, value) :: last) =
        (Template.ofEntry entry).fill definitions (first ++ last) := by
    apply Template.fill_congr
    intro asked named
    apply Fields.get?_overlay_beside
    rintro rfl
    exact unnamed named
  have taken : [(name, Value.list items)].mapM (readVariable label) = .ok [(name, values)] := by
    simp [readVariable, read, bind, Except.bind, pure, Except.pure]
  rw [← List.singleton_append, expand_between definitions label entry front back _ _ taken,
    expandBeside]
  simp [combinations_append, combinations, List.map_flatMap, Function.comp_def, beside,
    flatMap_const]

/-- The entries are there once for each of a number of values, with their complaints. -/
theorem expandBeside_repeated (count : Nat) (bindings : List Fields)
    (ended : (expandBeside definitions label entry front back 1).result = .ok bindings) :
    ∃ repeated : List Fields,
      (expandBeside definitions label entry front back count).result = .ok repeated ∧
      repeated.Perm (List.replicate count bindings).flatten ∧
      (expandBeside definitions label entry front back count).notes.Perm
        (List.replicate count
          (expandBeside definitions label entry front back 1).notes).flatten := by
  obtain ⟨before, readFront, ended⟩ := Noted.andThen_ok _ _ _ ended
  obtain ⟨after, readBack, ended⟩ := Noted.andThen_ok _ _ _ ended
  let fillings (first : Fields) := (combinations after).map fun last =>
    (Template.ofEntry entry).fill definitions (first ++ last)
  let each := (combinations before).flatMap fillings
  have form (times : Nat) : expandBeside definitions label entry front back times =
      Noted.inTurn ((combinations before).flatMap fun first =>
        (List.replicate times (fillings first)).flatten) := by
    rw [expandBeside, show front.mapM (readVariable label) = .ok before from readFront,
      show back.mapM (readVariable label) = .ok after from readBack]
    rfl
  have once : expandBeside definitions label entry front back 1 = Noted.inTurn each := by
    rw [form 1]
    simp [each]
  have turned : (List.replicate count each).flatten.Perm ((combinations before).flatMap fun first =>
      (List.replicate count (fillings first)).flatten) := by
    have swapped := flatMap_swap (combinations before) (List.replicate count ())
      fun first _ => fillings first
    simp only [flatMap_const, List.length_replicate] at swapped
    exact swapped.symm
  have endedOnce : (Noted.inTurn each).result = .ok bindings := by
    simpa [each] using ended
  obtain ⟨whole, noted⟩ := Noted.inTurn_repeated count each bindings endedOnce
  obtain ⟨repeated, done, alike, complaints⟩ := Noted.inTurn_reordered _ _ turned _ whole
  rw [form count, once]
  exact ⟨repeated, done, alike.symm, complaints.symm.trans (.of_eq noted)⟩

end Beside

/-- Names that do not stand in an expression do not matter to it, nor do definitions that no
template of an entry names. A variable that no template names only decides how often each entry is
there: not at all otherwise if it takes one value, or as many values as before. -/
theorem unnamed_ignored :
    (∀ (expr : Expr) (left right : Fields), AgreeOn expr.names left right →
      expr.evaluate left = expr.evaluate right) ∧
    (∀ (definitions others : Fields) (label : String) (entry : Fields),
      AgreeOn (Template.ofEntry entry).templateNames definitions others →
        expand definitions label entry = expand others label entry) ∧
    ∀ (definitions : Fields) (label : String) (entry front back : Fields) (name : String)
      (items values : List Value), name ∉ (Template.ofEntry entry).templateNames →
      expandValues (label ++ ".foreach." ++ name) items = .ok values →
        let alone := expand definitions label (entry.insert "foreach" (.object (front ++ back)))
        let along (held : List Value) := expand definitions label
          (entry.insert "foreach" (.object (front ++ (name, .list held) :: back)))
        (∀ changed others, expandValues (label ++ ".foreach." ++ name) changed = .ok others →
          others.length = values.length → along changed = along items) ∧
        (values.length = 1 → along items = alone) ∧
        ∀ bindings, alone.result = .ok bindings →
          ∃ repeated : List Fields, (along items).result = .ok repeated ∧
            repeated.Perm (List.replicate values.length bindings).flatten ∧
            (along items).notes.Perm (List.replicate values.length alone.notes).flatten := by
  refine ⟨fun expr left right agree => Expr.evaluate_congr left right expr agree, expand_congr,
    fun definitions label entry front back name items values unnamed read => ?_⟩
  intro alone along
  have isAlone : alone = expandBeside definitions label entry front back 1 :=
    expand_alone definitions label entry front back
  have isAlong (held taken : List Value)
      (readHeld : expandValues (label ++ ".foreach." ++ name) held = .ok taken) :
      along held = expandBeside definitions label entry front back taken.length :=
    expand_along definitions label entry front back name held taken unnamed readHeld
  refine ⟨?_, ?_, ?_⟩
  · intro changed others readChanged same
    rw [isAlong changed others readChanged, isAlong items values read, same]
  · intro single
    rw [isAlong items values read, isAlone, single]
  · intro bindings ended
    rw [isAlone] at ended ⊢
    rw [isAlong items values read]
    exact expandBeside_repeated definitions label entry front back values.length bindings ended

/-- An entry whose templates name `key` alone. -/
def keyed : Fields :=
  [("key", .text "ctrl+\x7b\x7bkey\x7d\x7d"), ("command", .text "\x7b\x7bkey || 'mode'\x7d\x7d")]

/-- The same with a variable for the key, and further ones. -/
def keyedBy (further : Fields) : Fields :=
  keyed.insert "foreach" (.object ([("key", .list [.text "a", .text "b"])] ++ further))

theorem mode_ignored :
    (Expr.member (.name "key") "mode").evaluate [("key", .null), ("mode", .text "x")] =
      (Expr.member (.name "key") "mode").evaluate [("key", .null)] ∧
    expand [("mode", .text "x")] "bind[0]" (keyedBy []) = expand [] "bind[0]" (keyedBy []) ∧
    expand [] "bind[0]" (keyedBy [("mode", .list [.text "y", .null])]) =
      expand [] "bind[0]" (keyedBy [("mode", .list [.text "x", .text "z"])]) ∧
    expand [] "bind[0]" (keyedBy [("mode", .list [.text "x"])]) =
      expand [] "bind[0]" (keyedBy []) ∧
    ∃ bindings repeated : List Fields,
      (expand [] "bind[0]" (keyedBy [])).result = .ok bindings ∧
      (expand [] "bind[0]" (keyedBy [("mode", .list [.text "x", .text "z"])])).result =
        .ok repeated ∧
      repeated.Perm (bindings ++ bindings) := by
  have names : (Template.ofEntry keyed).templateNames = ["key", "key"] := by decide +kernel
  have unnamed : "mode" ∉ (Template.ofEntry keyed).templateNames := by
    rw [names]
    decide
  obtain ⟨bindings, ended, _⟩ := ended_of_check (expand [] "bind[0]" (keyedBy [])).result
    (fun _ => true) (by decide +kernel)
  have twice := unnamed_ignored.2.2 [] "bind[0]" keyed [("key", .list [.text "a", .text "b"])] []
    "mode" [.text "x", .text "z"] [.text "x", .text "z"] unnamed rfl
  have once := unnamed_ignored.2.2 [] "bind[0]" keyed [("key", .list [.text "a", .text "b"])] []
    "mode" [.text "x"] [.text "x"] unnamed rfl
  refine ⟨?_, ?_, twice.1 [.text "y", .null] [.text "y", .null] rfl rfl, once.2.1 rfl, ?_⟩
  · refine unnamed_ignored.1 _ _ _ ?_
    intro name named
    rw [List.mem_singleton.mp named]
    rfl
  · refine unnamed_ignored.2.1 _ _ _ _ ?_
    rw [keyedBy, ofEntry_insert_variables, names]
    intro name named
    simp only [List.mem_cons, List.not_mem_nil, or_false, or_self] at named
    rw [named]
    rfl
  · obtain ⟨repeated, done, alike, _⟩ := twice.2.2 bindings ended
    exact ⟨bindings, repeated, ended, done, by simpa [List.replicate] using alike⟩

/-- A variable that no template names still doubles the entries if it takes two values. -/
theorem unnamed_variable_counts :
    ¬ ∀ (definitions : Fields) (label : String) (entry given : Fields) (name : String)
      (items values : List Value), name ∉ (Template.ofEntry entry).templateNames →
        expandValues (label ++ ".foreach." ++ name) items = .ok values →
          (expand definitions label
            (entry.insert "foreach" (.object (given.insert name (.list items))))).result =
          (expand definitions label (entry.insert "foreach" (.object given))).result := by
  intro unchanged
  have same := unchanged [] "bind" [("key", .text "a"), ("command", .text "c")] [] "x"
    [.text "1", .text "2"] [.text "1", .text "2"] (by decide +kernel) rfl
  have counted := congrArg (fun result => result.toOption.map List.length) same
  exact absurd counted (by decide +kernel)

end Foreach

end Keymap

import Keymap.Proofs.Value.Json
import Keymap.Binding.Conflict

/-!
What it takes for two bindings to have the same content: each part is written alike. So bindings
of one content have the same guards in the same order, hold in the same modes and run the same
commands.
-/

set_option autoImplicit false

namespace Keymap

namespace Binding

open Json (render compact)

def contentFields (binding : Binding) : Fields :=
  [("key", .text binding.key),
   ("commands", .list (binding.commands.map .object)),
   ("when", texts (binding.guards.map (·.id))),
   ("mode", (binding.modes.map texts).getD .null),
   ("implicit_mode", .bool binding.implicit),
   ("prefixes", texts binding.prefixes),
   ("final_key", .bool binding.finalKey),
   ("computed_repeat", binding.repeatCount),
   ("docs", .object binding.docs)]

def commandTexts (binding : Binding) : List String :=
  binding.commands.map fun command => render compact (.object command)

structure SameContent (left right : Binding) : Prop where
  key : left.key = right.key
  commands : left.commandTexts = right.commandTexts
  guards : left.guards.map (·.id) = right.guards.map (·.id)
  modes : left.modes = right.modes
  implicit : left.implicit = right.implicit
  prefixes : left.prefixes = right.prefixes
  finalKey : left.finalKey = right.finalKey
  repeatCount : render compact left.repeatCount = render compact right.repeatCount
  docs : render compact (.object left.docs) = render compact (.object right.docs)

theorem modes_of_render (left right : Option (List String))
    (same : render compact ((left.map texts).getD .null) =
      render compact ((right.map texts).getD .null)) : left = right := by
  have apart : ∀ modes, render compact (texts modes) ≠ render compact .null := by
    intro modes alike
    rw [texts, Json.render_list_text] at alike
    have chars := congrArg String.toList alike
    simp [render, Json.write] at chars
  cases left with
  | none =>
    cases right with
    | none => rfl
    | some modes => exact absurd same.symm (apart modes)
  | some modes =>
    cases right with
    | none => exact absurd same (apart modes)
    | some others => rw [Json.render_texts modes others same]

/-- Contents are equal if all parts are written alike, and only then. -/
theorem content_eq_iff (left right : Binding) :
    left.content = right.content ↔ SameContent left right := by
  constructor
  · intro same
    have part := Json.render_object left.contentFields right.contentFields same
    have commands := Json.render_list _ _ (Option.some.inj (part "commands"))
    rw [List.map_map, List.map_map] at commands
    exact
      { key := Json.string_injective _ _ (Option.some.inj (part "key"))
        commands := commands
        guards := Json.render_texts _ _ (Option.some.inj (part "when"))
        modes := modes_of_render _ _ (Option.some.inj (part "mode"))
        implicit := Json.render_flag _ _ (Option.some.inj (part "implicit_mode"))
        prefixes := Json.render_texts _ _ (Option.some.inj (part "prefixes"))
        finalKey := Json.render_flag _ _ (Option.some.inj (part "final_key"))
        repeatCount := Option.some.inj (part "computed_repeat")
        docs := Option.some.inj (part "docs") }
  · intro same
    have commands : ∀ binding : Binding, render compact (.list (binding.commands.map .object)) =
        "[" ++ Text.joined "," binding.commandTexts ++ "]" := by
      intro binding
      rw [Json.render_list_text, List.map_map]
      rfl
    show render compact (.object left.contentFields) = render compact (.object right.contentFields)
    rw [Json.render_object_text, Json.render_object_text]
    simp only [contentFields, Json.fieldTexts, List.map_cons, List.map_nil, commands, same.key,
      same.commands, same.guards, same.modes, same.implicit, same.prefixes, same.finalKey,
      same.repeatCount, same.docs]

theorem runs_of_render (left right : Command) (name : String) (defined : name ≠ "undefined")
    (same : render compact (.object left) = render compact (.object right))
    (runs : left.runs name = true) : right.runs name = true := by
  have named : left.get? "command" = some (.text name) := by
    rw [Command.runs, beq_iff_eq, Option.bind_eq_some_iff] at runs
    obtain ⟨value, found, text⟩ := runs
    cases value <;> simp only [Value.text?, Option.some.injEq, reduceCtorEq] at text
    rw [found, text]
  have field := Json.render_object left right same "command"
  rw [named, Option.map_some, eq_comm, Option.map_eq_some_iff] at field
  obtain ⟨value, found, written⟩ := field
  rw [Json.text_of_render value name defined written] at found
  simp [Command.runs, found, Value.text?]

theorem SameContent.refl (binding : Binding) : SameContent binding binding :=
  (content_eq_iff binding binding).mp rfl

theorem SameContent.trans {first middle last : Binding} (before : SameContent first middle)
    (after : SameContent middle last) : SameContent first last :=
  (content_eq_iff first last).mp
    (((content_eq_iff first middle).mpr before).trans ((content_eq_iff middle last).mpr after))

theorem SameContent.symm {left right : Binding} (same : SameContent left right) :
    SameContent right left :=
  (content_eq_iff right left).mp ((content_eq_iff left right).mpr same).symm

theorem SameContent.runs {left right : Binding} (same : SameContent left right) (name : String)
    (defined : name ≠ "undefined") (runs : left.runs name = true) : right.runs name = true := by
  obtain ⟨command, member, named⟩ := List.any_eq_true.mp runs
  have written : render compact (.object command) ∈ right.commandTexts :=
    same.commands ▸ List.mem_map_of_mem member
  obtain ⟨other, among, alike⟩ := List.mem_map.mp written
  exact List.any_eq_true.mpr ⟨other, among, runs_of_render command other name defined alike.symm named⟩

theorem SameContent.runs_eq {left right : Binding} (same : SameContent left right)
    (name : String) (defined : name ≠ "undefined") : left.runs name = right.runs name :=
  Bool.eq_iff_iff.mpr ⟨same.runs name defined, same.symm.runs name defined⟩

theorem onlyRuns_iff (binding : Binding) (name : String) :
    binding.onlyRuns name = true ↔ binding.commands.length = 1 ∧ binding.runs name = true := by
  unfold onlyRuns runs
  split
  · next command single => simp [single]
  · next other =>
    simp only [Bool.false_eq_true, false_iff, not_and]
    intro single
    obtain ⟨command, alone⟩ := List.length_eq_one_iff.mp single
    exact absurd alone (other command)

theorem SameContent.onlyRuns_eq {left right : Binding} (same : SameContent left right)
    (name : String) (defined : name ≠ "undefined") :
    left.onlyRuns name = right.onlyRuns name := by
  have count : left.commands.length = right.commands.length := by
    simpa [commandTexts] using congrArg List.length same.commands
  rw [Bool.eq_iff_iff, onlyRuns_iff, onlyRuns_iff, count, same.runs_eq name defined]

end Binding

end Keymap

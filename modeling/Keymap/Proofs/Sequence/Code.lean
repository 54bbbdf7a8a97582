import Keymap.Sequence.Code

/-!
Codes only ever grow: whatever is handed out later, a sequence keeps the code that it was given
first (`code_stays`), and two sequences never share one (`codeOf_injective`).
-/

set_option autoImplicit false

namespace Keymap

namespace PrefixCodes

/-- Everything that was handed out before is still there, in its place. -/
def Extends (later earlier : PrefixCodes) : Prop := earlier.names <+: later.names

theorem extends_refl (codes : PrefixCodes) : codes.Extends codes := List.prefix_rfl

theorem extends_trans {last middle first : PrefixCodes} (later : last.Extends middle)
    (earlier : middle.Extends first) : last.Extends first :=
  List.IsPrefix.trans earlier later

theorem codeFor_extends (codes : PrefixCodes) (name : String) :
    (codes.codeFor name).2.Extends codes := by
  unfold codeFor
  split
  · exact extends_refl codes
  · exact List.prefix_append codes.names [name]

theorem indexOf?_append (name : String) (names more : List String) (code : Nat)
    (found : indexOf? name names = some code) : indexOf? name (names ++ more) = some code := by
  induction names generalizing code with
  | nil => simp [indexOf?] at found
  | cons known rest ih =>
    by_cases same : known = name
    · simpa [indexOf?, same] using found
    · simp only [indexOf?, if_neg same, Option.map_eq_some_iff] at found
      obtain ⟨earlier, later, rfl⟩ := found
      simp [indexOf?, same, ih earlier later]

theorem indexOf?_concat_self (name : String) (names : List String) (new : name ∉ names) :
    indexOf? name (names ++ [name]) = some names.length := by
  induction names with
  | nil => simp [indexOf?]
  | cons known rest ih =>
    have different : known ≠ name := fun same => new (same ▸ List.mem_cons_self)
    have later := ih fun member => new (List.mem_cons_of_mem known member)
    simp [indexOf?, different, later]

theorem indexOf?_codeFor (codes : PrefixCodes) (name : String) :
    indexOf? name (codes.codeFor name).2.names = some (codes.codeFor name).1 := by
  unfold codeFor
  split
  · next code found => exact found
  · next absent =>
    exact indexOf?_concat_self name codes.names ((indexOf?_eq_none_iff name codes.names).mp absent)

theorem indexOf?_of_extends {codes later : PrefixCodes} (name : String)
    (after : later.Extends (codes.codeFor name).2) :
    indexOf? name later.names = some (codes.codeFor name).1 := by
  obtain ⟨more, grown⟩ := after
  rw [← grown]
  exact indexOf?_append name _ more _ (indexOf?_codeFor codes name)

theorem code_stays {codes later : PrefixCodes} (name : String)
    (after : later.Extends (codes.codeFor name).2) :
    (later.codeFor name).1 = (codes.codeFor name).1 := by
  have found := indexOf?_of_extends name after
  simp [codeFor, found]

theorem codeOf_freeze (codes : PrefixCodes) (name : String) :
    codes.freeze.codeOf? name = indexOf? name codes.names := by
  have numbered : ∀ (names : List String) (start : Nat),
      ((names.zipIdx start).find? fun entry => entry.1 = name).map (·.2) =
        (indexOf? name names).map (start + ·) := by
    intro names
    induction names with
    | nil => intro start; rfl
    | cons known rest ih =>
      intro start
      by_cases same : known = name
      · simp [indexOf?, same]
      · have later := ih (start + 1)
        simp only [List.zipIdx_cons, indexOf?, if_neg same]
        rw [List.find?_cons_of_neg (by simpa using same), later, Option.map_map]
        congr 1
        funext code
        simp only [Function.comp_apply]
        omega
  simpa [CodeTable.codeOf?, freeze, entries] using numbered codes.names 0

theorem mem_of_extends {later earlier : PrefixCodes} (after : later.Extends earlier)
    (name : String) (known : name ∈ earlier.names) : name ∈ later.names :=
  after.subset known

theorem mem_codeFor (codes : PrefixCodes) (name : String) :
    name ∈ (codes.codeFor name).2.names :=
  List.mem_of_getElem? (getElem?_codeFor codes name)

theorem codeOf_freeze_of_mem (codes : PrefixCodes) (name : String) (known : name ∈ codes.names) :
    codes.freeze.codeOf? name = some (codes.codeFor name).1 := by
  rw [codeOf_freeze, codeFor]
  cases found : indexOf? name codes.names with
  | none => exact absurd known ((indexOf?_eq_none_iff name codes.names).mp found)
  | some code => rfl

theorem codeOf_injective (codes : PrefixCodes) (left right : String) (code : Nat)
    (leftCode : codes.freeze.codeOf? left = some code)
    (rightCode : codes.freeze.codeOf? right = some code) : left = right := by
  rw [codeOf_freeze] at leftCode rightCode
  have leftName := getElem?_of_indexOf? left codes.names code leftCode
  have rightName := getElem?_of_indexOf? right codes.names code rightCode
  exact Option.some.inj (leftName.symm.trans rightName)

end PrefixCodes

end Keymap

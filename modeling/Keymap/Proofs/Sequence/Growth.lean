import Keymap.Proofs.Sequence.Places

/-!
Sequences get their codes key by key: first the empty one, then each after the sequence that it
extends by one key. So the table of a compilation is closed under taking the last key away, and a
sequence always has a larger code than the one it extends (`codes_closed`).
-/

set_option autoImplicit false

namespace Keymap

open Text (wordsOf joined IsWord)

namespace PrefixCodes

/-- Names in the order of their codes: the empty one, then each new, and a known one with one more
key. -/
inductive Grown : List String → Prop
  | start : Grown [""]
  | extend (names before : List String) (key : String) (grown : Grown names)
      (words : ∀ word ∈ before ++ [key], IsWord word) (known : joined " " before ∈ names)
      (new : joined " " (before ++ [key]) ∉ names) :
      Grown (names ++ [joined " " (before ++ [key])])

theorem grown_first (names : List String) (grown : Grown names) : names.head? = some "" := by
  induction grown with
  | start => rfl
  | extend names before key _ _ known _ ih =>
    rw [List.head?_append, ih]
    rfl

theorem grown_distinct (names : List String) (grown : Grown names) : names.Nodup := by
  induction grown with
  | start => exact List.nodup_singleton ""
  | extend names before key _ _ _ new ih =>
    rw [List.nodup_append']
    exact ⟨ih, List.nodup_singleton _, by simpa using new⟩

/-- A name that is not empty stands after the one that it extends by its last key. -/
theorem grown_parent (names : List String) (grown : Grown names) (code : Nat) (name : String)
    (stands : names[code]? = some name) (typed : name ≠ "") :
    ∃ before key, (∀ word ∈ before ++ [key], IsWord word) ∧ name = joined " " (before ++ [key]) ∧
      ∃ earlier < code, names[earlier]? = some (joined " " before) := by
  induction grown with
  | start =>
    rw [List.getElem?_singleton] at stands
    split at stands
    · exact absurd (Option.some.inj stands).symm typed
    · cases stands
  | extend names before key _ words known _ ih =>
    by_cases old : code < names.length
    · rw [List.getElem?_append_left old] at stands
      obtain ⟨front, last, lettered, split, earlier, less, found⟩ := ih stands
      refine ⟨front, last, lettered, split, earlier, less, ?_⟩
      rw [List.getElem?_append_left (Nat.lt_trans less old), found]
    · rw [List.getElem?_append_right (Nat.le_of_not_lt old), List.getElem?_singleton] at stands
      split at stands
      · obtain ⟨earlier, found⟩ := List.mem_iff_getElem?.mp known
        have less : earlier < names.length := (List.getElem?_eq_some_iff.mp found).1
        refine ⟨before, key, words, (Option.some.inj stands).symm, earlier, by omega, ?_⟩
        rw [List.getElem?_append_left less, found]
      · cases stands

theorem grown_codeFor (codes : PrefixCodes) (grown : Grown codes.names) (before : List String)
    (key : String) (words : ∀ word ∈ before ++ [key], IsWord word)
    (known : joined " " before ∈ codes.names) :
    Grown (codes.codeFor (joined " " (before ++ [key]))).2.names := by
  unfold codeFor
  split
  · exact grown
  · next absent =>
    exact .extend codes.names before key grown words known
      ((indexOf?_eq_none_iff _ _).mp absent)

end PrefixCodes

namespace Sequence

open PrefixCodes (Grown)

variable (options : Options)

theorem grown_addSteps (binding : Binding) (done keys : List String)
    (words : ∀ word ∈ done ++ keys, IsWord word) (state : State)
    (grown : Grown state.codes.names) (known : joined " " done ∈ state.codes.names) :
    let after := (addSteps options binding (joined " " done) state keys).2
    Grown after.codes.names ∧ joined " " (done ++ keys) ∈ after.codes.names := by
  induction keys generalizing done state with
  | nil => exact ⟨grown, by simpa [addSteps] using known⟩
  | cons key rest ih =>
    have whole : done ++ key :: rest = done ++ [key] ++ rest := List.append_cons ..
    rw [whole] at words ⊢
    have reached : ∀ word ∈ done ++ [key], IsWord word := fun word member =>
      words word (List.mem_append_left rest member)
    have name := extend_joined done key fun word member =>
      reached word (List.mem_append_left [key] member)
    unfold addSteps
    simp only [name]
    refine ih (done ++ [key]) words _ ?_ ?_
    · exact PrefixCodes.grown_codeFor state.codes grown done key reached known
    · exact PrefixCodes.mem_codeFor state.codes _

theorem grown_addLast (binding : Binding) (single : Bool) (before : List String) (key : String)
    (words : ∀ word ∈ before ++ [key], IsWord word) (state : State)
    (grown : Grown state.codes.names) (known : joined " " before ∈ state.codes.names) :
    Grown (addLast options binding single (joined " " before) key state).codes.names := by
  have name := extend_joined before key fun word member =>
    words word (List.mem_append_left [key] member)
  unfold addLast
  split
  · simp only [name]
    exact PrefixCodes.grown_codeFor state.codes grown before key words known
  · exact grown

theorem grown_addBinding (binding : Binding) (state : State) (grown : Grown state.codes.names) :
    Grown (addBinding options state binding).codes.names := by
  by_cases skipped : Skipped options binding
  · rw [addBinding_skipped options state binding skipped]
    exact grown
  rcases List.eq_nil_or_concat (sequenceOf binding) with blank | ⟨before, key, split⟩
  · rw [addBinding_blank options state binding skipped blank]
    exact grown
  rw [List.concat_eq_append] at split
  have words : ∀ word ∈ before ++ [key], IsWord word := fun word member =>
    sequence_words binding word (split ▸ member)
  obtain ⟨problems, _, unfolded⟩ :=
    addBinding_sequence options state binding skipped before key split
  have first : joined " " [] ∈ state.codes.names :=
    List.mem_of_mem_head? (PrefixCodes.grown_first _ grown)
  obtain ⟨stepped, reached⟩ := grown_addSteps options binding [] before
    (fun word member => words word (List.mem_append_left [key] member)) (state.note problems)
    grown first
  rw [unfolded]
  exact grown_addLast options binding _ before key words _ stepped reached

theorem grown_compile (bindings : List Binding) :
    Grown (compile options bindings).codes.names := by
  have kept : ∀ state : State, Grown state.codes.names →
      Grown (bindings.foldl (addBinding options) state).codes.names := by
    induction bindings with
    | nil => exact fun _ grown => grown
    | cons binding rest ih =>
      exact fun state grown => ih _ (grown_addBinding options binding state grown)
  exact kept State.start .start

end Sequence

namespace CodeTable

/-- A sequence without its last key. -/
def parent (name : String) : String := joined " " (wordsOf name).dropLast

/-- Names and codes that determine each other, numbered from the empty name on, where every other
name has its parent before it. -/
structure Closed (table : CodeTable) : Prop where
  first : table.entries.head? = some ("", 0)
  numbered : table.entries.map (·.2) = List.range table.entries.length
  distinct : (table.entries.map (·.1)).Nodup
  codeOf : ∀ name code, table.codeOf? name = some code ↔ (name, code) ∈ table.entries
  nameOf : ∀ name code, table.nameOf? code = some name ↔ (name, code) ∈ table.entries
  parents : ∀ name code, (name, code) ∈ table.entries → name ≠ "" →
    ∃ key earlier, (wordsOf name).getLast? = some key ∧
      name = Sequence.extend (parent name) key ∧
      (parent name, earlier) ∈ table.entries ∧ earlier < code

theorem nameOf_freeze (codes : PrefixCodes) (code : Nat) :
    codes.freeze.nameOf? code = codes.names[code]? := by
  have numbered : ∀ (names : List String) (start : Nat), start ≤ code →
      ((names.zipIdx start).find? fun entry => entry.2 = code).map (·.1) =
        names[code - start]? := by
    intro names
    induction names with
    | nil => exact fun _ _ => rfl
    | cons known rest ih =>
      intro start least
      by_cases here : start = code
      · simp [here]
      · have after : code - start = code - (start + 1) + 1 := by omega
        rw [List.zipIdx_cons, List.find?_cons_of_neg (by simpa using here),
          ih (start + 1) (by omega), after, List.getElem?_cons_succ]
  simpa [nameOf?, PrefixCodes.freeze, PrefixCodes.entries] using
    numbered codes.names 0 (Nat.zero_le _)

theorem codeOf_iff (codes : PrefixCodes) (distinct : codes.names.Nodup) (name : String)
    (code : Nat) : codes.freeze.codeOf? name = some code ↔ codes.names[code]? = some name := by
  rw [PrefixCodes.codeOf_freeze]
  constructor
  · exact PrefixCodes.getElem?_of_indexOf? name codes.names code
  · intro stands
    cases found : PrefixCodes.indexOf? name codes.names with
    | none =>
      exact absurd (List.mem_of_getElem? stands)
        ((PrefixCodes.indexOf?_eq_none_iff name codes.names).mp found)
    | some first =>
      have here := PrefixCodes.getElem?_of_indexOf? name codes.names first found
      have inside : first < codes.names.length := (List.getElem?_eq_some_iff.mp here).1
      rw [(List.getElem?_inj inside distinct).mp (here.trans stands.symm)]

theorem mem_freeze (codes : PrefixCodes) (name : String) (code : Nat) :
    (name, code) ∈ codes.freeze.entries ↔ codes.names[code]? = some name :=
  List.mk_mem_zipIdx_iff_getElem?

theorem parent_joined (before : List String) (key : String)
    (words : ∀ word ∈ before ++ [key], IsWord word) :
    parent (joined " " (before ++ [key])) = joined " " before := by
  rw [parent, Text.words_of_joined _ words, List.dropLast_concat]

theorem closed_of_grown (codes : PrefixCodes) (grown : PrefixCodes.Grown codes.names) :
    codes.freeze.Closed where
  first := by
    have start := PrefixCodes.grown_first _ grown
    rw [List.head?_eq_getElem?] at start ⊢
    simp [PrefixCodes.freeze, PrefixCodes.entries, start]
  numbered := by
    simp [PrefixCodes.freeze, PrefixCodes.entries, List.range_eq_range']
  distinct := by
    simpa [PrefixCodes.freeze, PrefixCodes.entries] using PrefixCodes.grown_distinct _ grown
  codeOf name code := by
    rw [mem_freeze, codeOf_iff codes (PrefixCodes.grown_distinct _ grown)]
  nameOf name code := by
    rw [mem_freeze, nameOf_freeze]
  parents name code given typed := by
    rw [mem_freeze] at given
    obtain ⟨before, key, words, rfl, earlier, less, found⟩ :=
      PrefixCodes.grown_parent _ grown code name given typed
    refine ⟨key, earlier, ?_, ?_, ?_, less⟩
    · rw [Text.words_of_joined _ words, List.getLast?_concat]
    · rw [parent_joined before key words, Sequence.extend_joined before key fun word member =>
        words word (List.mem_append_left [key] member)]
    · rw [parent_joined before key words, mem_freeze, found]

end CodeTable

namespace Sequence

/-- The codes of a compilation, whatever bindings go in and whichever of them lose their places. -/
theorem codes_closed (options : Options) (bindings : List Binding) :
    (compile options bindings).codes.freeze.Closed :=
  CodeTable.closed_of_grown _ (grown_compile options bindings)

end Sequence

end Keymap

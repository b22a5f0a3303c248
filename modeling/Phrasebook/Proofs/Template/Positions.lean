import Mathlib.Data.List.Infix
import Phrasebook.Proofs.Template.Occurrence

/-! # Placeholders by their positions

A text can be searched for placeholders at each of its positions. The names of a text are those found so, from
the left, each where it is found first: what lies inside a placeholder starts none.
-/

namespace Phrasebook.Template

variable {isWord : Char → Bool}

def starting? (isWord : Char → Bool) : List Char → Option String
  | [] => none
  | c :: cs =>
    if c = '\x7b' then (Text.enclosed? isWord '\x7d' cs).map fun found => String.ofList found.1 else none

/-- The names of the placeholders at all positions of a text, from the left. -/
def occurrences (text : String) : List String := text.toList.tails.filterMap (starting? Text.isWord)

theorem starting?_of_ne {c : Char} (h : c ≠ '\x7b') (cs : List Char) : starting? isWord (c :: cs) = none := if_neg h

theorem filterMap_tails_append {α : Type} {find? : List Char → Option α} {front : List Char}
    (h : ∀ c ∈ front, ∀ cs, find? (c :: cs) = none) (rest : List Char) :
    (front ++ rest).tails.filterMap find? = rest.tails.filterMap find? := by
  induction front with
  | nil => rfl
  | cons c front ih =>
    rw [List.forall_mem_cons] at h
    rw [List.cons_append, List.tails_cons, List.filterMap_cons, h.1]
    exact ih h.2

/-- Reading pieces finds the placeholders at all positions. -/
theorem filterMap_name?_pieces (hopen : isWord '\x7b' = false) (cs : List Char) :
    (pieces isWord cs).filterMap Piece.name? = cs.tails.filterMap (starting? isWord) := by
  fun_induction pieces isWord cs with
  | case1 => rfl
  | case2 c cs run rest h ih =>
    obtain ⟨rfl, henclosed⟩ : c = '\x7b' ∧ Text.enclosed? isWord '\x7d' cs = some (run, rest) := by
      split at h
      · exact ⟨‹_›, h⟩
      · cases h
    obtain ⟨rfl, -, hrun⟩ := Text.enclosed?_eq_some henclosed
    have hfirst : starting? isWord ('\x7b' :: (run ++ '\x7d' :: rest)) = some (String.ofList run) := by
      rw [starting?, if_pos rfl, henclosed, Option.map_some]
    have hinside : '\x7b' ∉ run ++ ['\x7d'] := by
      rw [List.mem_append, not_or]
      refine ⟨fun hmem => ?_, by decide⟩
      rw [hrun _ hmem] at hopen
      cases hopen
    rw [List.filterMap_cons, List.tails_cons, List.filterMap_cons, hfirst, ih, List.append_cons,
      filterMap_tails_append fun c hc => starting?_of_ne (ne_of_mem_of_not_mem hc hinside)]
    rfl
  | case3 c cs h ih =>
    have hnone : starting? isWord (c :: cs) = none := by
      rw [starting?]
      split at h
      · rename_i hbrace
        rw [if_pos hbrace, h, Option.map_none]
      · rename_i hbrace
        exact if_neg hbrace
    rw [List.filterMap_cons, List.tails_cons, List.filterMap_cons, hnone]
    exact ih

/-! ## Each name once -/

theorem addNames_append (names first second : List String) :
    addNames names (first ++ second) = addNames (addNames names first) second := List.foldl_append

theorem addNames_eq_append (names extra : List String) :
    addNames names extra = names ++ (extra.filter fun name => !names.contains name).eraseDups := by
  induction extra generalizing names with
  | nil => simp [addNames]
  | cons name rest ih =>
    rw [addNames, List.foldl_cons, ← addNames]
    cases hname : names.contains name with
    | true =>
      rw [if_pos rfl, List.filter_cons_of_neg (by simp only [hname]; decide)]
      exact ih names
    | false =>
      have hboth : (rest.filter fun other => !(names ++ [name]).contains other) =
          (rest.filter fun other => !names.contains other).filter fun other => !other == name := by
        rw [List.filter_filter]
        refine List.filter_congr fun other _ => ?_
        simp [List.contains_eq_mem, Bool.and_comm, Bool.beq_eq_decide_eq]
      rw [if_neg Bool.false_ne_true, ih, List.filter_cons_of_pos (by simp only [hname]; decide),
        List.eraseDups_cons, ← hboth, List.append_assoc]
      rfl

theorem addNames_nil (extra : List String) : addNames [] extra = extra.eraseDups := by
  have hall : (extra.filter fun name => !([] : List String).contains name) = extra :=
    List.filter_eq_self.mpr fun _ _ => rfl
  rw [addNames_eq_append, List.nil_append, hall]

theorem addNames_addNames (names first second : List String) :
    addNames names (addNames first second) = addNames (addNames names first) second := by
  induction second generalizing first with
  | nil => rfl
  | cons name rest ih =>
    have hcons (names : List String) : addNames names (name :: rest) =
        addNames (if names.contains name then names else names ++ [name]) rest := rfl
    rw [hcons first, ih, hcons (addNames names first)]
    by_cases hfirst : name ∈ first
    · have hmem : name ∈ addNames names first := (mem_addNames names first).mpr (.inr hfirst)
      rw [if_pos (List.contains_iff_mem.mpr hfirst), if_pos (List.contains_iff_mem.mpr hmem)]
    · rw [if_neg (mt List.contains_iff_mem.mp hfirst), addNames_append]
      rfl

/-- The names of a text are those at its positions, each where it is found first. -/
theorem names_eq_eraseDups (text : String) : names text = (occurrences text).eraseDups := by
  rw [names, namesIn, filterMap_name?_pieces Text.isWord_openBrace, addNames_nil, occurrences]

theorem foldl_addNames_names (texts : List String) :
    texts.foldl (fun found text => addNames found (names text)) [] = (texts.flatMap occurrences).eraseDups := by
  have step (found : List String) : texts.foldl (fun found text => addNames found (names text)) found =
      addNames found (texts.flatMap occurrences) := by
    induction texts generalizing found with
    | nil => rfl
    | cons text rest ih =>
      rw [List.foldl_cons, ih, List.flatMap_cons, addNames_append, names_eq_eraseDups, ← addNames_nil,
        addNames_addNames]
      rfl
  rw [step, addNames_nil]

end Phrasebook.Template

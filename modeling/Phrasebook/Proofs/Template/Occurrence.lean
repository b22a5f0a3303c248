import Phrasebook.Template
import Mathlib.Data.List.Infix

/-! # Occurrences of placeholders

Reading a text from the left finds exactly the placeholders that occur in it as plain substrings: a name
holds no braces, so no placeholder that is read can cover the opening brace of another one.
-/

namespace Phrasebook.Text

theorem enclosed?_eq_some {inside : Char → Bool} {close : Char} {cs run rest : List Char}
    (h : enclosed? inside close cs = some (run, rest)) :
    cs = run ++ close :: rest ∧ run ≠ [] ∧ ∀ c ∈ run, inside c := by
  have parts := List.takeWhile_append_dropWhile (p := inside) (l := cs)
  have all : ∀ c ∈ cs.takeWhile inside, inside c := fun c hc => List.all_eq_true.mp List.all_takeWhile c hc
  unfold enclosed? at h
  split at h
  · rename_i first more mark after htake hdrop
    split at h
    · rename_i hmark
      cases h
      rw [htake, hdrop, hmark] at parts
      rw [htake] at all
      exact ⟨parts.symm, List.cons_ne_nil _ _, all⟩
    · cases h
  · cases h

theorem enclosed?_append {inside : Char → Bool} {close : Char} (hclose : inside close = false)
    {run : List Char} (hne : run ≠ []) (hrun : ∀ c ∈ run, inside c) (rest : List Char) :
    enclosed? inside close (run ++ close :: rest) = some (run, rest) := by
  have htake : (run ++ close :: rest).takeWhile inside = run := by
    rw [List.takeWhile_append_of_pos hrun]
    simp [hclose]
  have hdrop : (run ++ close :: rest).dropWhile inside = close :: rest := by
    rw [List.dropWhile_append_of_pos hrun]
    simp [hclose]
  obtain ⟨c, cs, rfl⟩ := List.exists_cons_of_ne_nil hne
  unfold enclosed?
  rw [htake, hdrop]
  simp

end Phrasebook.Text

namespace Phrasebook.Template

variable {isWord : Char → Bool}

/-- An occurrence that starts with a character foreign to a run lies behind the run. -/
theorem infix_of_infix_append {a : Char} {token run rest : List Char} (ha : a ∉ run)
    (h : a :: token <:+: run ++ rest) : a :: token <:+: rest := by
  induction run with
  | nil => exact h
  | cons c run ih =>
    rw [List.mem_cons, not_or] at ha
    rw [List.cons_append, List.infix_cons_iff] at h
    rcases h with hp | hi
    · exact absurd (List.cons_prefix_cons.mp hp).1 ha.1
    · exact ih ha.2 hi

/-- Reading from the left finds every placeholder that occurs anywhere. -/
theorem hole_mem_pieces_iff (hopen : isWord '\x7b' = false) (hclose : isWord '\x7d' = false)
    (name : String) (cs : List Char) :
    Piece.hole name ∈ pieces isWord cs ↔
      name.toList ≠ [] ∧ (∀ c ∈ name.toList, isWord c) ∧ (Piece.hole name).source <:+: cs := by
  fun_induction pieces isWord cs with
  | case1 => simp [Piece.source]
  | case2 c cs run rest h ih =>
    obtain ⟨hc, henc⟩ : c = '\x7b' ∧ Text.enclosed? isWord '\x7d' cs = some (run, rest) := by
      split at h
      · exact ⟨‹_›, h⟩
      · cases h
    obtain ⟨rfl, hne, hrun⟩ := Text.enclosed?_eq_some henc
    subst hc
    rw [List.mem_cons, ih]
    constructor
    · rintro (heq | ⟨hname, hword, hin⟩)
      · cases heq
        refine ⟨by simpa using hne, by simpa using hrun, ?_⟩
        exact ⟨[], rest, by simp [Piece.source]⟩
      · exact ⟨hname, hword, hin.trans ⟨'\x7b' :: (run ++ ['\x7d']), [], by simp⟩⟩
    · rintro ⟨hname, hword, hin⟩
      rcases List.infix_cons_iff.mp hin with ⟨tail, htail⟩ | hi
      · simp only [Piece.source, List.cons_append, List.append_assoc, List.cons.injEq, true_and,
          List.nil_append] at htail
        have hsame := Text.enclosed?_append hclose hname hword tail
        rw [htail, henc] at hsame
        have hrunname : run = name.toList := congrArg Prod.fst (Option.some.inj hsame)
        exact .inl (by rw [hrunname, String.ofList_toList])
      · have hbrace : '\x7b' ∉ run ++ ['\x7d'] := by
          intro hmem
          rcases List.mem_append.mp hmem with hm | hm
          · simp [hrun _ hm] at hopen
          · simp at hm
        rw [← List.singleton_append, ← List.append_assoc] at hi
        exact .inr ⟨hname, hword, infix_of_infix_append hbrace hi⟩
  | case3 c cs h ih =>
    rw [List.mem_cons, ih]
    constructor
    · rintro (heq | ⟨hname, hword, hin⟩)
      · cases heq
      · exact ⟨hname, hword, hin.trans (List.infix_cons List.infix_rfl)⟩
    · rintro ⟨hname, hword, hin⟩
      refine .inr ⟨hname, hword, ?_⟩
      rcases List.infix_cons_iff.mp hin with hp | hi
      · exfalso
        obtain ⟨tail, htail⟩ := hp
        simp only [Piece.source, List.cons_append, List.append_assoc, List.cons.injEq,
          List.nil_append] at htail
        rw [dif_pos htail.1.symm, ← htail.2, Text.enclosed?_append hclose hname hword] at h
        cases h
      · exact hi

theorem mem_filterMap_name?_iff {name : String} {found : List Piece} :
    name ∈ found.filterMap Piece.name? ↔ Piece.hole name ∈ found := by
  rw [List.mem_filterMap]
  constructor
  · rintro ⟨piece, hpiece, hname⟩
    cases piece with
    | char c => cases hname
    | hole other =>
      cases hname
      exact hpiece
  · intro h
    exact ⟨.hole name, h, rfl⟩

theorem mem_addNames {name : String} (names extra : List String) :
    name ∈ addNames names extra ↔ name ∈ names ∨ name ∈ extra := by
  induction extra generalizing names with
  | nil => simp [addNames]
  | cons first rest ih =>
    rw [addNames, List.foldl_cons, ← addNames, ih, List.mem_cons]
    split
    · rename_i hfirst
      rw [List.contains_iff_mem] at hfirst
      constructor
      · rintro (h | h)
        · exact .inl h
        · exact .inr (.inr h)
      · rintro (h | rfl | h)
        · exact .inl h
        · exact .inl hfirst
        · exact .inr h
    · rw [List.mem_append, List.mem_singleton, or_assoc]

theorem mem_namesIn_iff (hopen : isWord '\x7b' = false) (hclose : isWord '\x7d' = false) (name text : String) :
    name ∈ namesIn isWord text ↔
      name.toList ≠ [] ∧ (∀ c ∈ name.toList, isWord c) ∧ (Piece.hole name).source <:+: text.toList := by
  rw [namesIn, mem_addNames, mem_filterMap_name?_iff, ← hole_mem_pieces_iff hopen hclose]
  exact or_iff_right List.not_mem_nil

theorem mentionsIn_iff (hopen : isWord '\x7b' = false) (hclose : isWord '\x7d' = false) (text : String)
    (declared : List String) :
    mentionsIn isWord text declared = true ↔
      ∃ name ∈ declared,
        name.toList ≠ [] ∧ (∀ c ∈ name.toList, isWord c) ∧ (Piece.hole name).source <:+: text.toList := by
  rw [mentionsIn, List.any_eq_true]
  constructor
  · rintro ⟨piece, hpiece, hname⟩
    cases piece with
    | char c => cases hname
    | hole name =>
      exact ⟨name, List.contains_iff_mem.mp hname, (hole_mem_pieces_iff hopen hclose name _).mp hpiece⟩
  · rintro ⟨name, hdeclared, h⟩
    exact ⟨.hole name, (hole_mem_pieces_iff hopen hclose name _).mpr h, List.contains_iff_mem.mpr hdeclared⟩

/-- A name that a placeholder can have: word characters, and at least one of them. -/
def IsPlaceholderName (name : String) : Prop :=
  name.toList ≠ [] ∧ ∀ c ∈ name.toList, Text.isWord c

theorem hole_mem_pieces_text_iff (name text : String) :
    Piece.hole name ∈ pieces Text.isWord text.toList ↔
      IsPlaceholderName name ∧ (Piece.hole name).source <:+: text.toList := by
  rw [hole_mem_pieces_iff Text.isWord_openBrace Text.isWord_closeBrace, IsPlaceholderName, and_assoc]

theorem mem_names_iff (name text : String) :
    name ∈ names text ↔ IsPlaceholderName name ∧ (Piece.hole name).source <:+: text.toList := by
  rw [names, mem_namesIn_iff Text.isWord_openBrace Text.isWord_closeBrace, IsPlaceholderName, and_assoc]

theorem mentions_iff (text : String) (declared : List String) :
    mentions text declared = true ↔
      ∃ name ∈ declared, IsPlaceholderName name ∧ (Piece.hole name).source <:+: text.toList := by
  simp only [mentions, mentionsIn_iff Text.isWord_openBrace Text.isWord_closeBrace, IsPlaceholderName, and_assoc]

end Phrasebook.Template

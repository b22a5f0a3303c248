import Phrasebook.Proofs.Script.SharedFunctions
import Phrasebook.Proofs.Template.Positions

/-! # Reading a text and searching it

A text is read once from the left, and a placeholder is skipped as a whole. A search for a braced name looks at
every position. For every class of word characters without the braces both find the same names: a run of word
characters holds no brace, so no placeholder hides another one, however braces are nested or left open.
-/

namespace Phrasebook.Template

variable {isWord : Char → Bool}

theorem starting?_eq_some_iff (hclose : isWord '\x7d' = false) {cs : List Char} {name : String} :
    starting? isWord cs = some name ↔
      name.toList ≠ [] ∧ (∀ c ∈ name.toList, isWord c) ∧ (Piece.hole name).source <+: cs := by
  cases cs with
  | nil => simp [starting?, Piece.source]
  | cons c cs =>
    constructor
    · intro h
      rw [starting?] at h
      split at h
      · rename_i hbrace
        obtain ⟨⟨run, rest⟩, henclosed, hname⟩ := Option.map_eq_some_iff.mp h
        obtain ⟨rfl, hne, hrun⟩ := Text.enclosed?_eq_some henclosed
        subst hbrace hname
        refine ⟨by simpa using hne, by simpa using hrun, rest, ?_⟩
        simp [Piece.source]
      · cases h
    · rintro ⟨hne, hword, rest, hrest⟩
      rw [Piece.source, List.cons_append, List.append_assoc, List.singleton_append, List.cons.injEq] at hrest
      obtain ⟨rfl, rfl⟩ := hrest
      rw [starting?, if_pos rfl, Text.enclosed?_append hclose hne hword, Option.map_some, String.ofList_toList]

theorem pairwise_addNames_nil (extra : List String) :
    (addNames [] extra).Pairwise fun earlier later =>
      ∃ front back, extra = front ++ earlier :: back ∧ later ∉ front ++ [earlier] := by
  induction extra using List.reverseRecOn with
  | nil => exact List.Pairwise.nil
  | append_singleton found name ih =>
    have hfound : (addNames [] found).Pairwise fun earlier later =>
        ∃ front back, found ++ [name] = front ++ earlier :: back ∧ later ∉ front ++ [earlier] := by
      refine ih.imp ?_
      rintro earlier later ⟨front, back, rfl, hlater⟩
      exact ⟨front, back ++ [name], by simp, hlater⟩
    rw [addNames_append]
    show (if (addNames [] found).contains name then addNames [] found else addNames [] found ++ [name]).Pairwise _
    split
    · exact hfound
    · rename_i hnew
      rw [List.contains_iff_mem, mem_addNames] at hnew
      refine List.pairwise_append.mpr ⟨hfound, List.pairwise_singleton _ _, ?_⟩
      intro earlier hearlier later hlater
      cases List.mem_singleton.mp hlater
      have hmem : earlier ∈ found := ((mem_addNames [] found).mp hearlier).resolve_left List.not_mem_nil
      obtain ⟨front, back, rfl⟩ := List.append_of_mem hmem
      refine ⟨front, back ++ [name], by simp, fun h => hnew (.inr ?_)⟩
      rcases List.mem_append.mp h with hfront | hself
      · exact List.mem_append_left _ hfront
      · exact List.mem_append_right _ (List.mem_singleton.mp hself ▸ List.mem_cons_self)

/-- What a function finds along a list before and at one of its finds, it finds at the positions up to there. -/
theorem exists_position {α β : Type} {f : α → Option β} {xs : List α} {front back : List β} {b : β}
    (h : xs.filterMap f = front ++ b :: back) :
    ∃ (i : Nat) (x : α), xs[i]? = some x ∧ f x = some b ∧
      ∀ (j : Nat) y c, xs[j]? = some y → f y = some c → j ≤ i → c ∈ front ++ [b] := by
  obtain ⟨before, rest, rfl, rfl, hrest⟩ := List.filterMap_eq_append_iff.mp h
  obtain ⟨skipped, x, after, rfl, hskipped, hx, -⟩ := List.filterMap_eq_cons_iff.mp hrest
  refine ⟨(before ++ skipped).length, x, by simp, hx, ?_⟩
  intro j y c hy hc hj
  rw [← List.append_assoc, List.append_cons, List.getElem?_append_left (by simp at hj ⊢; omega)] at hy
  rcases List.mem_append.mp (List.mem_of_getElem? hy) with hmem | hmem
  · rcases List.mem_append.mp hmem with hbefore | hnone
    · exact List.mem_append_left _ (List.mem_filterMap.mpr ⟨y, hbefore, hc⟩)
    · rw [hskipped y hnone] at hc
      cases hc
  · cases List.mem_singleton.mp hmem
    rw [hx] at hc
    cases hc
    exact List.mem_append_right _ (List.mem_singleton_self _)

/-- Of two names of a text, the first one starts somewhere before every start of the second one. -/
theorem pairwise_namesIn (hopen : isWord '\x7b' = false) (hclose : isWord '\x7d' = false) (text : String) :
    (namesIn isWord text).Pairwise fun earlier later =>
      ∃ i, (Piece.hole earlier).source <+: text.toList.drop i ∧
        ∀ j, (Piece.hole later).source <+: text.toList.drop j → i < j := by
  have hnames : namesIn isWord text = addNames [] (text.toList.tails.filterMap (starting? isWord)) := by
    rw [namesIn, filterMap_name?_pieces hopen]
  have htail (i : Nat) (h : i ≤ text.toList.length) : text.toList.tails[i]? = some (text.toList.drop i) := by
    rw [List.getElem?_eq_getElem (by simp; omega), List.getElem_tails]
  have horder := pairwise_addNames_nil (text.toList.tails.filterMap (starting? isWord))
  rw [← hnames] at horder
  refine List.Pairwise.imp_of_mem ?_ horder
  rintro earlier later - hmem ⟨front, back, hfound, hlater⟩
  obtain ⟨i, rest, hi, hrest, hupto⟩ := exists_position hfound
  have hlength : i ≤ text.toList.length := by
    have := (List.getElem?_eq_some_iff.mp hi).1
    simp only [List.length_tails] at this
    omega
  cases Option.some.inj ((htail i hlength).symm.trans hi)
  refine ⟨i, ((starting?_eq_some_iff hclose).mp hrest).2.2, fun j hj => ?_⟩
  obtain ⟨hne, hword, -⟩ := (mem_namesIn_iff hopen hclose later text).mp hmem
  by_contra hle
  have hstart : starting? isWord (text.toList.drop j) = some later :=
    (starting?_eq_some_iff hclose).mpr ⟨hne, hword, hj⟩
  exact hlater (hupto j _ later (htail j (by omega)) hstart (by omega))

/-- Reading a text finds what a search for braced names finds, whatever the word characters are. Its names are
the runs of word characters that stand in it in braces, each once, in the order in which they are found first. A
declared name is mentioned exactly if it is such a run, so for names that were read off texts the function
`hasPlaceholder` gives the same answer. -/
theorem reading_finds_substrings (hopen : isWord '\x7b' = false) (hclose : isWord '\x7d' = false) (text : String) :
    (∀ name, name ∈ namesIn isWord text ↔
      name.toList ≠ [] ∧ (∀ c ∈ name.toList, isWord c) ∧ Script.braced name.toList <:+: text.toList) ∧
    (namesIn isWord text).Nodup ∧
    (namesIn isWord text).Pairwise (fun earlier later =>
      ∃ i, Script.braced earlier.toList <+: text.toList.drop i ∧
        ∀ j, Script.braced later.toList <+: text.toList.drop j → i < j) ∧
    ∀ declared,
      (mentionsIn isWord text declared = true ↔ ∃ name ∈ declared,
        name.toList ≠ [] ∧ (∀ c ∈ name.toList, isWord c) ∧ Script.braced name.toList <:+: text.toList) ∧
      ((∀ name ∈ declared, ∃ source, name ∈ namesIn isWord source) →
        mentionsIn isWord text declared = Script.hasPlaceholder text declared) := by
  have horder := pairwise_namesIn hopen hclose text
  refine ⟨fun name => mem_namesIn_iff hopen hclose name text, ?_, horder, fun declared => ⟨?_, fun hread => ?_⟩⟩
  · -- a name cannot start before itself
    refine horder.imp ?_
    rintro earlier later ⟨i, hi, hlater⟩ rfl
    exact Nat.lt_irrefl i (hlater i hi)
  · exact mentionsIn_iff hopen hclose text declared
  · refine (Script.hasPlaceholder_eq_mentionsIn hopen hclose (fun name hname => ?_) text).symm
    obtain ⟨source, hsource⟩ := hread name hname
    obtain ⟨hne, hword, -⟩ := (mem_namesIn_iff hopen hclose name source).mp hsource
    exact ⟨hne, hword⟩

/-- Braces that are nested and braces that are not closed. -/
def nestedBraces : String := "\x7ba\x7b\x7bb\x7d\x7d\x7ba"

theorem reading_finds_substrings_nested :
    Char.isAlpha '\x7b' = false ∧ Char.isAlpha '\x7d' = false ∧
      "b" ∈ namesIn Char.isAlpha nestedBraces ∧ "a" ∉ namesIn Char.isAlpha nestedBraces ∧
      mentionsIn Char.isAlpha nestedBraces ["a", "b"] = Script.hasPlaceholder nestedBraces ["a", "b"] := by
  have hopen : Char.isAlpha '\x7b' = false := by decide
  have hclose : Char.isAlpha '\x7d' = false := by decide
  obtain ⟨hnames, -, -, hdeclared⟩ := reading_finds_substrings hopen hclose nestedBraces
  refine ⟨hopen, hclose, (hnames "b").mpr ⟨by decide, List.forall_mem_singleton.mpr (by decide), by decide⟩, fun h =>
    absurd ((hnames "a").mp h).2.2 (by decide), (hdeclared ["a", "b"]).2 fun name hname => ⟨"\x7ba\x7d\x7bb\x7d", ?_⟩⟩
  refine (mem_namesIn_iff hopen hclose name _).mpr ?_
  rcases List.mem_cons.mp hname with rfl | hname
  · exact ⟨by decide, List.forall_mem_singleton.mpr (by decide), by decide⟩
  · cases List.mem_singleton.mp hname
    exact ⟨by decide, List.forall_mem_singleton.mpr (by decide), by decide⟩

end Phrasebook.Template

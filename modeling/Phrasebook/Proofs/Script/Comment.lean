import Mathlib.Data.List.Infix
import Phrasebook.Script.Comment
import Phrasebook.Settings.Basic

/-! # Comments end once

A comment ends at the first star that a slash follows. Escaping leaves no such pair in a text, and between two
texts there is always a character that is neither, so that nothing in a title or a value ends the comment that
shows it. Locales are written as they are; those that settings accept hold no star.
-/

namespace Phrasebook.Script

def commentEnd : List Char := ['*', '/']

/-- A text in which no comment ends. -/
def Unclosed (cs : List Char) : Prop := ¬ commentEnd <:+: cs

theorem unclosed_nil : Unclosed [] := by simp [Unclosed, commentEnd]

theorem unclosed_cons_iff (c : Char) (cs : List Char) :
    Unclosed (c :: cs) ↔ ¬ (c = '*' ∧ cs.head? = some '/') ∧ Unclosed cs := by
  rw [Unclosed, Unclosed, List.infix_cons_iff, not_or, commentEnd, List.cons_prefix_cons,
    List.singleton_prefix_iff_head?_eq_some, eq_comm]

theorem unclosed_cons_of_ne {c : Char} (hstar : c ≠ '*') (cs : List Char) : Unclosed (c :: cs) ↔ Unclosed cs := by
  rw [unclosed_cons_iff]
  simp [hstar]

theorem unclosed_append_cons_iff {c : Char} (hstar : c ≠ '*') (hslash : c ≠ '/') (front rest : List Char) :
    Unclosed (front ++ c :: rest) ↔ Unclosed front ∧ Unclosed rest := by
  induction front with
  | nil => simp [unclosed_nil, unclosed_cons_of_ne hstar]
  | cons first front ih =>
    have hhead : (front ++ c :: rest).head? = some '/' ↔ front.head? = some '/' := by
      cases front with
      | nil => simp [hslash]
      | cons => rfl
    rw [List.cons_append, unclosed_cons_iff, unclosed_cons_iff, ih, hhead, and_assoc]

theorem unclosed_replicate_append_iff (n : Nat) (cs : List Char) :
    Unclosed (List.replicate n ' ' ++ cs) ↔ Unclosed cs := by
  induction n with
  | zero => rfl
  | succ n ih => rw [List.replicate_succ, List.cons_append, unclosed_cons_of_ne (by decide), ih]

/-- A locale as settings accept it ends no comment. -/
theorem unclosed_of_isLocaleChar {cs : List Char} (h : ∀ c ∈ cs, Settings.isLocaleChar c = true) : Unclosed cs := by
  intro hend
  have hstar : '*' ∈ cs := hend.subset List.mem_cons_self
  exact absurd (h _ hstar) (by decide)

/-! ## Escaped texts -/

theorem head?_escapeTerminators (cs : List Char) : (escapeTerminators cs).head? = cs.head? := by
  fun_cases escapeTerminators cs <;> rfl

/-- No comment ends in an escaped text. -/
theorem unclosed_escapeTerminators (cs : List Char) : Unclosed (escapeTerminators cs) := by
  fun_induction escapeTerminators cs with
  | case1 rest ih => simpa [unclosed_cons_iff] using ih
  | case2 c rest hother ih =>
    rw [unclosed_cons_iff, head?_escapeTerminators]
    refine ⟨?_, ih⟩
    rintro ⟨rfl, hhead⟩
    obtain ⟨more, rfl⟩ := List.head?_eq_some_iff.mp hhead
    exact hother more rfl rfl
  | case3 => exact unclosed_nil

theorem unclosed_escapeComment (text : String) : Unclosed (escapeComment text).toList := by
  rw [escapeComment, String.toList_ofList]
  exact unclosed_escapeTerminators _

/-! ## The lines of a comment -/

theorem Comment.exists_middle (title : Option String) {samples : Keyed Json}
    (hlocales : ∀ sample ∈ samples, Unclosed sample.1.toList) :
    ∃ middle, Comment.lines title samples = "/**" :: (middle ++ [" */"]) ∧
      ∀ line ∈ middle, Unclosed line.toList := by
  have hrows : ∀ line ∈ samples.map (fun sample => " * @" ++ sample.1 ++ " " ++ escapeComment sample.2.render),
      Unclosed line.toList := by
    intro line hline
    obtain ⟨⟨locale, value⟩, hsample, rfl⟩ := List.mem_map.mp hline
    have hlocale := hlocales _ hsample
    have hvalue := unclosed_escapeComment value.render
    simp [unclosed_cons_iff, unclosed_append_cons_iff, hlocale, hvalue]
  cases title with
  | none => exact ⟨_, rfl, hrows⟩
  | some title =>
    have htitle : Unclosed (" * `" ++ escapeComment title ++ "`").toList := by
      have := unclosed_escapeComment title
      simp [unclosed_cons_iff, unclosed_append_cons_iff, this, unclosed_nil]
    have hgap : ∀ line ∈ if samples.isEmpty then [] else [" *"], Unclosed line.toList := by
      split
      · simp
      · simp [unclosed_cons_iff, unclosed_nil]
    refine ⟨_, rfl, List.forall_mem_append.mpr ⟨List.forall_mem_cons.mpr ⟨htitle, hgap⟩, hrows⟩⟩

theorem unclosed_layOut_append_iff (level : Nat) (lines : List String) (rest : List Char) :
    Unclosed ((layOut (Json.margin level) lines).toList ++ rest) ↔
      (∀ line ∈ lines, Unclosed line.toList) ∧ Unclosed rest := by
  induction lines with
  | nil => simp [layOut]
  | cons line lines ih =>
    have hcons : (layOut (Json.margin level) (line :: lines)).toList ++ rest =
        List.replicate (2 * level) ' ' ++
          (line.toList ++ '\n' :: ((layOut (Json.margin level) lines).toList ++ rest)) := by
      simp [layOut, Json.margin]
    rw [hcons, unclosed_replicate_append_iff, unclosed_append_cons_iff (by decide) (by decide), ih,
      List.forall_mem_cons, and_assoc]

/-- What stands between the opening and the end of a comment does not end it, not even together with the star of
the end. -/
theorem Comment.exists_body (level : Nat) (title : Option String) {samples : Keyed Json}
    (hlocales : ∀ sample ∈ samples, Unclosed sample.1.toList) :
    ∃ body, Comment.render level title samples = Json.margin level ++ "/**" ++ body ++ "*/\n" ∧
      Unclosed ('*' :: (body.toList ++ ['*'])) := by
  obtain ⟨middle, hlines, hmiddle⟩ := exists_middle title hlocales
  refine ⟨"\n" ++ layOut (Json.margin level) middle ++ Json.margin level ++ " ", ?_, ?_⟩
  · simp [render, hlines, layOut, ← String.toList_inj]
  · have hlast : Unclosed (List.replicate (2 * level) ' ' ++ [' ', '*']) := by
      rw [unclosed_replicate_append_iff]
      simp [unclosed_cons_iff, unclosed_nil]
    have hbody := (unclosed_layOut_append_iff level middle _).mpr ⟨hmiddle, hlast⟩
    simpa [unclosed_cons_iff, Json.margin] using hbody

/-- Where a comment is not ended before its end, that is the only one. -/
theorem eq_of_append_commentEnd {front before rest after : List Char} (hfront : Unclosed (front ++ ['*']))
    (hrest : Unclosed ('/' :: rest)) (h : front ++ commentEnd ++ rest = before ++ commentEnd ++ after) :
    after = rest := by
  induction front generalizing before with
  | nil =>
    cases before with
    | nil => exact (List.append_cancel_left h).symm
    | cons c before =>
      simp only [commentEnd, List.nil_append, List.cons_append, List.cons.injEq] at h
      exact absurd ⟨before, after, h.2.symm⟩ hrest
  | cons c front ih =>
    cases before with
    | nil =>
      -- the end would start within the front, whose next character is then the slash
      simp only [commentEnd, List.nil_append, List.cons_append, List.cons.injEq] at h
      obtain ⟨rfl, h⟩ := h
      have hslash : (front ++ ['*']).head? = some '/' := by
        cases front with
        | nil => cases h
        | cons next front =>
          simp only [List.cons_append, List.cons.injEq] at h
          exact congrArg some h.1
      exact absurd ⟨rfl, hslash⟩ ((unclosed_cons_iff _ _).mp hfront).1
    | cons other before =>
      simp only [List.cons_append, List.cons.injEq] at h
      exact ih ((unclosed_cons_iff _ _).mp hfront).2 h.2

/-- A comment starts with its opening and ends once, in its last line. -/
theorem Comment.render_closes_once (level : Nat) (title : Option String) {samples : Keyed Json}
    (hlocales : ∀ sample ∈ samples, Unclosed sample.1.toList) :
    (∃ body, Comment.render level title samples = Json.margin level ++ "/**" ++ body ++ "*/\n") ∧
      ∀ before after, (Comment.render level title samples).toList = before ++ commentEnd ++ after → after = ['\n'] := by
  obtain ⟨body, hrender, hbody⟩ := exists_body level title hlocales
  refine ⟨⟨body, hrender⟩, fun before after h => ?_⟩
  have hfront : Unclosed ((Json.margin level).toList ++ ('/' :: '*' :: '*' :: body.toList) ++ ['*']) := by
    rw [Json.margin, String.toList_ofList, List.append_assoc, unclosed_replicate_append_iff, List.cons_append,
      unclosed_cons_of_ne (by decide)]
    simpa [unclosed_cons_iff] using hbody
  have hrest : Unclosed ('/' :: ['\n']) := by simp [unclosed_cons_iff, unclosed_nil]
  have hsplit : (Json.margin level).toList ++ ('/' :: '*' :: '*' :: body.toList) ++ commentEnd ++ ['\n'] =
      before ++ commentEnd ++ after := by
    rw [← h, hrender]
    simp [commentEnd]
  exact eq_of_append_commentEnd hfront hrest hsplit

/-- Values that spell the end of a comment. -/
def hostileSamples : Keyed Json :=
  [("en", .string "*/ **/ *"), ("pt-BR", .array [.string "/", .object [("*/", .null)]])]

theorem unclosed_hostileSamples : ∀ sample ∈ hostileSamples, Unclosed sample.1.toList := by
  intro sample hsample
  have hchars : ∀ sample ∈ hostileSamples, sample.1.toList.all Settings.isLocaleChar = true := by decide
  exact unclosed_of_isLocaleChar (List.all_eq_true.mp (hchars sample hsample))

/-- A title and values that spell the end of a comment. -/
theorem Comment.render_closes_once_hostile :
    (∀ sample ∈ hostileSamples, Unclosed sample.1.toList) ∧
      (∃ body, Comment.render 1 (some "a*/*//") hostileSamples = Json.margin 1 ++ "/**" ++ body ++ "*/\n") ∧
      ∀ before after, (Comment.render 1 (some "a*/*//") hostileSamples).toList = before ++ commentEnd ++ after →
        after = ['\n'] :=
  ⟨unclosed_hostileSamples, Comment.render_closes_once 1 (some "a*/*//") unclosed_hostileSamples⟩

end Phrasebook.Script

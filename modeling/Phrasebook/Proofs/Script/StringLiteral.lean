import Phrasebook.Json.Token
import Phrasebook.Proofs.Template.Occurrence

/-! # String literals of a script

A script reads text between double quotes by more escape sequences than a document does, and only the ends of lines
may not stand there. Without a backslash a literal denotes what stands between its quotes. Every escape sequence
stands for fewer characters than it has, so with a backslash a literal denotes a shorter text.
-/

namespace Phrasebook.Script.StringLiteral

open Json.Token (Item hexValue? characters?)

def isLineEnd (c : Char) : Bool := c = '\n' || c = '\r' || c = '\u2028' || c = '\u2029'

/-- The character that a letter after a backslash stands for; most stand for themselves. -/
def letter (c : Char) : Char :=
  match c with
  | 'b' => '\x08'
  | 't' => '\x09'
  | 'n' => '\x0a'
  | 'v' => '\x0b'
  | 'f' => '\x0c'
  | 'r' => '\x0d'
  | c => c

/-- The item that a number denotes: a 16-bit code, or a character beyond. -/
def ofNumber? (n : Nat) : Option Item :=
  if n < 0x10000 then some (.code n) else if n ≤ 0x10FFFF then some (.char (Char.ofNat n)) else none

def hexNumber? (digits : List Char) : Option Nat :=
  digits.foldlM (fun n c => (hexValue? c).map fun value => n * 16 + value) 0

/-- What one character after a backslash stands for. The end of a line stands for nothing, and a digit for no
character, except a zero that no other digit follows. -/
def single? (c : Char) (next : Option Char) : Option (List Item) :=
  if c = 'x' || c = 'u' then none
  else if isLineEnd c then some []
  else if c.isDigit then if c = '0' && !next.any Char.isDigit then some [.char '\x00'] else none
  else some [.char (letter c)]

/-- What an escape sequence stands for, after its backslash, and what follows the sequence. -/
def escape? : List Char → Option (List Item × List Char)
  | [] => none
  | 'x' :: a :: b :: rest => do return ([.code (← hexNumber? [a, b])], rest)
  | 'u' :: '\x7b' :: cs => do
    let (digits, rest) ← Text.enclosed? (fun c => (hexValue? c).isSome) '\x7d' cs
    return ([← ofNumber? (← hexNumber? digits)], rest)
  | 'u' :: a :: b :: c :: d :: rest => do return ([.code (← hexNumber? [a, b, c, d])], rest)
  | '\r' :: '\n' :: rest => some ([], rest)
  | c :: rest => (single? c rest.head?).map fun items => (items, rest)

theorem isSome_hexValue?_of_hexNumber? {digits : List Char} (h : (hexNumber? digits).isSome = true) :
    ∀ c ∈ digits, (hexValue? c).isSome = true := by
  rw [hexNumber?] at h
  generalize 0 = start at h
  induction digits generalizing start with
  | nil => simp
  | cons digit rest ih =>
    rw [List.foldlM_cons] at h
    cases hdigit : hexValue? digit with
    | none =>
      rw [hdigit] at h
      cases h
    | some value =>
      rw [hdigit] at h
      exact List.forall_mem_cons.mpr ⟨Option.isSome_of_eq_some hdigit, ih _ h⟩

theorem quote_not_mem_of_hex {digits : List Char} (h : ∀ c ∈ digits, (hexValue? c).isSome = true) : '"' ∉ digits :=
  fun hmem => absurd (h _ hmem) (by decide)

theorem length_of_single? {c : Char} {next : Option Char} {items : List Item} (h : single? c next = some items) :
    items.length ≤ 1 := by
  rw [single?] at h
  split at h
  · cases h
  · split at h
    · cases h
      exact Nat.zero_le 1
    · split at h
      · obtain ⟨-, heq⟩ := Option.ite_none_right_eq_some.mp h
        cases heq
        exact Nat.le_refl 1
      · cases h
        exact Nat.le_refl 1

/-- An escape sequence stands for no more items than it has characters, and a quote is all of it or no part of it. -/
theorem escape?_eq_some {cs rest : List Char} {items : List Item} (h : escape? cs = some (items, rest)) :
    ∃ used, cs = used ++ rest ∧ used ≠ [] ∧ items.length ≤ used.length ∧ ('"' ∈ used → used = ['"']) := by
  fun_cases escape? cs with
  | case1 => cases h
  | case2 a b rest' =>
    obtain ⟨n, hn, heq⟩ := Option.bind_eq_some_iff.mp h
    cases heq
    have hhex := quote_not_mem_of_hex (isSome_hexValue?_of_hexNumber? (Option.isSome_of_eq_some hn))
    refine ⟨['x', a, b], rfl, List.cons_ne_nil _ _, by simp, fun hmem => ?_⟩
    exact absurd ((List.mem_cons.mp hmem).resolve_left (by decide)) hhex
  | case3 cs' =>
    obtain ⟨⟨digits, rest'⟩, henclosed, h⟩ := Option.bind_eq_some_iff.mp h
    obtain ⟨n, -, h⟩ := Option.bind_eq_some_iff.mp h
    obtain ⟨item, -, heq⟩ := Option.bind_eq_some_iff.mp h
    cases heq
    obtain ⟨rfl, -, hdigits⟩ := Text.enclosed?_eq_some henclosed
    refine ⟨'u' :: '\x7b' :: (digits ++ ['\x7d']), by simp, List.cons_ne_nil _ _, by simp, fun hmem => ?_⟩
    rw [List.mem_cons, List.mem_cons, List.mem_append, List.mem_singleton] at hmem
    have hmem' := ((hmem.resolve_left (by decide)).resolve_left (by decide)).resolve_right (by decide)
    exact absurd hmem' (quote_not_mem_of_hex hdigits)
  | case4 a b c d rest' hbrace =>
    rw [escape?] at h
    case x_1 => exact hbrace
    obtain ⟨n, hn, heq⟩ := Option.bind_eq_some_iff.mp h
    cases heq
    have hhex := quote_not_mem_of_hex (isSome_hexValue?_of_hexNumber? (Option.isSome_of_eq_some hn))
    refine ⟨['u', a, b, c, d], rfl, List.cons_ne_nil _ _, by simp, fun hmem => ?_⟩
    exact absurd ((List.mem_cons.mp hmem).resolve_left (by decide)) hhex
  | case5 rest' =>
    cases h
    exact ⟨['\r', '\n'], rfl, List.cons_ne_nil _ _, Nat.zero_le _, fun hmem => absurd hmem (by decide)⟩
  | case6 c rest' hx hbrace hu hline =>
    rw [escape?] at h
    case x_1 => exact hx
    case x_2 => exact hbrace
    case x_3 => exact hu
    case x_4 => exact hline
    obtain ⟨found, hfound, heq⟩ := Option.map_eq_some_iff.mp h
    cases heq
    refine ⟨[c], rfl, List.cons_ne_nil _ _, length_of_single? hfound, fun hmem => ?_⟩
    rw [List.mem_singleton.mp hmem]

def items? (cs : List Char) : Option (List Item × List Char) :=
  match cs with
  | [] => none
  | c :: cs =>
    if c = '"' then some ([], cs)
    else if c = '\\' then
      match _h : escape? cs with
      | none => none
      | some (items, rest) => (items? rest).map fun found => (items ++ found.1, found.2)
    else if c = '\n' || c = '\r' then none
    else (items? cs).map fun found => (.char c :: found.1, found.2)
termination_by cs.length
decreasing_by
  · obtain ⟨used, rfl, hused, -⟩ := escape?_eq_some _h
    have := List.length_pos_of_ne_nil hused
    simp only [List.length_cons, List.length_append]
    omega
  · simp

/-- The text that a literal denotes, of which the opening quote has been read. -/
def text? (cs : List Char) : Option String := do
  let (items, _) ← items? cs
  return String.ofList (← characters? items)

section Items

variable {body rest after : List Char} {items : List Item}

theorem items?_char {c : Char} (hquote : c ≠ '"') (hbackslash : c ≠ '\\') (hline : c ≠ '\n') (hreturn : c ≠ '\r')
    (cs : List Char) : items? (c :: cs) = (items? cs).map fun found => (.char c :: found.1, found.2) := by
  rw [items?, if_neg hquote, if_neg hbackslash, if_neg (by simp [hline, hreturn])]

theorem items?_plain (hquote : '"' ∉ body) (hbackslash : '\\' ∉ body) (hline : '\n' ∉ body) (hreturn : '\r' ∉ body)
    (rest : List Char) : items? (body ++ '"' :: rest) = some (body.map Item.char, rest) := by
  induction body with
  | nil => rw [List.nil_append, items?, if_pos rfl, List.map_nil]
  | cons c body ih =>
    rw [List.mem_cons, not_or] at hquote hbackslash hline hreturn
    rw [List.cons_append, items?_char (Ne.symm hquote.1) (Ne.symm hbackslash.1) (Ne.symm hline.1) (Ne.symm hreturn.1),
      ih hquote.2 hbackslash.2 hline.2 hreturn.2]
    rfl

theorem characters?_map_char (cs : List Char) : characters? (cs.map Item.char) = some cs := by
  induction cs with
  | nil => rfl
  | cons c cs ih => rw [List.map_cons, characters?, ih, Option.map_some]

theorem exists_of_escape? (hquote : '"' ∉ body) (hbody : body ≠ []) {cs : List Char}
    (h : escape? (body ++ '"' :: rest) = some (items, cs)) :
    ∃ used more, body = used ++ more ∧ cs = more ++ '"' :: rest ∧ items.length ≤ used.length := by
  obtain ⟨used, happend, hused, hlength, hself⟩ := escape?_eq_some h
  have hfree : '"' ∉ used := by
    intro hmem
    obtain ⟨c, body', rfl⟩ := List.exists_cons_of_ne_nil hbody
    rw [hself hmem, List.cons_append, List.singleton_append, List.cons.injEq] at happend
    exact hquote (happend.1 ▸ List.mem_cons_self)
  rcases List.append_eq_append_iff.mp happend with ⟨extra, hextra, htail⟩ | ⟨more, hmore, htail⟩
  · cases extra with
    | nil => exact ⟨used, [], by rw [hextra, List.append_nil, List.append_nil], htail.symm, hlength⟩
    | cons c extra =>
      rw [List.cons_append, List.cons.injEq] at htail
      exact absurd (by rw [hextra, ← htail.1]; simp) hfree
  · exact ⟨used, more, hmore, htail, hlength⟩

theorem getLast?_ne_of_append {front more : List Char} {c : Char} (h : (front ++ more).getLast? ≠ some c) :
    more.getLast? ≠ some c := by
  intro hlast
  rw [List.getLast?_append, hlast] at h
  exact h rfl

theorem length_items?_le (hquote : '"' ∉ body) (hlast : body.getLast? ≠ some '\\')
    (h : items? (body ++ '"' :: rest) = some (items, after)) :
    items.length ≤ body.length ∧ ('\\' ∈ body → items.length < body.length) := by
  induction hlength : body.length using Nat.strong_induction_on generalizing body items with
  | _ length ih =>
    subst hlength
    cases body with
    | nil =>
      rw [List.nil_append, items?, if_pos rfl] at h
      cases h
      exact ⟨Nat.zero_le _, fun hmem => absurd hmem List.not_mem_nil⟩
    | cons c body =>
      rw [List.mem_cons, not_or] at hquote
      rw [List.cons_append, items?, if_neg (Ne.symm hquote.1)] at h
      split at h
      · rename_i hbackslash
        have hbody : body ≠ [] := by
          rintro rfl
          exact hlast (by rw [hbackslash]; rfl)
        split at h
        · cases h
        · rename_i found cs hescape
          obtain ⟨used, more, rfl, rfl, hused⟩ := exists_of_escape? hquote.2 hbody hescape
          obtain ⟨⟨inner, after'⟩, hinner, heq⟩ := Option.map_eq_some_iff.mp h
          cases heq
          have hlast' : more.getLast? ≠ some '\\' := getLast?_ne_of_append (List.cons_append ▸ hlast)
          have hquote' : '"' ∉ more := fun hmem => hquote.2 (List.mem_append_right _ hmem)
          have hle := (ih more.length (by rw [List.length_cons, List.length_append]; omega) hquote' hlast' hinner rfl).1
          simp only [List.length_append, List.length_cons]
          omega
      · rename_i hbackslash
        split at h
        · cases h
        · obtain ⟨⟨inner, after'⟩, hinner, heq⟩ := Option.map_eq_some_iff.mp h
          cases heq
          have hlast' : body.getLast? ≠ some '\\' := getLast?_ne_of_append (List.singleton_append ▸ hlast)
          obtain ⟨hle, hlt⟩ := ih body.length (by simp) hquote.2 hlast' hinner rfl
          simp only [List.length_cons]
          refine ⟨by omega, fun hmem => ?_⟩
          have := hlt ((List.mem_cons.mp hmem).resolve_left (Ne.symm hbackslash))
          omega

theorem length_characters?_le {cs : List Char} (h : characters? items = some cs) : cs.length ≤ items.length := by
  fun_induction characters? items generalizing cs with
  | case1 =>
    cases h
    exact Nat.le_refl 0
  | case3 high low items _ _ ih =>
    obtain ⟨more, hmore, rfl⟩ := Option.map_eq_some_iff.mp h
    exact Nat.succ_le_succ (Nat.le_succ_of_le (ih hmore))
  | case4 | case5 | case7 => cases h
  | case2 _ _ ih | case6 _ _ _ _ _ ih | case8 _ _ _ _ ih =>
    obtain ⟨more, hmore, rfl⟩ := Option.map_eq_some_iff.mp h
    exact Nat.succ_le_succ (ih hmore)

/-- A literal without a backslash denotes what it spells. -/
theorem text?_plain (hquote : '"' ∉ body) (hbackslash : '\\' ∉ body) (hline : '\n' ∉ body) (hreturn : '\r' ∉ body)
    (rest : List Char) : text? (body ++ '"' :: rest) = some (String.ofList body) := by
  refine Option.bind_eq_some_iff.mpr ⟨_, items?_plain hquote hbackslash hline hreturn rest, ?_⟩
  exact Option.bind_eq_some_iff.mpr ⟨body, characters?_map_char body, rfl⟩

/-- A literal with a backslash denotes a shorter text than it spells, if it denotes one. -/
theorem length_text?_lt (hquote : '"' ∉ body) (hlast : body.getLast? ≠ some '\\') (hbackslash : '\\' ∈ body)
    {text : String} (h : text? (body ++ '"' :: rest) = some text) : text.toList.length < body.length := by
  obtain ⟨⟨items, after⟩, hitems, h⟩ := Option.bind_eq_some_iff.mp h
  obtain ⟨cs, hcs, heq⟩ := Option.bind_eq_some_iff.mp h
  cases heq
  rw [String.toList_ofList]
  exact (length_characters?_le hcs).trans_lt ((length_items?_le hquote hlast hitems).2 hbackslash)

end Items

end Phrasebook.Script.StringLiteral

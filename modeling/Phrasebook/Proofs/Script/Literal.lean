import Phrasebook.Identifier
import Phrasebook.Proofs.Json.Quoted
import Phrasebook.Proofs.Script.Comment

/-! # Literals of scripts

The part of the script language in which constants are written: objects with bare or quoted keys, lists, and
references to names. Blanks and comments may stand between any two tokens, and a comma may follow the last
member. Strings are read as in documents, whose escapes mean the same in scripts. The reader knows nothing of how
a literal is laid out; from the tokens of a literal it reads that literal.
-/

namespace Phrasebook.Script

inductive Literal where
  | reference (name : String)
  | object (members : List (String × Literal))
  | list (items : List Literal)
deriving Repr

namespace Literal

inductive Token where
  | openBrace
  | closeBrace
  | openBracket
  | closeBracket
  | colon
  | comma
  | semicolon
  | word (text : String)
  | quoted (text : String)
deriving Repr, DecidableEq

def Token.ofMark? (c : Char) : Option Token :=
  match c with
  | '\x7b' => some .openBrace
  | '\x7d' => some .closeBrace
  | '[' => some .openBracket
  | ']' => some .closeBracket
  | ':' => some .colon
  | ',' => some .comma
  | ';' => some .semicolon
  | _ => none

def Token.key? : Token → Option String
  | .word text => some text
  | .quoted text => some text
  | _ => none

/-! ## Tokens of a text -/

def afterComment? : List Char → Option (List Char)
  | [] => none
  | '*' :: '/' :: rest => some rest
  | _ :: rest => afterComment? rest

/-- What follows a comment whose slash has been read. -/
def afterSlash? : List Char → Option (List Char)
  | '*' :: rest => afterComment? rest
  | _ => none

/-- A string whose opening quote has been read, and what follows it. -/
def afterQuote? (cs : List Char) : Option (String × List Char) := do
  let (items, rest) ← Json.Token.quotedItems? cs
  let text ← Json.Token.characters? items
  return (String.ofList text, rest)

/-- What starts with a character: a token, or a blank or a comment, which gives none; and what follows it. -/
def next? (c : Char) (cs : List Char) : Option (Option Token × List Char) :=
  if Json.Token.isBlank c then some (none, cs)
  else if c = '/' then (afterSlash? cs).map fun rest => (none, rest)
  else if c = '"' then (afterQuote? cs).map fun (text, rest) => (some (.quoted text), rest)
  else if Identifier.isStart c then
    some (some (.word (String.ofList (c :: cs.takeWhile Identifier.isPart))), cs.dropWhile Identifier.isPart)
  else (Token.ofMark? c).map fun token => (some token, cs)

theorem afterComment?_length {cs rest : List Char} (h : afterComment? cs = some rest) : rest.length ≤ cs.length := by
  fun_induction afterComment? cs with
  | case1 => cases h
  | case2 =>
    cases h
    simp only [List.length_cons]
    omega
  | case3 c cs _ ih =>
    have := ih h
    simp only [List.length_cons]
    omega

theorem next?_length {c : Char} {cs rest : List Char} {token : Option Token} (h : next? c cs = some (token, rest)) :
    rest.length ≤ cs.length := by
  rw [next?] at h
  split at h
  · cases h
    exact Nat.le_refl _
  split at h
  · obtain ⟨rest', hcomment, heq⟩ := Option.map_eq_some_iff.mp h
    cases heq
    rw [afterSlash?.eq_def] at hcomment
    split at hcomment
    · have := afterComment?_length hcomment
      simp only [List.length_cons]
      omega
    · cases hcomment
  split at h
  · obtain ⟨⟨text, rest'⟩, hquoted, heq⟩ := Option.map_eq_some_iff.mp h
    cases heq
    obtain ⟨⟨items, rest'⟩, hitems, hquoted⟩ := Option.bind_eq_some_iff.mp hquoted
    obtain ⟨characters, -, heq⟩ := Option.bind_eq_some_iff.mp hquoted
    cases heq
    exact Nat.le_of_lt (Json.Token.quotedItems?_length hitems)
  split at h
  · cases h
    exact (List.dropWhile_sublist _).length_le
  · obtain ⟨token', -, heq⟩ := Option.map_eq_some_iff.mp h
    cases heq
    exact Nat.le_refl _

def tokens? : List Char → Option (List Token)
  | [] => some []
  | c :: cs =>
    match _h : next? c cs with
    | some (token, rest) => (tokens? rest).map (token.toList ++ ·)
    | none => none
termination_by cs => cs.length
decreasing_by
  have := next?_length _h
  simp only [List.length_cons]
  omega

/-! ## Texts of tokens -/

/-- Before what follows it, a text is read as tokens of its own. -/
def Scans (text : List Char) (tokens : List Token) (rest : List Char) : Prop :=
  tokens? (text ++ rest) = (tokens? rest).map (tokens ++ ·)

theorem Scans.nil (rest : List Char) : Scans [] [] rest := by
  rw [Scans, List.nil_append]
  simp

theorem Scans.append {first second rest : List Char} {tokens more : List Token}
    (hfirst : Scans first tokens (second ++ rest)) (hsecond : Scans second more rest) :
    Scans (first ++ second) (tokens ++ more) rest := by
  rw [Scans] at *
  rw [List.append_assoc, hfirst, hsecond, Option.map_map]
  refine congrArg (Option.map · _) (funext fun others => ?_)
  rw [List.append_assoc]
  rfl

theorem Scans.of_next {c : Char} {cs rest : List Char} (token : Option Token)
    (h : next? c (cs ++ rest) = some (token, rest)) : Scans (c :: cs) token.toList rest := by
  rw [Scans, List.cons_append, tokens?]
  split
  · rename_i h'
    rw [h] at h'
    cases h'
    rfl
  · rename_i h'
    rw [h] at h'
    cases h'

theorem scans_blank {c : Char} (h : Json.Token.isBlank c = true) (rest : List Char) : Scans [c] [] rest := by
  refine Scans.of_next none ?_
  rw [next?, if_pos h]
  rfl

theorem scans_margin (n : Nat) (rest : List Char) : Scans (List.replicate n ' ') [] rest := by
  induction n with
  | zero => exact Scans.nil rest
  | succ n ih => exact (scans_blank (by decide) _).append ih

theorem scans_mark {c : Char} {token : Token} (h : Token.ofMark? c = some token) (rest : List Char) :
    Scans [c] [token] rest := by
  refine Scans.of_next (some token) ?_
  have hfirst : Json.Token.isBlank c = false ∧ c ≠ '/' ∧ c ≠ '"' ∧ Identifier.isStart c = false := by
    rw [Token.ofMark?.eq_def] at h
    split at h <;> first | decide | cases h
  obtain ⟨hblank, hslash, hquote, hstart⟩ := hfirst
  rw [next?, hblank, hstart, h, if_neg (by decide), if_neg hslash, if_neg hquote, if_neg (by decide)]
  rfl

theorem scans_quoted (text : String) (rest : List Char) : Scans (Text.quote text).toList [.quoted text] rest := by
  rw [Text.quote, String.toList_ofList]
  refine Scans.of_next (some (.quoted text)) ?_
  obtain ⟨items, hitems, htext⟩ := Json.Token.exists_quotedItems?_quoted text.toList rest
  rw [next?, if_neg (by decide), if_neg (by decide), if_pos rfl, afterQuote?, List.append_assoc,
    List.singleton_append, hitems]
  simp [htext]

/-- What goes on no name. -/
def Stops (rest : List Char) : Prop := ∀ c ∈ rest.head?, Identifier.isPart c = false

theorem stops_cons {c : Char} (h : Identifier.isPart c = false) (cs : List Char) : Stops (c :: cs) := by
  simpa [Stops] using h

theorem next?_isStart {c : Char} (h : Identifier.isStart c = true) (cs : List Char) :
    next? c cs =
      some (some (.word (String.ofList (c :: cs.takeWhile Identifier.isPart))), cs.dropWhile Identifier.isPart) := by
  have hblank : ¬ Json.Token.isBlank c = true := by
    intro hblank
    simp only [Json.Token.isBlank, Bool.or_eq_true, decide_eq_true_eq] at hblank
    obtain ((rfl | rfl) | rfl) | rfl := hblank <;> exact absurd h (by decide)
  have hslash : c ≠ '/' := by
    rintro rfl
    exact absurd h (by decide)
  have hquote : c ≠ '"' := by
    rintro rfl
    exact absurd h (by decide)
  rw [next?, if_neg hblank, if_neg hslash, if_neg hquote, if_pos h]

theorem takeWhile_isPart {cs rest : List Char} (hparts : ∀ c ∈ cs, Identifier.isPart c = true) (hrest : Stops rest) :
    (cs ++ rest).takeWhile Identifier.isPart = cs ∧ (cs ++ rest).dropWhile Identifier.isPart = rest := by
  rw [List.takeWhile_append_of_pos hparts, List.dropWhile_append_of_pos hparts]
  cases rest with
  | nil => simp
  | cons c rest => simp [hrest c rfl]

theorem scans_word {text : String} (h : Identifier.isName text = true) {rest : List Char} (hrest : Stops rest) :
    Scans text.toList [.word text] rest := by
  rw [Identifier.isName] at h
  split at h
  · cases h
  · next c cs hcs =>
    rw [Bool.and_eq_true, List.all_eq_true] at h
    obtain ⟨hstart, hparts⟩ := h
    obtain ⟨htake, hdrop⟩ := takeWhile_isPart hparts hrest
    rw [hcs]
    refine Scans.of_next (some (.word text)) ?_
    rw [next?_isStart hstart, htake, hdrop, ← hcs, String.ofList_toList]

/-- A comment that nothing ends before its end is skipped as a whole. -/
theorem afterComment?_append {front : List Char} (h : Unclosed (front ++ ['*'])) (rest : List Char) :
    afterComment? (front ++ commentEnd ++ rest) = some rest := by
  induction front with
  | nil => rfl
  | cons c front ih =>
    obtain ⟨hhere, hfront⟩ := (unclosed_cons_iff _ _).mp h
    rw [List.cons_append, List.cons_append, afterComment?, ih hfront]
    rintro more rfl hmore
    refine hhere ⟨rfl, ?_⟩
    cases front with
    | nil => cases hmore
    | cons c front => exact congrArg List.head? hmore

theorem scans_render (level : Nat) (title : Option String) {samples : Keyed Json}
    (hlocales : ∀ sample ∈ samples, Unclosed sample.1.toList) (rest : List Char) :
    Scans (Comment.render level title samples).toList [] rest := by
  obtain ⟨body, hrender, hbody⟩ := Comment.exists_body level title hlocales
  have hcomment : Scans ('/' :: '*' :: ('*' :: body.toList ++ commentEnd)) [] ('\n' :: rest) := by
    refine Scans.of_next none ?_
    rw [next?, if_neg (by decide), if_pos rfl, List.cons_append, afterSlash?, afterComment?_append hbody]
    rfl
  have htext : (Comment.render level title samples).toList =
      List.replicate (2 * level) ' ' ++ (('/' :: '*' :: ('*' :: body.toList ++ commentEnd)) ++ ['\n']) := by
    rw [hrender]
    simp [commentEnd, Json.margin]
  rw [htext]
  exact (scans_margin _ _).append (hcomment.append (scans_blank (by decide) rest))

/-! ## Reading -/

mutual

/-- Reads a literal from the front of the tokens. A reserved word is no reference. -/
def take? : Nat → List Token → Option (Literal × List Token)
  | 0, _ => none
  | _ + 1, .word name :: rest => if Identifier.reservedWords.contains name then none else some (.reference name, rest)
  | fuel + 1, .openBrace :: rest => do
    let (members, rest) ← takeMembers? fuel rest
    return (.object members, rest)
  | fuel + 1, .openBracket :: rest => do
    let (items, rest) ← takeItems? fuel rest
    return (.list items, rest)
  | _ + 1, _ => none

def takeMembers? : Nat → List Token → Option (List (String × Literal) × List Token)
  | 0, _ => none
  | _ + 1, .closeBrace :: rest => some ([], rest)
  | fuel + 1, token :: .colon :: rest => do
    let key ← token.key?
    let (value, rest) ← take? fuel rest
    match rest with
    | .closeBrace :: rest => return ([(key, value)], rest)
    | .comma :: rest =>
      let (members, rest) ← takeMembers? fuel rest
      return ((key, value) :: members, rest)
    | _ => none
  | _ + 1, _ => none

def takeItems? : Nat → List Token → Option (List Literal × List Token)
  | 0, _ => none
  | _ + 1, .closeBracket :: rest => some ([], rest)
  | fuel + 1, tokens => do
    let (item, rest) ← take? fuel tokens
    match rest with
    | .closeBracket :: rest => return ([item], rest)
    | .comma :: rest =>
      let (items, rest) ← takeItems? fuel rest
      return (item :: items, rest)
    | _ => none

end

/-- Reads a literal from the front of a text, and the tokens that follow it. Each step takes a token or starts an
item. -/
def read? (text : List Char) : Option (Literal × List Token) := do
  let tokens ← tokens? text
  take? (2 * tokens.length) tokens

/-! ## Tokens of a literal -/

def Token.ofKey (key : String) : Token := if Identifier.isName key then .word key else .quoted key

mutual

def tokens : Literal → List Token
  | .reference name => [.word name]
  | .object members => .openBrace :: (tokensOfMembers members ++ [.closeBrace])
  | .list items => .openBracket :: (tokensOfItems items ++ [.closeBracket])

def tokensOfMembers : List (String × Literal) → List Token
  | [] => []
  | (key, value) :: rest => .ofKey key :: .colon :: (value.tokens ++ .comma :: tokensOfMembers rest)

def tokensOfItems : List Literal → List Token
  | [] => []
  | item :: rest => item.tokens ++ .comma :: tokensOfItems rest

end

/-- A literal that refers to no reserved word. -/
inductive Usable : Literal → Prop where
  | reference {name : String} (free : Identifier.reservedWords.contains name = false) : Usable (.reference name)
  | object {members : List (String × Literal)} (inner : ∀ member ∈ members, Usable member.2) :
      Usable (.object members)
  | list {items : List Literal} (inner : ∀ item ∈ items, Usable item) : Usable (.list items)

theorem Token.key?_ofKey (key : String) : (Token.ofKey key).key? = some key := by
  rw [ofKey]
  split <;> rfl

theorem takeMembers?_of_key {fuel : Nat} {token : Token} {key : String} (hkey : token.key? = some key)
    {input more rest : List Token} {value : Literal} {members : List (String × Literal)}
    (hvalue : take? fuel input = some (value, .comma :: more))
    (hmembers : takeMembers? fuel more = some (members, rest)) :
    takeMembers? (fuel + 1) (token :: .colon :: input) = some ((key, value) :: members, rest) := by
  have hne : token ≠ .closeBrace := by
    rintro rfl
    cases hkey
  rw [takeMembers?, hkey, hvalue]
  · simp only [Option.bind_eq_bind, Option.bind_some]
    rw [hmembers]
    rfl
  · exact hne

theorem takeItems?_of_item {fuel : Nat} {input more rest : List Token} (hopen : input.head? ≠ some .closeBracket)
    {item : Literal} {items : List Literal} (hitem : take? fuel input = some (item, .comma :: more))
    (hitems : takeItems? fuel more = some (items, rest)) :
    takeItems? (fuel + 1) input = some (item :: items, rest) := by
  rw [takeItems?, hitem]
  · simp only [Option.bind_eq_bind, Option.bind_some]
    rw [hitems]
    rfl
  · rintro more rfl
    exact hopen rfl

theorem head?_tokens_append (literal : Literal) (rest : List Token) :
    (literal.tokens ++ rest).head? ≠ some .closeBracket := by
  cases literal <;> simp [tokens]

mutual

/-- From the tokens of a literal, that literal is read. -/
theorem take?_tokens {literal : Literal} (h : literal.Usable) {fuel : Nat}
    (hfuel : 2 * literal.tokens.length ≤ fuel) (rest : List Token) :
    take? fuel (literal.tokens ++ rest) = some (literal, rest) := by
  obtain ⟨fuel, rfl⟩ : ∃ n, fuel = n + 1 := by
    refine ⟨fuel - 1, ?_⟩
    cases literal <;> simp only [tokens, List.length_cons] at hfuel <;> omega
  cases literal with
  | reference name =>
    cases h with
    | reference hfree =>
      rw [tokens, List.singleton_append, take?, if_neg (by rw [hfree]; decide)]
  | object members =>
    cases h with
    | object inner =>
      simp only [tokens, List.length_cons, List.length_append, List.length_nil] at hfuel
      rw [tokens, List.cons_append, List.append_assoc, List.singleton_append, take?,
        takeMembers?_tokens inner (by omega)]
      rfl
  | list items =>
    cases h with
    | list inner =>
      simp only [tokens, List.length_cons, List.length_append, List.length_nil] at hfuel
      rw [tokens, List.cons_append, List.append_assoc, List.singleton_append, take?,
        takeItems?_tokens inner (by omega)]
      rfl

theorem takeMembers?_tokens {members : List (String × Literal)} (h : ∀ member ∈ members, Usable member.2)
    {fuel : Nat} (hfuel : 2 * (tokensOfMembers members).length < fuel) (rest : List Token) :
    takeMembers? fuel (tokensOfMembers members ++ .closeBrace :: rest) = some (members, rest) := by
  obtain ⟨fuel, rfl⟩ : ∃ n, fuel = n + 1 := ⟨fuel - 1, by omega⟩
  cases members with
  | nil => rw [tokensOfMembers, List.nil_append, takeMembers?]
  | cons member more =>
    obtain ⟨key, value⟩ := member
    obtain ⟨hhere, hmore⟩ := List.forall_mem_cons.mp h
    change value.Usable at hhere
    simp only [tokensOfMembers, List.length_cons, List.length_append] at hfuel
    simp only [tokensOfMembers, List.cons_append, List.append_assoc]
    exact takeMembers?_of_key (Token.key?_ofKey key) (take?_tokens hhere (by omega) _)
      (takeMembers?_tokens hmore (by omega) rest)

theorem takeItems?_tokens {items : List Literal} (h : ∀ item ∈ items, Usable item)
    {fuel : Nat} (hfuel : 2 * (tokensOfItems items).length < fuel) (rest : List Token) :
    takeItems? fuel (tokensOfItems items ++ .closeBracket :: rest) = some (items, rest) := by
  obtain ⟨fuel, rfl⟩ : ∃ n, fuel = n + 1 := ⟨fuel - 1, by omega⟩
  cases items with
  | nil => rw [tokensOfItems, List.nil_append, takeItems?]
  | cons item more =>
    obtain ⟨hhere, hmore⟩ := List.forall_mem_cons.mp h
    simp only [tokensOfItems, List.length_cons, List.length_append] at hfuel
    simp only [tokensOfItems, List.cons_append, List.append_assoc]
    exact takeItems?_of_item (head?_tokens_append item _) (take?_tokens hhere (by omega) _)
      (takeItems?_tokens hmore (by omega) rest)

end

end Literal

end Phrasebook.Script

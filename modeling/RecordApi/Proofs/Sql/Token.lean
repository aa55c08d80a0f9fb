import Mathlib.Data.List.Chain
import RecordApi.Proofs.Text.Digits
import RecordApi.Sql.Condition

/-!
# Tokens of a text

The text of a statement is read from left to right (`tokens?`): names between double quotes, in
which a doubled quote stands for one, markers of values, words, and single signs. A text that begins
or ends in a sign or a blank can be read apart from its neighbour (`tokens?_append`), and so a
statement is read piece by piece (`Statement.tokens?_text`).
-/

namespace RecordApi.Sql

/-- A part of a text. -/
inductive Token where
  | name (name : String)
  | marker (number : Nat)
  | word (word : String)
  | sign (c : Char)
  deriving DecidableEq

namespace Token

/-- The name that a token is. -/
def name? : Token → Option String
  | .name n => some n
  | _ => none

/-- The number of the marker that a token is. -/
def marker? : Token → Option Nat
  | .marker n => some n
  | _ => none

/-- Whether a token is neither a name nor a marker. -/
def isPlain : Token → Bool
  | .word _ | .sign _ => true
  | _ => false

end Token

/-- Whether a character belongs to words. -/
def isWordChar (c : Char) : Bool :=
  c.isAlphanum || c == '_'

/-- Whether a character never belongs to what is beside it. -/
def isOpen (c : Char) : Bool :=
  !(isWordChar c || c == '\"' || c == '$')

/-- What has been begun where a text is read: a name may be open, or closed by a quote that may turn
out to be the first of two. -/
inductive Pending where
  | nothing
  | inName (read : List Char)
  | closed (read : List Char)
  | marker (digits : List Char)
  | word (read : List Char)
  | sign (c : Char)

namespace Pending

/-- What begins with a character. -/
def ofChar (c : Char) : Pending :=
  if c = '\"' then .inName []
  else if c = '$' then .marker []
  else if isWordChar c then .word [c]
  else if c = ' ' then .nothing
  else .sign c

/-- What has been begun with one more character, if it goes on with that. -/
def extend? : Pending → Char → Option Pending
  | .inName read, c => some (if c = '\"' then .closed read else .inName (read ++ [c]))
  | .closed read, c => if c = '\"' then some (.inName (read ++ [c])) else none
  | .marker digits, c => if Text.isDigit c then some (.marker (digits ++ [c])) else none
  | .word read, c => if isWordChar c then some (.word (read ++ [c])) else none
  | .nothing, _ | .sign _, _ => none

/-- Whether a character must not follow: a marker ends before no word, and a word or a marker before
no dollar. -/
def bars : Pending → Char → Bool
  | .marker _, c => isWordChar c || c == '$'
  | .word _, c => c == '$'
  | _, _ => false

/-- What has been read where it ends. An open name does not end, nor does a marker without a
number. -/
def finish : Pending → Option (List Token)
  | .nothing => some []
  | .inName _ => none
  | .closed read => some [.name (String.ofList read)]
  | .marker digits => if digits.isEmpty then none else some [.marker (Text.ofDigits digits)]
  | .word read => some [.word (String.ofList read)]
  | .sign c => some [.sign c]

/-- What is pending behind one more character. -/
def next (p : Pending) (c : Char) : Pending :=
  (p.extend? c).getD (.ofChar c)

/-- What has been begun ends before a character. -/
def Ends (p : Pending) (c : Char) : Prop :=
  p.extend? c = none ∧ p.bars c = false

end Pending

/-- The tokens of a text of which something has been begun. -/
def scan : Pending → List Char → Option (List Token)
  | p, [] => p.finish
  | p, c :: rest =>
    match p.extend? c with
    | some q => scan q rest
    | none =>
      if p.bars c then none
      else do
        let made ← p.finish
        let tokens ← scan (.ofChar c) rest
        pure (made ++ tokens)

/-- The tokens of a text, if it can be read. -/
def tokens? (s : String) : Option (List Token) :=
  scan .nothing s.toList

/-! ## Reading apart -/

section

variable {p q : Pending} {c d : Char} {chars others : List Char} {made tokens more : List Token}

theorem scan_cons_of_extend? (h : p.extend? c = some q) :
    scan p (c :: chars) = scan q chars := by
  rw [scan, h]

theorem scan_cons_of_ends (h : p.Ends c) (hmade : p.finish = some made)
    (htokens : scan .nothing (c :: chars) = some tokens) :
    scan p (c :: chars) = some (made ++ tokens) := by
  have hbegun : scan (.ofChar c) chars = some tokens := by
    simpa [scan, Pending.extend?, Pending.bars, Pending.finish] using htokens
  rw [scan, h.1]
  simp [h.2, hmade, hbegun]

/-- Where a text can be read, what is pending at its end is complete. -/
theorem exists_finish (h : scan p chars = some tokens) :
    ∃ last, (chars.foldl Pending.next p).finish = some last := by
  induction chars generalizing p tokens with
  | nil => exact ⟨_, h⟩
  | cons c rest ih =>
      rw [List.foldl_cons]
      cases hq : p.extend? c with
      | some q =>
          rw [scan_cons_of_extend? hq] at h
          simpa [Pending.next, hq] using ih h
      | none =>
          rw [scan, hq] at h
          simp only [Option.ite_none_left_eq_some, Option.bind_eq_bind,
            Option.bind_eq_some_iff] at h
          obtain ⟨-, made, -, tokens, hrest, -⟩ := h
          simpa [Pending.next, hq] using ih hrest

theorem scan_append (h : scan p chars = some tokens) (hmore : scan .nothing others = some more)
    (hends : ∀ c ∈ others.head?, (chars.foldl Pending.next p).Ends c) :
    scan p (chars ++ others) = some (tokens ++ more) := by
  induction chars generalizing p tokens with
  | nil =>
      cases others with
      | nil =>
          obtain rfl : [] = more := Option.some.inj hmore
          simpa using h
      | cons c rest => exact scan_cons_of_ends (hends c rfl) h hmore
  | cons c rest ih =>
      rw [List.foldl_cons] at hends
      cases hq : p.extend? c with
      | some q =>
          rw [scan_cons_of_extend? hq] at h
          rw [List.cons_append, scan_cons_of_extend? hq]
          exact ih h (by simpa [Pending.next, hq] using hends)
      | none =>
          rw [scan, hq] at h
          simp only [Option.ite_none_left_eq_some, Option.bind_eq_bind,
            Option.bind_eq_some_iff] at h
          obtain ⟨hbars, made, hmade, tokens, hrest, h⟩ := h
          obtain rfl : made ++ tokens = _ := Option.some.inj h
          have hrest := ih hrest (by simpa [Pending.next, hq] using hends)
          rw [List.cons_append, scan, hq]
          simp [hbars, hmade, hrest]

theorem isOpen_eq_true_iff :
    isOpen c = true ↔ isWordChar c = false ∧ c ≠ '\"' ∧ c ≠ '$' := by
  simp [isOpen, and_assoc]

theorem isWordChar_of_isDigit (h : Text.isDigit c = true) : isWordChar c = true := by
  have h : c.isDigit = true := by
    simpa [Text.isDigit, Char.isDigit, Char.le_def] using h
  simp [isWordChar, Char.isAlphanum, h]

namespace Pending

theorem ends_of_isOpen (h : p.finish = some made) (hc : isOpen c = true) : p.Ends c := by
  obtain ⟨hword, hquote, hdollar⟩ := isOpen_eq_true_iff.1 hc
  have hdigit : Text.isDigit c = false := by
    rw [← Bool.not_eq_true]
    intro hdigit
    rw [isWordChar_of_isDigit hdigit] at hword
    cases hword
  cases p with
  | inName read => cases h
  | nothing | sign d => exact ⟨rfl, rfl⟩
  | closed read => simp [Ends, extend?, bars, hquote]
  | marker digits => simp [Ends, extend?, bars, hdigit, hword, hdollar]
  | word read => simp [Ends, extend?, bars, hword, hdollar]

/-- Where a character that is open has been read, what is pending ends before everything. -/
theorem next_ends_of_isOpen (h : (p.next c).finish = some made) (hc : isOpen c = true) :
    (p.next c).Ends d := by
  obtain ⟨hword, hquote, hdollar⟩ := isOpen_eq_true_iff.1 hc
  have hbegun : (ofChar c).Ends d := by
    unfold ofChar
    rw [if_neg hquote, if_neg hdollar, if_neg (by simp [hword])]
    split <;> exact ⟨rfl, rfl⟩
  cases p with
  | inName read =>
      simp [next, extend?, hquote, finish] at h
  | nothing | sign e => exact hbegun
  | closed read => simpa [next, extend?, hquote] using hbegun
  | marker digits =>
      by_cases hdigit : Text.isDigit c = true
      · rw [isWordChar_of_isDigit hdigit] at hword
        cases hword
      · simpa [next, extend?, hdigit] using hbegun
  | word read => simpa [next, extend?, hword] using hbegun

end Pending

end

/-- A text begins with a character that is open. -/
def opens (s : String) : Bool :=
  s.toList.head?.any isOpen

/-- A text ends with a character that is open. -/
def closes (s : String) : Bool :=
  s.toList.getLast?.any isOpen

section

variable {s t : String} {tokens more : List Token}

/-- Two texts, one of which has an open character where they meet, are read one after the other. -/
theorem tokens?_append (h : tokens? s = some tokens) (hmore : tokens? t = some more)
    (hmeet : closes s = true ∨ ∀ c ∈ t.toList.head?, isOpen c = true) :
    tokens? (s ++ t) = some (tokens ++ more) := by
  unfold tokens?
  rw [String.toList_append]
  refine scan_append h hmore fun c hc => ?_
  obtain ⟨last, hlast⟩ := exists_finish h
  rcases hmeet with hclosed | hopen
  · obtain ⟨d, hd, hopen⟩ := (Option.any_eq_true _ _).1 hclosed
    obtain ⟨front, hfront⟩ := List.getLast?_eq_some_iff.1 hd
    rw [hfront, List.foldl_append] at hlast ⊢
    exact Pending.next_ends_of_isOpen hlast hopen
  · exact Pending.ends_of_isOpen hlast (hopen c hc)

end

theorem isOpen_of_opens (h : opens s = true) {c : Char} (hc : c ∈ s.toList.head?) :
    isOpen c = true := by
  obtain ⟨d, hd, hopen⟩ := (Option.any_eq_true _ _).1 h
  obtain rfl : d = c := Option.some.inj (hd.symm.trans hc)
  exact hopen

theorem opens_append (h : opens s = true) : opens (s ++ t) = true := by
  obtain ⟨c, hc, hopen⟩ := (Option.any_eq_true _ _).1 h
  unfold opens
  rw [String.toList_append, List.head?_append, hc]
  exact hopen

theorem closes_append (h : closes t = true) : closes (s ++ t) = true := by
  obtain ⟨c, hc, hopen⟩ := (Option.any_eq_true _ _).1 h
  unfold closes
  rw [String.toList_append, List.getLast?_append, hc]
  exact hopen

/-! ## Names, markers and words -/

theorem scan_doubled (read chars : List Char) :
    scan (.inName read) (doubled chars ++ ['\"']) =
      some [.name (String.ofList (read ++ chars))] := by
  induction chars generalizing read with
  | nil => simp [doubled, scan, Pending.extend?, Pending.finish]
  | cons c rest ih =>
      unfold doubled
      split
      · next h =>
        subst h
        simpa [scan, Pending.extend?] using ih (read ++ ['\"'])
      · next h => simpa [scan, Pending.extend?, h] using ih (read ++ [c])

/-- A name in quotes is read as the name, whatever its characters. -/
theorem tokens?_quoteName (name : String) : tokens? (quoteName name) = some [.name name] := by
  have h := scan_doubled [] name.toList
  simpa [tokens?, quoteName, scan, Pending.extend?, Pending.bars, Pending.finish, Pending.ofChar]
    using h

theorem scan_digits (digits more : List Char) (h : ∀ c ∈ more, Text.isDigit c = true)
    (hne : digits ++ more ≠ []) :
    scan (.marker digits) more = some [.marker (Text.ofDigits (digits ++ more))] := by
  induction more generalizing digits with
  | nil => simpa [scan, Pending.finish] using hne
  | cons c rest ih =>
      obtain ⟨hc, hrest⟩ := List.forall_mem_cons.1 h
      simpa [scan, Pending.extend?, hc] using ih (digits ++ [c]) hrest (by simp)

theorem tokens?_marker (n : Nat) : tokens? ("$" ++ n.repr) = some [.marker n] := by
  have h := scan_digits [] (Text.natDigits n)
    (fun c hc => Text.isDigit_of_mem_natDigits hc)
    (by simp [Text.natDigits, Nat.toDigits_ne_nil])
  rw [List.nil_append, Text.ofDigits_natDigits, Text.natDigits] at h
  simpa [tokens?, Nat.repr, scan, Pending.extend?, Pending.bars, Pending.finish, Pending.ofChar]
    using h

theorem scan_word (read more : List Char) (h : ∀ c ∈ more, isWordChar c = true) :
    scan (.word read) more = some [.word (String.ofList (read ++ more))] := by
  induction more generalizing read with
  | nil => simp [scan, Pending.finish]
  | cons c rest ih =>
      obtain ⟨hc, hrest⟩ := List.forall_mem_cons.1 h
      simpa [scan, Pending.extend?, hc] using ih (read ++ [c]) hrest

/-- A text of nothing but characters of words is one word. -/
theorem tokens?_word {s : String} (hne : s ≠ "") (h : ∀ c ∈ s.toList, isWordChar c = true) :
    tokens? s = some [.word s] := by
  cases hs : s.toList with
  | nil => exact absurd (String.toList_eq_nil_iff.1 hs) hne
  | cons c rest =>
      rw [hs] at h
      obtain ⟨hc, hrest⟩ := List.forall_mem_cons.1 h
      have hbegun : Pending.ofChar c = .word [c] := by
        unfold Pending.ofChar
        rw [if_neg, if_neg, if_pos hc]
        · rintro rfl
          cases hc
        · rintro rfl
          cases hc
      have hscan := scan_word [c] rest hrest
      rw [List.singleton_append, ← hs, String.ofList_toList] at hscan
      simpa [tokens?, hs, scan, Pending.extend?, Pending.bars, Pending.finish, hbegun] using hscan

theorem isWordChar_of_mem_repr {n : Nat} {c : Char} (h : c ∈ n.repr.toList) :
    isWordChar c = true := by
  rw [Nat.repr, String.toList_ofList] at h
  exact isWordChar_of_isDigit (Text.isDigit_of_mem_natDigits h)

theorem tokens?_aliasWord (source : Alias) : tokens? source.word = some [.word source.word] := by
  cases source with
  | main => exact tokens?_word (by decide) (List.all_eq_true.1 (by decide))
  | sub number =>
      refine tokens?_word (by simp [Alias.word]) fun c hc => ?_
      rw [Alias.word, String.toList_append, List.mem_append] at hc
      rcases hc with hc | hc
      · have hsub : "sub".toList.all isWordChar = true := by decide
        exact List.all_eq_true.1 hsub c hc
      · exact isWordChar_of_mem_repr hc

/-! ## Statements -/

namespace Piece

/-- The tokens of a part of a statement. -/
def tokens : Piece → List Token
  | .words w => (tokens? w).getD []
  | .name n => [.name n]
  | .marker n => [.marker n]

/-- Whether the words of a part can be read, and hold neither names nor markers. -/
def legible : Piece → Bool
  | .words w => (tokens? w).any (·.all Token.isPlain)
  | .name _ | .marker _ => true

/-- Whether a part begins with a character that is open. -/
def opens : Piece → Bool
  | .words w => Sql.opens w
  | .name _ | .marker _ => false

/-- Whether a part ends with a character that is open. -/
def closes : Piece → Bool
  | .words w => Sql.closes w
  | .name _ | .marker _ => false

/-- The token that a part of a statement is, unless it is words. -/
def token? : Piece → Option Token
  | .words _ => none
  | .name n => some (.name n)
  | .marker n => some (.marker n)

/-- The number of the marker that a part of a statement is. -/
def marker? (p : Piece) : Option Nat :=
  p.token?.bind Token.marker?

variable {p : Piece}

theorem tokens?_text (h : p.legible = true) : tokens? p.text = some p.tokens := by
  cases p with
  | words w =>
      obtain ⟨tokens, htokens, -⟩ := (Option.any_eq_true _ _).1 h
      simp [text, Piece.tokens, htokens]
  | name n => exact tokens?_quoteName n
  | marker n => exact tokens?_marker n

theorem isPlain_of_mem_tokens {w : String} (h : (words w).legible = true) {token : Token}
    (ht : token ∈ (words w).tokens) : token.isPlain = true := by
  obtain ⟨tokens, htokens, hplain⟩ := (Option.any_eq_true _ _).1 h
  rw [Piece.tokens, htokens] at ht
  exact List.all_eq_true.1 hplain token ht

/-- What is taken from the tokens of a part, where nothing is taken from words and signs. -/
theorem filterMap_tokens {α : Type} {read : Token → Option α}
    (hread : ∀ t : Token, t.isPlain = true → read t = none) (h : p.legible = true) :
    p.tokens.filterMap read = (p.token?.bind read).toList := by
  cases p with
  | words w => exact List.filterMap_eq_nil_iff.2 fun t ht => hread t (isPlain_of_mem_tokens h ht)
  | name | marker => simp [Piece.tokens, token?, List.filterMap_eq_flatMap_toList]

/-- Words that can be read apart can be read together. -/
theorem legible_append {v w : String} (hv : (words v).legible = true)
    (hw : (words w).legible = true) (h : Sql.closes v = true ∨ Sql.opens w = true) :
    (words (v ++ w)).legible = true := by
  obtain ⟨tokens, htokens, hplain⟩ := (Option.any_eq_true _ _).1 hv
  obtain ⟨more, hmore, hplain'⟩ := (Option.any_eq_true _ _).1 hw
  have hboth := tokens?_append htokens hmore (h.imp_right fun h _ => isOpen_of_opens h)
  rw [legible, hboth, Option.any_some, List.all_append, hplain, hplain']
  rfl

theorem opens_text (h : p.opens = true) : Sql.opens p.text = true := by
  cases p with
  | words w => exact h
  | name n | marker n => cases h

theorem closes_text (h : p.closes = true) : Sql.closes p.text = true := by
  cases p with
  | words w => exact h
  | name n | marker n => cases h

end Piece

namespace Statement

/-- The tokens of a statement. -/
def tokens (s : Statement) : List Token :=
  s.flatMap Piece.tokens

theorem tokens_append (s t : Statement) : tokens (s ++ t) = s.tokens ++ t.tokens :=
  List.flatMap_append

theorem tokens_words {w : String} {ts : List Token} (h : tokens? w = some ts) :
    tokens [.words w] = ts := by
  simp [tokens, Piece.tokens, h]

theorem join_cons_cons (w : String) (s t : Statement) (rest : List Statement) :
    join w (s :: t :: rest) = s ++ ([.words w] ++ join w (t :: rest)) := by
  simp [join]

/-- The words of a statement can be read, and where two parts meet one of them has an open
character. -/
structure Legible (s : Statement) : Prop where
  parts : ∀ p ∈ s, p.legible = true
  apart : s.IsChain fun p q => p.closes = true ∨ q.opens = true

/-- A statement is read part by part. -/
theorem tokens?_text {s : Statement} (h : s.Legible) : tokens? s.text = some s.tokens := by
  induction s with
  | nil => rfl
  | cons p rest ih =>
      obtain ⟨hparts, hapart⟩ := h
      obtain ⟨hp, hrest⟩ := List.forall_mem_cons.1 hparts
      rw [text, tokens, List.flatMap_cons]
      refine tokens?_append (Piece.tokens?_text hp) (ih ⟨hrest, hapart.of_cons⟩) ?_
      cases rest with
      | nil => simp [text]
      | cons q rest =>
          rcases (List.isChain_cons_cons.1 hapart).1 with hcloses | hopens
          · exact .inl (Piece.closes_text hcloses)
          · exact .inr fun c hc => isOpen_of_opens (opens_append (Piece.opens_text hopens)) hc

variable {s : Statement}

/-- What is taken from the tokens of a statement is what is taken from its parts. -/
theorem filterMap_tokens {α : Type} {read : Token → Option α}
    (hread : ∀ t : Token, t.isPlain = true → read t = none) (h : s.Legible) :
    s.tokens.filterMap read = s.filterMap fun p => p.token?.bind read := by
  rw [tokens, List.filterMap_flatMap, List.filterMap_eq_flatMap_toList _ s]
  exact List.flatMap_congr fun p hp => Piece.filterMap_tokens hread (h.parts p hp)

end Statement

end RecordApi.Sql

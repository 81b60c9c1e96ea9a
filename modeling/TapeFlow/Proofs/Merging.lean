import Mathlib.Data.List.Basic
import TapeFlow.Proofs.Lexing

namespace TapeFlow

/-! Lexemes from words. The words of a line are put together with spaces between them and cut again, at
other places: a branch header takes one word and the front of the next. `merge` says this of the
words themselves, and `Cuts` says it of the text, as a loop that takes one lexeme in each pass. -/

namespace Line

variable {word next front text glued : Text} {words found other : List Text} {symbol : Symbol}

/-- The branch that a word opens with the argument at the front of the next word, and what is glued to
the argument. -/
def opening? (word next : Text) : Option (Symbol × Text) :=
  if word = ['s', 'i'] then
    [Symbol.zero, .one].findSome? fun symbol =>
      (['(', symbol.char, ')'].isPrefixOf? next).map (symbol, ·)
  else none

/-- Puts a word in front of others, unless it is empty. -/
def consWord (word : Text) (words : List Text) : List Text :=
  if word = [] then words else word :: words

theorem length_consWord_le (word : Text) (words : List Text) :
    (consWord word words).length ≤ words.length + 1 := by
  rw [consWord]
  split
  · exact Nat.le_succ _
  · exact Nat.le_refl _

/-- The lexemes of a line with the given words. -/
def merge : List Text → List Text
  | [] => []
  | [word] => [word]
  | word :: next :: rest =>
    match opening? word next with
    | some (symbol, glued) => (Token.branch symbol).text :: merge (consWord glued rest)
    | none => word :: merge (next :: rest)
termination_by words => words.length
decreasing_by
  · exact Nat.lt_succ_of_le (length_consWord_le glued rest)
  · exact Nat.lt_succ_self _

theorem opening?_eq_some_iff :
    opening? word next = some (symbol, glued) ↔
      word = ['s', 'i'] ∧ next = ['(', symbol.char, ')'] ++ glued := by
  constructor
  · intro opens
    rw [opening?] at opens
    split at opens
    · rename_i isTest
      obtain ⟨other, -, argument⟩ := List.exists_of_findSome?_eq_some opens
      obtain ⟨rest, starts, same⟩ := Option.map_eq_some_iff.mp argument
      cases same
      exact ⟨isTest, (List.append_eq_of_isPrefixOf?_eq_some starts).symm⟩
    · cases opens
  · intro opened
    obtain ⟨rfl, rfl⟩ := opened
    cases symbol <;> rfl

/-- What has no space and begins a text begins its first word. -/
theorem prefix_of_spaceless (spaceless : ' ' ∉ front) (ends : ∀ c, text.head? = some c → c = ' ')
    (starts : front <+: word ++ text) : front <+: word := by
  obtain ⟨more, split⟩ := starts
  rcases List.append_eq_append_iff.mp split with ⟨gap, rfl, -⟩ | ⟨gap, rfl, rfl⟩
  · exact List.prefix_append front gap
  · cases gap with
    | nil => simp
    | cons c gap =>
        cases ends c rfl
        exact absurd (by simp) spaceless

/-- Two words that open no branch begin with no header when they are put together. -/
theorem branchHeader?_of_opening? (spaceless : ' ' ∉ word) (opens : opening? word next = none)
    (ends : ∀ c, text.head? = some c → c = ' ') :
    branchHeader? (word ++ ' ' :: (next ++ text)) = none := by
  simp only [branchHeader?, List.find?_eq_none, List.isPrefixOf_iff_prefix]
  intro symbol _ starts
  obtain ⟨more, same⟩ := starts
  have split : ['s', 'i'] ++ ' ' :: (['(', symbol.char, ')'] ++ more) =
      word ++ ' ' :: (next ++ text) := same
  -- The space of the header is the first one, and the bracket is not cut by a second one.
  have test : ' ' ∉ ['s', 'i'] := by decide
  have argument : ' ' ∉ ['(', symbol.char, ')'] := by cases symbol <;> decide
  obtain ⟨rfl, onward⟩ := Text.append_mark_inj test spaceless split
  obtain ⟨glued, rfl⟩ := prefix_of_spaceless argument ends ⟨more, onward⟩
  rw [opening?_eq_some_iff.mpr ⟨rfl, rfl⟩] at opens
  cases opens

theorem lexemes_consWord (glued : Text) (words : List Text) :
    lexemes ([' '].intercalate (consWord glued words)) =
      lexemes (glued ++ words.flatMap (' ' :: ·)) := by
  rw [consWord]
  split
  · rename_i empty
    rw [empty, List.nil_append, lexemes_flatMap]
  · rw [intercalate_space]

/-- Words that can be told apart when they are put together with spaces between them. -/
def Separable (words : List Text) : Prop :=
  ∀ word ∈ words, word ≠ [] ∧ ' ' ∉ word

theorem Separable.consWord (separable : Separable words) (spaceless : ' ' ∉ glued) :
    Separable (consWord glued words) := by
  rw [Line.consWord]
  split
  · exact separable
  · exact List.forall_mem_cons.mpr ⟨⟨‹_›, spaceless⟩, separable⟩

theorem lexemes_eq_merge (separable : Separable words) :
    lexemes ([' '].intercalate words) = merge words := by
  fun_induction merge words with
  | case1 => exact lexemes_nil
  | case2 word =>
      obtain ⟨nonempty, spaceless⟩ := separable word List.mem_cons_self
      rw [intercalate_space, List.flatMap_nil, lexemes_word spaceless nonempty (by simp) (by simp),
        lexemes_nil]
  | case3 word next rest symbol glued opens ih =>
      obtain ⟨rfl, rfl⟩ := opening?_eq_some_iff.mp opens
      obtain ⟨_, separable⟩ := List.forall_mem_cons.mp separable
      obtain ⟨⟨_, spaceless⟩, separable⟩ := List.forall_mem_cons.mp separable
      rw [List.mem_append, not_or] at spaceless
      -- The header has the space between its two words in it, so `glued` is cut with what follows.
      rw [← ih (Separable.consWord separable spaceless.2), lexemes_consWord, ← lexemes_header,
        intercalate_space, List.flatMap_cons]
      simp [Token.text]
  | case4 word next rest opens ih =>
      obtain ⟨⟨nonempty, spaceless⟩, separable⟩ := List.forall_mem_cons.mp separable
      have headerless := branchHeader?_of_opening? spaceless opens (head?_flatMap_space rest)
      rw [intercalate_space, ← ih separable, ← lexemes_flatMap, List.flatMap_cons, List.cons_append]
      exact lexemes_of_headerless headerless spaceless nonempty fun c head => (Option.some.inj head).symm

/-- A lexeme is a branch header, or has at least one character and no space. -/
theorem lexeme_cases {lexeme : Text} (member : lexeme ∈ lexemes text) :
    (∃ symbol, lexeme = (Token.branch symbol).text) ∨ lexeme ≠ [] ∧ ' ' ∉ lexeme := by
  induction text using lexemeInduction with
  | nil =>
      rw [lexemes_nil] at member
      cases member
  | space text ih =>
      rw [lexemes_space] at member
      exact ih member
  | header symbol text ih =>
      rw [lexemes_header] at member
      rcases List.mem_cons.mp member with rfl | member
      · exact .inl ⟨symbol, rfl⟩
      · exact ih member
  | word word text headerless spaceless nonempty ends ih =>
      rw [lexemes_of_headerless headerless spaceless nonempty ends] at member
      rcases List.mem_cons.mp member with rfl | member
      · exact .inr ⟨nonempty, spaceless⟩
      · exact ih member

/-- How long the lexeme is that a text begins with: it is a branch header, or ends at a space or at the
end of the text. -/
def frontLength (text : Text) : Nat :=
  match branchHeader? text with
  | some symbol => (Token.branch symbol).text.length
  | none => text.findIdx (· = ' ')

/-- One pass over a text: the lexeme behind its leading spaces, and the rest of the text. -/
def cut? (text : Text) : Option (Text × Text) :=
  let rest := text.dropWhile (· = ' ')
  if rest = [] then none else some (rest.splitAt (frontLength rest))

/-- The lexemes that passes over a text find until nothing is left. -/
inductive Cuts : Text → List Text → Prop
  | ended {text : Text} (done : cut? text = none) : Cuts text []
  | again {text lexeme rest : Text} {more : List Text} (passed : cut? text = some (lexeme, rest))
      (cuts : Cuts rest more) : Cuts text (lexeme :: more)

theorem cut?_space (text : Text) : cut? (' ' :: text) = cut? text := by
  rw [cut?, List.dropWhile_cons_of_pos (by simp), cut?]

theorem cut?_append {c : Char} (first : front.head? = some c) (solid : c ≠ ' ')
    (length : frontLength (front ++ text) = front.length) :
    cut? (front ++ text) = some (front, text) := by
  have kept : (front ++ text).dropWhile (· = ' ') = front ++ text := by
    cases front with
    | nil => cases first
    | cons d front =>
        cases first
        exact List.dropWhile_cons_of_neg (by simpa using solid)
  have nonempty : front ++ text ≠ [] := by
    intro empty
    rw [(List.append_eq_nil_iff.mp empty).1] at first
    cases first
  simp only [cut?, kept]
  rw [if_neg nonempty, length, List.splitAt_eq, List.take_left, List.drop_left]

theorem cut?_header (symbol : Symbol) (text : Text) :
    cut? ((Token.branch symbol).text ++ text) = some ((Token.branch symbol).text, text) := by
  have length : frontLength ((Token.branch symbol).text ++ text) = (Token.branch symbol).text.length := by
    rw [frontLength, branchHeader?_header]
  exact cut?_append rfl (by decide) length

theorem cut?_word (headerless : branchHeader? (word ++ text) = none) (spaceless : ' ' ∉ word)
    (nonempty : word ≠ []) (ends : ∀ c, text.head? = some c → c = ' ') :
    cut? (word ++ text) = some (word, text) := by
  have length : frontLength (word ++ text) = word.length := by
    have inside : word.findIdx (· = ' ') = word.length := by
      apply List.findIdx_eq_length.mpr
      intro c member
      exact decide_eq_false fun same => spaceless (same ▸ member)
    have stop : text.findIdx (· = ' ') = 0 := by
      cases text with
      | nil => rfl
      | cons c text =>
          cases ends c rfl
          rfl
    rw [frontLength, headerless]
    simp only [List.findIdx_append, inside, stop, Nat.lt_irrefl, if_false, Nat.zero_add]
  obtain ⟨c, word, rfl⟩ := List.exists_cons_of_ne_nil nonempty
  exact cut?_append rfl (fun same => spaceless (same ▸ List.mem_cons_self)) length

theorem Cuts.space (cuts : Cuts text found) : Cuts (' ' :: text) found := by
  cases cuts with
  | ended done => exact .ended ((cut?_space text).trans done)
  | again passed cuts => exact .again ((cut?_space text).trans passed) cuts

theorem cuts_lexemes (text : Text) : Cuts text (lexemes text) := by
  induction text using lexemeInduction with
  | nil =>
      rw [lexemes_nil]
      exact .ended rfl
  | space text ih =>
      rw [lexemes_space]
      exact ih.space
  | header symbol text ih =>
      rw [lexemes_header]
      exact .again (cut?_header symbol text) ih
  | word word text headerless spaceless nonempty ends ih =>
      rw [lexemes_of_headerless headerless spaceless nonempty ends]
      exact .again (cut?_word headerless spaceless nonempty ends) ih

theorem Cuts.unique (cuts : Cuts text found) (cutsToo : Cuts text other) : found = other := by
  induction cuts generalizing other with
  | ended done =>
      cases cutsToo with
      | ended _ => rfl
      | again passed _ =>
          rw [done] at passed
          cases passed
  | again passed _ ih =>
      cases cutsToo with
      | ended done =>
          rw [passed] at done
          cases done
      | again passedToo cuts =>
          rw [passed] at passedToo
          cases passedToo
          rw [ih cuts]

end Line

/-- Cutting words that are put together with single spaces gives what merging them gives. On every text
the cutting comes to an end, with one result; no lexeme is empty, and the two branch headers are
the only ones with a space. -/
theorem lexemes_merge_words :
    (∀ words : List Text, (∀ word ∈ words, word ≠ [] ∧ ∀ c ∈ word, isBlank c = false) →
      Line.lexemes ([' '].intercalate words) = Line.merge words) ∧
    ∀ text : Text,
      (∀ found : List Text, Line.Cuts text found ↔ found = Line.lexemes text) ∧
      ∀ lexeme ∈ Line.lexemes text, lexeme ≠ [] ∧
        (' ' ∈ lexeme ↔ ∃ symbol, lexeme = (Token.branch symbol).text) := by
  refine ⟨?_, fun text => ⟨fun found => ⟨?_, ?_⟩, ?_⟩⟩
  · intro words solid
    apply Line.lexemes_eq_merge
    intro word member
    obtain ⟨nonempty, unblank⟩ := solid word member
    exact ⟨nonempty, Line.spaceless_of_solid unblank⟩
  · intro cuts
    exact cuts.unique (Line.cuts_lexemes text)
  · intro same
    rw [same]
    exact Line.cuts_lexemes text
  · intro lexeme member
    have spaced (symbol : Symbol) : ' ' ∈ (Token.branch symbol).text := by simp [Token.text]
    rcases Line.lexeme_cases member with ⟨symbol, rfl⟩ | ⟨nonempty, spaceless⟩
    · exact ⟨by simp [Token.text], fun _ => ⟨symbol, rfl⟩, fun _ => spaced symbol⟩
    · refine ⟨nonempty, fun inside => absurd inside spaceless, ?_⟩
      intro header
      obtain ⟨symbol, rfl⟩ := header
      exact spaced symbol

/-- A header that is glued to the next one, and a word of headers with no argument behind it. -/
theorem lexemes_merge_glued_words :
    Line.lexemes ([' '].intercalate
        ["si".toList, "(0)si".toList, "(1)x".toList, "si".toList, "(2)".toList]) =
      ["si (0)".toList, "si (1)".toList, "x".toList, "si".toList, "(2)".toList] := by
  refine (lexemes_merge_words.1 _ ?_).trans ?_
  · simp [isBlank, blankRanges]
  · decide +kernel

end TapeFlow

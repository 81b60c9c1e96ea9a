import Mathlib.Data.List.DropRight
import TapeFlow.Proofs.Lexing

namespace TapeFlow

/-! Where the comment of a line starts, told from the line as it is written. The lexer looks for
comments only after it has moved blanks about, so the rule is carried through its passes: a mark begins
a word of the result exactly if what the passes leave in front of it is nothing or ends in a blank. -/

/-- The last character of a text that is not blank. -/
def Text.lastSolid? (text : Text) : Option Char :=
  (text.filter (!isBlank ·)).getLast?

/-- A text behind which a word begins. -/
def Text.OpensWord (text : Text) : Prop :=
  ∀ c, text.getLast? = some c → isBlank c = true

namespace Text

variable {c : Char} {text left right : Text}

theorem lastSolid?_solid (solid : isBlank c = false) (text : Text) :
    lastSolid? (c :: text) = some (text.lastSolid?.getD c) := by
  rw [lastSolid?, List.filter_cons_of_pos (by simp [solid]), List.getLast?_cons, lastSolid?]

theorem lastSolid?_blank (blank : isBlank c = true) (text : Text) :
    lastSolid? (c :: text) = lastSolid? text := by
  rw [lastSolid?, List.filter_cons_of_neg (by simp [blank]), lastSolid?]

theorem lastSolid?_append_blanks (blank : ∀ c ∈ right, isBlank c = true) (left : Text) :
    (left ++ right).lastSolid? = left.lastSolid? := by
  have nothing : right.filter (!isBlank ·) = [] := by
    simpa using blank
  rw [lastSolid?, List.filter_append, nothing, List.append_nil, lastSolid?]

theorem lastSolid?_concat (solid : isBlank c = false) (text : Text) :
    (text ++ [c]).lastSolid? = some c := by
  rw [lastSolid?, List.filter_append, List.filter_cons_of_pos (by simp [solid]), List.filter_nil,
    List.getLast?_concat]

theorem opensWord_nil : OpensWord [] := by
  intro c last
  cases last

theorem opensWord_concat (text : Text) : OpensWord (text ++ [c]) ↔ isBlank c = true := by
  simp [OpensWord]

theorem words_append_blank (blank : isBlank c = true) (left right : Text) :
    words (left ++ c :: right) = words left ++ words right := by
  rw [words, List.splitOnP_append_cons left right blank, List.filter_append, words, words]

theorem words_concat_blank (blank : isBlank c = true) (text : Text) :
    words (text ++ [c]) = words text := by
  have nothing : words [] = [] := rfl
  rw [words_append_blank blank, nothing, List.append_nil]

theorem words_append_of_opensWord (opens : left.OpensWord) (right : Text) :
    words (left ++ right) = words left ++ words right := by
  cases left using List.reverseRecOn with
  | nil => rfl
  | append_singleton left c =>
      have blank := (opensWord_concat left).mp opens
      rw [List.append_assoc, List.singleton_append, words_append_blank blank, words_concat_blank blank]

theorem opensWord_append (nonempty : right ≠ []) (left : Text) :
    OpensWord (left ++ right) ↔ right.OpensWord := by
  rw [OpensWord, List.getLast?_append_of_ne_nil left nonempty, OpensWord]

/-- A word stands where a word may begin, behind the words before it. -/
theorem exists_of_words_eq {text word : Text} {earlier later : List Text}
    (cut : words text = earlier ++ word :: later) :
    ∃ left right, text = left ++ (word ++ right) ∧ left.OpensWord ∧ words left = earlier := by
  match text with
  | [] => simp [words] at cut
  | d :: text =>
      cases blank : isBlank d with
      | true =>
          rw [words_blank blank] at cut
          obtain ⟨left, right, rfl, opens, before⟩ := exists_of_words_eq cut
          refine ⟨d :: left, right, rfl, ?_, by rw [words_blank blank, before]⟩
          cases left with
          | nil => exact (opensWord_concat []).mpr blank
          | cons e left => exact (opensWord_append (by simp) [d]).mpr opens
      | false =>
          have stop := endsWord_dropWhile text
          rw [words_solid blank] at cut
          cases earlier with
          | nil =>
              obtain ⟨rfl, -⟩ := List.cons.inj cut
              refine ⟨[], text.dropWhile (!isBlank ·), ?_, opensWord_nil, rfl⟩
              rw [List.nil_append, List.cons_append, List.takeWhile_append_dropWhile]
          | cons front earlier =>
              obtain ⟨rfl, behind⟩ := List.cons.inj cut
              have shorter := (List.dropWhile_sublist (l := text) (!isBlank ·)).length_le
              obtain ⟨left, right, split, opens, before⟩ := exists_of_words_eq behind
              have solid : ∀ c ∈ d :: text.takeWhile (!isBlank ·), isBlank c = false := by
                intro c member
                rcases List.mem_cons.mp member with rfl | member
                · exact blank
                · simpa using List.mem_takeWhile_imp member
              -- What comes behind a word is blank first, so this word is not glued to the one before.
              have apart : left ≠ [] := by
                intro glued
                have member : word ∈ words (text.dropWhile (!isBlank ·)) := by simp [behind]
                obtain ⟨c, more, rfl⟩ := List.exists_cons_of_ne_nil (ne_nil_of_mem_words member)
                rw [split, glued] at stop
                have first := solid_of_mem_words member c List.mem_cons_self
                rw [stop c rfl] at first
                cases first
              have ends : left.EndsWord := by
                intro c head
                exact stop c (by rw [split, List.head?_append, head, Option.some_or])
              refine ⟨(d :: text.takeWhile (!isBlank ·)) ++ left, right, ?_,
                (opensWord_append apart _).mpr opens, ?_⟩
              · rw [List.append_assoc, ← split, List.cons_append, List.takeWhile_append_dropWhile]
              · rw [words_append solid (by simp) ends, before]
termination_by text.length
decreasing_by
  all_goals
    simp only [List.length_cons]
    omega

/-- A text is what it has up to its last character outside a class, and characters of that class. -/
theorem exists_trailing (inside : Char → Bool) (text : Text) :
    ∃ front back, text = front ++ back ∧ (∀ c ∈ back, inside c = true) ∧
      (front = [] ∨ ∃ rest c, front = rest ++ [c] ∧ inside c = false) := by
  refine ⟨text.rdropWhile inside, text.rtakeWhile inside, ?_, ?_, ?_⟩
  · rw [List.rdropWhile_append_rtakeWhile]
  · intro c member
    rw [List.rtakeWhile, List.mem_reverse] at member
    exact List.mem_takeWhile_imp member
  · by_cases empty : text.rdropWhile inside = []
    · exact .inl empty
    · have outside := List.rdropWhile_last_not inside text empty
      exact .inr ⟨_, _, (List.dropLast_concat_getLast empty).symm, by simpa using outside⟩

end Text

namespace Line

variable {c : Char} {opened : Bool} {left right before line : Text}

/-- Behind a text, tightening goes on with what the text ends in. -/
theorem tightenFrom_append (unclosed : right.firstSolid? ≠ some ')') :
    tightenFrom opened (left ++ right) =
      tightenFrom opened left ++ tightenFrom (left.lastSolid?.elim opened (· = '(')) right := by
  induction left generalizing opened with
  | nil => rfl
  | cons c left ih =>
      cases blank : isBlank c with
      | false =>
          rw [List.cons_append, tightenFrom_solid blank, tightenFrom_solid blank, ih,
            Text.lastSolid?_solid blank]
          cases Text.lastSolid? left <;> rfl
      | true =>
          have same : Text.firstSolid? (left ++ right) = some ')' ↔
              Text.firstSolid? left = some ')' := by
            rw [Text.firstSolid?_append]
            cases Text.firstSolid? left <;> simp [unclosed]
          simp only [Text.firstSolid?] at same
          rw [Text.lastSolid?_blank blank, List.cons_append, tightenFrom, tightenFrom, if_pos blank,
            if_pos blank]
          simp only [same]
          split
          · exact ih
          · rename_i kept
            have closed : opened = false := by simp_all
            rw [ih, closed]
            rfl

theorem filter_tighten_separate (line : Text) :
    (tighten (separate line)).filter (!isBlank ·) = line.filter (!isBlank ·) := by
  rw [tighten, filter_tightenFrom, filter_separate]

theorem tighten_separate_append (unclosed : right.firstSolid? ≠ some ')') (left : Text) :
    tighten (separate (left ++ right)) =
      tighten (separate left) ++ tightenFrom (left.lastSolid? = some '(') (separate right) := by
  have ending : (separate left).lastSolid? = left.lastSolid? := by
    rw [Text.lastSolid?, filter_separate, Text.lastSolid?]
  rw [separate_append, tighten, tightenFrom_append (by rwa [firstSolid?_separate]), ending, tighten]
  cases left.lastSolid? <;> simp

theorem getLast?_tightenFrom (solid : isBlank c = false) (text : Text) :
    (tightenFrom opened (text ++ [c])).getLast? = some c := by
  induction text generalizing opened with
  | nil => rw [List.nil_append, tightenFrom_solid solid]; rfl
  | cons d text ih =>
      cases blank : isBlank d with
      | false => rw [List.cons_append, tightenFrom_solid blank, List.getLast?_cons, ih, Option.getD_some]
      | true =>
          rw [List.cons_append, tightenFrom, if_pos blank]
          split
          · exact ih
          · rw [List.getLast?_cons, ih, Option.getD_some]

/-- Whether a `%` behind a text starts a comment. -/
def startsComment (before : Text) : Bool :=
  before.all isBlank ||
    ((before.getLast?.any fun c => isBlank c || c = '\x7d') && before.lastSolid? ≠ some '(')

theorem tighten_separate_blanks (blank : ∀ c ∈ right, isBlank c = true) (left : Text) :
    tighten (separate (left ++ right)) =
      tighten (separate left) ++ if left.lastSolid? = some '(' then [] else right := by
  have nothing : Text.firstSolid? [] ≠ some ')' := by decide
  have unclosed : right.firstSolid? ≠ some ')' := by
    rwa [← List.append_nil right, firstSolid?_blanks blank]
  have dropped := tightenFrom_opened blank []
  have kept := tightenFrom_blanks blank nothing
  rw [List.append_nil] at dropped kept
  rw [tighten_separate_append unclosed, separate_blanks blank]
  split
  · rename_i opens
    rw [decide_eq_true opens, dropped]
    rfl
  · rename_i other
    rw [decide_eq_false other, kept]
    simp [tightenFrom]

theorem startsComment_blanks (blank : ∀ c ∈ before, isBlank c = true) :
    startsComment before = true := by
  rw [startsComment, List.all_eq_true.mpr blank, Bool.true_or]

theorem startsComment_solid (solid : isBlank c = false) (blank : ∀ c ∈ right, isBlank c = true)
    (left : Text) :
    startsComment (left ++ [c] ++ right) = true ↔ (right ≠ [] ∨ c = '\x7d') ∧ c ≠ '(' := by
  have mixed : (left ++ [c] ++ right).all isBlank = false := by
    simp [solid]
  rw [startsComment, mixed, Text.lastSolid?_append_blanks blank, Text.lastSolid?_concat solid]
  cases right using List.reverseRecOn with
  | nil => simp [solid]
  | append_singleton right d =>
      have last : isBlank d = true := blank d (by simp)
      simp [← List.append_assoc, last]

/-- Behind a last character that is not blank the passes put a blank only if it is a brace. -/
theorem opensWord_tighten_solid (solid : isBlank c = false) (left : Text) :
    (tighten (separate (left ++ [c]))).OpensWord ↔ c = '\x7d' := by
  by_cases closes : c = '\x7d'
  · subst closes
    have apart : separate (left ++ ['\x7d']) = separate left ++ [' '] ++ ['\x7d'] ++ [' '] := by
      simp [separate]
    have unclosed : Text.firstSolid? [' '] ≠ some ')' := by decide
    rw [apart, tighten, tightenFrom_append unclosed, Text.lastSolid?_concat solid]
    exact iff_of_true ((Text.opensWord_concat _).mpr (by decide)) rfl
  · have ending : ∃ front, separate (left ++ [c]) = front ++ [c] := by
      by_cases opens : c = '('
      · subst opens
        exact ⟨separate left ++ [' '], by simp [separate]⟩
      · exact ⟨separate left, by simp [separate, closes, opens]⟩
    obtain ⟨front, ending⟩ := ending
    refine iff_of_false ?_ closes
    intro opens
    have blank := opens c (by rw [ending, tighten, getLast?_tightenFrom solid])
    rw [solid] at blank
    cases blank

/-- The passes leave nothing in front of a mark, or a blank, exactly if the mark starts a comment. -/
theorem opensWord_tighten (before : Text) :
    (tighten (separate before)).OpensWord ↔ startsComment before = true := by
  obtain ⟨front, gap, rfl, blank, rfl | ⟨rest, d, rfl, solid⟩⟩ := before.exists_trailing isBlank
  · have nothing : tighten (separate []) = [] := rfl
    have unopened : Text.lastSolid? [] ≠ some '(' := by decide
    rw [tighten_separate_blanks blank, nothing, if_neg unopened, List.nil_append]
    refine iff_of_true ?_ (startsComment_blanks blank)
    intro c last
    exact blank c (List.mem_of_getLast? last)
  · rw [startsComment_solid solid blank, tighten_separate_blanks blank, Text.lastSolid?_concat solid]
    by_cases opens : d = '('
    · subst opens
      rw [if_pos rfl, List.append_nil, opensWord_tighten_solid solid]
      simp
    · rw [if_neg (by simpa using opens)]
      by_cases empty : gap = []
      · rw [empty, List.append_nil, opensWord_tighten_solid solid]
        simp [opens]
      · rw [Text.opensWord_append empty]
        refine iff_of_true ?_ ⟨.inl empty, opens⟩
        intro c last
        exact blank c (List.mem_of_getLast? last)

theorem tokens_concat_blank (blank : isBlank c = true) (line : Text) :
    tokens (line ++ [c]) = tokens line := by
  rw [tokens_eq_scan, tighten_separate_blanks (by simpa using blank), tokens_eq_scan]
  split
  · rw [List.append_nil]
  · rw [scan, kept, Text.words_concat_blank blank, scan, kept]

theorem tighten_separate_mark (before rest : Text) :
    tighten (separate (before ++ '%' :: rest)) =
      tighten (separate before) ++ '%' :: tightenFrom false (separate rest) := by
  have solid : isBlank '%' = false := by decide
  have unclosed : Text.firstSolid? ('%' :: rest) ≠ some ')' := by
    rw [Text.firstSolid?_solid solid]
    decide
  have marked : separate ('%' :: rest) = '%' :: separate rest := rfl
  rw [tighten_separate_append unclosed, marked, tightenFrom_solid solid, decide_eq_false (by decide)]

/-- What comes behind a comment mark is not lexed. -/
theorem tokens_append_comment (starts : startsComment before = true) (rest : Text) :
    tokens (before ++ '%' :: rest) = tokens before := by
  have opens := (opensWord_tighten before).mpr starts
  have cut : kept (tighten (separate (before ++ '%' :: rest))) = kept (tighten (separate before)) := by
    rw [tighten_separate_mark, kept, Text.words_append_of_opensWord opens,
      Text.words_solid (by decide), List.takeWhile_append,
      List.takeWhile_cons_of_neg (by simp [isComment]), List.append_nil, kept]
    split
    · rename_i all
      exact ((List.takeWhile_prefix _).eq_of_length all).symm
    · rfl
  rw [tokens_eq_scan, scan, cut, tokens_eq_scan, scan]

/-- What stands before the first comment of the rest of a line, `before` being what the line has so
far. -/
def beforeCommentFrom (before : Text) : Text → Text
  | [] => []
  | c :: rest =>
    if c = '%' ∧ startsComment before then [] else c :: beforeCommentFrom (before ++ [c]) rest

/-- The part of a line before its first comment, or the whole line. -/
def beforeComment (line : Text) : Text :=
  beforeCommentFrom [] line

theorem beforeCommentFrom_eq (before line : Text) :
    beforeCommentFrom before line = line ∨
      ∃ rest, line = beforeCommentFrom before line ++ '%' :: rest ∧
        startsComment (before ++ beforeCommentFrom before line) = true := by
  induction line generalizing before with
  | nil => exact .inl rfl
  | cons c line ih =>
      rw [beforeCommentFrom]
      split
      · rename_i starts
        exact .inr ⟨line, by rw [starts.1, List.nil_append], by rw [List.append_nil, starts.2]⟩
      · rcases ih (before ++ [c]) with whole | ⟨rest, cut, starts⟩
        · exact .inl (by rw [whole])
        · refine .inr ⟨rest, by rw [List.cons_append, ← cut], ?_⟩
          rwa [List.append_assoc, List.singleton_append] at starts

theorem startsComment_beforeCommentFrom (found : beforeCommentFrom before line = left ++ '%' :: right) :
    startsComment (before ++ left) = false := by
  induction line generalizing before left with
  | nil => cases left <;> cases found
  | cons c line ih =>
      rw [beforeCommentFrom] at found
      split at found
      · cases left <;> cases found
      · rename_i other
        cases left with
        | nil =>
            obtain ⟨rfl, -⟩ := List.cons.inj found
            simpa using other
        | cons d left =>
            obtain ⟨rfl, deeper⟩ := List.cons.inj found
            have later := ih deeper
            rwa [List.append_assoc, List.singleton_append] at later

theorem tokens_beforeComment (line : Text) : tokens (beforeComment line) = tokens line := by
  rcases beforeCommentFrom_eq [] line with whole | ⟨rest, cut, starts⟩
  · rw [beforeComment, whole]
  · rw [List.nil_append] at starts
    rw [cut, beforeComment, tokens_append_comment starts, ← cut]

section Conservation

/-! No pass loses or adds a character that is not blank, or moves it past another. -/

theorem filter_flatten_lexemes (text : Text) :
    (lexemes text).flatten.filter (!isBlank ·) = text.filter (!isBlank ·) := by
  induction text using lexemeInduction with
  | nil => rw [lexemes_nil, List.flatten_nil]
  | space text ih => rw [lexemes_space, ih, List.filter_cons_of_neg (by decide)]
  | header symbol text ih =>
      rw [lexemes_header, List.flatten_cons, List.filter_append, ih, List.filter_append]
  | word word text headerless spaceless nonempty ends ih =>
      rw [lexemes_of_headerless headerless spaceless nonempty ends, List.flatten_cons,
        List.filter_append, ih, List.filter_append]

theorem filter_intercalate_space (words : List Text) :
    ([' '].intercalate words).filter (!isBlank ·) = words.flatten.filter (!isBlank ·) := by
  have spaced : ∀ words : List Text,
      (words.flatMap (' ' :: ·)).filter (!isBlank ·) = words.flatten.filter (!isBlank ·) := by
    intro words
    induction words with
    | nil => rfl
    | cons word words ih =>
        rw [List.flatMap_cons, List.cons_append, List.filter_cons_of_neg (by decide),
          List.filter_append, ih, List.flatten_cons, List.filter_append]
  cases words with
  | nil => rfl
  | cons word words =>
      rw [intercalate_space, List.filter_append, spaced, List.flatten_cons, List.filter_append]

theorem flatMap_text_tokens (line : Text) :
    ((tokens line).flatMap Token.text).filter (!isBlank ·) =
      (code line).flatten.filter (!isBlank ·) := by
  have shown : (tokens line).flatMap Token.text = (lexemes ([' '].intercalate (code line))).flatten := by
    rw [tokens, List.flatMap_map, ← List.flatMap_id]
    congr
    funext word
    exact Token.text_ofWord word
  rw [shown, filter_flatten_lexemes, filter_intercalate_space]

/-- A place in a text is given by the characters before it that are not blank, if it is not blank
itself. -/
theorem append_solid_inj {front back more rest : Text} (solid : isBlank c = false)
    (same : front ++ c :: more = back ++ c :: rest)
    (before : front.filter (!isBlank ·) = back.filter (!isBlank ·)) : front = back := by
  have inside : ∀ {left right gap behind : Text}, c :: right = gap ++ behind →
      (left ++ gap).filter (!isBlank ·) = left.filter (!isBlank ·) → gap = [] := by
    intro left right gap behind split filtered
    cases gap with
    | nil => rfl
    | cons d gap =>
        obtain ⟨rfl, -⟩ := List.cons.inj split
        simp [solid] at filtered
  rcases List.append_eq_append_iff.mp same with ⟨gap, rfl, split⟩ | ⟨gap, rfl, split⟩
  · rw [inside split before.symm, List.append_nil]
  · rw [inside split before, List.append_nil]

/-- A mark in what the passes make of a line is a mark of the line, found by the characters before
it. -/
theorem exists_mark {front behind : Text} (pressed : tighten (separate line) = front ++ '%' :: behind) :
    ∃ before rest, line = before ++ '%' :: rest ∧ tighten (separate before) = front := by
  have conserved : line.filter (!isBlank ·) =
      front.filter (!isBlank ·) ++ '%' :: behind.filter (!isBlank ·) := by
    rw [← filter_tighten_separate, pressed, List.filter_append, List.filter_cons_of_pos (by decide)]
  obtain ⟨early, late, rfl, earlyFilter, lateFilter⟩ := List.filter_eq_append_iff.mp conserved
  obtain ⟨gap, rest, rfl, blank, -, -⟩ := List.filter_eq_cons_iff.mp lateFilter
  rw [← List.append_assoc, tighten_separate_mark] at pressed
  refine ⟨early ++ gap, rest, by rw [List.append_assoc], ?_⟩
  refine append_solid_inj (by decide) pressed ?_
  have nothing : gap.filter (!isBlank ·) = [] := by simpa using blank
  rw [filter_tighten_separate, List.filter_append, nothing, List.append_nil, earlyFilter]

/-- A line without a comment start keeps all its words. -/
theorem code_of_commentless
    (commentless : ∀ left right, line = left ++ '%' :: right → startsComment left = false) :
    code line = (tighten (separate line)).words := by
  rw [code, List.takeWhile_eq_self_iff]
  intro word member
  cases comment : isComment word with
  | false => rfl
  | true =>
      obtain ⟨more, rfl⟩ := List.head?_eq_some_iff.mp (of_decide_eq_true comment)
      obtain ⟨earlier, later, cut⟩ := List.append_of_mem member
      obtain ⟨front, behind, pressed, opens, -⟩ := Text.exists_of_words_eq cut
      obtain ⟨before, rest, split, same⟩ := exists_mark pressed
      have starts := (opensWord_tighten before).mp (same ▸ opens)
      rw [commentless before rest split] at starts
      cases starts

theorem filter_tokens (line : Text) :
    ((tokens line).flatMap Token.text).filter (!isBlank ·) =
      (beforeComment line).filter (!isBlank ·) := by
  have commentless : ∀ left right, beforeComment line = left ++ '%' :: right →
      startsComment left = false := by
    intro left right found
    exact startsComment_beforeCommentFrom found
  rw [← tokens_beforeComment, flatMap_text_tokens, code_of_commentless commentless,
    Text.flatten_words, List.filter_filter]
  simp only [Bool.and_self]
  rw [filter_tighten_separate]

end Conservation

end Line

/-! A lexer that looks at every word before it keeps it finds none to refuse. -/

/-- Why a line is not lexed. Lines count from one. -/
inductive LexError where
  | emptyWord (line : Nat)
  deriving DecidableEq

def Text.trim (text : Text) : Text :=
  (text.dropWhile isBlank).rdropWhile isBlank

namespace Line

def checkWords (number : Nat) : List Text → Except LexError (List Text)
  | [] => .ok []
  | part :: rest =>
    match part.trim with
    | [] => .error (.emptyWord number)
    | first :: more =>
      if first = '%' then .ok [] else (checkWords number rest).map ((first :: more) :: ·)

def check (number : Nat) (line : Text) : Except LexError (List Token) :=
  (checkWords number (tighten (separate line)).words).map fun words =>
    (lexemes ([' '].intercalate words)).map Token.ofWord

def checkAll (number : Nat) : List Text → Except LexError (List Token)
  | [] => .ok []
  | line :: rest =>
    match check number line with
    | .error reason => .error reason
    | .ok tokens => (checkAll (number + 1) rest).map (tokens ++ ·)

theorem checkWords_eq (number : Nat) {words : List Text}
    (whole : ∀ word ∈ words, word ≠ [] ∧ ∀ c ∈ word, isBlank c = false) :
    checkWords number words = .ok (words.takeWhile (!isComment ·)) := by
  induction words with
  | nil => rfl
  | cons word words ih =>
      obtain ⟨⟨nonempty, solid⟩, others⟩ := List.forall_mem_cons.mp whole
      obtain ⟨c, more, rfl⟩ := List.exists_cons_of_ne_nil nonempty
      have same : Text.trim (c :: more) = c :: more := by
        have first := solid c List.mem_cons_self
        rw [Text.trim, List.dropWhile_cons_of_neg (by simp [first]), List.rdropWhile_eq_self_iff]
        intro nonempty
        simpa using solid _ (List.getLast_mem nonempty)
      rw [checkWords, same, ih others]
      by_cases comment : c = '%'
      · simp [comment, isComment]
      · simp [comment, isComment, Except.map]

theorem check_eq (number : Nat) (line : Text) : check number line = .ok (tokens line) := by
  have whole : ∀ word ∈ (tighten (separate line)).words,
      word ≠ [] ∧ ∀ c ∈ word, isBlank c = false :=
    fun word member => ⟨Text.ne_nil_of_mem_words member, Text.solid_of_mem_words member⟩
  rw [check, checkWords_eq number whole]
  rfl

theorem checkAll_eq (number : Nat) (lines : List Text) :
    checkAll number lines = .ok (lines.flatMap tokens) := by
  induction lines generalizing number with
  | nil => rfl
  | cons line lines ih => rw [checkAll, check_eq, ih, List.flatMap_cons]; rfl

end Line

/-- Lexing never fails. It takes every line for what stands before its comment, and its tokens spell
the characters that stand there, blanks apart. -/
theorem tokenize_conserves_code (text : Text) :
    Line.checkAll 1 text.lines = .ok (tokenize text) ∧
      tokenize text = text.lines.flatMap Line.tokens ∧
      ∀ line : Text, Line.tokens line = Line.tokens (Line.beforeComment line) ∧
        ((Line.tokens line).flatMap Token.text).filter (!isBlank ·) =
          (Line.beforeComment line).filter (!isBlank ·) := by
  refine ⟨?_, tokenize_eq_flatMap text, ?_⟩
  · rw [Line.checkAll_eq, tokenize_eq_flatMap]
  · intro line
    exact ⟨(Line.tokens_beforeComment line).symm, Line.filter_tokens line⟩

end TapeFlow

import TapeFlow.Proofs.Texts
import TapeFlow.Token.Cursor

namespace TapeFlow

/-! What is at the front of a line becomes its first token, and the rest of the line is lexed as if it
stood alone. The passes over a line are followed one by one; each result is about a front with any
rest behind it, under conditions on the first character of the rest, blank or not. -/

namespace Line

variable {c : Char} {word text : Text} {words : List Text} {symbol : Symbol}

theorem lexemes_nil : lexemes [] = [] := by
  rw [lexemes]

theorem lexemes_space (text : Text) : lexemes (' ' :: text) = lexemes text := by
  rw [lexemes, if_pos rfl]

theorem branchHeader?_header (symbol : Symbol) (text : Text) :
    branchHeader? ((Token.branch symbol).text ++ text) = some symbol := by
  cases symbol <;> simp [branchHeader?, Token.text, Symbol.char]

theorem lexemes_header (symbol : Symbol) (text : Text) :
    lexemes ((Token.branch symbol).text ++ text) =
      (Token.branch symbol).text :: lexemes text := by
  have found := branchHeader?_header symbol text
  rw [Token.text, List.cons_append] at *
  rw [lexemes, if_neg (by decide), found]
  simp [Token.text]

/-- No header begins a word that has no space, unless it is the word of the headers and their bracket
follows it. -/
theorem branchHeader?_eq_none (spaceless : ' ' ∉ word) (ends : ∀ c, text.head? = some c → c = ' ')
    (unopened : text.tail.head? ≠ some '(') : branchHeader? (word ++ text) = none := by
  simp only [branchHeader?, List.find?_eq_none, List.isPrefixOf_iff_prefix]
  rintro symbol _ ⟨rest, same⟩
  have split : ['s', 'i'] ++ ' ' :: ('(' :: symbol.char :: ')' :: rest) = word ++ text := same
  cases text with
  | nil =>
      rw [List.append_nil] at split
      exact spaceless (split ▸ by simp)
  | cons c text =>
      cases ends c rfl
      obtain ⟨_, rfl⟩ := Text.append_mark_inj (by decide) spaceless split
      exact unopened rfl

theorem lexemes_of_headerless (headerless : branchHeader? (word ++ text) = none)
    (spaceless : ' ' ∉ word) (nonempty : word ≠ []) (ends : ∀ c, text.head? = some c → c = ' ') :
    lexemes (word ++ text) = word :: lexemes text := by
  cases word with
  | nil => contradiction
  | cons c word =>
      rw [List.mem_cons, not_or] at spaceless
      rw [List.cons_append] at headerless ⊢
      have inside : ∀ d ∈ word, decide (d ≠ ' ') = true := by
        intro d member
        exact decide_eq_true fun same => spaceless.2 (same ▸ member)
      have stop : text.takeWhile (· ≠ ' ') = [] ∧ text.dropWhile (· ≠ ' ') = text := by
        cases text with
        | nil => exact ⟨rfl, rfl⟩
        | cons d text =>
            cases ends d rfl
            exact ⟨rfl, rfl⟩
      rw [lexemes, if_neg (Ne.symm spaceless.1), headerless]
      simp only [List.takeWhile_append_of_pos inside, List.dropWhile_append_of_pos inside, stop,
        List.append_nil]

/-- A text is empty, or begins with a space, with a header, or with a word that ends at a space or at
the end of the text. -/
@[elab_as_elim] theorem lexemeInduction {motive : Text → Prop} (nil : motive [])
    (space : ∀ text, motive text → motive (' ' :: text))
    (header : ∀ symbol text, motive text → motive ((Token.branch symbol).text ++ text))
    (word : ∀ word text, branchHeader? (word ++ text) = none → ' ' ∉ word → word ≠ [] →
      (∀ c, text.head? = some c → c = ' ') → motive text → motive (word ++ text))
    (text : Text) : motive text := by
  fun_induction lexemes text with
  | case1 => exact nil
  | case2 rest ih => exact space rest ih
  | case3 c rest solid symbol starts front ih =>
      have fronted : front <+: c :: rest := by
        simpa [List.isPrefixOf_iff_prefix] using List.find?_some starts
      rw [← List.prefix_iff_eq_append.mp fronted]
      exact header symbol _ ih
  | case4 c rest solid headerless ih =>
      have whole : c :: rest = (c :: rest.takeWhile (· ≠ ' ')) ++ rest.dropWhile (· ≠ ' ') := by
        rw [List.cons_append, List.takeWhile_append_dropWhile]
      rw [whole] at headerless ⊢
      refine word _ _ headerless ?_ (by simp) ?_ ih
      · intro member
        rcases List.mem_cons.mp member with same | member
        · exact solid same.symm
        · simpa using List.mem_takeWhile_imp member
      · intro d head
        have stops := List.head?_dropWhile_not (· ≠ ' ') rest
        rw [head] at stops
        simpa using stops

theorem lexemes_word (spaceless : ' ' ∉ word) (nonempty : word ≠ [])
    (ends : ∀ c, text.head? = some c → c = ' ') (unopened : text.tail.head? ≠ some '(') :
    lexemes (word ++ text) = word :: lexemes text :=
  lexemes_of_headerless (branchHeader?_eq_none spaceless ends unopened) spaceless nonempty ends

/-- The words of a text up to a comment. -/
def kept (text : Text) : List Text :=
  text.words.takeWhile (!isComment ·)

/-- The lexemes of a line that has its brackets in place. -/
def scan (text : Text) : List Text :=
  lexemes ([' '].intercalate (kept text))

theorem tokens_eq_scan (line : Text) :
    tokens line = (scan (tighten (separate line))).map Token.ofWord :=
  rfl

theorem intercalate_space (word : Text) (words : List Text) :
    [' '].intercalate (word :: words) = word ++ words.flatMap (' ' :: ·) := by
  induction words generalizing word with
  | nil => simp
  | cons next words ih => rw [List.intercalate_cons_cons, ih]; simp

theorem lexemes_flatMap (words : List Text) :
    lexemes (words.flatMap (' ' :: ·)) = lexemes ([' '].intercalate words) := by
  cases words with
  | nil => rfl
  | cons word words =>
      rw [List.flatMap_cons, List.cons_append, lexemes_space, ← intercalate_space]

theorem head?_flatMap_space (words : List Text) :
    ∀ c, (words.flatMap (' ' :: ·)).head? = some c → c = ' ' := by
  intro c head
  cases words with
  | nil => cases head
  | cons word words => exact (Option.some.inj head).symm

theorem spaceless_of_solid (solid : ∀ c ∈ word, isBlank c = false) : ' ' ∉ word := by
  intro member
  simpa [isBlank, blankRanges] using solid ' ' member

theorem scan_blank (blank : isBlank c = true) (text : Text) : scan (c :: text) = scan text := by
  rw [scan, kept, Text.words_blank blank, scan, kept]

theorem scan_comment (text : Text) : scan ('%' :: text) = [] := by
  rw [scan, kept, Text.words_solid (by decide)]
  simp [isComment, lexemes]

theorem kept_append (solid : ∀ c ∈ word, isBlank c = false) (nonempty : word ≠ [])
    (code : word.head? ≠ some '%') (ends : text.EndsWord) :
    kept (word ++ text) = word :: kept text := by
  rw [kept, Text.words_append solid nonempty ends, List.takeWhile_cons_of_pos, kept]
  simpa [isComment] using code

/-- The word that comes next is that of the first character that is not blank. -/
theorem tail_flatMap_kept (text : Text) {c : Char}
    (head : ((kept text).flatMap (' ' :: ·)).tail.head? = some c) : text.firstSolid? = some c := by
  rw [← Text.head?_words]
  cases found : text.words with
  | nil => simp [kept, found] at head
  | cons word words =>
      have nonempty : word ≠ [] := Text.ne_nil_of_mem_words (found ▸ List.mem_cons_self)
      obtain ⟨first, word, rfl⟩ := List.exists_cons_of_ne_nil nonempty
      cases comment : isComment (first :: word) with
      | true => simp [kept, found, comment] at head
      | false => simpa [kept, found, comment] using head

theorem scan_word (solid : ∀ c ∈ word, isBlank c = false) (nonempty : word ≠ [])
    (code : word.head? ≠ some '%') (ends : text.EndsWord) (unopened : text.firstSolid? ≠ some '(') :
    scan (word ++ text) = word :: scan text := by
  rw [scan, kept_append solid nonempty code ends, intercalate_space,
    lexemes_word (spaceless_of_solid solid) nonempty (head?_flatMap_space _)
      fun head => unopened (tail_flatMap_kept text head),
    lexemes_flatMap, scan]

/-- The lexemes of a text that begins with no comment: its first word may be cut off already. -/
theorem scan_eq_lexemes (code : text.head? ≠ some '%') :
    scan text = lexemes (text.takeWhile (!isBlank ·) ++
      (kept (text.dropWhile (!isBlank ·))).flatMap (' ' :: ·)) := by
  cases text with
  | nil => rfl
  | cons c text =>
      cases blank : isBlank c with
      | true => simp [blank, lexemes_flatMap, scan]
      | false =>
          have solid : ¬ isComment (c :: text.takeWhile (!isBlank ·)) := by
            simpa [isComment] using code
          rw [scan, kept, Text.words_solid blank, List.takeWhile_cons_of_pos (by simpa using solid),
            intercalate_space]
          simp [blank, kept]

theorem solid_header : ∀ c ∈ ['s', 'i'], isBlank c = false :=
  List.forall_mem_cons.mpr ⟨rfl, List.forall_mem_singleton.mpr rfl⟩

theorem scan_branch {gap : Text} (blank : ∀ c ∈ gap, isBlank c = true) (apart : gap ≠ [])
    (symbol : Symbol) (code : text.head? ≠ some '%') :
    scan (['s', 'i'] ++ (gap ++ '(' :: symbol.char :: ')' :: text)) =
      (Token.branch symbol).text :: scan text := by
  have ends : (gap ++ '(' :: symbol.char :: ')' :: text).EndsWord := by
    obtain ⟨c, gap, rfl⟩ := List.exists_cons_of_ne_nil apart
    intro d head
    exact blank d (by simpa [eq_comm] using Or.inl head)
  have digit : isBlank symbol.char = false := by cases symbol <;> decide
  -- The word of the bracket may run on into the next token, so it is no lexeme: only the lexer, which
  -- looks for headers first, cuts it behind the bracket.
  have argument : kept (gap ++ '(' :: symbol.char :: ')' :: text) =
      ('(' :: symbol.char :: ')' :: text.takeWhile (!isBlank ·)) ::
        kept (text.dropWhile (!isBlank ·)) := by
    have bracket : isBlank ')' = false := by decide
    rw [kept, Text.words_blanks blank, Text.words_solid (by decide)]
    simp [digit, bracket, isComment, kept]
  rw [scan, kept_append solid_header (by simp) (by simp) ends, argument, intercalate_space,
    scan_eq_lexemes code, ← lexemes_header]
  simp [Token.text]

section Brackets

variable {opened : Bool} {gap line : Text}

theorem separate_cons (c : Char) (line : Text) :
    separate (c :: line) =
      (if c = '\x7d' then [' ', '\x7d', ' '] else if c = '(' then [' ', '('] else [c]) ++
        separate line :=
  List.flatMap_cons

theorem separate_append (left right : Text) :
    separate (left ++ right) = separate left ++ separate right :=
  List.flatMap_append

theorem separate_plain (plain : ∀ c ∈ text, c ≠ '\x7d' ∧ c ≠ '(') : separate text = text := by
  induction text with
  | nil => rfl
  | cons c text ih =>
      obtain ⟨⟨unclosed, unopened⟩, plain⟩ := List.forall_mem_cons.mp plain
      rw [separate_cons, if_neg unclosed, if_neg unopened, ih plain]
      rfl

theorem separate_blanks (blank : ∀ c ∈ gap, isBlank c = true) : separate gap = gap := by
  apply separate_plain
  intro c member
  have blank := blank c member
  constructor <;> rintro rfl <;> cases blank

theorem blank_append_space (blank : ∀ c ∈ gap, isBlank c = true) :
    ∀ c ∈ gap ++ [' '], isBlank c = true := by
  intro c member
  rcases List.mem_append.mp member with member | member
  · exact blank c member
  · rw [List.mem_singleton.mp member]
    decide

theorem firstSolid?_separate (line : Text) : (separate line).firstSolid? = line.firstSolid? := by
  induction line with
  | nil => rfl
  | cons c line ih =>
      rw [separate_cons]
      by_cases closes : c = '\x7d'
      · subst closes
        rfl
      · by_cases opens : c = '('
        · subst opens
          rfl
        · rw [if_neg closes, if_neg opens, List.singleton_append]
          cases blank : isBlank c with
          | true => rw [Text.firstSolid?_blank blank, Text.firstSolid?_blank blank, ih]
          | false => rw [Text.firstSolid?_solid blank, Text.firstSolid?_solid blank]

theorem head?_separate (line : Text) :
    (separate line).head? = line.head?.map fun c => if c = '\x7d' ∨ c = '(' then ' ' else c := by
  cases line with
  | nil => rfl
  | cons c line =>
      rw [separate_cons]
      by_cases closes : c = '\x7d'
      · simp [closes]
      · by_cases opens : c = '('
        · simp [opens]
        · simp [closes, opens]

theorem tightenFrom_solid (solid : isBlank c = false) (text : Text) :
    tightenFrom opened (c :: text) = c :: tightenFrom (c = '(') text := by
  rw [tightenFrom, if_neg (by simp [solid])]

theorem firstSolid?_tightenFrom (text : Text) :
    (tightenFrom opened text).firstSolid? = text.firstSolid? := by
  induction text generalizing opened with
  | nil => rfl
  | cons c text ih =>
      cases blank : isBlank c with
      | false => rw [tightenFrom_solid blank, Text.firstSolid?_solid blank, Text.firstSolid?_solid blank]
      | true =>
          rw [tightenFrom, if_pos blank, Text.firstSolid?_blank blank]
          split
          · exact ih
          · rw [Text.firstSolid?_blank blank, ih]

/-- A blank stays if it is followed by something else than a closing bracket. -/
theorem tightenFrom_blank (blank : isBlank c = true) (unclosed : text.firstSolid? ≠ some ')') :
    tightenFrom false (c :: text) = c :: tightenFrom false text := by
  rw [tightenFrom, if_pos blank, if_neg]
  simpa [Text.firstSolid?] using unclosed

theorem head?_tightenFrom (unclosed : text.firstSolid? ≠ some ')') :
    (tightenFrom false text).head? = text.head? := by
  cases text with
  | nil => rfl
  | cons c text =>
      cases blank : isBlank c with
      | true =>
          rw [Text.firstSolid?_blank blank] at unclosed
          rw [tightenFrom_blank blank unclosed, List.head?_cons, List.head?_cons]
      | false => rw [tightenFrom_solid blank, List.head?_cons, List.head?_cons]

theorem tightenFrom_word (solid : ∀ c ∈ word, isBlank c = false ∧ c ≠ '(') (nonempty : word ≠ [])
    (text : Text) : tightenFrom opened (word ++ text) = word ++ tightenFrom false text := by
  induction word generalizing opened with
  | nil => exact absurd rfl nonempty
  | cons c word ih =>
      obtain ⟨⟨solidHead, unopened⟩, solid⟩ := List.forall_mem_cons.mp solid
      rw [List.cons_append, tightenFrom_solid solidHead, decide_eq_false unopened]
      cases word with
      | nil => rfl
      | cons d word => rw [ih solid (by simp)]; rfl

theorem tightenFrom_opened (blank : ∀ c ∈ gap, isBlank c = true) (text : Text) :
    tightenFrom true (gap ++ text) = tightenFrom true text := by
  induction gap with
  | nil => rfl
  | cons c gap ih =>
      obtain ⟨blankHead, blank⟩ := List.forall_mem_cons.mp blank
      rw [List.cons_append, tightenFrom, if_pos blankHead, if_pos (by simp), ih blank]

theorem firstSolid?_blanks (blank : ∀ c ∈ gap, isBlank c = true) (text : Text) :
    (gap ++ text).firstSolid? = text.firstSolid? := by
  rw [Text.firstSolid?, List.dropWhile_append_of_pos blank, Text.firstSolid?]

theorem tightenFrom_closing (blank : ∀ c ∈ gap, isBlank c = true) (text : Text) :
    tightenFrom opened (gap ++ ')' :: text) = ')' :: tightenFrom false text := by
  induction gap with
  | nil => exact tightenFrom_solid (by decide) text
  | cons c gap ih =>
      obtain ⟨blankHead, blank⟩ := List.forall_mem_cons.mp blank
      have closing : Text.firstSolid? (gap ++ ')' :: text) = some ')' := by
        rw [firstSolid?_blanks blank, Text.firstSolid?_solid (by decide)]
      rw [Text.firstSolid?] at closing
      rw [List.cons_append, tightenFrom, if_pos blankHead, if_pos (by simp [closing]), ih blank]

theorem tightenFrom_blanks (blank : ∀ c ∈ gap, isBlank c = true)
    (unclosed : text.firstSolid? ≠ some ')') :
    tightenFrom false (gap ++ text) = gap ++ tightenFrom false text := by
  induction gap with
  | nil => rfl
  | cons c gap ih =>
      obtain ⟨blankHead, blank⟩ := List.forall_mem_cons.mp blank
      rw [List.cons_append, tightenFrom_blank blankHead (by rwa [firstSolid?_blanks blank]), ih blank]
      rfl

end Brackets

/-- A rest of a line that no bracket joins to what is in front of it. -/
structure Fresh (line : Text) : Prop where
  unopened : line.firstSolid? ≠ some '('
  unclosed : line.firstSolid? ≠ some ')'

section Peeling

variable {line : Text}

theorem Fresh.tighten_unopened (fresh : Fresh line) :
    (tighten (separate line)).firstSolid? ≠ some '(' := by
  rw [Line.tighten, firstSolid?_tightenFrom, firstSolid?_separate]
  exact fresh.unopened

theorem separate_blank (blank : isBlank c = true) (line : Text) :
    separate (c :: line) = c :: separate line := by
  rw [← List.singleton_append, separate_append, separate_blanks (by simpa using blank)]
  rfl

/-- What comes first stays first, behind a blank if it is a bracket. -/
theorem head?_tighten (fresh : Fresh line) :
    (tighten (separate line)).head? =
      line.head?.map fun c => if c = '\x7d' ∨ c = '(' then ' ' else c := by
  have unclosed := fresh.unclosed
  rw [← firstSolid?_separate] at unclosed
  rw [tighten, head?_tightenFrom unclosed, head?_separate]

/-- A line that follows a word as something else: it begins with a blank or a closing brace. -/
def Apart (line : Text) : Prop :=
  ∀ c, line.head? = some c → isBlank c = true ∨ c = '\x7d'

theorem Apart.endsWord (apart : Apart line) (fresh : Fresh line) :
    (tighten (separate line)).EndsWord := by
  intro c head
  rw [head?_tighten fresh, Option.map_eq_some_iff] at head
  obtain ⟨first, head, rfl⟩ := head
  split
  · decide
  · rename_i other
    rcases apart first head with blank | closes
    · exact blank
    · exact absurd (Or.inl closes) other

theorem tokens_nil : tokens [] = [] := by
  have nothing : code [] = [] := rfl
  rw [tokens, nothing, List.intercalate_nil, lexemes_nil, List.map_nil]

theorem tokens_blank (blank : isBlank c = true) (line : Text) : tokens (c :: line) = tokens line := by
  rw [tokens_eq_scan, tokens_eq_scan, separate_blank blank, tighten, tighten, tightenFrom,
    if_pos blank]
  split
  · rfl
  · rw [scan_blank blank]

theorem tokens_comment (line : Text) : tokens ('%' :: line) = [] := by
  have kept : separate ('%' :: line) = '%' :: separate line := rfl
  rw [tokens_eq_scan, kept, tighten, tightenFrom_solid (by decide), scan_comment]
  rfl

theorem tokens_close (fresh : Fresh line) : tokens ('\x7d' :: line) = .close :: tokens line := by
  have space : isBlank ' ' = true := by decide
  have pressed : tighten (separate ('\x7d' :: line)) =
      ' ' :: (['\x7d'] ++ ' ' :: tighten (separate line)) := by
    have apart : separate ('\x7d' :: line) = ' ' :: '\x7d' :: ' ' :: separate line := rfl
    have unclosed : (separate line).firstSolid? ≠ some ')' := by
      rw [firstSolid?_separate]
      exact fresh.unclosed
    have closer : Text.firstSolid? ('\x7d' :: ' ' :: separate line) ≠ some ')' := by
      simp [Text.firstSolid?_solid (c := '\x7d') (by decide)]
    rw [apart, tighten, tightenFrom_blank space closer, tightenFrom_solid (by decide),
      decide_eq_false (by decide), tightenFrom_blank space unclosed]
    rfl
  have ends : Text.EndsWord (' ' :: tighten (separate line)) := by
    intro c head
    cases head
    exact space
  rw [tokens_eq_scan, pressed, scan_blank space, scan_word (List.forall_mem_singleton.mpr rfl)
    (by simp) (by simp) ends, scan_blank space, tokens_eq_scan]
  · rfl
  · rw [Text.firstSolid?_blank space]
    exact fresh.tighten_unopened

theorem tokens_word (solid : ∀ c ∈ word, isBlank c = false ∧ c ≠ '\x7d' ∧ c ≠ '(')
    (nonempty : word ≠ []) (code : word.head? ≠ some '%') (fresh : Fresh line)
    (apart : Apart line) : tokens (word ++ line) = Token.ofWord word :: tokens line := by
  have kept : separate word = word := separate_plain fun c member => (solid c member).2
  have pressed : tighten (separate (word ++ line)) = word ++ tighten (separate line) := by
    rw [separate_append, kept, tighten, tightenFrom_word _ nonempty, tighten]
    intro c member
    exact ⟨(solid c member).1, (solid c member).2.2⟩
  rw [tokens_eq_scan, pressed, scan_word (fun c member => (solid c member).1) nonempty code
    (apart.endsWord fresh) fresh.tighten_unopened, tokens_eq_scan]
  rfl

/-- However a branch is spaced, one blank more comes in front of its bracket and none is left in it. -/
theorem tighten_branch {before inside behind : Text} (symbol : Symbol)
    (blankBefore : ∀ c ∈ before, isBlank c = true) (blankInside : ∀ c ∈ inside, isBlank c = true)
    (blankBehind : ∀ c ∈ behind, isBlank c = true) (line : Text) :
    tighten (separate (['s', 'i'] ++
        (before ++ '(' :: (inside ++ symbol.char :: (behind ++ ')' :: line))))) =
      ['s', 'i'] ++ ((before ++ [' ']) ++
        '(' :: symbol.char :: ')' :: tighten (separate line)) := by
  have header : ∀ c ∈ ['s', 'i'], isBlank c = false ∧ c ≠ '(' := by
    intro c member
    refine ⟨solid_header c member, ?_⟩
    rintro rfl
    simp at member
  have digit : isBlank symbol.char = false ∧ symbol.char ≠ '\x7d' ∧ symbol.char ≠ '(' := by
    cases symbol <;> decide
  have apart : separate (['s', 'i'] ++
        (before ++ '(' :: (inside ++ symbol.char :: (behind ++ ')' :: line)))) =
      ['s', 'i'] ++ ((before ++ [' ']) ++
        '(' :: (inside ++ symbol.char :: (behind ++ ')' :: separate line))) := by
    simp [separate_append, separate_cons, separate_blanks blankBefore, separate_blanks blankInside,
      separate_blanks blankBehind, digit]
  rw [apart, tighten, tightenFrom_word header (by simp),
    tightenFrom_blanks (blank_append_space blankBefore),
    tightenFrom_solid (by decide), decide_eq_true rfl, tightenFrom_opened blankInside,
    tightenFrom_solid digit.1, decide_eq_false digit.2.2, tightenFrom_closing blankBehind, tighten]
  rw [Text.firstSolid?_solid (by decide)]
  decide

theorem tokens_branch {before inside behind : Text} (symbol : Symbol)
    (blankBefore : ∀ c ∈ before, isBlank c = true) (blankInside : ∀ c ∈ inside, isBlank c = true)
    (blankBehind : ∀ c ∈ behind, isBlank c = true) (fresh : Fresh line)
    (code : line.head? ≠ some '%') :
    tokens (['s', 'i'] ++ (before ++ '(' :: (inside ++ symbol.char :: (behind ++ ')' :: line)))) =
      .branch symbol :: tokens line := by
  have codeBehind : (tighten (separate line)).head? ≠ some '%' := by
    rw [head?_tighten fresh]
    intro head
    obtain ⟨first, head, same⟩ := Option.map_eq_some_iff.mp head
    split at same
    · cases same
    · exact code (same ▸ head)
  rw [tokens_eq_scan, tighten_branch symbol blankBefore blankInside blankBehind,
    scan_branch (blank_append_space blankBefore) (by simp) symbol codeBehind, tokens_eq_scan]
  cases symbol <;> rfl

theorem Fresh.firstLine {text : Text} (fresh : Fresh text) : Fresh text.firstLine where
  unopened solid := fresh.unopened (Text.firstSolid?_of_firstLine solid)
  unclosed solid := fresh.unclosed (Text.firstSolid?_of_firstLine solid)

theorem Apart.firstLine {text : Text} (apart : Apart text) : Apart text.firstLine :=
  fun c head => apart c (Text.head?_of_firstLine head)

end Peeling

section Counting

/-! No token is made of blanks alone, so there are at most as many as there are other characters. -/

theorem filter_separate (line : Text) :
    (separate line).filter (!isBlank ·) = line.filter (!isBlank ·) := by
  induction line with
  | nil => rfl
  | cons c line ih =>
      have front : (if c = '\x7d' then [' ', '\x7d', ' '] else if c = '(' then [' ', '('] else [c]).filter
          (!isBlank ·) = [c].filter (!isBlank ·) := by
        split
        · subst c
          decide
        · split
          · subst c
            decide
          · rfl
      rw [separate_cons, List.filter_append, ih, front, ← List.filter_append, List.singleton_append]

theorem filter_tightenFrom (text : Text) :
    (tightenFrom opened text).filter (!isBlank ·) = text.filter (!isBlank ·) := by
  induction text generalizing opened with
  | nil => rfl
  | cons c text ih =>
      cases blank : isBlank c with
      | false => simp [tightenFrom_solid blank, blank, ih]
      | true =>
          rw [tightenFrom, if_pos blank]
          split <;> simp [blank, ih]

theorem length_lexemes_le (text : Text) : (lexemes text).length ≤ text.countP (· ≠ ' ') := by
  induction text using lexemeInduction with
  | nil => rw [lexemes_nil, List.length_nil]; exact Nat.zero_le _
  | space text ih => rwa [lexemes_space, List.countP_cons_of_neg (by simp)]
  | header symbol text ih =>
      have some : 0 < (Token.branch symbol).text.countP (· ≠ ' ') :=
        List.countP_pos_iff.mpr ⟨'s', List.mem_cons_self, rfl⟩
      rw [lexemes_header, List.length_cons, List.countP_append]
      omega
  | word word text headerless spaceless nonempty ends ih =>
      have all : word.countP (· ≠ ' ') = word.length := by
        refine List.countP_eq_length.mpr fun c member => ?_
        exact decide_eq_true fun same => spaceless (same ▸ member)
      have some := List.length_pos_iff.mpr nonempty
      rw [lexemes_of_headerless headerless spaceless nonempty ends, List.length_cons,
        List.countP_append]
      omega

theorem countP_flatMap_space (words : List Text) :
    (words.flatMap (' ' :: ·)).countP (· ≠ ' ') ≤ words.flatten.length := by
  induction words with
  | nil => simp
  | cons word words ih =>
      have first : word.countP (· ≠ ' ') ≤ word.length := List.countP_le_length
      rw [List.flatMap_cons, List.cons_append, List.countP_cons_of_neg (by simp), List.countP_append,
        List.flatten_cons, List.length_append]
      omega

theorem length_tokens_le (line : Text) : (tokens line).length ≤ line.length := by
  have code_le : (code line).flatten.length ≤ (tighten (separate line)).words.flatten.length := by
    have split := List.takeWhile_append_dropWhile (p := (!isComment ·))
      (l := (tighten (separate line)).words)
    rw [← split, List.flatten_append, List.length_append]
    exact Nat.le_add_right _ _
  calc (tokens line).length
    _ = (lexemes ((code line).flatMap (' ' :: ·))).length := by
        rw [tokens, List.length_map, lexemes_flatMap]
    _ ≤ ((code line).flatMap (' ' :: ·)).countP (· ≠ ' ') := length_lexemes_le _
    _ ≤ (code line).flatten.length := countP_flatMap_space _
    _ ≤ (tighten (separate line)).words.flatten.length := code_le
    _ = (line.filter (!isBlank ·)).length := by
        rw [Text.flatten_words, tighten, filter_tightenFrom, filter_separate]
    _ ≤ line.length := List.length_filter_le _ _

end Counting

end Line

/-! The same for a text of many lines. -/

section Programs

open Line

variable {c : Char} {front word body text : Text} {tokens : List Token}

theorem tokenize_front (lineless : '\n' ∉ front)
    (peeled : Line.tokens (front ++ text.firstLine) = tokens ++ Line.tokens text.firstLine) :
    tokenize (front ++ text) = tokens ++ tokenize text := by
  obtain ⟨more, alone, behind⟩ := Text.lines_append lineless text
  rw [tokenize_eq_flatMap, tokenize_eq_flatMap, alone, behind, List.flatMap_cons, List.flatMap_cons,
    peeled, List.append_assoc]

theorem tokenize_line (lineless : '\n' ∉ front) (text : Text) :
    tokenize (front ++ '\n' :: text) = Line.tokens front ++ tokenize text := by
  rw [tokenize_eq_flatMap, Text.lines, List.splitOn_append_cons_self_of_not_mem lineless,
    List.flatMap_cons, tokenize_eq_flatMap, Text.lines]

theorem tokenize_nil : tokenize [] = [] := by
  have empty : Text.lines [] = [[]] := rfl
  rw [tokenize_eq_flatMap, empty, List.flatMap_singleton, tokens_nil]

theorem tokenize_blank (blank : isBlank c = true) (text : Text) :
    tokenize (c :: text) = tokenize text := by
  by_cases newline : c = '\n'
  · have first := tokenize_line List.not_mem_nil text
    rwa [tokens_nil, List.nil_append, List.nil_append, ← newline] at first
  · have lineless : '\n' ∉ [c] := by simpa [eq_comm] using newline
    have peeled : tokenize ([c] ++ text) = [] ++ tokenize text :=
      tokenize_front lineless (tokens_blank blank _)
    exact peeled

theorem tokenize_comment (lineless : '\n' ∉ body) (text : Text) :
    tokenize ('%' :: (body ++ '\n' :: text)) = tokenize text := by
  rw [← List.cons_append, tokenize_line (by simpa using lineless), tokens_comment, List.nil_append]

theorem tokenize_remark (lineless : '\n' ∉ body) : tokenize ('%' :: body) = [] := by
  rw [tokenize_eq_flatMap, Text.lines, List.splitOn_eq_singleton (by simpa using lineless)]
  simp [tokens_comment]

theorem tokenize_close (fresh : Fresh text) :
    tokenize ('\x7d' :: text) = .close :: tokenize text := by
  have peeled : tokenize (['\x7d'] ++ text) = [.close] ++ tokenize text :=
    tokenize_front (by decide) (tokens_close fresh.firstLine)
  exact peeled

theorem tokenize_word (solid : ∀ c ∈ word, isBlank c = false ∧ c ≠ '\x7d' ∧ c ≠ '(')
    (nonempty : word ≠ []) (code : word.head? ≠ some '%') (fresh : Fresh text)
    (apart : Apart text) : tokenize (word ++ text) = Token.ofWord word :: tokenize text := by
  have lineless : '\n' ∉ word := by
    intro member
    cases (solid _ member).1
  have peeled : tokenize (word ++ text) = [Token.ofWord word] ++ tokenize text :=
    tokenize_front lineless (tokens_word solid nonempty code fresh.firstLine apart.firstLine)
  exact peeled

/-- The source form of a branch, with blanks where there may be some. -/
def branchText (before inside : Text) (symbol : Symbol) (behind : Text) : Text :=
  ['s', 'i'] ++ (before ++ '(' :: (inside ++ symbol.char :: (behind ++ [')'])))

theorem tokenize_branch {before inside behind : Text} (symbol : Symbol)
    (blankBefore : ∀ c ∈ before, isBlank c = true ∧ c ≠ '\n')
    (blankInside : ∀ c ∈ inside, isBlank c = true ∧ c ≠ '\n')
    (blankBehind : ∀ c ∈ behind, isBlank c = true ∧ c ≠ '\n') (fresh : Fresh text)
    (code : text.head? ≠ some '%') :
    tokenize (branchText before inside symbol behind ++ text) = .branch symbol :: tokenize text := by
  have lineless : '\n' ∉ branchText before inside symbol behind := by
    have digit : '\n' ≠ symbol.char := by cases symbol <;> decide
    have inBefore : '\n' ∉ before := fun member => (blankBefore _ member).2 rfl
    have inInside : '\n' ∉ inside := fun member => (blankInside _ member).2 rfl
    have inBehind : '\n' ∉ behind := fun member => (blankBehind _ member).2 rfl
    simp [branchText, digit, inBefore, inInside, inBehind]
  have line := tokens_branch symbol (fun c member => (blankBefore c member).1)
    (fun c member => (blankInside c member).1) (fun c member => (blankBehind c member).1)
    fresh.firstLine fun head => code (Text.head?_of_firstLine head)
  have peeled : tokenize (branchText before inside symbol behind ++ text) =
      [.branch symbol] ++ tokenize text :=
    tokenize_front lineless (by simpa [branchText] using line)
  exact peeled

theorem length_tokenize_le (text : Text) : (tokenize text).length ≤ text.length := by
  have lines : ∀ lines : List Text, (lines.flatMap Line.tokens).length ≤ lines.flatten.length := by
    intro lines
    induction lines with
    | nil => simp
    | cons line lines ih =>
        have first := length_tokens_le line
        simp only [List.flatMap_cons, List.flatten_cons, List.length_append]
        omega
  rw [tokenize_eq_flatMap]
  exact (lines text.lines).trans text.length_flatten_lines_le

end Programs

end TapeFlow

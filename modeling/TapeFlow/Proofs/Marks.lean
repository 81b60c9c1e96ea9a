import TapeFlow.Proofs.Comments

namespace TapeFlow

/-! Comment marks that start no comment. Comments are looked for word by word, but a branch header is cut
off the front of a word after that: a mark glued to a header comes to stand at the front of a lexeme.
There is no other place where one does. -/

namespace Line

variable {word text front behind line before : Text} {words earlier later : List Text}
  {symbol : Symbol}

theorem branchHeader?_of_append (headerless : branchHeader? (front ++ behind) = none) :
    branchHeader? front = none := by
  simp only [branchHeader?, List.find?_eq_none, List.isPrefixOf_iff_prefix] at headerless ⊢
  intro symbol member starts
  exact headerless symbol member (starts.trans (List.prefix_append front behind))

/-- No header has a mark in it. -/
theorem branchHeader?_append_mark (headerless : branchHeader? front = none) (behind : Text) :
    branchHeader? (front ++ '%' :: behind) = none := by
  simp only [branchHeader?, List.find?_eq_none, List.isPrefixOf_iff_prefix] at headerless ⊢
  intro symbol member starts
  have marked : front ++ ['%'] <+: front ++ '%' :: behind := ⟨behind, by simp⟩
  have unmarked : '%' ∉ (Token.branch symbol).text := by cases symbol <;> decide
  rcases Nat.lt_or_ge front.length (Token.branch symbol).text.length with longer | shorter
  · have inside := List.prefix_of_prefix_length_le marked starts (by
      rw [List.length_append]
      exact longer)
    exact unmarked (inside.subset (by simp))
  · exact headerless symbol member
      (List.prefix_of_prefix_length_le starts (List.prefix_append front _) shorter)

/-- No mark stands right behind a space. -/
def Unspaced (text : Text) : Prop :=
  ∀ left right, text = left ++ '%' :: right → left.getLast? ≠ some ' '

theorem Unspaced.of_append (unspaced : Unspaced (front ++ behind)) : Unspaced behind := by
  intro left right split last
  refine unspaced (front ++ left) right (by rw [split, List.append_assoc]) ?_
  rw [List.getLast?_append, last]
  rfl

/-- A lexeme that begins with a mark is at the front of the text or right behind a header. -/
theorem lexemes_mark (found : lexemes text = earlier ++ ('%' :: word) :: later)
    (unspaced : Unspaced text) :
    ∃ front behind, text = front ++ '%' :: behind ∧ lexemes front = earlier ∧
      (front ≠ [] → ∃ symbol, earlier.getLast? = some (Token.branch symbol).text) := by
  induction text using lexemeInduction generalizing earlier with
  | nil => simp [lexemes_nil] at found
  | space text ih =>
      rw [lexemes_space] at found
      have inner : Unspaced ([' '] ++ text) := unspaced
      obtain ⟨front, behind, rfl, cut, glued⟩ := ih found inner.of_append
      refine ⟨' ' :: front, behind, rfl, by rw [lexemes_space, cut], fun _ => glued ?_⟩
      intro empty
      subst empty
      exact unspaced [' '] behind rfl rfl
  | header symbol text ih =>
      rw [lexemes_header] at found
      cases earlier with
      | nil => cases (List.cons.inj found).1
      | cons first earlier =>
          obtain ⟨rfl, onward⟩ := List.cons.inj found
          obtain ⟨front, behind, rfl, cut, glued⟩ := ih onward unspaced.of_append
          refine ⟨(Token.branch symbol).text ++ front, behind, by rw [List.append_assoc],
            by rw [lexemes_header, cut], fun _ => ?_⟩
          by_cases empty : front = []
          · rw [empty, lexemes_nil] at cut
            exact ⟨symbol, by rw [← cut]; rfl⟩
          · obtain ⟨other, last⟩ := glued empty
            exact ⟨other, by rw [List.getLast?_cons, last]; rfl⟩
  | word first text headerless spaceless nonempty ends ih =>
      rw [lexemes_of_headerless headerless spaceless nonempty ends] at found
      cases earlier with
      | nil =>
          obtain ⟨rfl, -⟩ := List.cons.inj found
          exact ⟨[], word ++ text, rfl, lexemes_nil, fun other => absurd rfl other⟩
      | cons head earlier =>
          obtain ⟨rfl, onward⟩ := List.cons.inj found
          obtain ⟨front, behind, rfl, cut, glued⟩ := ih onward unspaced.of_append
          have apart : front ≠ [] := by
            intro empty
            subst empty
            cases ends '%' rfl
          have stops : ∀ c, front.head? = some c → c = ' ' := by
            intro c head
            exact ends c (by rw [List.head?_append, head]; rfl)
          rw [← List.append_assoc] at headerless
          obtain ⟨symbol, last⟩ := glued apart
          refine ⟨first ++ front, behind, by rw [List.append_assoc], ?_, fun _ => ⟨symbol, ?_⟩⟩
          · rw [lexemes_of_headerless (branchHeader?_of_append headerless) spaceless nonempty stops,
              cut]
          · rw [List.getLast?_cons, last]
            rfl

/-- Behind a header a mark does not change how the text in front of it is cut. -/
theorem lexemes_append_mark
    (ends : ∀ last, (lexemes front).getLast? = some last → ∃ symbol, last = (Token.branch symbol).text) :
    lexemes (front ++ '%' :: behind) = lexemes front ++ lexemes ('%' :: behind) := by
  have onward {first : Text} {rest : List Text}
      (ends : ∀ last, (first :: rest).getLast? = some last → ∃ symbol, last = (Token.branch symbol).text) :
      ∀ last, rest.getLast? = some last → ∃ symbol, last = (Token.branch symbol).text := by
    intro last found
    exact ends last (by rw [List.getLast?_cons, found]; rfl)
  induction front using lexemeInduction with
  | nil => rw [lexemes_nil]; rfl
  | space text ih =>
      rw [lexemes_space] at ends ⊢
      rw [List.cons_append, lexemes_space, ih ends]
  | header symbol text ih =>
      rw [lexemes_header] at ends ⊢
      rw [List.append_assoc, lexemes_header, ih (onward ends), List.cons_append]
  | word first text headerless spaceless nonempty stops ih =>
      rw [lexemes_of_headerless headerless spaceless nonempty stops] at ends ⊢
      have apart : text ≠ [] := by
        intro empty
        rw [empty, lexemes_nil] at ends
        obtain ⟨symbol, rfl⟩ := ends first rfl
        exact spaceless (by simp [Token.text])
      have stopsToo : ∀ c, (text ++ '%' :: behind).head? = some c → c = ' ' := by
        obtain ⟨d, text, rfl⟩ := List.exists_cons_of_ne_nil apart
        exact stops
      have headerlessToo := branchHeader?_append_mark headerless behind
      rw [List.append_assoc] at headerlessToo ⊢
      rw [lexemes_of_headerless headerlessToo spaceless nonempty stopsToo, ih (onward ends),
        List.cons_append]

theorem flatMap_space (nonempty : words ≠ []) :
    words.flatMap (' ' :: ·) = ' ' :: [' '].intercalate words := by
  obtain ⟨word, words, rfl⟩ := List.exists_cons_of_ne_nil nonempty
  rw [intercalate_space, List.flatMap_cons, List.cons_append]

theorem intercalate_cut (earlier later : List Text) (left right : Text) :
    [' '].intercalate (earlier ++ (left ++ right) :: later) =
      [' '].intercalate (earlier ++ [left]) ++ (right ++ later.flatMap (' ' :: ·)) := by
  cases earlier with
  | nil => simp [intercalate_space]
  | cons word earlier => simp [intercalate_space]

theorem getLast?_intercalate (nonempty : word ≠ []) (earlier : List Text) :
    ([' '].intercalate (earlier ++ [word])).getLast? = word.getLast? := by
  have cut := intercalate_cut earlier [] [] word
  rw [List.nil_append, List.flatMap_nil, List.append_nil] at cut
  rw [cut, List.getLast?_append_of_ne_nil _ nonempty]

theorem intercalate_ne_nil (nonempty : word ≠ []) (earlier : List Text) :
    [' '].intercalate (earlier ++ [word]) ≠ [] := by
  intro empty
  have last := getLast?_intercalate nonempty earlier
  rw [empty] at last
  exact nonempty (List.getLast?_eq_none_iff.mp last.symm)

/-- A mark in words put together is a mark of one of the words. -/
theorem exists_of_intercalate_eq (split : [' '].intercalate words = front ++ '%' :: behind) :
    ∃ earlier left right later, words = earlier ++ (left ++ '%' :: right) :: later ∧
      front = [' '].intercalate (earlier ++ [left]) := by
  induction words generalizing front with
  | nil => simp at split
  | cons word words ih =>
      rw [intercalate_space] at split
      rcases List.append_eq_append_iff.mp split with ⟨gap, rfl, rest⟩ | ⟨gap, rfl, rest⟩
      · have nonempty : words ≠ [] := by
          intro empty
          simp [empty] at rest
        rw [flatMap_space nonempty] at rest
        cases gap with
        | nil => cases rest
        | cons c gap =>
            obtain ⟨rfl, inner⟩ := List.cons.inj rest
            obtain ⟨earlier, left, right, later, rfl, rfl⟩ := ih inner
            refine ⟨word :: earlier, left, right, later, rfl, ?_⟩
            rw [List.cons_append, intercalate_space, flatMap_space (by simp)]
      · cases gap with
        | nil =>
            cases words with
            | nil => cases rest
            | cons next words => cases rest
        | cons c right =>
            obtain ⟨rfl, -⟩ := List.cons.inj rest
            exact ⟨[], front, right, words, rfl, by simp⟩

theorem isComment_append (nonempty : word ≠ []) (text : Text) :
    isComment (word ++ text) = isComment word := by
  obtain ⟨c, word, rfl⟩ := List.exists_cons_of_ne_nil nonempty
  rfl

theorem code_eq_of_words (same : (tighten (separate line)).words = words)
    (uncommented : ∀ word ∈ words, isComment word = false) : code line = words := by
  rw [code, same, List.takeWhile_eq_self_iff]
  intro word member
  rw [uncommented word member]
  rfl

/-- A line that keeps all its words has no comment. -/
theorem beforeComment_eq_self (whole : code line = (tighten (separate line)).words) :
    beforeComment line = line := by
  rcases beforeCommentFrom_eq [] line with same | ⟨rest, cut, starts⟩
  · exact same
  · rw [List.nil_append] at starts
    have opens := (opensWord_tighten _).mpr starts
    have marked : '%' :: (tightenFrom false (separate rest)).takeWhile (!isBlank ·) ∈
        (tighten (separate line)).words := by
      rw [cut, tighten_separate_mark, Text.words_append_of_opensWord opens,
        Text.words_solid (by decide)]
      simp
    rw [← whole, code] at marked
    cases List.mem_takeWhile_imp marked

theorem uncommented_of_mem_code (member : word ∈ code line) : isComment word = false := by
  simpa using List.mem_takeWhile_imp member

theorem words_eq_code_append (line : Text) :
    ∃ dropped, (tighten (separate line)).words = code line ++ dropped :=
  ⟨_, List.takeWhile_append_dropWhile.symm⟩

/-- What stands before a mark that is in the code of a line: the words that come before it, the last of
them glued to the mark. -/
structure CodeBefore (before : Text) (words : List Text) : Prop where
  code_eq : code before = words
  words_eq : (tighten (separate before)).words = words
  glued : startsComment before = false

theorem exists_mark_of_code {left right : Text}
    (cut : code line = earlier ++ (left ++ '%' :: right) :: later) :
    left ≠ [] ∧ (∀ c ∈ left, isBlank c = false) ∧
      ∃ before rest, line = before ++ '%' :: rest ∧ CodeBefore before (earlier ++ [left]) := by
  obtain ⟨dropped, whole⟩ := words_eq_code_append line
  rw [cut, List.append_assoc, List.cons_append] at whole
  have uncommented : ∀ word ∈ earlier ++ (left ++ '%' :: right) :: later, isComment word = false :=
    fun word member => uncommented_of_mem_code (cut ▸ member)
  have nonempty : left ≠ [] := by
    intro empty
    have comment := uncommented (left ++ '%' :: right) (by simp)
    rw [empty] at comment
    cases comment
  have solid : ∀ c ∈ left, isBlank c = false := by
    intro c member
    have inside : left ++ '%' :: right ∈ (tighten (separate line)).words := by simp [whole]
    exact Text.solid_of_mem_words inside c (List.mem_append_left _ member)
  obtain ⟨start, more, pressed, opens, wordsBefore⟩ := Text.exists_of_words_eq whole
  rw [List.append_assoc, ← List.append_assoc, List.cons_append] at pressed
  obtain ⟨before, rest, split, same⟩ := exists_mark pressed
  have words : (tighten (separate before)).words = earlier ++ [left] := by
    rw [same, Text.words_append_of_opensWord opens, wordsBefore, Text.words_word solid nonempty]
  refine ⟨nonempty, solid, before, rest, split, code_eq_of_words words ?_, words, ?_⟩
  · intro word member
    rcases List.mem_append.mp member with member | member
    · exact uncommented word (List.mem_append_left _ member)
    · rw [List.mem_singleton.mp member, ← isComment_append nonempty ('%' :: right)]
      exact uncommented _ (by simp)
  · have notOpen : ¬ (tighten (separate before)).OpensWord := by
      intro opensToo
      rw [same, Text.opensWord_append nonempty] at opensToo
      have blank := opensToo _ (List.getLast?_eq_some_getLast nonempty)
      rw [solid _ (List.getLast_mem nonempty)] at blank
      cases blank
    rwa [opensWord_tighten, Bool.not_eq_true] at notOpen

/-- The line so far is code, and the bracket it ends in is that of a branch header. -/
structure EndsInHeader (before : Text) : Prop where
  code : beforeComment before = before
  bracket : before.getLast? = some ')'
  header : ∃ symbol, (tokens before).getLast? = some (.branch symbol)

theorem lastSolid?_of_header (uncommented : beforeComment before = before)
    (header : (tokens before).getLast? = some (.branch symbol)) : before.lastSolid? = some ')' := by
  obtain ⟨front, split⟩ := List.getLast?_eq_some_iff.mp header
  have conserved := filter_tokens before
  rw [uncommented, split, List.flatMap_append, List.flatMap_singleton, List.filter_append] at conserved
  have ending : ((Token.branch symbol).text.filter (!isBlank ·)).getLast? = some ')' := by
    cases symbol <;> decide
  rw [Text.lastSolid?, ← conserved, List.getLast?_append, ending]
  rfl

theorem getLast?_of_glued {c : Char} (glued : startsComment before = false)
    (last : before.lastSolid? = some c) (unopened : c ≠ '(') : before.getLast? = some c := by
  obtain ⟨front, gap, rfl, blank, rfl | ⟨rest, d, rfl, solid⟩⟩ := before.exists_trailing isBlank
  · rw [List.nil_append, startsComment_blanks blank] at glued
    cases glued
  · rw [Text.lastSolid?_append_blanks blank, Text.lastSolid?_concat solid] at last
    cases last
    have none : ¬ ((gap ≠ [] ∨ c = '\x7d') ∧ c ≠ '(') := by
      rw [← startsComment_solid solid blank rest, glued]
      exact Bool.false_ne_true
    have empty : gap = [] := by
      by_contra apart
      exact none ⟨.inl apart, unopened⟩
    rw [empty, List.append_nil, List.getLast?_concat]

theorem ofWord_mark (word : Text) : Token.ofWord ('%' :: word) = .unknown ('%' :: word) := by
  simp [Token.ofWord, Token.keywords, Token.text, Symbol.char]

theorem unspaced_code (line : Text) : Unspaced ([' '].intercalate (code line)) := by
  intro front behind split last
  obtain ⟨earlier, left, right, later, cut, rfl⟩ := exists_of_intercalate_eq split
  obtain ⟨nonempty, solid, -⟩ := exists_mark_of_code cut
  rw [getLast?_intercalate nonempty] at last
  cases solid ' ' (List.mem_of_getLast? last)

/-- A word that begins with a mark is glued to a header. -/
theorem exists_of_tokens_mark {earlier later : List Token}
    (found : tokens line = earlier ++ .unknown ('%' :: word) :: later) :
    ∃ before rest, line = before ++ '%' :: rest ∧ EndsInHeader before ∧ tokens before = earlier := by
  obtain ⟨first, more, cut, rfl, mapped⟩ := List.map_eq_append_iff.mp found
  obtain ⟨lexeme, last, rfl, shown, -⟩ := List.map_eq_cons_iff.mp mapped
  obtain rfl : lexeme = '%' :: word := by
    rw [← Token.text_ofWord lexeme, shown]
    rfl
  obtain ⟨front, behind, split, same, glued⟩ := lexemes_mark cut (unspaced_code line)
  obtain ⟨_, left, _, _, codeCut, rfl⟩ := exists_of_intercalate_eq split
  obtain ⟨nonempty, _, before, rest, lineCut, codeBefore⟩ := exists_mark_of_code codeCut
  obtain ⟨symbol, header⟩ := glued (intercalate_ne_nil nonempty _)
  have tokensBefore : tokens before = first.map Token.ofWord := by
    rw [tokens, codeBefore.code_eq, same]
  have branch : (tokens before).getLast? = some (.branch symbol) := by
    rw [tokensBefore, List.getLast?_map, header]
    cases symbol <;> rfl
  have uncommented := beforeComment_eq_self (codeBefore.code_eq.trans codeBefore.words_eq.symm)
  have bracket := getLast?_of_glued codeBefore.glued (lastSolid?_of_header uncommented branch)
    (by decide)
  exact ⟨before, rest, lineCut, ⟨uncommented, bracket, symbol, branch⟩, tokensBefore⟩

theorem lexemes_cons_mark (text : Text) :
    ∃ word later, lexemes ('%' :: text) = ('%' :: word) :: later := by
  have headerless : branchHeader? ('%' :: text) = none := rfl
  rw [lexemes, if_neg (by decide), headerless]
  exact ⟨_, _, rfl⟩

/-- A text that ends in no blank ends in a word. -/
theorem exists_last_word (closed : ¬ text.OpensWord) :
    ∃ front last, text = front ++ last ∧ front.OpensWord ∧ last ≠ [] ∧
      ∀ c ∈ last, isBlank c = false := by
  obtain ⟨front, last, rfl, solid, ending⟩ := Text.exists_trailing (!isBlank ·) text
  have opens : front.OpensWord := by
    rcases ending with rfl | ⟨rest, c, rfl, blank⟩
    · exact Text.opensWord_nil
    · exact (Text.opensWord_concat rest).mpr (by simpa using blank)
  refine ⟨front, last, rfl, opens, ?_, fun c member => by simpa using solid c member⟩
  intro empty
  rw [empty, List.append_nil] at closed
  exact closed opens

theorem words_append_mark {left : Text} (opens : front.OpensWord)
    (solid : ∀ c ∈ left, isBlank c = false) (text : Text) :
    Text.words (front ++ left ++ '%' :: text) =
      Text.words front ++ (left ++ '%' :: text.takeWhile (!isBlank ·)) ::
        Text.words (text.dropWhile (!isBlank ·)) := by
  have run : ∀ c ∈ left ++ '%' :: text.takeWhile (!isBlank ·), isBlank c = false := by
    intro c member
    rcases List.mem_append.mp member with member | member
    · exact solid c member
    · rcases List.mem_cons.mp member with rfl | member
      · rfl
      · simpa using List.mem_takeWhile_imp member
  have split : front ++ left ++ '%' :: text = front ++ ((left ++ '%' :: text.takeWhile (!isBlank ·)) ++
      text.dropWhile (!isBlank ·)) := by
    simp
  rw [split, Text.words_append_of_opensWord opens,
    Text.words_append run (by simp) (Text.endsWord_dropWhile text)]

theorem EndsInHeader.not_opensWord (ends : EndsInHeader before) :
    ¬ (tighten (separate before)).OpensWord := by
  obtain ⟨front, split⟩ := List.getLast?_eq_some_iff.mp ends.bracket
  have apart : separate before = separate front ++ [')'] := by
    rw [split, separate_append]
    rfl
  intro opens
  cases opens ')' (by rw [apart, tighten, getLast?_tightenFrom (by decide)])

theorem EndsInHeader.code_eq (ends : EndsInHeader before) :
    Line.code before = (tighten (separate before)).words := by
  refine code_of_commentless fun left right split => ?_
  have found : beforeCommentFrom [] before = left ++ '%' :: right := ends.code.trans split
  exact startsComment_beforeCommentFrom found

/-- A mark glued to a header begins a word. -/
theorem tokens_append_mark (ends : EndsInHeader before) (rest : Text) :
    ∃ word later, tokens (before ++ '%' :: rest) =
      tokens before ++ .unknown ('%' :: word) :: later := by
  obtain ⟨front, left, pressed, opens, nonempty, solid⟩ := exists_last_word ends.not_opensWord
  have words : code before = Text.words front ++ [left] := by
    rw [ends.code_eq, pressed, Text.words_append_of_opensWord opens, Text.words_word solid nonempty]
  have uncommented : ∀ word ∈ Text.words front ++ [left], isComment word = false :=
    fun word member => uncommented_of_mem_code (words ▸ member)
  have glued : ∃ right later, code (before ++ '%' :: rest) =
      Text.words front ++ (left ++ '%' :: right) :: later := by
    have first (more : Text) : isComment (left ++ more) = false :=
      (isComment_append nonempty more).trans (uncommented left (by simp))
    rw [code, tighten_separate_mark, pressed, words_append_mark opens solid,
      List.takeWhile_append_of_pos, List.takeWhile_cons_of_pos (by rw [first]; rfl)]
    · exact ⟨_, _, rfl⟩
    · intro word member
      rw [uncommented word (List.mem_append_left _ member)]
      rfl
  obtain ⟨right, later, cut⟩ := glued
  have headed : ∀ last, (lexemes ([' '].intercalate (code before))).getLast? = some last →
      ∃ symbol, last = (Token.branch symbol).text := by
    intro last found
    obtain ⟨symbol, header⟩ := ends.header
    rw [tokens, List.getLast?_map, found] at header
    exact ⟨symbol, by rw [← Option.some.inj header, Token.text_ofWord]⟩
  obtain ⟨word, more, lexed⟩ := lexemes_cons_mark (right ++ later.flatMap (' ' :: ·))
  refine ⟨word, more.map Token.ofWord, ?_⟩
  rw [tokens, cut, intercalate_cut, ← words, List.cons_append, lexemes_append_mark headed, lexed,
    List.map_append, List.map_cons, ofWord_mark, tokens]

end Line

theorem tokens_mark_iff (line : Text) (earlier : List Token) :
    (∃ word later, Line.tokens line = earlier ++ .unknown ('%' :: word) :: later) ↔
      ∃ before rest, line = before ++ '%' :: rest ∧ Line.EndsInHeader before ∧
        Line.tokens before = earlier := by
  constructor
  · intro found
    obtain ⟨word, later, lexed⟩ := found
    exact Line.exists_of_tokens_mark lexed
  · intro found
    obtain ⟨before, rest, split, ends, same⟩ := found
    rw [split, ← same]
    exact Line.tokens_append_mark ends rest

theorem tokenize_mark_iff (text : Text) :
    (∃ word, .unknown ('%' :: word) ∈ tokenize text) ↔
      ∃ line ∈ text.lines, ∃ before rest, line = before ++ '%' :: rest ∧
        Line.EndsInHeader before := by
  rw [tokenize_eq_flatMap]
  constructor
  · intro found
    obtain ⟨word, member⟩ := found
    obtain ⟨line, inside, lexed⟩ := List.mem_flatMap.mp member
    obtain ⟨earlier, later, split⟩ := List.append_of_mem lexed
    obtain ⟨before, rest, cut, ends, -⟩ := (tokens_mark_iff line earlier).mp ⟨word, later, split⟩
    exact ⟨line, inside, before, rest, cut, ends⟩
  · intro found
    obtain ⟨line, inside, before, rest, cut, ends⟩ := found
    obtain ⟨word, later, split⟩ := (tokens_mark_iff line _).mpr ⟨before, rest, cut, ends, rfl⟩
    exact ⟨word, List.mem_flatMap.mpr ⟨line, inside, by simp [split]⟩⟩

/-- Where a comment starts, at the front of a line, behind a blank or right behind a brace, the rest of
the line is dropped. A mark begins a word of the program in one place only, glued to a branch header, and
there it always does. -/
theorem marks_begin_words_behind_headers :
    (∀ text : Text, (∃ word, .unknown ('%' :: word) ∈ tokenize text) ↔
      ∃ line ∈ text.lines, ∃ before rest, line = before ++ '%' :: rest ∧
        Line.EndsInHeader before) ∧
    ∀ line : Text,
      (∀ before rest, line = before ++ '%' :: rest → Line.startsComment before = true →
        Line.tokens line = Line.tokens before) ∧
      ∀ earlier : List Token,
        (∃ word later, Line.tokens line = earlier ++ .unknown ('%' :: word) :: later) ↔
          ∃ before rest, line = before ++ '%' :: rest ∧ Line.EndsInHeader before ∧
            Line.tokens before = earlier := by
  refine ⟨tokenize_mark_iff, fun line => ⟨?_, tokens_mark_iff line⟩⟩
  intro before rest split starts
  rw [split, Line.tokens_append_comment starts]

theorem marks_begin_words_behind_spaced_header :
    Line.tokens "D\x7d% c".toList = Line.tokens "D\x7d".toList ∧
      ∃ word later, Line.tokens "\x7dsi( 1 )%si (0)".toList =
        [.close, .branch .one] ++ .unknown ('%' :: word) :: later := by
  have lexed : Line.tokens "\x7dsi( 1 )".toList = [.close, .branch .one] := by decide +kernel
  have ends : Line.EndsInHeader "\x7dsi( 1 )".toList :=
    ⟨by decide, by decide, .one, by rw [lexed]; rfl⟩
  refine ⟨?_, ?_⟩
  · exact (marks_begin_words_behind_headers.2 _).1 _ " c".toList rfl (by decide)
  · exact ((marks_begin_words_behind_headers.2 _).2 _).mpr ⟨_, "si (0)".toList, rfl, ends, lexed⟩

theorem mark_begins_word : ¬ ∀ text word : Text, .unknown ('%' :: word) ∉ tokenize text := by
  intro unmarked
  have lexed : tokenize "si (0)%x".toList = [.branch .zero, .unknown ['%', 'x']] := by decide +kernel
  exact unmarked "si (0)%x".toList ['x'] (by rw [lexed]; simp)

end TapeFlow

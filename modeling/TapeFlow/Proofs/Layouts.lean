import TapeFlow.Proofs.Lexing

namespace TapeFlow

/-! How a list of tokens may be laid out as a program. Blanks and comments keep words apart; a brace
and the argument of a branch need nothing behind them. Whatever the layout, the tokens are read back. -/

/-- A token that can be written: a foreign word is no token of the language, has no blank and no
bracket, and does not begin like a comment. -/
def Token.Writable : Token → Prop
  | .unknown word => word ≠ [] ∧ (∀ c ∈ word, isBlank c = false ∧ c ∉ ['\x7d', '(', ')']) ∧
      word.head? ≠ some '%' ∧ Token.ofWord word = .unknown word
  | _ => True

namespace Layout

/-- Blanks on one line. -/
def Blanks (text : Text) : Prop :=
  ∀ c ∈ text, isBlank c = true ∧ c ≠ '\n'

/-- Blanks and whole comments. -/
inductive Filler : Text → Prop
  | nil : Filler []
  | blank {c : Char} {gap : Text} (blank : isBlank c = true) (more : Filler gap) : Filler (c :: gap)
  | comment {body gap : Text} (lineless : '\n' ∉ body) (more : Filler gap) :
      Filler ('%' :: (body ++ '\n' :: gap))

/-- What may stand between two tokens, where no token is the edge of the program. -/
inductive Separates : Option Token → Option Token → Text → Prop
  | blank {left right : Option Token} {c : Char} {gap : Text} (blank : isBlank c = true)
      (more : Filler gap) : Separates left right (c :: gap)
  | front {right : Option Token} {gap : Text} (more : Filler gap) : Separates none right gap
  | behindClose {right : Option Token} {gap : Text} (more : Filler gap) :
      Separates (some .close) right gap
  | beforeClose {left : Option Token} : Separates left (some .close) []
  | behindBranch {symbol : Symbol} {right : Option Token} :
      Separates (some (.branch symbol)) right []
  | back {left : Option Token} : Separates left none []

/-- The source forms of a token. -/
inductive Spells : Token → Text → Prop
  | word {token : Token} (plain : ∀ symbol, token ≠ .branch symbol) : Spells token token.text
  | branch {before inside behind : Text} (symbol : Symbol) (blankBefore : Blanks before)
      (blankInside : Blanks inside) (blankBehind : Blanks behind) :
      Spells (.branch symbol) (branchText before inside symbol behind)

end Layout

open Layout

/-- The layouts of the tokens that come behind `left`. -/
inductive Layout : Option Token → List Token → Text → Prop
  | done {left : Option Token} {gap : Text} (separates : Separates left none gap) :
      Layout left [] gap
  | remark {left : Option Token} {gap body : Text} (separates : Separates left none gap)
      (lineless : '\n' ∉ body) (apart : gap ≠ [] ∨ left = some .close ∨ left = none) :
      Layout left [] (gap ++ '%' :: body)
  | next {left : Option Token} {token : Token} {tokens : List Token} {gap word rest : Text}
      (separates : Separates left (some token) gap) (spells : Spells token word)
      (more : Layout (some token) tokens rest) : Layout left (token :: tokens) (gap ++ (word ++ rest))

namespace Layout

variable {left right : Option Token} {token : Token} {tokens : List Token} {symbol : Symbol}
  {gap word text : Text}

theorem Filler.tokenize_append (filler : Filler gap) (text : Text) :
    tokenize (gap ++ text) = tokenize text := by
  induction filler with
  | nil => rfl
  | blank blank _ ih => rw [List.cons_append, tokenize_blank blank, ih]
  | comment lineless _ ih =>
      rw [List.cons_append, List.append_assoc, List.cons_append, tokenize_comment lineless, ih]

theorem Filler.firstSolid? (filler : Filler gap) :
    Text.firstSolid? gap = none ∨ Text.firstSolid? gap = some '%' := by
  induction filler with
  | nil => exact .inl rfl
  | blank blank _ ih => rwa [Text.firstSolid?_blank blank]
  | comment _ _ _ => exact .inr (Text.firstSolid?_solid (by decide) _)

theorem Filler.fresh_append (filler : Filler gap) (fresh : Line.Fresh text) : Line.Fresh (gap ++ text) := by
  have first := Text.firstSolid?_append gap text
  rcases filler.firstSolid? with none | comment
  · rw [none, Option.none_or] at first
    exact ⟨first ▸ fresh.unopened, first ▸ fresh.unclosed⟩
  · rw [comment, Option.some_or] at first
    constructor <;> simp [first]

theorem Separates.filler (separates : Separates left right gap) : Filler gap := by
  cases separates with
  | blank blank more => exact .blank blank more
  | front more => exact more
  | behindClose more => exact more
  | beforeClose => exact .nil
  | behindBranch => exact .nil
  | back => exact .nil

/-- Behind a token other than a brace comes a blank, or nothing where nothing is needed. -/
theorem Separates.behind (separates : Separates (some token) right gap) (unclosed : token ≠ .close) :
    (∃ c rest, gap = c :: rest ∧ isBlank c = true) ∨
      gap = [] ∧ ((∃ symbol, token = .branch symbol) ∨ right = some .close ∨ right = none) := by
  cases separates with
  | blank blank more => exact .inl ⟨_, _, rfl, blank⟩
  | behindClose more => exact absurd rfl unclosed
  | beforeClose => exact .inr ⟨rfl, .inr (.inl rfl)⟩
  | behindBranch => exact .inr ⟨rfl, .inl ⟨_, rfl⟩⟩
  | back => exact .inr ⟨rfl, .inr (.inr rfl)⟩

/-- Every token but a brace and a branch is written as one word. -/
theorem word_of_writable (writable : token.Writable) (plain : ∀ symbol, token ≠ .branch symbol)
    (unclosed : token ≠ .close) :
    (∀ c ∈ token.text, isBlank c = false ∧ c ∉ ['\x7d', '(', ')']) ∧ token.text ≠ [] ∧
      token.text.head? ≠ some '%' ∧ Token.ofWord token.text = token := by
  cases token with
  | unknown word => exact ⟨writable.2.1, writable.1, writable.2.2⟩
  | branch symbol => exact absurd rfl (plain symbol)
  | close => exact absurd rfl unclosed
  | write symbol =>
      cases symbol <;>
        exact ⟨List.forall_mem_singleton.mpr (by decide), by decide, by decide, by decide⟩
  | _ =>
      refine ⟨?_, by decide, by decide, by decide⟩
      simp [Token.text, isBlank, blankRanges]

theorem Spells.head (spells : Spells token word) (writable : token.Writable) :
    ∃ c rest, word = c :: rest ∧ isBlank c = false ∧ c ∉ ['%', '(', ')'] := by
  cases spells with
  | branch => exact ⟨'s', _, rfl, by decide, by decide⟩
  | word plain =>
      by_cases closes : token = .close
      · subst closes
        exact ⟨'\x7d', [], rfl, by decide, by decide⟩
      · obtain ⟨solid, nonempty, code, _⟩ := word_of_writable writable plain closes
        obtain ⟨c, rest, split⟩ := List.exists_cons_of_ne_nil nonempty
        rw [split] at solid code
        have first := solid c List.mem_cons_self
        refine ⟨c, rest, split, first.1, ?_⟩
        simp_all

theorem Spells.fresh (spells : Spells token word) (writable : token.Writable) (rest : Text) :
    Line.Fresh (word ++ rest) := by
  obtain ⟨c, more, rfl, solid, other⟩ := spells.head writable
  have first := Text.firstSolid?_solid solid (more ++ rest)
  constructor <;> rw [List.cons_append, first] <;> simp_all

theorem fresh (layout : Layout left tokens text) (writable : ∀ token ∈ tokens, token.Writable) :
    Line.Fresh text := by
  cases layout with
  | done separates =>
      have nothing : Line.Fresh [] := ⟨by decide, by decide⟩
      simpa using separates.filler.fresh_append nothing
  | remark separates lineless apart =>
      apply separates.filler.fresh_append
      constructor <;> rw [Text.firstSolid?_solid (by decide)] <;> decide
  | next separates spells more =>
      exact separates.filler.fresh_append (spells.fresh (writable _ List.mem_cons_self) _)

/-- A comment is not glued to what is in front of it, a brace apart. -/
theorem remark_behind (separates : Separates (some token) none gap) (unclosed : token ≠ .close)
    (apart : gap ≠ [] ∨ some token = some .close ∨ some token = none) :
    ∃ c rest, gap = c :: rest ∧ isBlank c = true := by
  rcases separates.behind unclosed with blank | ⟨empty, _⟩
  · exact blank
  · rcases apart with nonempty | closes | front
    · exact absurd empty nonempty
    · exact absurd (Option.some.inj closes) unclosed
    · cases front

/-- What comes behind a word begins with a blank or a brace. -/
theorem apart (layout : Layout (some token) tokens text) (plain : ∀ symbol, token ≠ .branch symbol)
    (unclosed : token ≠ .close) : Line.Apart text := by
  intro d head
  cases layout with
  | done separates =>
      rcases separates.behind unclosed with ⟨c, rest, rfl, blank⟩ | ⟨rfl, _⟩
      · cases head
        exact .inl blank
      · cases head
  | remark separates lineless apart =>
      obtain ⟨c, rest, rfl, blank⟩ := remark_behind separates unclosed apart
      cases head
      exact .inl blank
  | next separates spells more =>
      rcases separates.behind unclosed with ⟨c, rest, rfl, blank⟩ | ⟨rfl, branch | closes | back⟩
      · cases head
        exact .inl blank
      · obtain ⟨symbol, same⟩ := branch
        exact absurd same (plain symbol)
      · cases closes
        cases spells
        cases head
        exact .inr rfl
      · cases back

theorem behind_branch (layout : Layout (some (.branch symbol)) tokens text)
    (writable : ∀ token ∈ tokens, token.Writable) : text.head? ≠ some '%' := by
  have unclosed : Token.branch symbol ≠ .close := by
    intro same
    cases same
  have blank_ne : ∀ {c : Char}, isBlank c = true → c ≠ '%' := by
    rintro c blank rfl
    cases blank
  cases layout with
  | done separates =>
      rcases separates.behind unclosed with ⟨c, rest, rfl, blank⟩ | ⟨rfl, _⟩
      · simpa using blank_ne blank
      · simp
  | remark separates lineless apart =>
      obtain ⟨c, rest, rfl, blank⟩ := remark_behind separates unclosed apart
      simpa using blank_ne blank
  | next separates spells more =>
      rcases separates.behind unclosed with ⟨c, rest, rfl, blank⟩ | ⟨rfl, _⟩
      · simpa using blank_ne blank
      · obtain ⟨c, rest, rfl, _, other⟩ := spells.head (writable _ List.mem_cons_self)
        simp_all

theorem tokenize_eq (layout : Layout left tokens text)
    (writable : ∀ token ∈ tokens, token.Writable) : tokenize text = tokens := by
  -- What comes behind a token is a layout of its own; the lexer asks no more of it than how it begins,
  -- and `fresh`, `apart` and `behind_branch` say that.
  induction layout with
  | done separates =>
      have alone := separates.filler.tokenize_append []
      rwa [List.append_nil, tokenize_nil] at alone
  | remark separates lineless apart =>
      rw [separates.filler.tokenize_append, tokenize_remark lineless]
  | @next left token tokens gap word rest separates spells more ih =>
      obtain ⟨writableFirst, writableRest⟩ := List.forall_mem_cons.mp writable
      have fresh := more.fresh writableRest
      rw [separates.filler.tokenize_append]
      cases spells with
      | branch symbol blankBefore blankInside blankBehind =>
          rw [tokenize_branch symbol blankBefore blankInside blankBehind fresh
            (more.behind_branch writableRest), ih writableRest]
      | word plain =>
          by_cases closes : token = .close
          · subst closes
            rw [Token.text, List.singleton_append, tokenize_close fresh, ih writableRest]
          · obtain ⟨solid, nonempty, code, same⟩ := word_of_writable writableFirst plain closes
            rw [tokenize_word _ nonempty code fresh (more.apart plain closes), ih writableRest, same]
            intro c member
            have solid := solid c member
            simp_all

theorem spells_text (token : Token) : Spells token token.text := by
  cases token with
  | branch symbol =>
      have nothing : Blanks [] := by simp [Blanks]
      have space : Blanks [' '] := by
        simp only [Blanks, List.mem_singleton, forall_eq]
        decide
      exact .branch symbol space nothing nothing
  | _ => exact .word (by simp)

theorem spaced (left : Option Token) (tokens : List Token) :
    Layout left tokens ((tokens.map Token.text).flatMap (' ' :: ·)) := by
  induction tokens generalizing left with
  | nil => exact .done .back
  | cons token tokens ih =>
      exact .next (.blank (by decide) .nil) (spells_text token) (ih (some token))

theorem intercalate_text (tokens : List Token) :
    Layout none tokens ([' '].intercalate (tokens.map Token.text)) := by
  cases tokens with
  | nil => exact .done .back
  | cons token tokens =>
      rw [List.map_cons, Line.intercalate_space]
      exact .next (.front .nil) (spells_text token) (spaced (some token) tokens)

end Layout

/-- Every layout of tokens that can be written is read as these tokens. Their source forms with single
spaces between them are one. -/
theorem tokenize_reads_layouts {tokens : List Token}
    (writable : ∀ token ∈ tokens, token.Writable) :
    (∀ text, Layout none tokens text → tokenize text = tokens) ∧
      tokenize ([' '].intercalate (tokens.map Token.text)) = tokens :=
  ⟨fun _ layout => layout.tokenize_eq writable, (Layout.intercalate_text tokens).tokenize_eq writable⟩

theorem tokenize_reads_layouts_glued :
    (Token.unknown ['x', '%', 'y']).Writable ∧
      tokenize "%\x7d (\nsi\t( 0 )si(1)boucle\x7d\x7d%)\nx%y # %si(".toList =
        [.branch .zero, .branch .one, .loop, .close, .close, .unknown ['x', '%', 'y'],
          .endOfFile] := by
  have foreign : (Token.unknown ['x', '%', 'y']).Writable := by
    refine ⟨by simp, ?_, by simp, by decide⟩
    simp [isBlank, blankRanges]
  have nothing : Blanks [] := by simp [Blanks]
  have space : Blanks [' '] ∧ isBlank ' ' = true := by simp [Blanks, isBlank, blankRanges]
  have tab : Blanks ['\t'] := by simp [Blanks, isBlank, blankRanges]
  have opening : '\n' ∉ ['\x7d', ' ', '('] := by decide
  have closing : '\n' ∉ [')'] := by decide
  have header : '\n' ∉ ['s', 'i', '('] := by decide
  refine ⟨foreign, (tokenize_reads_layouts ?_).1 _ ?_⟩
  · simp only [List.forall_mem_cons]
    exact ⟨trivial, trivial, trivial, trivial, trivial, foreign, trivial, by simp⟩
  · exact .next (.front (.comment opening .nil)) (.branch .zero tab space.1 space.1) <|
      .next .behindBranch (.branch .one nothing nothing nothing) <|
      .next .behindBranch (.word (by simp)) <|
      .next .beforeClose (.word (by simp)) <|
      .next (.behindClose .nil) (.word (by simp)) <|
      .next (.behindClose (.comment closing .nil)) (.word (by simp)) <|
      .next (.blank space.2 .nil) (.word (by simp)) <|
      .remark (.blank space.2 .nil) header (.inl (by simp))

end TapeFlow

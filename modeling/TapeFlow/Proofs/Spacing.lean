import Mathlib.Data.List.Forall2
import Mathlib.Logic.Relation
import TapeFlow.Compile
import TapeFlow.Proofs.Comments

namespace TapeFlow

/-! How a line is spaced does not matter to its tokens. The passes over a line put in blanks that later
passes take out again, so two lines are compared by the words that are left of them in the end. -/

/-- Blanks inside a line. -/
def Text.IsGap (gap : Text) : Prop :=
  ∀ c ∈ gap, isBlank c = true ∧ c ≠ '\n'

namespace Line

variable {c : Char} {opened : Bool} {left right gap first second line other : Text}

/-- Two ends of a line that tightening makes the same of can stand for each other behind any front. -/
theorem tightenFrom_congr (same : ∀ opened, tightenFrom opened first = tightenFrom opened second)
    (start : first.firstSolid? = second.firstSolid?) (left : Text) :
    tightenFrom opened (left ++ first) = tightenFrom opened (left ++ second) := by
  induction left generalizing opened with
  | nil => exact same opened
  | cons c left ih =>
      cases blank : isBlank c with
      | false => rw [List.cons_append, List.cons_append, tightenFrom_solid blank,
          tightenFrom_solid blank, ih]
      | true =>
          have ahead : Text.firstSolid? (left ++ first) = Text.firstSolid? (left ++ second) := by
            rw [Text.firstSolid?_append, Text.firstSolid?_append, start]
          simp only [Text.firstSolid?] at ahead
          rw [List.cons_append, List.cons_append, tightenFrom, tightenFrom, if_pos blank,
            if_pos blank, ahead]
          split
          · exact ih
          · rw [ih]

theorem tightenFrom_dropped (blank : ∀ c ∈ gap, isBlank c = true)
    (closes : right.firstSolid? = some ')') :
    tightenFrom opened (gap ++ right) = tightenFrom opened right := by
  induction gap with
  | nil => rfl
  | cons c gap ih =>
      obtain ⟨blankHead, blank⟩ := List.forall_mem_cons.mp blank
      have ahead := (firstSolid?_blanks blank right).trans closes
      rw [Text.firstSolid?] at ahead
      rw [List.cons_append, tightenFrom, if_pos blankHead, if_pos (by simp [ahead]), ih blank]

theorem words_append_gap (blank : ∀ c ∈ gap, isBlank c = true) (apart : gap ≠ []) (left right : Text) :
    (left ++ (gap ++ right)).words = left.words ++ right.words := by
  obtain ⟨c, gap, rfl⟩ := List.exists_cons_of_ne_nil apart
  obtain ⟨blankHead, blank⟩ := List.forall_mem_cons.mp blank
  rw [List.cons_append, Text.words_append_blank blankHead, Text.words_blanks blank]

/-- Of some blanks, tightening leaves words that are as far apart as those it leaves of one space. -/
theorem words_tighten_gap (blank : ∀ c ∈ gap, isBlank c = true) (apart : gap ≠ [])
    (left right : Text) :
    (tighten (left ++ (gap ++ right))).words = (tighten (left ++ ([' '] ++ right))).words := by
  have space : ∀ c ∈ [' '], isBlank c = true := List.forall_mem_singleton.mpr rfl
  by_cases closes : right.firstSolid? = some ')'
  · have same : tighten (left ++ (gap ++ right)) = tighten (left ++ ([' '] ++ right)) := by
      refine tightenFrom_congr ?_ ?_ left
      · intro opened
        rw [tightenFrom_dropped blank closes, tightenFrom_dropped space closes]
      · rw [firstSolid?_blanks blank, firstSolid?_blanks space]
    rw [same]
  · -- What is in front is tightened by itself, and whether it ends in a bracket decides.
    have split : ∀ {blanks : Text}, (∀ c ∈ blanks, isBlank c = true) →
        tighten (left ++ (blanks ++ right)) = tighten left ++
          tightenFrom (left.lastSolid?.elim false (· = '(')) (blanks ++ right) := by
      intro blanks blank
      exact tightenFrom_append (by rwa [firstSolid?_blanks blank])
    rw [split blank, split space]
    cases left.lastSolid?.elim false (· = '(') with
    | true => rw [tightenFrom_opened blank, tightenFrom_opened space]
    | false =>
        rw [tightenFrom_blanks blank closes, tightenFrom_blanks space closes,
          words_append_gap blank apart, words_append_gap space (by simp)]

theorem tokens_congr (same : (tighten (separate line)).words = (tighten (separate other)).words) :
    tokens line = tokens other := by
  rw [tokens_eq_scan, tokens_eq_scan, scan, scan, kept, kept, same]

/-- A line and the same line with other blanks in one place. Words stay apart; next to a brace, next to
an opening bracket and before a closing one there may be blanks or none. -/
inductive Respaced : Text → Text → Prop
  | between (left right : Text) {gap other : Text} (blank : gap.IsGap) (apart : gap ≠ [])
      (blankToo : other.IsGap) (apartToo : other ≠ []) :
      Respaced (left ++ gap ++ right) (left ++ other ++ right)
  | atBrace (left right : Text) {before behind : Text} (blankBefore : before.IsGap)
      (blankBehind : behind.IsGap) :
      Respaced (left ++ before ++ '\x7d' :: (behind ++ right)) (left ++ '\x7d' :: right)
  | atOpening (left right : Text) {before behind : Text} (blankBefore : before.IsGap)
      (blankBehind : behind.IsGap) :
      Respaced (left ++ before ++ '(' :: (behind ++ right)) (left ++ '(' :: right)
  | atClosing (left right : Text) {before : Text} (blankBefore : before.IsGap) :
      Respaced (left ++ before ++ ')' :: right) (left ++ ')' :: right)

theorem tokens_between (blank : ∀ c ∈ gap, isBlank c = true) (apart : gap ≠ [])
    (left right : Text) : tokens (left ++ gap ++ right) = tokens (left ++ [' '] ++ right) := by
  apply tokens_congr
  have space : separate [' '] = [' '] := rfl
  simp only [List.append_assoc, separate_append, separate_blanks blank, space]
  exact words_tighten_gap blank apart _ _

theorem tokens_atBrace {before behind : Text} (blankBefore : ∀ c ∈ before, isBlank c = true)
    (blankBehind : ∀ c ∈ behind, isBlank c = true) (left right : Text) :
    tokens (left ++ before ++ '\x7d' :: (behind ++ right)) = tokens (left ++ '\x7d' :: right) := by
  have apart : separate (left ++ before ++ '\x7d' :: (behind ++ right)) =
      separate left ++ ((before ++ [' ']) ++ '\x7d' :: (([' '] ++ behind) ++ separate right)) := by
    simp [separate_append, separate_cons, separate_blanks blankBefore, separate_blanks blankBehind]
  have bare : separate (left ++ '\x7d' :: right) =
      separate left ++ [' ', '\x7d'] ++ ([' '] ++ separate right) := by
    simp [separate_append, separate_cons]
  have blankLater : ∀ c ∈ [' '] ++ behind, isBlank c = true :=
    List.forall_mem_cons.mpr ⟨rfl, blankBehind⟩
  apply tokens_congr
  calc
    (tighten (separate (left ++ before ++ '\x7d' :: (behind ++ right)))).words =
        (tighten (separate left ++
          ([' '] ++ '\x7d' :: (([' '] ++ behind) ++ separate right)))).words := by
      rw [apart, words_tighten_gap (blank_append_space blankBefore) (by simp)]
    _ = (tighten (separate left ++ [' ', '\x7d'] ++
          (([' '] ++ behind) ++ separate right))).words := by
      rw [List.append_assoc (separate left)]
      rfl
    _ = (tighten (separate (left ++ '\x7d' :: right))).words := by
      rw [words_tighten_gap blankLater (by simp), bare]

theorem tokens_atOpening {before behind : Text} (blankBefore : ∀ c ∈ before, isBlank c = true)
    (blankBehind : ∀ c ∈ behind, isBlank c = true) (left right : Text) :
    tokens (left ++ before ++ '(' :: (behind ++ right)) = tokens (left ++ '(' :: right) := by
  have apart : separate (left ++ before ++ '(' :: (behind ++ right)) =
      separate left ++ ((before ++ [' ']) ++ '(' :: (behind ++ separate right)) := by
    simp [separate_append, separate_cons, separate_blanks blankBefore, separate_blanks blankBehind]
  have bare : separate (left ++ '(' :: right) = separate left ++ [' '] ++ '(' :: separate right := by
    simp [separate_append, separate_cons]
  have solid : isBlank '(' = false := by decide
  have dropped : tighten (separate left ++ [' '] ++ '(' :: (behind ++ separate right)) =
      tighten (separate left ++ [' '] ++ '(' :: separate right) := by
    refine tightenFrom_congr ?_ ?_ _
    · intro opened
      rw [tightenFrom_solid solid, tightenFrom_solid solid, decide_eq_true rfl,
        tightenFrom_opened blankBehind]
    · rw [Text.firstSolid?_solid solid, Text.firstSolid?_solid solid]
  apply tokens_congr
  rw [apart, words_tighten_gap (blank_append_space blankBefore) (by simp), ← List.append_assoc,
    dropped, bare]

theorem tokens_atClosing {before : Text} (blankBefore : ∀ c ∈ before, isBlank c = true)
    (left right : Text) :
    tokens (left ++ before ++ ')' :: right) = tokens (left ++ ')' :: right) := by
  have closer : separate (')' :: right) = ')' :: separate right := rfl
  have dropped : tighten (separate left ++ (before ++ ')' :: separate right)) =
      tighten (separate left ++ ')' :: separate right) := by
    refine tightenFrom_congr ?_ ?_ _
    · intro opened
      rw [tightenFrom_closing blankBefore, tightenFrom_solid (by decide), decide_eq_false (by decide)]
    · exact firstSolid?_blanks blankBefore _
  apply tokens_congr
  rw [separate_append, separate_append, separate_append, closer, separate_blanks blankBefore,
    List.append_assoc, dropped]

theorem Respaced.tokens_eq (respaced : Respaced line other) : tokens line = tokens other := by
  have blanks {gap : Text} (inside : gap.IsGap) : ∀ c ∈ gap, isBlank c = true :=
    fun c member => (inside c member).1
  cases respaced with
  | between left right blank apart blankToo apartToo =>
      rw [tokens_between (blanks blank) apart, tokens_between (blanks blankToo) apartToo]
  | atBrace left right blankBefore blankBehind =>
      exact tokens_atBrace (blanks blankBefore) (blanks blankBehind) left right
  | atOpening left right blankBefore blankBehind =>
      exact tokens_atOpening (blanks blankBefore) (blanks blankBehind) left right
  | atClosing left right blankBefore => exact tokens_atClosing (blanks blankBefore) left right

/-- Any number of changes, to and fro. -/
theorem tokens_eq_of_eqvGen (respaced : Relation.EqvGen Respaced line other) :
    tokens line = tokens other := by
  induction respaced with
  | rel line other respaced => exact respaced.tokens_eq
  | refl line => rfl
  | symm line other _ ih => exact ih.symm
  | trans line middle other _ _ first second => exact first.trans second

end Line

theorem tokenize_eq_of_respaced {text other : Text}
    (respaced : List.Forall₂ (Relation.EqvGen Line.Respaced) text.lines other.lines) :
    tokenize text = tokenize other := by
  rw [tokenize_eq_flatMap, tokenize_eq_flatMap]
  generalize text.lines = lines, other.lines = others at respaced
  induction respaced with
  | nil => rfl
  | cons first _ ih =>
      rw [List.flatMap_cons, List.flatMap_cons, Line.tokens_eq_of_eqvGen first, ih]

/-- Blanks that keep no words apart have no say in the tokens of a line, whatever the line says, nor,
on any of its lines and any number of times, in what a program compiles to. -/
theorem tokens_ignore_spacing :
    (∀ line other : Text, Line.Respaced line other → Line.tokens line = Line.tokens other) ∧
    ∀ text other : Text,
      List.Forall₂ (Relation.EqvGen Line.Respaced) text.lines other.lines →
      tokenize text = tokenize other ∧ compile text = compile other := by
  refine ⟨fun line other respaced => respaced.tokens_eq, ?_⟩
  intro text other respaced
  have same := tokenize_eq_of_respaced respaced
  exact ⟨same, congrArg build same⟩

/-- A brace right behind an opening bracket, and a comment mark behind a closing one. -/
theorem tokens_ignore_spacing_at_brackets :
    Line.tokens "si(\t \x7d%c".toList = Line.tokens "si(\x7d%c".toList ∧
      tokenize "si(\t \x7d%c\na  ) %".toList = tokenize "si(\x7d%c\na) %".toList := by
  have blanks (gap : Text) (blank : gap.all (fun c => isBlank c && c != '\n') = true) : gap.IsGap := by
    intro c member
    simpa using List.all_eq_true.mp blank c member
  have opening : Line.Respaced "si(\t \x7d%c".toList "si(\x7d%c".toList :=
    .atOpening ['s', 'i'] ['\x7d', '%', 'c'] (blanks [] rfl) (blanks ['\t', ' '] rfl)
  have closing : Line.Respaced "a  ) %".toList "a) %".toList :=
    .atClosing ['a'] [' ', '%'] (blanks [' ', ' '] rfl)
  refine ⟨tokens_ignore_spacing.1 _ _ opening, ?_⟩
  exact (tokens_ignore_spacing.2 _ _ (.cons (.rel _ _ opening) (.cons (.rel _ _ closing) .nil))).1

end TapeFlow

import Mathlib.Data.List.TakeWhile
import TapeFlow.Text.Blank

namespace TapeFlow

/-! Cutting texts. A character that is not in two texts marks where both of them end, and a word ends
at the first blank behind it. -/

/-- The first character of a text that is not blank. -/
def Text.firstSolid? (text : Text) : Option Char :=
  (text.dropWhile isBlank).head?

/-- A text that ends the word in front of it. -/
def Text.EndsWord (text : Text) : Prop :=
  ∀ c, text.head? = some c → isBlank c = true

namespace Text

variable {c mark : Char} {word text before after left right : Text}

/-- A mark that is in neither of two texts ends both of them. -/
theorem append_mark_inj (inBefore : mark ∉ before) (inAfter : mark ∉ after)
    (same : before ++ mark :: left = after ++ mark :: right) : before = after ∧ left = right := by
  have cut := congrArg (List.splitOn mark) same
  rw [List.splitOn_append_cons_self_of_not_mem inBefore,
    List.splitOn_append_cons_self_of_not_mem inAfter] at cut
  obtain rfl := (List.cons.inj cut).1
  exact ⟨rfl, (List.cons.inj (List.append_cancel_left same)).2⟩

theorem firstSolid?_blank (blank : isBlank c = true) (text : Text) :
    firstSolid? (c :: text) = firstSolid? text := by
  rw [firstSolid?, List.dropWhile_cons_of_pos blank, firstSolid?]

theorem firstSolid?_solid (solid : isBlank c = false) (text : Text) :
    firstSolid? (c :: text) = some c := by
  rw [firstSolid?, List.dropWhile_cons_of_neg (by simp [solid]), List.head?_cons]

theorem firstSolid?_append (left right : Text) :
    (left ++ right).firstSolid? = left.firstSolid?.or right.firstSolid? := by
  simp only [firstSolid?, ← List.find?_not_eq_head?_dropWhile, List.find?_append]

theorem words_blank (blank : isBlank c = true) (text : Text) : words (c :: text) = words text := by
  simp [words, List.splitOnP_cons_eq_if_modifyHead, blank]

theorem words_word (solid : ∀ c ∈ word, isBlank c = false) (nonempty : word ≠ []) :
    words word = [word] := by
  simp [words, List.splitOnP_eq_singleton solid, nonempty]

theorem words_append (solid : ∀ c ∈ word, isBlank c = false) (nonempty : word ≠ [])
    (ends : text.EndsWord) : words (word ++ text) = word :: words text := by
  cases text with
  | nil => rw [List.append_nil, words_word solid nonempty]; rfl
  | cons c text =>
      have blank := ends c rfl
      rw [words_blank blank, words, List.splitOnP_append_cons_of_forall_mem solid c blank,
        List.filter_cons_of_pos (by simpa using nonempty), words]

theorem endsWord_dropWhile (text : Text) : EndsWord (text.dropWhile (!isBlank ·)) := by
  intro c head
  have stops := List.head?_dropWhile_not (!isBlank ·) text
  rw [head] at stops
  simpa using stops

theorem words_solid (solid : isBlank c = false) (text : Text) :
    words (c :: text) =
      (c :: text.takeWhile (!isBlank ·)) :: words (text.dropWhile (!isBlank ·)) := by
  have run : ∀ d ∈ c :: text.takeWhile (!isBlank ·), isBlank d = false := by
    intro d member
    rcases List.mem_cons.mp member with rfl | member
    · exact solid
    · simpa using List.mem_takeWhile_imp member
  have cut := words_append run (by simp) (endsWord_dropWhile text)
  rwa [List.cons_append, List.takeWhile_append_dropWhile] at cut

theorem words_blanks {gap : Text} (blank : ∀ c ∈ gap, isBlank c = true) (text : Text) :
    words (gap ++ text) = words text := by
  induction gap with
  | nil => rfl
  | cons c gap ih =>
      obtain ⟨blankHead, blank⟩ := List.forall_mem_cons.mp blank
      rw [List.cons_append, words_blank blankHead, ih blank]

theorem ne_nil_of_mem_words (member : word ∈ words text) : word ≠ [] := by
  simpa using (List.mem_filter.mp member).2

theorem head?_words (text : Text) : (words text).head?.bind List.head? = text.firstSolid? := by
  induction text with
  | nil => rfl
  | cons c text ih =>
      cases blank : isBlank c with
      | true => rw [words_blank blank, firstSolid?_blank blank, ih]
      | false => rw [words_solid blank, firstSolid?_solid blank]; rfl

theorem flatten_splitOnP {α : Type} (cut : α → Bool) (list : List α) :
    (list.splitOnP cut).flatten = list.filter (!cut ·) := by
  induction list with
  | nil => simp
  | cons item list ih =>
      rw [List.splitOnP_cons_eq_if_modifyHead]
      cases cuts : cut item with
      | true => simp [cuts, ih]
      | false =>
          obtain ⟨first, more, split⟩ := List.exists_cons_of_ne_nil (List.splitOnP_ne_nil cut list)
          rw [split, List.flatten_cons] at ih
          simp [cuts, split, ih]

theorem flatten_words (text : Text) : text.words.flatten = text.filter (!isBlank ·) := by
  rw [words, List.flatten_filter_ne_nil, flatten_splitOnP]

theorem solid_of_mem_words (member : word ∈ words text) : ∀ c ∈ word, isBlank c = false := by
  intro c inside
  have conserved := List.mem_flatten_of_mem member inside
  rw [flatten_words, List.mem_filter] at conserved
  simpa using conserved.2

theorem not_mem_of_mem_splitOn {α : Type} [BEq α] [LawfulBEq α] {mark : α} {list part : List α}
    (member : part ∈ list.splitOn mark) : mark ∉ part := by
  intro inside
  rw [List.splitOn_eq_splitOnP] at member
  have kept := List.mem_flatten_of_mem member inside
  rw [flatten_splitOnP, List.mem_filter] at kept
  simp at kept

theorem length_flatten_lines_le (text : Text) : text.lines.flatten.length ≤ text.length := by
  rw [lines, List.splitOn_eq_splitOnP, flatten_splitOnP]
  exact List.length_filter_le _ _

/-- The characters up to the first line feed. -/
def firstLine (text : Text) : Text :=
  text.takeWhile (· ≠ '\n')

theorem lines_append (lineless : '\n' ∉ before) (text : Text) :
    ∃ more, text.lines = text.firstLine :: more ∧
      (before ++ text).lines = (before ++ text.firstLine) :: more := by
  have first : '\n' ∉ text.firstLine := by
    intro member
    simpa using List.mem_takeWhile_imp member
  have both : '\n' ∉ before ++ text.firstLine := by
    simpa using ⟨lineless, first⟩
  have split : text.firstLine ++ text.dropWhile (· ≠ '\n') = text := List.takeWhile_append_dropWhile
  cases rest : text.dropWhile (· ≠ '\n') with
  | nil =>
      rw [rest, List.append_nil] at split
      rw [split] at first both ⊢
      exact ⟨[], List.splitOn_eq_singleton first, List.splitOn_eq_singleton both⟩
  | cons c rest' =>
      have stops := List.head?_dropWhile_not (· ≠ '\n') text
      rw [rest] at stops split
      obtain rfl : c = '\n' := by simpa using stops
      refine ⟨rest'.splitOn '\n', ?_, ?_⟩
      · rw [lines, ← split, List.splitOn_append_cons_self_of_not_mem first, split]
      · rw [lines, ← split, ← List.append_assoc, List.splitOn_append_cons_self_of_not_mem, split]
        exact both

theorem head?_of_firstLine (head : text.firstLine.head? = some c) : text.head? = some c := by
  rw [firstLine, List.head?_takeWhile, Option.filter_eq_some_iff] at head
  exact head.1

theorem firstSolid?_of_firstLine (solid : text.firstLine.firstSolid? = some c) :
    text.firstSolid? = some c := by
  have split : text.firstLine ++ text.dropWhile (· ≠ '\n') = text := List.takeWhile_append_dropWhile
  rw [← split, firstSolid?_append, solid, Option.some_or]

end Text

end TapeFlow

import TapeFlow.Compile
import TapeFlow.Proofs.Comments
import TapeFlow.Proofs.Decoding

namespace TapeFlow

/-! What compilation does not depend on: how lines end, which encoding the comments are read in, and
all that comes behind a line with the end mark. -/

section LineEnds

theorem Text.lines_unifyNewlines (text : Text) :
    List.Forall₂ (fun short long => long = short ∨ long = short ++ ['\r'])
      text.unifyNewlines.lines text.lines := by
  have newline (rest : Text) : Text.lines ('\n' :: rest) = [] :: rest.lines :=
    List.splitOn_append_cons_self_of_not_mem List.not_mem_nil rest
  fun_induction Text.unifyNewlines text with
  | case1 rest ih =>
      have lineless : '\n' ∉ ['\r'] := by decide
      have pair : Text.lines ('\r' :: '\n' :: rest) = ['\r'] :: Text.lines rest :=
        List.splitOn_append_cons_self_of_not_mem lineless rest
      rw [newline, pair]
      exact .cons (.inr rfl) ih
  | case2 c rest other ih =>
      by_cases ends : c = '\n'
      · rw [ends, newline, newline]
        exact .cons (.inl rfl) ih
      · have longer (text : Text) : Text.lines (c :: text) = text.lines.modifyHead (c :: ·) := by
          rw [Text.lines, List.splitOn_cons_eq_if_modifyHead, if_neg (by simpa using ends), Text.lines]
        rw [longer, longer]
        generalize Text.lines (unifyNewlines rest) = shorts at ih
        generalize Text.lines rest = longs at ih
        cases ih with
        | nil => exact .nil
        | cons first more =>
            refine .cons ?_ more
            rcases first with rfl | rfl
            · exact .inl rfl
            · exact .inr rfl
  | case3 => exact .cons (.inl rfl) .nil

theorem tokens_lines_unifyNewlines (text : Text) :
    text.unifyNewlines.lines.map Line.tokens = text.lines.map Line.tokens := by
  have related := text.lines_unifyNewlines
  generalize text.unifyNewlines.lines = shorts at related
  generalize text.lines = longs at related
  induction related with
  | nil => rfl
  | cons same _ ih =>
      rw [List.map_cons, List.map_cons, ih]
      rcases same with rfl | rfl
      · rfl
      · rw [Line.tokens_concat_blank (by decide)]

theorem tokenize_unifyNewlines (text : Text) : tokenize text.unifyNewlines = tokenize text := by
  rw [tokenize_eq_flatMap, tokenize_eq_flatMap, List.flatMap_def, List.flatMap_def,
    tokens_lines_unifyNewlines]

theorem tokenize_decode (encoding : Encoding) (octets : List UInt8) :
    tokenize (encoding.decode octets) =
      (octets.splitOn 0x0A).flatMap fun line => Line.tokens (encoding.characters line) := by
  rw [Encoding.decode, tokenize_unifyNewlines, tokenize_eq_flatMap, encoding.lines_characters,
    List.flatMap_map]

end LineEnds

section Encodings

namespace Line

/-- There is a comment mark at a place of a line, and before it only octets below 0x80, so that it is
one in either encoding. -/
def CommentAt (octets : List UInt8) (place : Nat) : Prop :=
  octets[place]? = some 0x25 ∧ (∀ octet ∈ octets.take place, octet < 0x80) ∧
    startsComment ((octets.take place).map fun octet => Char.ofNat octet.toNat) = true

/-- Octets from 0x80 on occur only behind comment marks. -/
def Covered (octets : List UInt8) : Prop :=
  ∀ place octet, octets[place]? = some octet → 0x80 ≤ octet →
    ∃ mark < place, CommentAt octets mark

variable {line : List UInt8} {place : Nat}

theorem CommentAt.tokens_eq (comment : CommentAt line place) (encoding : Encoding) :
    tokens (encoding.characters line) =
      tokens ((line.take place).map fun octet => Char.ofNat octet.toNat) := by
  obtain ⟨mark, single, starts⟩ := comment
  obtain ⟨bound, mark⟩ := List.getElem?_eq_some_iff.mp mark
  have split : line.take place ++ 0x25 :: line.drop (place + 1) = line := by
    rw [← mark, List.getElem_cons_drop, List.take_append_drop]
  have decoded := encoding.characters_append (show (0x25 : UInt8) < 0x80 by decide)
    (line.take place) (line.drop (place + 1))
  rw [split, encoding.characters_ascii single] at decoded
  rw [decoded]
  exact tokens_append_comment starts _

/-- One mark covers a line, since no octet from 0x80 on comes before it. -/
theorem covered_iff :
    Covered line ↔ (∀ octet ∈ line, octet < 0x80) ∨ ∃ mark, CommentAt line mark := by
  constructor
  · intro covered
    by_cases single : ∀ octet ∈ line, octet < 0x80
    · exact .inl single
    · obtain ⟨octet, member, several⟩ : ∃ octet ∈ line, ¬ octet < 0x80 := by
        simpa using single
      obtain ⟨place, found⟩ := List.getElem?_of_mem member
      obtain ⟨mark, _, comment⟩ := covered place octet found (UInt8.not_lt.mp several)
      exact .inr ⟨mark, comment⟩
  · intro hidden place octet found several
    rcases hidden with single | ⟨mark, comment⟩
    · exact absurd (single octet (List.mem_of_getElem? found)) (UInt8.not_lt.mpr several)
    · refine ⟨mark, Nat.lt_of_not_le ?_, comment⟩
      intro before
      obtain ⟨atMark, single, _⟩ := comment
      rcases Nat.lt_or_eq_of_le before with before | rfl
      · have member : octet ∈ line.take mark := by
          rw [← List.getElem?_take_of_lt before] at found
          exact List.mem_of_getElem? found
        exact absurd (single octet member) (UInt8.not_lt.mpr several)
      · rw [found] at atMark
        cases atMark
        exact absurd several (by decide)

theorem Covered.tokens_eq (covered : Covered line) (left right : Encoding) :
    tokens (left.characters line) = tokens (right.characters line) := by
  rcases covered_iff.mp covered with single | ⟨mark, comment⟩
  · rw [left.characters_ascii single, right.characters_ascii single]
  · rw [comment.tokens_eq left, comment.tokens_eq right]

end Line

/-- If octets from 0x80 on occur only in comments, the choice of the encoding does not matter. -/
theorem decode_irrelevant_of_covered {octets : List UInt8}
    (covered : ∀ line ∈ octets.splitOn 0x0A, Line.Covered line) :
    tokenize (Encoding.utf8.decode octets) = tokenize (Encoding.latin1.decode octets) ∧
      compile (Encoding.utf8.decode octets) = compile (Encoding.latin1.decode octets) := by
  have same : tokenize (Encoding.utf8.decode octets) = tokenize (Encoding.latin1.decode octets) := by
    rw [tokenize_decode, tokenize_decode]
    refine List.flatMap_congr ?_
    intro line member
    exact (covered line member).tokens_eq .utf8 .latin1
  exact ⟨same, congrArg build same⟩

theorem decode_irrelevant_of_broken_character :
    (∀ line ∈ List.splitOn 0x0A [0x44, 0x7D, 0x25, 0xC3, 0x0A, 0x25, 0xE9, 0x85, 0xA0, 0x0A, 0x23],
      Line.Covered line) ∧
    Encoding.utf8.decode [0x44, 0x7D, 0x25, 0xC3, 0x0A, 0x25, 0xE9, 0x85, 0xA0, 0x0A, 0x23] ≠
      Encoding.latin1.decode [0x44, 0x7D, 0x25, 0xC3, 0x0A, 0x25, 0xE9, 0x85, 0xA0, 0x0A, 0x23] ∧
    compile (Encoding.utf8.decode
        [0x44, 0x7D, 0x25, 0xC3, 0x0A, 0x25, 0xE9, 0x85, 0xA0, 0x0A, 0x23]) =
      compile (Encoding.latin1.decode
        [0x44, 0x7D, 0x25, 0xC3, 0x0A, 0x25, 0xE9, 0x85, 0xA0, 0x0A, 0x23]) := by
  have lines : List.splitOn (0x0A : UInt8)
      [0x44, 0x7D, 0x25, 0xC3, 0x0A, 0x25, 0xE9, 0x85, 0xA0, 0x0A, 0x23] =
        [[0x44, 0x7D, 0x25, 0xC3], [0x25, 0xE9, 0x85, 0xA0], [0x23]] := rfl
  have covered : ∀ line ∈ List.splitOn 0x0A
      [0x44, 0x7D, 0x25, 0xC3, 0x0A, 0x25, 0xE9, 0x85, 0xA0, 0x0A, 0x23], Line.Covered line := by
    rw [lines, List.forall_mem_cons, List.forall_mem_cons, List.forall_mem_singleton]
    refine ⟨Line.covered_iff.mpr (.inr ⟨2, rfl, ?_, by decide⟩),
      Line.covered_iff.mpr (.inr ⟨0, rfl, ?_, by decide⟩), Line.covered_iff.mpr (.inl ?_)⟩
    · simp
    · simp
    · simp
  exact ⟨covered, by decide, (decode_irrelevant_of_covered covered).2⟩

end Encodings

section EndMark

theorem Builder.run_append_end (builder : Builder) (index : Nat) (before after : List Token) :
    builder.run index (before ++ .endOfFile :: after) =
      builder.run index (before ++ [.endOfFile]) := by
  induction before generalizing builder index with
  | nil => rfl
  | cons token before ih =>
      rw [List.cons_append, List.cons_append, run, run]
      cases builder.step index token with
      | error reason => rfl
      | ok next =>
          simp only
          rw [ih]

theorem tokenize_append_line (before after : Text) :
    tokenize (before ++ '\n' :: after) = tokenize before ++ tokenize after := by
  rw [tokenize_eq_flatMap, Text.lines, List.splitOn_append_cons_self, List.flatMap_append,
    tokenize_eq_flatMap, tokenize_eq_flatMap, Text.lines, Text.lines]

/-- Nothing behind a line with the end mark alone has any influence: the result is that of the tokens
before it and the mark. -/
theorem compile_ends_at_mark (before left right : Text) :
    compile (before ++ '\n' :: '#' :: '\n' :: left) =
        compile (before ++ '\n' :: '#' :: '\n' :: right) ∧
      compile (before ++ '\n' :: '#' :: '\n' :: left) = build (tokenize before ++ [.endOfFile]) := by
  have cut : ∀ after : Text, compile (before ++ '\n' :: '#' :: '\n' :: after) =
      build (tokenize before ++ [.endOfFile]) := by
    intro after
    have mark : Line.tokens ['#'] = [.endOfFile] := by decide +kernel
    have lineless : '\n' ∉ ['#'] := by decide
    have line : tokenize ('#' :: '\n' :: after) = Line.tokens ['#'] ++ tokenize after :=
      tokenize_line lineless after
    rw [compile, tokenize_append_line, line, mark]
    exact Builder.run_append_end .initial 0 (tokenize before) (tokenize after)
  exact ⟨(cut left).trans (cut right).symm, cut left⟩

end EndMark

end TapeFlow

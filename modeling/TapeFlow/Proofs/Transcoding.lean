import TapeFlow.Proofs.Decoding

namespace TapeFlow

/-! Octets that are written for a text are read as that text with its line ends unified, in both
encodings. Octets that are written for no text are read differently by the two, but every one of them
that is not a character by itself leaves something behind, so no carriage return meets a line feed in
one reading that it does not meet in the other. -/

/-- One text becomes another by having a part replaced: both consist of the same pieces, none of which
holds the part, with the part between them in the one and what replaces it in the other. -/
def Text.Replaced (part substitute text result : Text) : Prop :=
  ∃ pieces : List Text, pieces ≠ [] ∧ (∀ piece ∈ pieces, ¬ part <:+: piece) ∧
    text = part.intercalate pieces ∧ result = substitute.intercalate pieces

namespace Text

section LineEnds

variable {text left right result : Text}

theorem unifyNewlines_cons (c : Char) (rest : Text) :
    unifyNewlines (c :: rest) =
      if c = '\r' ∧ rest.head? = some '\n' then rest.unifyNewlines else c :: rest.unifyNewlines := by
  have feed (rest : Text) : unifyNewlines ('\n' :: rest) = '\n' :: rest.unifyNewlines := by
    rw [unifyNewlines]
    intro rest same
    cases same
  split
  · rename_i pair
    obtain ⟨rfl, feeds⟩ := pair
    obtain ⟨rest, rfl⟩ := List.head?_eq_some_iff.mp feeds
    rw [unifyNewlines, feed]
  · rename_i other
    rw [unifyNewlines]
    intro more returns feeds
    exact other ⟨returns, by rw [feeds, List.head?_cons]⟩

/-- A text can be cut anywhere but inside a pair. -/
theorem unifyNewlines_append (apart : left.getLast? = some '\r' → right.head? ≠ some '\n') :
    (left ++ right).unifyNewlines = left.unifyNewlines ++ right.unifyNewlines := by
  induction left with
  | nil => rfl
  | cons c left ih =>
      rw [List.cons_append, unifyNewlines_cons, unifyNewlines_cons]
      cases left with
      | nil =>
          have alone : ¬ (c = '\r' ∧ right.head? = some '\n') := by
            intro pair
            obtain ⟨rfl, feeds⟩ := pair
            exact apart rfl feeds
          rw [List.nil_append, if_neg alone, if_neg (by simp)]
          rfl
      | cons d left =>
          rw [ih (by rwa [List.getLast?_cons_cons] at apart), List.cons_append, List.head?_cons,
            List.head?_cons]
          by_cases pair : c = '\r' ∧ some d = some '\n'
          · rw [if_pos pair, if_pos pair]
          · rw [if_neg pair, if_neg pair, List.cons_append]

theorem unifyNewlines_of_unbroken (unbroken : ¬ ['\r', '\n'] <:+: text) :
    text.unifyNewlines = text := by
  induction text with
  | nil => rfl
  | cons c text ih =>
      rw [List.infix_cons_iff, not_or] at unbroken
      have alone : ¬ (c = '\r' ∧ text.head? = some '\n') := by
        intro pair
        obtain ⟨rfl, feeds⟩ := pair
        obtain ⟨rest, rfl⟩ := List.head?_eq_some_iff.mp feeds
        exact unbroken.1 (by simp)
      rw [unifyNewlines_cons, if_neg alone, ih unbroken.2]

theorem unifyNewlines_append_of_not_mem (absent : '\r' ∉ left) (right : Text) :
    (left ++ right).unifyNewlines = left ++ right.unifyNewlines := by
  rw [unifyNewlines_append, unifyNewlines_of_unbroken]
  · intro broken
    exact absent (broken.subset (by simp))
  · intro last
    exact absurd (List.mem_of_getLast? last) absent

theorem filter_unifyNewlines_cons {kept : Char → Bool}
    (feeds : left.head? = some '\n' ↔ right.head? = some '\n')
    (same : left.unifyNewlines.filter kept = right.unifyNewlines.filter kept) (c : Char) :
    (unifyNewlines (c :: left)).filter kept = (unifyNewlines (c :: right)).filter kept := by
  rw [unifyNewlines_cons, unifyNewlines_cons]
  by_cases pair : c = '\r' ∧ left.head? = some '\n'
  · rw [if_pos pair, if_pos (by rwa [← feeds]), same]
  · rw [if_neg pair, if_neg (by rwa [← feeds]), List.filter_cons, List.filter_cons, same]

theorem unifyNewlines_intercalate {pieces : List Text}
    (unbroken : ∀ piece ∈ pieces, ¬ ['\r', '\n'] <:+: piece) :
    unifyNewlines (['\r', '\n'].intercalate pieces) = ['\n'].intercalate pieces := by
  induction pieces with
  | nil => rfl
  | cons piece pieces ih =>
      obtain ⟨first, unbroken⟩ := List.forall_mem_cons.mp unbroken
      cases pieces with
      | nil => simpa using unifyNewlines_of_unbroken first
      | cons next pieces =>
          rw [List.intercalate_cons_cons, List.intercalate_cons_cons, List.append_assoc,
            unifyNewlines_append (by simp), unifyNewlines_of_unbroken first, List.append_assoc,
            ← ih unbroken]
          rfl

theorem replaced_unifyNewlines (text : Text) :
    Replaced ['\r', '\n'] ['\n'] text text.unifyNewlines := by
  have longer (part piece : Text) (c : Char) (pieces : List Text) :
      part.intercalate ((c :: piece) :: pieces) = c :: part.intercalate (piece :: pieces) := by
    cases pieces <;> simp [List.intercalate_cons_cons]
  fun_induction unifyNewlines text with
  | case1 rest ih =>
      obtain ⟨pieces, nonempty, unbroken, cut, joined⟩ := ih
      obtain ⟨piece, pieces, rfl⟩ := List.exists_cons_of_ne_nil nonempty
      refine ⟨[] :: piece :: pieces, by simp, ?_, ?_, ?_⟩
      · exact List.forall_mem_cons.mpr ⟨by simp, unbroken⟩
      · rw [List.intercalate_cons_cons, ← cut]
        rfl
      · rw [List.intercalate_cons_cons, ← joined]
        rfl
  | case2 c rest other ih =>
      obtain ⟨pieces, nonempty, unbroken, cut, joined⟩ := ih
      obtain ⟨piece, pieces, rfl⟩ := List.exists_cons_of_ne_nil nonempty
      obtain ⟨first, unbroken⟩ := List.forall_mem_cons.mp unbroken
      refine ⟨(c :: piece) :: pieces, by simp, ?_, by rw [longer, cut], by rw [longer, joined]⟩
      refine List.forall_mem_cons.mpr ⟨?_, unbroken⟩
      intro broken
      rcases List.infix_cons_iff.mp broken with start | inside
      · rw [List.cons_prefix_cons] at start
        obtain ⟨rfl, more, rfl⟩ := start
        -- The pair would stand at the front of the text, where the replacement has found none.
        exact other _ rfl (cut.trans (longer _ more '\n' pieces))
      · exact first inside
  | case3 => exact ⟨[[]], by simp, by simp, rfl, rfl⟩

theorem replaced_iff :
    Replaced ['\r', '\n'] ['\n'] text result ↔ result = text.unifyNewlines := by
  constructor
  · intro replaced
    obtain ⟨pieces, _, unbroken, rfl, rfl⟩ := replaced
    exact (unifyNewlines_intercalate unbroken).symm
  · intro same
    rw [same]
    exact replaced_unifyNewlines text

end LineEnds

end Text

namespace Utf8

section Remains

variable {begun : Option Begun} {octet : UInt8}

/-- A character by itself comes behind the replacement of what it breaks off. -/
theorem decodeFrom_single (sound : Sound begun) (single : octet < 0x80) (rest : List UInt8) :
    decodeFrom begun (octet :: rest) =
      begun.toList.map (fun _ => replacement) ++ Char.ofNat octet.toNat :: decodeFrom none rest := by
  cases begun with
  | none => rw [decodeFrom_cons, shown, step, start_single single]; rfl
  | some begun =>
      rw [decodeFrom_cons, shown, step, (sound begun rfl).extend_single single]; rfl

theorem isAscii_of_mem_shown (sound : Sound begun) (several : ¬ octet < 0x80) {c : Char}
    (member : c ∈ shown begun octet) : isAscii c = false := by
  have nothing := filter_shown sound octet
  rw [if_neg several, List.filter_eq_nil_iff] at nothing
  simpa using nothing c member

/-- Every octet shows something or is part of a character that is begun. -/
theorem shown_ne_nil_or_begun (begun : Option Begun) (octet : UInt8) :
    shown begun octet ≠ [] ∨ (step begun octet).begun ≠ none := by
  rw [shown, ne_eq, List.map_eq_nil_iff]
  cases begun with
  | none =>
      rw [step, start]
      split
      · simp
      · split <;> simp
  | some begun =>
      rw [step, Begun.extend]
      split
      · split <;> simp
      · simp

/-- A line feed comes first only where it is the first octet and breaks nothing off. -/
theorem head?_decodeFrom (sound : Sound begun) (octets : List UInt8) :
    (decodeFrom begun octets).head? = some '\n' ↔ begun = none ∧ octets.head? = some 0x0A := by
  induction octets generalizing begun with
  | nil => cases begun <;> simp [decodeFrom, partsFrom, replacement]
  | cons octet octets ih =>
      by_cases single : octet < 0x80
      · rw [decodeFrom_single sound single]
        cases begun with
        | none => simp [ofNat_eq_newline_iff]
        | some begun => simp [replacement]
      · have other : octet ≠ 0x0A := by
          intro same
          rw [same] at single
          exact single (by decide)
        have outside : ¬ (begun = none ∧ (octet :: octets).head? = some 0x0A) := by
          simp [other]
        refine iff_of_false ?_ outside
        rw [decodeFrom_cons]
        -- An octet that shows nothing is part of a begun character, which comes before all others.
        cases shows : shown begun octet with
        | nil =>
            have goesOn := (shown_ne_nil_or_begun begun octet).resolve_left (by simp [shows])
            rw [List.nil_append, ih (sound.step octet)]
            exact fun ends => goesOn ends.1
        | cons c more =>
            have high := isAscii_of_mem_shown sound single (by rw [shows]; exact List.mem_cons_self)
            rw [List.cons_append, List.head?_cons, Option.some.injEq]
            intro same
            rw [same] at high
            cases high

theorem filter_unifyNewlines_append {left : Text} (high : ∀ c ∈ left, isAscii c = false)
    (right : Text) :
    (left ++ right).unifyNewlines.filter isAscii = right.unifyNewlines.filter isAscii := by
  have absent : '\r' ∉ left := by
    intro member
    cases high _ member
  have hidden : left.filter isAscii = [] := by
    simpa using high
  rw [Text.unifyNewlines_append_of_not_mem absent, List.filter_append, hidden, List.nil_append]

/-- Both encodings find the same pairs, so they show the same characters below 0x80. -/
theorem filter_unifyNewlines_decodeFrom (sound : Sound begun) (octets : List UInt8) :
    (decodeFrom begun octets).unifyNewlines.filter isAscii =
      (Encoding.latin1.decode octets).filter isAscii := by
  induction octets generalizing begun with
  | nil => cases begun <;> rfl
  | cons octet octets ih =>
      have plain : Encoding.latin1.decode (octet :: octets) =
          Text.unifyNewlines ([Char.ofNat octet.toNat] ++ Encoding.latin1.characters octets) := rfl
      rw [plain]
      by_cases single : octet < 0x80
      · have broken : ∀ c ∈ begun.toList.map fun _ => replacement, isAscii c = false := by
          cases begun <;> simp [isAscii, replacement]
        have feeds : (decodeFrom none octets).head? = some '\n' ↔
            (Encoding.latin1.characters octets).head? = some '\n' := by
          rw [head?_decodeFrom sound_none, Encoding.characters, List.head?_map]
          simp [ofNat_eq_newline_iff]
        rw [decodeFrom_single sound single, filter_unifyNewlines_append broken]
        exact Text.filter_unifyNewlines_cons feeds (ih sound_none) _
      · have high : ∀ c ∈ [Char.ofNat octet.toNat], isAscii c = false := by
          simpa [isAscii, toNat_single, UInt8.lt_iff_toNat_lt] using single
        rw [decodeFrom_cons, filter_unifyNewlines_append fun c => isAscii_of_mem_shown sound single,
          filter_unifyNewlines_append high]
        exact ih (sound.step octet)

end Remains

end Utf8

/-- The octets with the codes of characters, which are below 0x100. -/
def Text.codes (text : Text) : List UInt8 :=
  text.map fun c => UInt8.ofNat c.toNat

namespace Encoding

variable {text : Text}

theorem decode_encode (text : Text) : utf8.decode (Utf8.encode text) = text.unifyNewlines := by
  have read : utf8.characters (Utf8.encode text) = text := by
    rw [characters, Utf8.decodeLossy, Utf8.parts_encode, List.map_map]
    exact List.map_id' text
  rw [decode, read]

theorem codes_toNat (low : ∀ c ∈ text, c.toNat ≤ 0xFF) :
    text.codes.map UInt8.toNat = text.map Char.toNat := by
  rw [Text.codes, List.map_map]
  refine List.map_congr_left ?_
  intro c member
  have small := low c member
  exact Utf8.toNat_octet (by omega)

theorem decode_codes (low : ∀ c ∈ text, c.toNat ≤ 0xFF) :
    latin1.decode text.codes = text.unifyNewlines := by
  have read : latin1.characters text.codes = text := by
    calc latin1.characters text.codes
        = (text.codes.map UInt8.toNat).map Char.ofNat := by rw [List.map_map]; rfl
      _ = text.map (Char.ofNat ∘ Char.toNat) := by rw [codes_toNat low, List.map_map]
      _ = text := by simp [Function.comp_def, Char.ofNat_toNat]
  rw [decode, read]

/-- Decoding undoes encoding but for line ends, and what can be encoded in both ways is decoded to the
same text. Whatever octets there are, both ways show the same characters below 0x80. -/
theorem decode_undoes_encoding :
    (∀ text result : Text, Text.Replaced ['\r', '\n'] ['\n'] text result ↔
      result = utf8.decode (Utf8.encode text)) ∧
    (∀ text : Text, (∀ c ∈ text, c.toNat ≤ 0xFF) →
      text.codes.map UInt8.toNat = text.map Char.toNat ∧
        latin1.decode text.codes = utf8.decode (Utf8.encode text)) ∧
    ∀ octets : List UInt8,
      (utf8.decode octets).filter Utf8.isAscii = (latin1.decode octets).filter Utf8.isAscii := by
  refine ⟨?_, ?_, ?_⟩
  · intro text result
    rw [decode_encode]
    exact Text.replaced_iff
  · intro text low
    exact ⟨codes_toNat low, (decode_codes low).trans (decode_encode text).symm⟩
  · intro octets
    exact Utf8.filter_unifyNewlines_decodeFrom Utf8.sound_none octets

theorem decode_undoes_encoding_of_accent :
    (∀ c ∈ ['é', '\r', '\r', '\n'], c.toNat ≤ 0xFF) ∧
      latin1.decode [0xE9, 0x0D, 0x0D, 0x0A] = utf8.decode [0xC3, 0xA9, 0x0D, 0x0D, 0x0A] := by
  have low : ∀ c ∈ ['é', '\r', '\r', '\n'], c.toNat ≤ 0xFF := by simp
  exact ⟨low, (decode_undoes_encoding.2.1 _ low).2⟩

end Encoding

end TapeFlow

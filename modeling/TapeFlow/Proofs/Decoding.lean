import Mathlib.Algebra.Group.Nat.Defs
import Mathlib.Tactic.SplitIfs
import TapeFlow.Proofs.Texts
import TapeFlow.Text.Encoding

namespace TapeFlow

namespace Utf8

/-! Octets below 0x80 are characters by themselves, and no others become characters below 0x80. Both
come from what a begun character can still become: `Sound` bounds it on either side, and every octet
that continues a character narrows the bounds. -/

variable {begun : Begun} {octet : UInt8}

/-- The least code point that a begun character can become. -/
def Begun.least (begun : Begun) : Nat :=
  (begun.value * 64 + (begun.low.toNat - 0x80)) * 64 ^ begun.owed

/-- The first code point above all that a begun character can become. -/
def Begun.above (begun : Begun) : Nat :=
  (begun.value * 64 + (begun.high.toNat - 0x80) + 1) * 64 ^ begun.owed

structure Begun.Sound (begun : Begun) : Prop where
  continued : 0x80 ≤ begun.low
  not_single : 0x80 ≤ begun.least
  valid : begun.above ≤ 0xD800 ∨ 0xE000 ≤ begun.least ∧ begun.above ≤ 0x110000

theorem Begun.of?_sound (found : Begun.of? octet = some begun) : begun.Sound := by
  unfold Begun.of? at found
  simp only [UInt8.le_iff_toNat_le, UInt8.toNat_ofNat, ← UInt8.toNat_inj] at found
  split_ifs at found
  all_goals
    rw [← Option.some.inj found]
    refine ⟨by simp, ?_, ?_⟩ <;> simp [Begun.least, Begun.above] <;> omega

theorem start_single (single : octet < 0x80) :
    start octet = ⟨[some (Char.ofNat octet.toNat)], none⟩ :=
  if_pos single

theorem Begun.Sound.extend_single (sound : begun.Sound) (single : octet < 0x80) :
    begun.extend octet = ⟨[none, some (Char.ofNat octet.toNat)], none⟩ := by
  have outside : ¬ (begun.low ≤ octet ∧ octet ≤ begun.high) := by
    intro inside
    exact absurd (UInt8.lt_of_le_of_lt (UInt8.le_trans sound.continued inside.1) single)
      (UInt8.lt_irrefl _)
  rw [extend, if_neg outside, start_single single]

theorem start_sound (found : (start octet).begun = some begun) : begun.Sound := by
  unfold start at found
  split at found
  · cases found
  · split at found
    · rename_i begins
      cases found
      exact Begun.of?_sound begins
    · cases found

/-- What an octet adds to a begun character keeps within its bounds. -/
theorem Begun.bounds (inside : begun.low ≤ octet ∧ octet ≤ begun.high) :
    begun.least ≤ (begun.value * 64 + (octet.toNat - 0x80)) * 64 ^ begun.owed ∧
      (begun.value * 64 + (octet.toNat - 0x80) + 1) * 64 ^ begun.owed ≤ begun.above := by
  rw [UInt8.le_iff_toNat_le, UInt8.le_iff_toNat_le] at inside
  exact ⟨Nat.mul_le_mul_right _ (by omega), Nat.mul_le_mul_right _ (by omega)⟩

theorem Begun.least_full (value owed : Nat) :
    Begun.least ⟨value, 0x80, 0xBF, owed⟩ = value * 64 ^ (owed + 1) := by
  simp [Begun.least, Nat.pow_succ', Nat.mul_assoc]

theorem Begun.above_full (value owed : Nat) :
    Begun.above ⟨value, 0x80, 0xBF, owed⟩ = (value + 1) * 64 ^ (owed + 1) := by
  have top : (0xBF : UInt8).toNat = 191 := rfl
  have sum : value * 64 + (191 - 0x80) + 1 = (value + 1) * 64 := by omega
  simp only [Begun.above, top, sum, Nat.pow_succ', Nat.mul_assoc]

theorem Begun.Sound.extend {next : Begun} (sound : begun.Sound)
    (found : (begun.extend octet).begun = some next) : next.Sound := by
  unfold Begun.extend at found
  split at found
  · rename_i inside
    obtain ⟨least, above⟩ := begun.bounds inside
    split at found
    · cases found
    · rename_i owed more
      rw [← Option.some.inj found]
      rw [more, ← Begun.least_full] at least
      rw [more, ← Begun.above_full] at above
      refine ⟨by simp, Nat.le_trans sound.not_single least, ?_⟩
      have valid := sound.valid
      omega
  · exact start_sound found

theorem toNat_ofNat {n : Nat} (valid : n.isValidChar) : (Char.ofNat n).toNat = n := by
  rw [Char.ofNat, dif_pos valid]
  rfl

theorem toNat_single (octet : UInt8) : (Char.ofNat octet.toNat).toNat = octet.toNat := by
  have small := octet.toNat_lt
  exact toNat_ofNat (.inl (by omega))

theorem ofNat_eq_newline_iff : Char.ofNat octet.toNat = '\n' ↔ octet = 0x0A := by
  constructor
  · intro same
    have code := congrArg Char.toNat same
    rw [toNat_single] at code
    exact UInt8.toNat_inj.mp code
  · intro same
    rw [same]
    rfl

/-- A character of several octets is none of those with one. -/
theorem Begun.Sound.not_ascii (sound : begun.Sound) (last : begun.owed = 0)
    (inside : begun.low ≤ octet ∧ octet ≤ begun.high) :
    0x80 ≤ (Char.ofNat (begun.value * 64 + (octet.toNat - 0x80))).toNat := by
  obtain ⟨least, above⟩ := begun.bounds inside
  rw [last, Nat.pow_zero, Nat.mul_one] at least above
  have range := sound.valid
  rw [toNat_ofNat (by simp only [Nat.isValidChar]; omega)]
  exact Nat.le_trans sound.not_single least

/-- What may be begun between two octets. -/
def Sound (begun : Option Begun) : Prop :=
  ∀ some, begun = .some some → some.Sound

theorem sound_none : Sound none := by
  intro some same
  cases same

theorem Sound.step {begun : Option Begun} (sound : Sound begun) (octet : UInt8) :
    Sound (step begun octet).begun := by
  intro next found
  cases begun with
  | none => exact start_sound found
  | some begun => exact (sound begun rfl).extend found

/-- The characters that an octet completes, with replacements for what it breaks off. -/
def shown (begun : Option Begun) (octet : UInt8) : Text :=
  (step begun octet).found.map (·.getD replacement)

/-- What octets are read as where a character may be begun before them. -/
def decodeFrom (begun : Option Begun) (octets : List UInt8) : Text :=
  (partsFrom begun octets).map (·.getD replacement)

theorem decodeFrom_cons (begun : Option Begun) (octet : UInt8) (rest : List UInt8) :
    decodeFrom begun (octet :: rest) =
      shown begun octet ++ decodeFrom (step begun octet).begun rest := by
  rw [decodeFrom, partsFrom, List.map_append, shown, decodeFrom]

def isAscii (c : Char) : Bool :=
  c.toNat < 0x80

theorem filter_start (octet : UInt8) :
    ((start octet).found.map (·.getD replacement)).filter isAscii =
      if octet < 0x80 then [Char.ofNat octet.toNat] else [] := by
  unfold start
  split
  · rename_i single
    have small : isAscii (Char.ofNat octet.toNat) = true := by
      rw [isAscii, toNat_single]
      simpa [UInt8.lt_iff_toNat_lt] using single
    simp [small]
  · split <;> simp [isAscii, replacement]

theorem filter_shown {begun : Option Begun} (sound : Sound begun) (octet : UInt8) :
    (shown begun octet).filter isAscii =
      if octet < 0x80 then [Char.ofNat octet.toNat] else [] := by
  cases begun with
  | none => exact filter_start octet
  | some begun =>
      have sound := sound begun rfl
      rw [shown, step, Begun.extend]
      split
      · rename_i inside
        have several : ¬ octet < 0x80 := UInt8.not_lt.mpr (UInt8.le_trans sound.continued inside.1)
        rw [if_neg several]
        split
        · rename_i last
          simpa [isAscii] using sound.not_ascii last inside
        · rfl
      · rw [← filter_start, List.map_cons, List.filter_cons_of_neg (by decide)]

/-- Every octet completes at most one character more than it begins. -/
theorem length_step_le (begun : Option Begun) (octet : UInt8) :
    (step begun octet).found.length + (step begun octet).begun.toList.length ≤
      begun.toList.length + 1 := by
  have started : (start octet).found.length + (start octet).begun.toList.length = 1 := by
    unfold start
    split
    · rfl
    · split <;> rfl
  cases begun with
  | none => exact Nat.le_of_eq started
  | some begun =>
      rw [step, Begun.extend]
      split
      · split <;> simp
      · simp only [List.length_cons, Option.toList_some, List.length_nil]
        omega

theorem length_partsFrom_le (begun : Option Begun) (octets : List UInt8) :
    (partsFrom begun octets).length ≤ begun.toList.length + octets.length := by
  induction octets generalizing begun with
  | nil => cases begun <;> simp [partsFrom]
  | cons octet octets ih =>
      have first := length_step_le begun octet
      have rest := ih (step begun octet).begun
      simp only [partsFrom, List.length_append, List.length_cons]
      omega

theorem filter_decodeFrom {begun : Option Begun} (sound : Sound begun) (octets : List UInt8) :
    (decodeFrom begun octets).filter isAscii =
      (octets.filter (· < 0x80)).map fun octet => Char.ofNat octet.toNat := by
  induction octets generalizing begun with
  | nil =>
      cases begun with
      | none => rfl
      | some begun => rfl
  | cons octet octets ih =>
      rw [decodeFrom_cons, List.filter_append, filter_shown sound, ih (sound.step octet)]
      by_cases single : octet < 0x80 <;> simp [single]

/-- Behind an octet that is a character by itself, reading starts anew. -/
theorem partsFrom_append {begun : Option Begun} (sound : Sound begun) (single : octet < 0x80)
    (before after : List UInt8) :
    partsFrom begun (before ++ octet :: after) =
      partsFrom begun before ++ some (Char.ofNat octet.toNat) :: partsFrom none after := by
  induction before generalizing begun with
  | nil =>
      cases begun with
      | none => simp [partsFrom, step, start_single single]
      | some begun => simp [partsFrom, step, (sound begun rfl).extend_single single]
  | cons first before ih =>
      rw [List.cons_append, partsFrom, partsFrom, ih (sound.step first), List.append_assoc]

section Encoding

/-! What is written for a character is read as that character. -/

variable {value owed n : Nat} {low high : UInt8}

theorem Begun.of?_two (least : 0xC2 ≤ n) (most : n ≤ 0xDF) :
    Begun.of? (UInt8.ofNat n) = some ⟨n - 0xC0, 0x80, 0xBF, 0⟩ := by
  have small : n % 256 = n := Nat.mod_eq_of_lt (by omega)
  simp only [Begun.of?, UInt8.le_iff_toNat_le, UInt8.toNat_ofNat', UInt8.toNat_ofNat, small]
  grind

theorem Begun.of?_three (least : 0xE0 ≤ n) (most : n ≤ 0xEF) :
    Begun.of? (UInt8.ofNat n) = some ⟨n - 0xE0, if n = 0xE0 then 0xA0 else 0x80,
      if n = 0xED then 0x9F else 0xBF, 1⟩ := by
  have small : n % 256 = n := Nat.mod_eq_of_lt (by omega)
  simp only [Begun.of?, UInt8.le_iff_toNat_le, ← UInt8.toNat_inj, UInt8.toNat_ofNat',
    UInt8.toNat_ofNat, small]
  grind

theorem Begun.of?_four (least : 0xF0 ≤ n) (most : n ≤ 0xF4) :
    Begun.of? (UInt8.ofNat n) = some ⟨n - 0xF0, if n = 0xF0 then 0x90 else 0x80,
      if n = 0xF4 then 0x8F else 0xBF, 2⟩ := by
  have small : n % 256 = n := Nat.mod_eq_of_lt (by omega)
  simp only [Begun.of?, UInt8.le_iff_toNat_le, ← UInt8.toNat_inj, UInt8.toNat_ofNat',
    UInt8.toNat_ofNat, small]
  grind

theorem partsFrom_more (inside : low ≤ octet ∧ octet ≤ high) (rest : List UInt8) :
    partsFrom (some ⟨value, low, high, owed + 1⟩) (octet :: rest) =
      partsFrom (some ⟨value * 64 + (octet.toNat - 0x80), 0x80, 0xBF, owed⟩) rest := by
  rw [partsFrom, step, Begun.extend, if_pos inside, List.nil_append]

theorem partsFrom_last (inside : low ≤ octet ∧ octet ≤ high) (rest : List UInt8) :
    partsFrom (some ⟨value, low, high, 0⟩) (octet :: rest) =
      some (Char.ofNat (value * 64 + (octet.toNat - 0x80))) :: partsFrom none rest := by
  rw [partsFrom, step, Begun.extend, if_pos inside, List.singleton_append]

theorem toNat_octet (small : n < 256) : (UInt8.ofNat n).toNat = n := by
  rw [UInt8.toNat_ofNat', Nat.mod_eq_of_lt small]

theorem octet_inside (small : n < 256) (least : low.toNat ≤ n) (most : n ≤ high.toNat) :
    low ≤ UInt8.ofNat n ∧ UInt8.ofNat n ≤ high := by
  rw [UInt8.le_iff_toNat_le, UInt8.le_iff_toNat_le, toNat_octet small]
  exact ⟨least, most⟩

theorem tail_inside (small : n < 64) :
    (0x80 : UInt8) ≤ UInt8.ofNat (n + 128) ∧ UInt8.ofNat (n + 128) ≤ 0xBF := by
  apply octet_inside
  · omega
  · exact Nat.le_add_left _ _
  · exact Nat.add_le_add_right (Nat.le_of_lt_succ small) 128

theorem partsFrom_begin {begun : Begun} (several : 0x80 ≤ n) (small : n < 256)
    (found : Begun.of? (UInt8.ofNat n) = some begun) (rest : List UInt8) :
    partsFrom none (UInt8.ofNat n :: rest) = partsFrom (some begun) rest := by
  have above : ¬ UInt8.ofNat n < 0x80 := by
    rw [UInt8.lt_iff_toNat_lt, toNat_octet small]
    exact Nat.not_lt.mpr several
  have started : start (UInt8.ofNat n) = ⟨[], some begun⟩ := by
    rw [start, if_neg above, found]
  rw [partsFrom, step, started, List.nil_append]

theorem partsFrom_two (least : 0x7F < value) (most : value ≤ 0x7FF) (rest : List UInt8) :
    partsFrom none
        (UInt8.ofNat (value / 64 % 32 + 192) :: UInt8.ofNat (value % 64 + 128) :: rest) =
      some (Char.ofNat value) :: partsFrom none rest := by
  have lead := Begun.of?_two (n := value / 64 % 32 + 192) (by omega) (by omega)
  have sum : (value / 64 % 32 + 192 - 0xC0) * 64 + (value % 64 + 128 - 0x80) = value := by omega
  rw [partsFrom_begin (by omega) (by omega) lead, partsFrom_last (tail_inside (by omega)),
    toNat_octet (by omega), sum]

/-- The bounds on the second octet hold because the value has no shorter form and is no surrogate. -/
theorem partsFrom_three (least : 0x7FF < value) (most : value ≤ 0xFFFF)
    (valid : value.isValidChar) (rest : List UInt8) :
    partsFrom none (UInt8.ofNat (value / 4096 % 16 + 224) ::
        UInt8.ofNat (value / 64 % 64 + 128) :: UInt8.ofNat (value % 64 + 128) :: rest) =
      some (Char.ofNat value) :: partsFrom none rest := by
  have lead := Begun.of?_three (n := value / 4096 % 16 + 224) (by omega) (by omega)
  simp only [Nat.isValidChar] at valid
  have inside : (if value / 4096 % 16 + 224 = 0xE0 then 0xA0 else 0x80) ≤
        UInt8.ofNat (value / 64 % 64 + 128) ∧
      UInt8.ofNat (value / 64 % 64 + 128) ≤
        if value / 4096 % 16 + 224 = 0xED then 0x9F else 0xBF := by
    apply octet_inside
    · omega
    · split
      · simp
        omega
      · simp
    · split <;> simp <;> omega
  have sum : ((value / 4096 % 16 + 224 - 0xE0) * 64 + (value / 64 % 64 + 128 - 0x80)) * 64 +
      (value % 64 + 128 - 0x80) = value := by omega
  rw [partsFrom_begin (by omega) (by omega) lead, partsFrom_more inside,
    partsFrom_last (tail_inside (by omega)), toNat_octet (by omega), toNat_octet (by omega), sum]

theorem partsFrom_four (least : 0xFFFF < value) (valid : value.isValidChar) (rest : List UInt8) :
    partsFrom none (UInt8.ofNat (value / 262144 % 8 + 240) ::
        UInt8.ofNat (value / 4096 % 64 + 128) :: UInt8.ofNat (value / 64 % 64 + 128) ::
        UInt8.ofNat (value % 64 + 128) :: rest) =
      some (Char.ofNat value) :: partsFrom none rest := by
  simp only [Nat.isValidChar] at valid
  have lead := Begun.of?_four (n := value / 262144 % 8 + 240) (by omega) (by omega)
  have inside : (if value / 262144 % 8 + 240 = 0xF0 then 0x90 else 0x80) ≤
        UInt8.ofNat (value / 4096 % 64 + 128) ∧
      UInt8.ofNat (value / 4096 % 64 + 128) ≤
        if value / 262144 % 8 + 240 = 0xF4 then 0x8F else 0xBF := by
    apply octet_inside
    · omega
    · split
      · simp
        omega
      · simp
    · split <;> simp <;> omega
  have sum : (((value / 262144 % 8 + 240 - 0xF0) * 64 + (value / 4096 % 64 + 128 - 0x80)) * 64 +
      (value / 64 % 64 + 128 - 0x80)) * 64 + (value % 64 + 128 - 0x80) = value := by omega
  rw [partsFrom_begin (by omega) (by omega) lead, partsFrom_more inside,
    partsFrom_more (tail_inside (by omega)), partsFrom_last (tail_inside (by omega)),
    toNat_octet (by omega), toNat_octet (by omega), toNat_octet (by omega), sum]

theorem partsFrom_encodeChar (c : Char) (rest : List UInt8) :
    partsFrom none (String.utf8EncodeChar c ++ rest) = some c :: partsFrom none rest := by
  have valid : c.toNat.isValidChar := c.valid
  have same : Char.ofNat c.toNat = c := Char.ofNat_toNat c
  have code : c.val.toNat = c.toNat := rfl
  rw [String.utf8EncodeChar.eq_1, code]
  split_ifs with one two three
  · have single : UInt8.ofNat c.toNat < 0x80 := by
      rw [UInt8.lt_iff_toNat_lt, toNat_octet (by omega)]
      exact Nat.lt_succ_of_le one
    rw [List.singleton_append, partsFrom, step, start_single single, toNat_octet (by omega), same,
      List.singleton_append]
  · simpa [same] using partsFrom_two (Nat.lt_of_not_le one) two rest
  · simpa [same] using partsFrom_three (Nat.lt_of_not_le two) three valid rest
  · simpa [same] using partsFrom_four (Nat.lt_of_not_le three) valid rest

theorem parts_encode (text : Text) : parts (encode text) = text.map some := by
  rw [parts, encode]
  induction text with
  | nil => rfl
  | cons c text ih => rw [List.flatMap_cons, partsFrom_encodeChar, ih, List.map_cons]

theorem decode?_encode (text : Text) : decode? (encode text) = some text := by
  rw [decode?, parts_encode]
  induction text with
  | nil => rfl
  | cons c text ih => rw [List.map_cons, List.mapM_cons, ih]; rfl

end Encoding

end Utf8

namespace Encoding

/-! What holds of both encodings: they agree on octets below 0x80, and what is above stays apart. -/

variable {octet : UInt8} {octets : List UInt8} (encoding : Encoding)

theorem characters_append (single : octet < 0x80) (before after : List UInt8) :
    encoding.characters (before ++ octet :: after) =
      encoding.characters before ++ Char.ofNat octet.toNat :: encoding.characters after := by
  cases encoding with
  | utf8 =>
      simp only [characters, Utf8.decodeLossy, Utf8.parts,
        Utf8.partsFrom_append Utf8.sound_none single, List.map_append, List.map_cons,
        Option.getD_some]
  | latin1 => simp only [characters, List.map_append, List.map_cons]

theorem characters_ascii (single : ∀ octet ∈ octets, octet < 0x80) :
    encoding.characters octets = octets.map fun octet => Char.ofNat octet.toNat := by
  induction octets with
  | nil => cases encoding <;> rfl
  | cons octet octets ih =>
      obtain ⟨first, rest⟩ := List.forall_mem_cons.mp single
      have nothing : encoding.characters [] = [] := by cases encoding <;> rfl
      have cut := encoding.characters_append first [] octets
      rw [List.nil_append, nothing, List.nil_append, ih rest] at cut
      rw [cut, List.map_cons]

theorem filter_characters (octets : List UInt8) :
    (encoding.characters octets).filter Utf8.isAscii =
      (octets.filter (· < 0x80)).map fun octet => Char.ofNat octet.toNat := by
  cases encoding with
  | utf8 => exact Utf8.filter_decodeFrom Utf8.sound_none octets
  | latin1 =>
      have single : (Utf8.isAscii ∘ fun octet : UInt8 => Char.ofNat octet.toNat) =
          fun octet => decide (octet < 0x80) := by
        funext octet
        simp [Utf8.isAscii, Utf8.toNat_single, UInt8.lt_iff_toNat_lt]
      rw [characters, List.filter_map, single]

theorem newline_not_mem (lineless : 0x0A ∉ octets) : '\n' ∉ encoding.characters octets := by
  intro member
  have ascii : '\n' ∈ (encoding.characters octets).filter Utf8.isAscii :=
    List.mem_filter.mpr ⟨member, rfl⟩
  rw [filter_characters, List.mem_map] at ascii
  obtain ⟨octet, inside, newline⟩ := ascii
  obtain rfl := Utf8.ofNat_eq_newline_iff.mp newline
  exact lineless (List.mem_filter.mp inside).1

/-- Lines are cut at the same places before and after decoding. -/
theorem lines_characters (octets : List UInt8) :
    (encoding.characters octets).lines = (octets.splitOn 0x0A).map encoding.characters := by
  have joined : ∀ lines : List (List UInt8), encoding.characters ([0x0A].intercalate lines) =
      ['\n'].intercalate (lines.map encoding.characters) := by
    intro lines
    induction lines with
    | nil => cases encoding <;> rfl
    | cons line lines ih =>
        cases lines with
        | nil => simp
        | cons next lines =>
            rw [List.intercalate_cons_cons, List.append_assoc, List.singleton_append,
              encoding.characters_append (by decide), ih]
            simp [List.intercalate_cons_cons]
  have lineless : ∀ line ∈ (octets.splitOn 0x0A).map encoding.characters, '\n' ∉ line := by
    intro line member
    obtain ⟨octets, cut, rfl⟩ := List.mem_map.mp member
    exact encoding.newline_not_mem (Text.not_mem_of_mem_splitOn cut)
  have nonempty : (octets.splitOn 0x0A).map encoding.characters ≠ [] := by
    simp
  rw [Text.lines, ← List.splitOn_intercalate '\n' lineless nonempty, ← joined,
    List.intercalate_splitOn]

theorem length_characters_le (octets : List UInt8) :
    (encoding.characters octets).length ≤ octets.length := by
  cases encoding with
  | utf8 => simpa [characters, Utf8.decodeLossy, Utf8.parts] using Utf8.length_partsFrom_le none octets
  | latin1 => simp [characters]

theorem length_unifyNewlines_le (text : Text) : text.unifyNewlines.length ≤ text.length := by
  fun_induction Text.unifyNewlines text with
  | case1 rest ih => simp only [List.length_cons]; omega
  | case2 c rest other ih => simp only [List.length_cons]; omega
  | case3 => exact Nat.le_refl _

theorem length_decode_le (octets : List UInt8) : (encoding.decode octets).length ≤ octets.length :=
  Nat.le_trans (length_unifyNewlines_le _) (encoding.length_characters_le octets)

end Encoding

end TapeFlow

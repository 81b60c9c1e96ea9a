import TapeFlow.Graph.Document
import TapeFlow.Proofs.Numerals

namespace TapeFlow.Json

/-! What the readers make of indented documents. Each of them is run on the text that is written for a
value, with any rest behind it: the reader gives the value and leaves the rest. -/

/-- What can stand behind a value of an indented document: a comma, the end of a line or nothing. -/
def Stops (rest : Text) : Prop :=
  ∀ c, rest.head? = some c → c = ',' ∨ c = '\n'

/-- The first character of a value: it tells the value from a gap and from the end of a list. -/
def Opens (text : Text) : Prop :=
  ∃ c rest, text = c :: rest ∧ Reader.isGap c = false ∧ c ≠ ']'

/-- A text that is the same between quotes. -/
def Plain (text : Text) : Prop :=
  ∀ c ∈ text, c ≠ '"' ∧ c ≠ '\\' ∧ ¬ c < ' '

instance : DecidablePred Plain := fun text =>
  List.decidableBAll (fun c => c ≠ '"' ∧ c ≠ '\\' ∧ ¬ c < ' ') text

theorem newline_blank (depth : Nat) : ∀ c ∈ newline depth, Reader.isGap c = true := by
  intro c member
  rcases List.mem_cons.mp member with rfl | member
  · rfl
  · rw [(List.mem_replicate.mp member).2]
    rfl

/-- The items of a block from its opening bracket on, or from behind one of them. -/
def spread (depth : Nat) (closing : Char) (first : Bool) : List Text → Text
  | [] => newline depth ++ [closing]
  | item :: more =>
    (if first then [] else [',']) ++ newline (depth + 1) ++ item ++ spread depth closing false more

theorem intercalate_append_eq_spread (depth : Nat) (closing : Char) (item : Text) (more : List Text) :
    (',' :: newline (depth + 1)).intercalate (item :: more) ++ newline depth ++ [closing] =
      item ++ spread depth closing false more := by
  induction more generalizing item with
  | nil => simp [spread]
  | cons next more ih =>
      rw [List.intercalate_cons_cons]
      simp only [List.append_assoc] at ih
      simp [spread, ih]

theorem block_nil (opening closing : Char) (depth : Nat) :
    block opening closing depth [] = [opening, closing] :=
  rfl

theorem block_cons (opening closing : Char) (depth : Nat) (item : Text) (more : List Text) :
    block opening closing depth (item :: more) =
      opening :: spread depth closing true (item :: more) := by
  have tail := intercalate_append_eq_spread depth closing item more
  simp only [List.append_assoc] at tail
  simp [block, spread, tail]

theorem opens_block {opening : Char} (solid : Reader.isGap opening = false) (inside : opening ≠ ']')
    (closing : Char) (depth : Nat) (items : List Text) :
    Opens (block opening closing depth items) := by
  cases items with
  | nil => exact ⟨opening, _, block_nil .., solid, inside⟩
  | cons item more => exact ⟨opening, _, block_cons .., solid, inside⟩

theorem opens_plainString (text : Text) : Opens (plainString text) :=
  ⟨'"', text ++ ['"'], rfl, by decide, by decide⟩

theorem stops_spread (depth : Nat) (closing : Char) (items : List Text) (rest : Text) :
    Stops (spread depth closing false items ++ rest) := by
  intro c head
  cases items with
  | nil => exact .inr (by simpa [spread, newline, eq_comm] using head)
  | cons item more => exact .inl (by simpa [spread, eq_comm] using head)

namespace Reader

variable {α β σ : Type} {text rest : Text}

theorem run_bind {reader : Reader α} {next : α → Reader β} {value : α}
    (first : reader.run text = .ok (value, rest)) :
    (reader >>= next).run text = (next value).run rest := by
  rw [StateT.run_bind, first]
  rfl

theorem run_drop (c : Char) (rest : Text) : drop.run (c :: rest) = .ok ((), rest) := rfl

theorem dropWhile_gap {gap : Text} {c : Char} (blank : ∀ c ∈ gap, isGap c = true)
    (solid : isGap c = false) (rest : Text) : (gap ++ c :: rest).dropWhile isGap = c :: rest := by
  rw [List.dropWhile_append_of_pos blank, List.dropWhile_cons_of_neg (by simp [solid])]

theorem run_peekPart? {gap : Text} {c : Char} (blank : ∀ c ∈ gap, isGap c = true)
    (solid : isGap c = false) (rest : Text) :
    peekPart?.run (gap ++ c :: rest) = .ok (some c, c :: rest) := by
  have found : peekPart?.run (gap ++ c :: rest) =
      .ok (((gap ++ c :: rest).dropWhile isGap).head?, (gap ++ c :: rest).dropWhile isGap) := rfl
  rw [found, dropWhile_gap blank solid]
  rfl

theorem run_peekPart?_cons {c : Char} (solid : isGap c = false) (rest : Text) :
    peekPart?.run (c :: rest) = .ok (some c, c :: rest) :=
  run_peekPart? (List.forall_mem_nil _) solid rest

/-- `reader` takes `text` for `value`, whatever gap is in front of it. -/
def Reads (reader : Reader α) (value : α) (text : Text) : Prop :=
  ∀ gap rest, (∀ c ∈ gap, isGap c = true) → Stops rest →
    reader.run (gap ++ (text ++ rest)) = .ok (value, rest)

theorem Reads.run {reader : Reader α} {value : α} (reads : reader.Reads value text)
    (stops : Stops rest) : reader.run (text ++ rest) = .ok (value, rest) :=
  reads [] rest (List.forall_mem_nil _) stops

theorem run_hasElement_first {c : Char} (next : peekPart?.run text = .ok (some c, rest))
    (inside : c ≠ ']') : (hasElement true).run text = .ok (true, rest) := by
  rw [hasElement, run_bind next]
  split
  · cases ‹some c = none›
  · cases ‹some c = some ']'›
    exact absurd rfl inside
  · rfl

theorem run_hasElement_later {c : Char} (next : peekPart?.run text = .ok (some c, rest))
    (inside : c ≠ ']') : (hasElement false).run (',' :: text) = .ok (true, rest) := by
  rw [hasElement, run_bind (run_peekPart?_cons (by decide) text)]
  -- Patterns that are characters do not reduce, so their cases are ruled out one by one.
  split
  · cases ‹some ',' = none›
  · rename_i same
    simp at same
  · cases ‹some ',' = some _›
    rw [if_neg Bool.false_ne_true, if_pos rfl, run_bind (run_drop ',' text), run_bind next]
    split
    · cases ‹some c = none›
    · cases ‹some c = some ']'›
      exact absurd rfl inside
    · rfl

theorem run_hasElement_spread {depth : Nat} {first : Bool} {item : Text} {more : List Text}
    (opens : Opens item) (rest : Text) :
    (hasElement first).run (spread depth ']' first (item :: more) ++ rest) =
      .ok (true, item ++ (spread depth ']' false more ++ rest)) := by
  obtain ⟨c, behind, rfl, solid, inside⟩ := opens
  have next := run_peekPart? (newline_blank (depth + 1)) solid
    (behind ++ (spread depth ']' false more ++ rest))
  cases first with
  | true => simpa [spread] using run_hasElement_first next inside
  | false => simpa [spread] using run_hasElement_later next inside

theorem run_hasElement_end {depth : Nat} {first : Bool} (rest : Text) :
    (hasElement first).run (spread depth ']' first [] ++ rest) = .ok (false, ']' :: rest) := by
  simp only [spread, List.append_assoc, List.cons_append, List.nil_append]
  rw [hasElement, run_bind (run_peekPart? (newline_blank depth) (by decide) _)]
  rfl

theorem run_hasElement_none {first : Bool} (rest : Text) :
    (hasElement first).run (']' :: rest) = .ok (false, ']' :: rest) :=
  rfl

/-- The clock is only asked for a character more than there are elements. -/
theorem run_elements {element : Reader α} {write : α → Text} {depth : Nat} {first : Bool}
    {values : List α} {clock : Text} (reads : ∀ value ∈ values, element.Reads value (write value))
    (opens : ∀ value ∈ values, Opens (write value)) (enough : values.length < clock.length)
    (rest : Text) :
    (elements element first clock).run (spread depth ']' first (values.map write) ++ rest) =
      .ok (values, rest) := by
  induction values generalizing first clock with
  | nil =>
      obtain ⟨tick, clock, rfl⟩ := List.exists_cons_of_length_pos enough
      rw [elements, List.map_nil, run_bind (run_hasElement_end rest)]
      rfl
  | cons value values ih =>
      obtain ⟨tick, clock, rfl⟩ := List.exists_cons_of_length_pos (Nat.zero_lt_of_lt enough)
      obtain ⟨readsValue, reads⟩ := List.forall_mem_cons.mp reads
      obtain ⟨opensValue, opens⟩ := List.forall_mem_cons.mp opens
      have shorter : values.length < clock.length := Nat.lt_of_succ_lt_succ enough
      have read := readsValue.run (stops_spread depth ']' (values.map write) rest)
      rw [elements, List.map_cons, run_bind (run_hasElement_spread opensValue rest), if_pos rfl,
        run_bind read, run_bind (ih reads opens shorter)]
      rfl

theorem length_lt_spread (depth : Nat) (closing : Char) (first : Bool) (items : List Text) :
    items.length < (spread depth closing first items).length := by
  induction items generalizing first with
  | nil => simp [spread]
  | cons item more ih =>
      have shorter := ih false
      simp only [spread, newline, List.length_append, List.length_cons]
      omega

theorem run_list {element : Reader α} {gap : Text} (blank : ∀ c ∈ gap, isGap c = true)
    (behind : Text) :
    (list element).run (gap ++ '[' :: behind) = (elements element true behind).run behind := by
  rw [list, run_bind (run_peekPart? blank (by decide) behind)]
  rfl

theorem list_reads {element : Reader α} {write : α → Text} {depth : Nat} {values : List α}
    (reads : ∀ value ∈ values, element.Reads value (write value))
    (opens : ∀ value ∈ values, Opens (write value)) :
    (list element).Reads values (array depth (values.map write)) := by
  intro gap rest blank _
  cases values with
  | nil =>
      rw [array, List.map_nil, block_nil, List.cons_append, run_list blank,
        List.cons_append, List.nil_append, elements, run_bind (run_hasElement_none rest)]
      rfl
  | cons value values =>
      have enough := length_lt_spread depth ']' true ((value :: values).map write)
      rw [List.length_map] at enough
      rw [array, List.map_cons, block_cons, List.cons_append, run_list blank, ← List.map_cons]
      apply run_elements reads opens
      rw [List.length_append]
      exact Nat.lt_add_right _ enough

theorem run_elementAt_spread {element : Reader α} {shape : Shape} {position depth : Nat}
    {value : α} {item : Text} {more : List Text} (reads : element.Reads value item)
    (opens : Opens item) (rest : Text) :
    (elementAt shape position element).run
        (spread depth ']' (position = 0) (item :: more) ++ rest) =
      .ok (value, spread depth ']' false more ++ rest) := by
  rw [elementAt, run_bind (run_hasElement_spread opens rest), if_pos rfl,
    reads.run (stops_spread depth ']' more rest)]

theorem run_endList_spread {depth : Nat} (rest : Text) :
    endList.run (spread depth ']' false [] ++ rest) = .ok ((), rest) := by
  simp only [spread, List.append_assoc, List.cons_append, List.nil_append]
  rw [endList, run_bind (run_peekPart? (newline_blank depth) (by decide) _)]
  rfl

end Reader

theorem stringBody_plain {code : Text → Except ReadError (Char × Nat)} {text : Text}
    (plain : Plain text) (rest : Text) : stringBody code (text ++ '"' :: rest) = .ok (text, rest) := by
  induction text with
  | nil => simp [stringBody]
  | cons c text ih =>
      obtain ⟨⟨unquoted, unescaped, printable⟩, plain⟩ := List.forall_mem_cons.mp plain
      simp only [List.cons_append, stringBody, unquoted, unescaped, printable, if_false, ih plain]
      rfl

namespace Reader

variable {α β σ : Type} {text rest : Text}

theorem run_mark {gap : Text} {c : Char} (blank : ∀ c ∈ gap, isGap c = true)
    (solid : isGap c = false) (rest : Text) : (mark c).run (gap ++ c :: rest) = .ok ((), rest) := by
  have skipped : skipGap.run (gap ++ c :: rest) = .ok ((), c :: rest) := by
    have found : skipGap.run (gap ++ c :: rest) = .ok ((), (gap ++ c :: rest).dropWhile isGap) := rfl
    rw [found, dropWhile_gap blank solid]
  have next : peek?.run (c :: rest) = .ok (some c, c :: rest) := rfl
  rw [mark, run_bind skipped, exactly, run_bind next]
  dsimp only
  rw [if_pos rfl, run_bind (run_drop c rest)]
  rfl

theorem run_string (plain : Plain text) (rest : Text) :
    string.run (text ++ '"' :: rest) = .ok (text, rest) :=
  stringBody_plain plain rest

theorem run_nextKey?_end {depth : Nat} {first : Bool} (rest : Text) :
    (nextKey? first).run (spread depth '\x7d' first [] ++ rest) = .ok (none, rest) := by
  simp only [spread, List.append_assoc, List.cons_append, List.nil_append]
  rw [nextKey?, run_bind (run_peekPart? (newline_blank depth) (by decide) _)]
  rfl

theorem run_key {gap key : Text} (blank : ∀ c ∈ gap, isGap c = true) (plain : Plain key)
    (rest : Text) :
    (do mark '"'; return some (← string) : Reader (Option Text)).run
        (gap ++ '"' :: (key ++ '"' :: rest)) = .ok (some key, rest) := by
  rw [run_bind (run_mark blank (by decide) _), run_bind (run_string plain rest)]
  rfl

theorem run_nextKey?_first {gap key : Text} (blank : ∀ c ∈ gap, isGap c = true)
    (plain : Plain key) (rest : Text) :
    (nextKey? true).run (gap ++ (plainString key ++ rest)) = .ok (some key, rest) := by
  have quoted : plainString key ++ rest = '"' :: (key ++ '"' :: rest) := by simp [plainString]
  rw [quoted, nextKey?, run_bind (run_peekPart? blank (by decide) _)]
  split
  · cases ‹some '"' = none›
  · rename_i same
    simp at same
  · exact run_key (List.forall_mem_nil _) plain rest

theorem run_nextKey?_later {gap key : Text} (blank : ∀ c ∈ gap, isGap c = true)
    (plain : Plain key) (rest : Text) :
    (nextKey? false).run (',' :: (gap ++ (plainString key ++ rest))) = .ok (some key, rest) := by
  have quoted : plainString key ++ rest = '"' :: (key ++ '"' :: rest) := by simp [plainString]
  rw [quoted, nextKey?, run_bind (run_peekPart?_cons (by decide) _)]
  split
  · cases ‹some ',' = none›
  · rename_i same
    simp at same
  · cases ‹some ',' = some _›
    simp only [Bool.not_false, if_true]
    rw [run_bind (run_drop _ _)]
    exact run_key blank plain rest

theorem run_nextKey?_spread {depth : Nat} {first : Bool} {key : String} {value : Text}
    {more : List Text} (plain : Plain key.toList) (rest : Text) :
    (nextKey? first).run (spread depth '\x7d' first (member key value :: more) ++ rest) =
      .ok (some key.toList, ": ".toList ++ (value ++ (spread depth '\x7d' false more ++ rest))) := by
  have blank := newline_blank (depth + 1)
  cases first with
  | true => simpa [spread, member] using run_nextKey?_first blank plain _
  | false => simpa [spread, member] using run_nextKey?_later blank plain _

/-- The members of an object, taken in one by one. -/
inductive Fills (take : Text → σ → Reader σ) : σ → List Text → σ → Prop
  | done {fields : σ} : Fills take fields [] fields
  | next {fields filled last : σ} {key : String} {value : Text} {more : List Text}
      (plain : Plain key.toList)
      (taken : ∀ rest, Stops rest →
        (take key.toList fields).run (": ".toList ++ (value ++ rest)) = .ok (filled, rest))
      (fills : Fills take filled more last) :
      Fills take fields (member key value :: more) last

theorem Fills.run_members {take : Text → σ → Reader σ} {fields last : σ} {items : List Text}
    {depth : Nat} {first : Bool} {clock : Text} (fills : Fills take fields items last)
    (enough : items.length < clock.length) (rest : Text) :
    (members take first fields clock).run (spread depth '\x7d' first items ++ rest) =
      .ok (last, rest) := by
  induction fills generalizing first clock with
  | done =>
      obtain ⟨tick, clock, rfl⟩ := List.exists_cons_of_length_pos enough
      rw [members, run_bind (run_nextKey?_end rest)]
      rfl
  | @next fields filled last key value more plain taken _ ih =>
      obtain ⟨tick, clock, rfl⟩ := List.exists_cons_of_length_pos (Nat.zero_lt_of_lt enough)
      have shorter : more.length < clock.length := Nat.lt_of_succ_lt_succ enough
      rw [members, run_bind (run_nextKey?_spread plain rest)]
      dsimp only
      rw [run_bind (taken _ (stops_spread depth '\x7d' more rest)), ih shorter]

theorem run_field {name : String} {reader : Reader α} {value : α} (reads : reader.Reads value text)
    (stops : Stops rest) :
    (field name false reader).run (": ".toList ++ (text ++ rest)) = .ok (value, rest) := by
  have colon : (mark ':').run (": ".toList ++ (text ++ rest)) =
      .ok ((), [' '] ++ (text ++ rest)) := run_mark (List.forall_mem_nil _) (by decide) _
  have read := reads [' '] rest (List.forall_mem_singleton.mpr rfl) stops
  simp only [field, Bool.false_eq_true, if_false]
  rw [run_bind colon, read]

theorem run_record {shape : Shape} {asObject asList : Reader α} {gap : Text}
    (blank : ∀ c ∈ gap, isGap c = true) (behind : Text) :
    (record shape asObject asList).run (gap ++ '\x7b' :: behind) = asObject.run behind := by
  rw [record, run_bind (run_peekPart? blank (by decide) behind)]
  rfl

theorem variant_reads {all : List α} {name : α → Text} {value : α}
    (known : all.find? (name · = name value) = some value) (plain : Plain (name value)) :
    (variant all name).Reads value (plainString (name value)) := by
  intro gap rest blank _
  have quoted : plainString (name value) ++ rest = '"' :: (name value ++ '"' :: rest) := by
    simp [plainString]
  rw [quoted, variant, run_bind (run_peekPart? blank (by decide) _)]
  split
  · cases ‹some '"' = none›
  · rw [run_bind (run_drop _ _), run_bind (run_string plain rest)]
    dsimp only
    rw [known]
    rfl
  · rename_i same
    simp at same
  · rename_i other _ same
    exact absurd (Option.some.inj same).symm other

theorem run_digits {cutOff : ReadError} {found : Text} (digits : ∀ c ∈ found, c.isDigit = true)
    (nonempty : found ≠ []) (stops : Stops rest) :
    (Reader.digits cutOff).run (found ++ rest) = .ok (found, rest) := by
  have noDigit : ∀ c, rest.head? = some c → c.isDigit = false := by
    intro c head
    rcases stops c head with rfl | rfl <;> rfl
  have taken : (found ++ rest).takeWhile Char.isDigit = found := by
    rw [List.takeWhile_append_of_pos digits]
    cases rest with
    | nil => simp
    | cons c rest => simp [noDigit c rfl]
  have dropped : (found ++ rest).dropWhile Char.isDigit = rest := by
    rw [List.dropWhile_append_of_pos digits]
    cases rest with
    | nil => rfl
    | cons c rest => simp [noDigit c rfl]
  have here : (get : Reader Text).run (found ++ rest) = .ok (found ++ rest, found ++ rest) := rfl
  rw [Reader.digits, run_bind here]
  have longer : found ++ rest ≠ [] := List.append_ne_nil_of_left_ne_nil nonempty rest
  simp only [taken, dropped, List.isEmpty_iff, nonempty, longer, if_false]
  rfl

theorem run_peek? (text : Text) : peek?.run text = .ok (text.head?, text) := rfl

theorem run_wholeDigits {cutOff : ReadError} (n : Nat) (stops : Stops rest) :
    (wholeDigits cutOff).run (Text.ofNat n ++ rest) = .ok (Text.ofNat n, rest) := by
  have read : (Reader.digits cutOff).run (Text.ofNat n ++ rest) = .ok (Text.ofNat n, rest) :=
    run_digits (fun _ => Text.isDigit_of_mem_ofNat) Nat.toDigits_ne_nil stops
  have canonical : ¬ ((Text.ofNat n).head? = some '0' ∧ 1 < (Text.ofNat n).length) := by
    rintro ⟨zero, longer⟩
    rw [Text.length_ofNat_of_head?_zero zero] at longer
    exact Nat.lt_irrefl 1 longer
  rw [wholeDigits, run_bind read]
  simp only [canonical, if_false]
  rfl

theorem run_numeral {cutOff : ReadError} (n : Nat) (stops : Stops rest) :
    (numeral cutOff).run (Text.ofNat n ++ rest) = .ok (⟨false, Text.ofNat n, none, none⟩, rest) := by
  obtain ⟨first, others, same, digit⟩ := Text.exists_ofNat_cons n
  have unsigned : (Text.ofNat n ++ rest).head? ≠ some '-' := by
    rw [same]
    rintro head
    cases head
    cases digit
  have noPoint : rest.head? ≠ some '.' := by
    intro head
    rcases stops _ head with same | same <;> simp at same
  have noExponent : ¬ (rest.head? = some 'e' ∨ rest.head? = some 'E') := by
    rintro (head | head) <;> rcases stops _ head with same | same <;> simp at same
  have fraction : (fractionDigits? cutOff).run rest = .ok (none, rest) := by
    rw [fractionDigits?, run_bind (run_peek? rest), if_neg noPoint]
    rfl
  have exponent : (exponent? cutOff).run rest = .ok (none, rest) := by
    rw [exponent?, run_bind (run_peek? rest)]
    simp only [noExponent, if_false]
    rfl
  rw [numeral, run_bind (run_peek? _)]
  simp only [unsigned, if_false]
  rw [run_bind (run_wholeDigits n stops), run_bind fraction, run_bind exponent]
  rfl

theorem isGap_of_isDigit {c : Char} (digit : c.isDigit = true) : isGap c = false := by
  apply Bool.eq_false_iff.mpr
  intro gap
  simp only [isGap, Bool.or_eq_true, decide_eq_true_eq] at gap
  rcases gap with ((rfl | rfl) | rfl) | rfl <;> cases digit

theorem run_number {n : Nat} (fits : n < wordSize) (stops : Stops rest) :
    number.run (Text.ofNat n ++ rest) = .ok (.natural n, rest) := by
  have value : (Numeral.mk false (Text.ofNat n) none none).number? = some (.natural n) := by
    simp [Numeral.number?, appendDigits_ofNat fits]
  rw [number, run_bind (run_numeral n stops), value]
  rfl

theorem index_reads {n : Nat} (fits : n < wordSize) : index.Reads n (Text.ofNat n) := by
  intro gap rest blank stops
  obtain ⟨first, others, same, digit⟩ := Text.exists_ofNat_cons n
  have solid := isGap_of_isDigit digit
  have next : peekPart?.run (gap ++ (Text.ofNat n ++ rest)) =
      .ok (some first, Text.ofNat n ++ rest) := by
    rw [same]
    exact run_peekPart? blank solid (others ++ rest)
  rw [index, run_bind next]
  dsimp only
  rw [if_pos (.inr digit), run_bind (run_number fits stops)]
  rfl

theorem opens_ofNat (n : Nat) : Opens (Text.ofNat n) := by
  obtain ⟨first, others, same, digit⟩ := Text.exists_ofNat_cons n
  refine ⟨first, others, same, isGap_of_isDigit digit, ?_⟩
  rintro rfl
  cases digit

end Reader

end TapeFlow.Json

import TapeFlow.Command.Plan
import TapeFlow.Proofs.Irrelevance
import TapeFlow.Proofs.Transcoding

namespace TapeFlow

/-! Programs that are read line by line, by readers that can be copied and put back. Whatever is done
with copies, each reader has a history of its own, and what it gives depends on that history alone: it
goes through the lines of the text once, in order, and then gives nothing more. -/

/-- What a reader is asked for: the next line, or all lines to come. -/
inductive Demand where
  | next
  | drain
  deriving DecidableEq

/-- What is given for a demand where nothing is left. -/
def Demand.nothing : Demand → Option (List Token)
  | .next => none
  | .drain => some []

namespace Session

/-- What is done with readers, which are told apart by their numbers. -/
inductive Operation where
  | ask (number : Nat) (demand : Demand)
  /-- Adds a reader that is the copy of another. -/
  | copy (number : Nat)
  /-- Puts a copy of the second reader in the place of the first. -/
  | restore (number source : Nat)

variable {α β : Type} {ask : α → Demand → α} {ask' : β → Demand → β} {readers : List α}

def put (readers : List α) (number : Nat) : Option α → List α
  | none => readers
  | some reader => readers.set number reader

/-- Numbers of readers that do not exist have no effect. -/
def perform (ask : α → Demand → α) (readers : List α) : Operation → List α
  | .ask number demand => put readers number (readers[number]?.map (ask · demand))
  | .copy number => readers ++ readers[number]?.toList
  | .restore number source => put readers number readers[source]?

/-- The readers after operations that begin with one reader. -/
def run (ask : α → Demand → α) (start : α) (operations : List Operation) : List α :=
  operations.foldl (perform ask) [start]

theorem mem_put {number : Nat} {reader : Option α} {other : α}
    (member : other ∈ put readers number reader) : other ∈ readers ∨ reader = some other := by
  cases reader with
  | none => exact .inl member
  | some reader =>
      rcases List.mem_or_eq_of_mem_set member with old | rfl
      · exact .inl old
      · exact .inr rfl

/-- Every reader was there before, or is one that was there after a demand. -/
theorem mem_perform {operation : Operation} {reader : α}
    (member : reader ∈ perform ask readers operation) :
    reader ∈ readers ∨ ∃ asked ∈ readers, ∃ demand, reader = ask asked demand := by
  cases operation with
  | ask number demand =>
      rcases mem_put member with old | asked
      · exact .inl old
      · obtain ⟨old, found, rfl⟩ := Option.map_eq_some_iff.mp asked
        exact .inr ⟨old, List.mem_of_getElem? found, demand, rfl⟩
  | copy number =>
      rcases List.mem_append.mp member with old | copied
      · exact .inl old
      · exact .inl (List.mem_of_getElem? (Option.mem_toList.mp copied))
  | restore number source =>
      rcases mem_put member with old | saved
      · exact .inl old
      · exact .inl (List.mem_of_getElem? saved)

/-- What holds of the first reader and is kept by every demand holds of all readers. -/
theorem run_invariant {good : α → Prop} {start : α} (first : good start)
    (kept : ∀ reader demand, good reader → good (ask reader demand)) (operations : List Operation) :
    ∀ reader ∈ run ask start operations, good reader := by
  -- Copies are kept for later, so the induction is on operations from any list of good readers.
  have later : ∀ readers : List α, (∀ reader ∈ readers, good reader) →
      ∀ reader ∈ operations.foldl (perform ask) readers, good reader := by
    induction operations with
    | nil => exact fun readers all => all
    | cons operation operations ih =>
        intro readers all
        refine ih _ ?_
        intro reader member
        rcases mem_perform member with old | ⟨asked, old, demand, rfl⟩
        · exact all reader old
        · exact kept asked demand (all asked old)
  exact later [start] (by simpa using first)

theorem map_put (view : α → β) (number : Nat) (reader : Option α) :
    (put readers number reader).map view = put (readers.map view) number (reader.map view) := by
  cases reader with
  | none => rfl
  | some reader => exact List.map_set

/-- A view of readers that tells what becomes of it by a demand tells it by every operation. -/
theorem map_run {view : α → β} (same : ∀ reader demand,
      view (ask reader demand) = ask' (view reader) demand) (start : α)
    (operations : List Operation) :
    (run ask start operations).map view = run ask' (view start) operations := by
  have step (readers : List α) (operation : Operation) :
      (perform ask readers operation).map view = perform ask' (readers.map view) operation := by
    cases operation with
    | ask number demand =>
        simp only [perform, map_put, List.getElem?_map, Option.map_map, Function.comp_def, same]
    | copy number => simp only [perform, List.map_append, List.getElem?_map, Option.toList_map]
    | restore number source => simp only [perform, map_put, List.getElem?_map]
  have later : ∀ readers : List α, (operations.foldl (perform ask) readers).map view =
      operations.foldl (perform ask') (readers.map view) := by
    induction operations with
    | nil => exact fun readers => rfl
    | cons operation operations ih =>
        intro readers
        rw [List.foldl_cons, List.foldl_cons, ih, step]
  exact later [start]

end Session

namespace Cursor

/-- What is given for a demand, and the place after it. Behind the last line there is no next. -/
def serve (cursor : Cursor) : Demand → Option (List Token) × Cursor
  | .next =>
    match cursor.next? with
    | none => (none, cursor)
    | some (tokens, after) => (some tokens, after)
  | .drain => (some cursor.drain.1, cursor.drain.2)

variable {cursor : Cursor}

theorem serve_next {first : Text} {rest : List Text} (more : cursor.rest = first :: rest) :
    cursor.serve .next = (some (Line.tokens first), ⟨cursor.line + 1, rest⟩) := by
  obtain ⟨line, lines⟩ := cursor
  cases more
  rfl

theorem next?_eq_none_iff : cursor.next? = none ↔ cursor.rest = [] := by
  rcases cursor with ⟨line, _ | ⟨first, rest⟩⟩ <;> simp [next?]

/-- A cursor behind the last line stays there. -/
theorem serve_exhausted (exhausted : cursor.next? = none) (demand : Demand) :
    cursor.serve demand = (demand.nothing, cursor) := by
  obtain ⟨line, lines⟩ := cursor
  obtain rfl : lines = [] := next?_eq_none_iff.mp exhausted
  cases demand with
  | next => rfl
  | drain => rw [serve, drain_eq]; rfl

end Cursor

/-- How many of the lines of a text are consumed by demands: all of them once all were asked for, and
otherwise one for each demand, as long as there are any. -/
def Demand.linesTaken (total : Nat) (demands : List Demand) : Nat :=
  if .drain ∈ demands then total else min (demands.count .next) total

theorem Demand.linesTaken_le (total : Nat) (demands : List Demand) :
    linesTaken total demands ≤ total := by
  rw [linesTaken]
  split
  · exact Nat.le_refl _
  · exact Nat.min_le_right _ _

theorem Demand.linesTaken_next (total : Nat) (demands : List Demand) :
    linesTaken total (demands ++ [.next]) = min (linesTaken total demands + 1) total := by
  simp only [linesTaken, List.mem_append, List.mem_singleton, reduceCtorEq, or_false,
    List.count_append, List.count_singleton_self]
  split <;> omega

theorem Demand.linesTaken_drain (total : Nat) (demands : List Demand) :
    linesTaken total (demands ++ [.drain]) = total := by
  simp [linesTaken]

/-- A cursor with all that was asked and given on the way to it. -/
structure Reader where
  cursor : Cursor
  history : List (Demand × Option (List Token))

namespace Reader

def ofText (text : Text) : Reader :=
  ⟨.ofText text, []⟩

def ask (reader : Reader) (demand : Demand) : Reader :=
  ⟨(reader.cursor.serve demand).2,
    reader.history ++ [(demand, (reader.cursor.serve demand).1)]⟩

def demands (reader : Reader) : List Demand :=
  reader.history.map (·.1)

/-- The tokens that a reader has given, in order. -/
def given (reader : Reader) : List Token :=
  reader.history.flatMap fun entry => entry.2.getD []

variable {text : Text} {reader : Reader}

theorem demands_ask (reader : Reader) (demand : Demand) :
    (reader.ask demand).demands = reader.demands ++ [demand] := by
  simp [demands, ask]

section Served

variable {demand : Demand} {tokens : Option (List Token)} {after : Cursor}

theorem cursor_ask (served : reader.cursor.serve demand = (tokens, after)) :
    (reader.ask demand).cursor = after := by
  rw [ask, served]

theorem given_ask (served : reader.cursor.serve demand = (tokens, after)) :
    (reader.ask demand).given = reader.given ++ tokens.getD [] := by
  simp [given, ask, served]

end Served

/-- A reader stands where its history has led it in a text. -/
structure Fits (text : Text) (reader : Reader) : Prop where
  line : reader.cursor.line = Demand.linesTaken text.lines.length reader.demands
  rest : reader.cursor.rest = text.lines.drop reader.cursor.line
  given : reader.given = (text.lines.take reader.cursor.line).flatMap Line.tokens

theorem ofText_fits (text : Text) : (ofText text).Fits text :=
  ⟨by simp [ofText, Cursor.ofText, Demand.linesTaken, demands], rfl, rfl⟩

namespace Fits

theorem line_le (fits : reader.Fits text) : reader.cursor.line ≤ text.lines.length := by
  rw [fits.line]
  exact Demand.linesTaken_le _ _

theorem exhausted_iff (fits : reader.Fits text) :
    reader.cursor.next? = none ↔ reader.cursor.line = text.lines.length := by
  rw [Cursor.next?_eq_none_iff, fits.rest, List.drop_eq_nil_iff]
  have bound := fits.line_le
  omega

theorem drain_eq (fits : reader.Fits text) : reader.cursor.drain =
    ((text.lines.drop reader.cursor.line).flatMap Line.tokens, ⟨text.lines.length, []⟩) := by
  have bound := fits.line_le
  have total : reader.cursor.line + (text.lines.drop reader.cursor.line).length =
      text.lines.length := by
    rw [List.length_drop]
    omega
  rw [Cursor.drain_eq reader.cursor.line reader.cursor.rest, fits.rest, total]

theorem ask_next (fits : reader.Fits text) : (reader.ask .next).Fits text := by
  have bound := fits.line_le
  have taken := Demand.linesTaken_next text.lines.length reader.demands
  rw [← fits.line, ← demands_ask] at taken
  cases left : reader.cursor.rest with
  | nil =>
      have exhausted := Cursor.next?_eq_none_iff.mpr left
      have last := fits.exhausted_iff.mp exhausted
      have served := Cursor.serve_exhausted exhausted .next
      refine ⟨?_, ?_, ?_⟩
      · rw [cursor_ask served, taken]
        omega
      · rw [cursor_ask served, fits.rest]
      · rw [cursor_ask served, given_ask served, fits.given]
        exact List.append_nil _
  | cons first rest =>
      have served := Cursor.serve_next left
      rw [fits.rest] at left
      have found : text.lines[reader.cursor.line]? = some first := by
        rw [← List.head?_drop, left, List.head?_cons]
      have inside := (List.getElem?_eq_some_iff.mp found).1
      refine ⟨?_, ?_, ?_⟩
      · rw [cursor_ask served, taken]
        exact (Nat.min_eq_left inside).symm
      · rw [cursor_ask served, ← List.tail_drop, left, List.tail_cons]
      · rw [cursor_ask served, given_ask served, fits.given, List.take_add_one, found,
          List.flatMap_append]
        simp

/-- The lines that are drained complete those that were taken before. -/
theorem ask_drain (fits : reader.Fits text) : (reader.ask .drain).Fits text := by
  have served : reader.cursor.serve .drain =
      (some ((text.lines.drop reader.cursor.line).flatMap Line.tokens), ⟨text.lines.length, []⟩) := by
    rw [Cursor.serve, fits.drain_eq]
  refine ⟨?_, ?_, ?_⟩
  · rw [cursor_ask served, demands_ask, Demand.linesTaken_drain]
  · rw [cursor_ask served, List.drop_length]
  · rw [cursor_ask served, given_ask served, fits.given, Option.getD_some, ← List.flatMap_append,
      List.take_append_drop, List.take_length]

theorem ask (fits : reader.Fits text) : ∀ demand, (reader.ask demand).Fits text
  | .next => fits.ask_next
  | .drain => fits.ask_drain

end Fits

/-- Once nothing is left, demands change nothing but the history. -/
theorem foldl_ask_exhausted {cursor : Cursor} (exhausted : cursor.next? = none)
    (history : List (Demand × Option (List Token))) (demands : List Demand) :
    demands.foldl ask ⟨cursor, history⟩ =
      ⟨cursor, history ++ demands.map fun demand => (demand, demand.nothing)⟩ := by
  induction demands generalizing history with
  | nil => simp
  | cons demand demands ih =>
      rw [List.foldl_cons, ask, Cursor.serve_exhausted exhausted, ih, List.append_assoc,
        List.singleton_append, List.map_cons]

end Reader

theorem Text.length_lines (text : Text) : text.lines.length = text.count '\n' + 1 := by
  rw [lines]
  induction text with
  | nil => rfl
  | cons c text ih =>
      rw [List.splitOn_cons_eq_if_modifyHead]
      split
      · rename_i feed
        rw [List.length_cons, ih, eq_of_beq feed, List.count_cons_self]
      · rename_i other
        rw [List.length_modifyHead, ih, List.count_cons_of_ne (by simpa using other)]

/-- Lines are lexed by themselves. Every reader, whatever was done with it and its copies, has consumed
the lines that its own history asks for and has given their tokens, up to the end of the text, from
where on it gives nothing and stays. -/
theorem readers_resume (text : Text) (operations : List Session.Operation) :
    (∀ before after : Text,
      tokenize (before ++ '\n' :: after) = tokenize before ++ tokenize after) ∧
    ∀ reader ∈ Session.run Reader.ask (Reader.ofText text) operations,
      reader.cursor.line = Demand.linesTaken (text.count '\n' + 1) reader.demands ∧
      reader.cursor.line ≤ text.count '\n' + 1 ∧
      reader.given = (text.lines.take reader.cursor.line).flatMap Line.tokens ∧
      reader.cursor.drain = ((text.lines.drop reader.cursor.line).flatMap Line.tokens,
        ⟨text.count '\n' + 1, []⟩) ∧
      (reader.cursor.next? = none ↔ reader.cursor.line = text.count '\n' + 1) ∧
      (reader.cursor.next? = none → reader.given = tokenize text ∧
        ∀ demands : List Demand, demands.foldl Reader.ask reader =
          ⟨reader.cursor, reader.history ++ demands.map fun demand => (demand, demand.nothing)⟩) := by
  refine ⟨tokenize_append_line, ?_⟩
  intro reader present
  have fits := Session.run_invariant (Reader.ofText_fits text)
    (fun _ demand fits => fits.ask demand) operations reader present
  rw [← text.length_lines]
  refine ⟨fits.line, fits.line_le, fits.given, fits.drain_eq, fits.exhausted_iff, ?_⟩
  intro exhausted
  refine ⟨?_, Reader.foldl_ask_exhausted exhausted reader.history⟩
  rw [fits.given, fits.exhausted_iff.mp exhausted, List.take_length, tokenize_eq_flatMap]

/-- A reader that is put back to a copy goes on from where the copy was made. -/
theorem readers_resume_from_copy :
    ∃ reader ∈ Session.run Reader.ask (Reader.ofText "D\n%\nG #".toList)
        [.ask 0 .next, .copy 0, .ask 0 .drain, .restore 0 1, .ask 0 .next],
      reader.demands = [.next, .next] ∧ reader.cursor.line = 2 ∧
        reader.cursor.drain = ([.moveLeft, .endOfFile], ⟨3, []⟩) := by
  let text : Text := "D\n%\nG #".toList
  let reader := ((Reader.ofText text).ask .next).ask .next
  have present : reader ∈ Session.run Reader.ask (Reader.ofText text)
      [.ask 0 .next, .copy 0, .ask 0 .drain, .restore 0 1, .ask 0 .next] := .head _
  obtain ⟨line, _, _, drained, _⟩ := (readers_resume text _).2 reader present
  have place : reader.cursor.line = 2 := line.trans (by decide)
  have rest : (text.lines.drop 2).flatMap Line.tokens = [.moveLeft, .endOfFile] := by decide +kernel
  rw [place, rest] at drained
  exact ⟨reader, present, rfl, place, drained⟩

section LineEnds

/-! How lines end is not seen by readers. -/

/-- What can be seen of a reader: how many lines it has read, the tokens of those to come, and its
history. -/
structure View where
  line : Nat
  rest : List (List Token)
  history : List (Demand × Option (List Token))

def View.ask (view : View) : Demand → View
  | .next =>
    match view.rest with
    | [] => ⟨view.line, [], view.history ++ [(.next, none)]⟩
    | tokens :: rest => ⟨view.line + 1, rest, view.history ++ [(.next, some tokens)]⟩
  | .drain =>
    ⟨view.line + view.rest.length, [], view.history ++ [(.drain, some view.rest.flatten)]⟩

def Reader.view (reader : Reader) : View :=
  ⟨reader.cursor.line, reader.cursor.rest.map Line.tokens, reader.history⟩

theorem Reader.view_ask (reader : Reader) (demand : Demand) :
    (reader.ask demand).view = reader.view.ask demand := by
  obtain ⟨⟨line, rest⟩, history⟩ := reader
  cases demand with
  | next => cases rest <;> rfl
  | drain =>
      simp only [view, ask, View.ask, Cursor.serve, Cursor.drain_eq, List.length_map,
        List.map_nil, List.flatMap_def]

theorem Reader.view_run_unifyNewlines (text : Text) (operations : List Session.Operation) :
    (Session.run ask (ofText text.unifyNewlines) operations).map view =
      (Session.run ask (ofText text) operations).map view := by
  have start : (ofText text.unifyNewlines).view = (ofText text).view := by
    simp only [view, ofText, Cursor.ofText, tokens_lines_unifyNewlines]
  rw [Session.map_run view_ask, Session.map_run view_ask, start]

theorem Request.programActions_unifyNewlines (request : Request) (text : Text) :
    request.programActions text.unifyNewlines = request.programActions text := by
  rw [programActions.eq_def, tokenize_unifyNewlines, ← programActions.eq_def]

/-- It makes no difference to a program whether its line ends are unified first. Readers see the same
at every step, and the command does with a file what it would do with its characters as they are. -/
theorem line_ends_irrelevant {text result : Text}
    (replaced : Text.Replaced ['\r', '\n'] ['\n'] text result) :
    (∀ operations : List Session.Operation,
      (Session.run Reader.ask (Reader.ofText result) operations).map Reader.view =
        (Session.run Reader.ask (Reader.ofText text) operations).map Reader.view) ∧
    tokenize result = tokenize text ∧
    compile result = compile text ∧
    ∀ (request : Request) (octets : List UInt8), request.encoding.characters octets = text →
      compile (request.encoding.decode octets) = compile text ∧
        request.programActions (request.encoding.decode octets) = request.programActions text := by
  obtain rfl := Text.replaced_iff.mp replaced
  have compiled : compile text.unifyNewlines = compile text := by
    rw [compile, tokenize_unifyNewlines, compile]
  refine ⟨Reader.view_run_unifyNewlines text, tokenize_unifyNewlines text, compiled, ?_⟩
  intro request octets read
  subst read
  exact ⟨compiled, request.programActions_unifyNewlines _⟩

theorem line_ends_irrelevant_of_stray_returns :
    Text.Replaced ['\r', '\n'] ['\n']
        "si (\r0)\r\r\nD\r%\r\n\x7d#".toList "si (\r0)\r\nD\r%\n\x7d#".toList ∧
      tokenize "si (\r0)\r\nD\r%\n\x7d#".toList = tokenize "si (\r0)\r\r\nD\r%\r\n\x7d#".toList ∧
      compile (Encoding.latin1.decode (Text.codes "si (\r0)\r\r\nD\r%\r\n\x7d#".toList)) =
        compile "si (\r0)\r\r\nD\r%\r\n\x7d#".toList := by
  have replaced : Text.Replaced ['\r', '\n'] ['\n']
      "si (\r0)\r\r\nD\r%\r\n\x7d#".toList "si (\r0)\r\nD\r%\n\x7d#".toList :=
    Text.replaced_iff.mpr (by decide)
  obtain ⟨_, tokens, _, command⟩ := line_ends_irrelevant replaced
  exact ⟨replaced, tokens, (command ⟨[], [], none, .latin1, false⟩ _ (by decide)).1⟩

end LineEnds

end TapeFlow

import Mathlib.Data.List.Forall2
import TapeFlow.Proofs.Program

namespace TapeFlow

/-! A machine that runs programs on a tape. Every step begins one statement, or goes back to the
head of a loop whose block is done; the end of a branch takes no step of its own. Two programs that
are `Alike` keep two machines in step: what they still have to do may differ only where control
cannot come. -/

/-- A tape of two symbols without ends, and the place of the head on it. -/
structure Tape where
  cells : Int → Symbol
  head : Int

def Tape.read (tape : Tape) : Symbol :=
  tape.cells tape.head

def Operation.apply : Operation → Tape → Tape
  | .printState, tape => tape
  | .pause, tape => tape
  | .moveLeft, tape => { tape with head := tape.head - 1 }
  | .moveRight, tape => { tape with head := tape.head + 1 }
  | .write symbol, tape =>
    { tape with cells := fun place => if place = tape.head then symbol else tape.cells place }

/-- A loop that control is in: the block to repeat and what comes after the loop. -/
structure Frame where
  body : Program
  after : Program

structure Machine where
  todo : Program
  frames : List Frame
  tape : Tape
  performed : List Operation

namespace Machine

def start (program : Program) (tape : Tape) : Machine :=
  ⟨program, [], tape, []⟩

def leave (machine : Machine) : Machine :=
  match machine.frames with
  | [] => { machine with todo := .done }
  | frame :: outer => { machine with todo := frame.after, frames := outer }

/-- Goes back to the head of the innermost loop. A machine outside all loops stays as it is. -/
def again (machine : Machine) : Machine :=
  match machine.frames with
  | [] => machine
  | frame :: _ => { machine with todo := frame.body }

def step (machine : Machine) : Machine :=
  match machine.todo with
  | .done => machine.again
  | .act operation rest =>
    { machine with
      todo := rest
      tape := operation.apply machine.tape
      performed := machine.performed ++ [operation] }
  | .leave _ => machine.leave
  | .branch symbol body rest =>
    { machine with todo := if machine.tape.read = symbol then body.append rest else rest }
  | .loop body rest => { machine with todo := body, frames := ⟨body, rest⟩ :: machine.frames }

def run (machine : Machine) : Nat → Machine
  | 0 => machine
  | steps + 1 => machine.step.run steps

end Machine

/-- The operations that a token list performs on a tape in a number of steps, in order. -/
def performed (tokens : List Token) (tape : Tape) (steps : Nat) : List Operation :=
  match Program.read? tokens with
  | some program => ((Machine.start program tape).run steps).performed
  | none => []

theorem performed_tokens (program : Program) (rest : List Token) (tape : Tape) (steps : Nat) :
    performed (program.tokens ++ .endOfFile :: rest) tape steps =
      ((Machine.start program tape).run steps).performed := by
  rw [performed, program.read?_tokens]

/-- A block that holds leaves and nothing else, perhaps none. -/
def Program.bare : Program → Bool
  | .done => true
  | .leave rest => rest.bare
  | _ => false

theorem Program.append_leave (program : Program) (bare : program.bare) (after : Program) :
    ∃ rest, program.append (.leave after) = .leave rest := by
  cases program with
  | done => exact ⟨after, rfl⟩
  | leave rest => exact ⟨rest.append (.leave after), rfl⟩
  | _ => cases bare

/-- Programs that do the same. Nothing behind a leave counts, and so nothing in the block of a branch
that only leaves counts if a leave follows the branch. -/
inductive Alike : Program → Program → Prop
  | done : Alike .done .done
  | act (operation : Operation) {left right : Program} (rests : Alike left right) :
      Alike (.act operation left) (.act operation right)
  | leave (left right : Program) : Alike (.leave left) (.leave right)
  | branch (symbol : Symbol) {leftBody rightBody left right : Program}
      (bodies : Alike leftBody rightBody) (rests : Alike left right) :
      Alike (.branch symbol leftBody left) (.branch symbol rightBody right)
  | exit (symbol : Symbol) {leftBody rightBody : Program} (left right : Program)
      (leftBare : leftBody.bare) (rightBare : rightBody.bare) :
      Alike (.branch symbol leftBody (.leave left)) (.branch symbol rightBody (.leave right))
  | loop {leftBody rightBody left right : Program}
      (bodies : Alike leftBody rightBody) (rests : Alike left right) :
      Alike (.loop leftBody left) (.loop rightBody right)

namespace Alike

variable {left right leftAfter rightAfter : Program}

theorem refl (program : Program) : Alike program program := by
  induction program with
  | done => exact .done
  | act operation rest ih => exact .act operation ih
  | leave rest _ => exact .leave rest rest
  | branch symbol body rest bodyIH restIH => exact .branch symbol bodyIH restIH
  | loop body rest bodyIH restIH => exact .loop bodyIH restIH

theorem append (alike : Alike left right) (after : Alike leftAfter rightAfter) :
    Alike (left.append leftAfter) (right.append rightAfter) := by
  induction alike with
  | done => exact after
  | act operation _ ih => exact .act operation ih
  | leave left right => exact .leave _ _
  | branch symbol bodies _ _ ih => exact .branch symbol bodies ih
  | exit symbol left right leftBare rightBare => exact .exit symbol _ _ leftBare rightBare
  | loop bodies _ _ ih => exact .loop bodies ih

theorem append_leave (leftBare : left.bare) (rightBare : right.bare) (leftRest rightRest : Program) :
    Alike (left.append (.leave leftRest)) (right.append (.leave rightRest)) := by
  obtain ⟨leftAfter, leftSame⟩ := left.append_leave leftBare leftRest
  obtain ⟨rightAfter, rightSame⟩ := right.append_leave rightBare rightRest
  rw [leftSame, rightSame]
  exact .leave leftAfter rightAfter

end Alike

namespace Machine

/-- Machines that have done the same so far and are to do the same, in and after every loop. -/
inductive InStep : Machine → Machine → Prop
  | of {left right : Program} {leftFrames rightFrames : List Frame} (tape : Tape)
      (performed : List Operation) (todo : Alike left right)
      (frames : List.Forall₂ (fun one two => Alike one.body two.body ∧ Alike one.after two.after)
        leftFrames rightFrames) :
      InStep ⟨left, leftFrames, tape, performed⟩ ⟨right, rightFrames, tape, performed⟩

namespace InStep

variable {left right : Machine}

theorem leave (inStep : left.InStep right) : left.leave.InStep right.leave := by
  obtain ⟨tape, performed, todo, frames⟩ := inStep
  cases frames with
  | nil => exact .of tape performed .done .nil
  | cons frame outer => exact .of tape performed frame.2 outer

theorem again (inStep : left.InStep right) : left.again.InStep right.again := by
  obtain ⟨tape, performed, todo, frames⟩ := inStep
  cases frames with
  | nil => exact .of tape performed todo .nil
  | cons frame outer => exact .of tape performed frame.1 (.cons frame outer)

theorem step (inStep : left.InStep right) : left.step.InStep right.step := by
  have unchanged := inStep
  obtain ⟨tape, performed, todo, frames⟩ := inStep
  cases todo with
  | done => exact unchanged.again
  | act operation rests => exact .of _ _ rests frames
  | leave left right => exact unchanged.leave
  | branch symbol bodies rests =>
      refine .of tape performed ?_ frames
      dsimp only
      split
      · exact bodies.append rests
      · exact rests
  | exit symbol left right leftBare rightBare =>
      refine .of tape performed ?_ frames
      dsimp only
      split
      · exact .append_leave leftBare rightBare left right
      · exact .leave left right
  | loop bodies rests => exact .of tape performed bodies (.cons ⟨bodies, rests⟩ frames)

theorem run (inStep : left.InStep right) (steps : Nat) :
    (left.run steps).InStep (right.run steps) := by
  induction steps generalizing left right with
  | zero => exact inStep
  | succ steps ih => exact ih inStep.step

theorem performed_eq (inStep : left.InStep right) : left.performed = right.performed := by
  cases inStep
  rfl

end InStep

end Machine

theorem Alike.performed_eq {left right : Program} (alike : Alike left right) (tape : Tape)
    (steps : Nat) :
    ((Machine.start left tape).run steps).performed =
      ((Machine.start right tape).run steps).performed := by
  have started : (Machine.start left tape).InStep (Machine.start right tape) :=
    .of tape [] alike .nil
  exact (started.run steps).performed_eq

end TapeFlow

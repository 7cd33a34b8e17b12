import Peg.Action.Locals
import Peg.Action.Stack
import Peg.Text.Span

/-!
# Actions

An action is a program embedded in a grammar.  It sees what the element in
front of it matched, and works on the value stack and the rule variables by
performing operations one at a time; each answer decides how it goes on.  An
action ends by accepting, by refusing, or with an error.

A program can use the stack and the variables through these operations alone,
so whatever holds of every operation holds of every action.

Main results:

- `Program.run_bind`: running programs in sequence.
-/

namespace Peg

open Text

/-! ## Operations -/

/-- The types of rule variables. -/
inductive VarKind where
  | value
  | char
  deriving DecidableEq, Repr

/-- The Lean type of a rule variable in a grammar over values of type `V`. -/
abbrev VarKind.Carrier (V : Type) : VarKind → Type
  | value => V
  | char => Char

/-- The rule variables of a grammar over values of type `V`. -/
abbrev Variables (V : Type) : Type :=
  Locals (VarKind.Carrier V)

/-- The operations an action can perform. -/
inductive Op (V : Type) where
  | push (value : V)
  | pushAt (down : Nat) (value : V)
  | peekAt (down : Nat)
  | popAt (down : Nat)
  | pokeAt (down : Nat) (value : V)
  | dup
  | reverseTop (count : Nat)
  | values
  | get (index : Nat) (kind : VarKind)
  | set (index : Nat) (kind : VarKind) (content : kind.Carrier V)
  | take (index : Nat) (kind : VarKind)

/-- What an operation answers. -/
@[reducible] def Op.Answer {V : Type} : Op V → Type
  | push _ => Unit
  | pushAt .. => Except ActionError Unit
  | peekAt _ => Except ActionError V
  | popAt _ => Except ActionError V
  | pokeAt .. => Except ActionError V
  | dup => Except ActionError Unit
  | reverseTop _ => Except ActionError Unit
  | values => List V
  | get _ kind => Option (kind.Carrier V)
  | set .. => Unit
  | take _ kind => Option (kind.Carrier V)

/-- What actions work on. -/
structure Workspace (V : Type) where
  /-- The value stack. -/
  stack : Stack V
  /-- The rule variables. -/
  vars : Variables V

namespace Workspace

variable {V : Type}

/-- Answer an operation that changes the stack, or fails and changes nothing. -/
def update {α : Type} (space : Workspace V) :
    Except ActionError (α × Stack V) → Except ActionError α × Workspace V
  | .ok (answer, stack) => (.ok answer, { space with stack := stack })
  | .error error => (.error error, space)

/-- Perform an operation. -/
def perform (space : Workspace V) : (op : Op V) → op.Answer × Workspace V
  | .push value => ((), { space with stack := space.stack.push value })
  | .pushAt down value => space.update ((space.stack.pushAt down value).map ((), ·))
  | .peekAt down => (space.stack.peekAt down, space)
  | .popAt down => space.update (space.stack.popAt down)
  | .pokeAt down value => space.update (space.stack.pokeAt down value)
  | .dup => space.update (space.stack.dup.map ((), ·))
  | .reverseTop count => space.update ((space.stack.reverseTop count).map ((), ·))
  | .values => (space.stack.toList, space)
  | .get index kind => (space.vars.get? index kind, space)
  | .set index kind content => ((), { space with vars := space.vars.set index kind content })
  | .take index kind =>
    let (answer, vars) := space.vars.take index kind
    (answer, { space with vars := vars })

end Workspace

/-! ## Programs -/

/-- A program that results in a value of type `α`. -/
inductive Program (V α : Type) where
  /-- End with a result. -/
  | done (result : α)
  /-- End with an error. -/
  | fail (error : ActionError)
  /-- Perform an operation and go on with its answer. -/
  | perform (op : Op V) (next : op.Answer → Program V α)

namespace Program

variable {V α β : Type}

/-- Run a program on a workspace. -/
def run : Program V α → Workspace V → Except ActionError α × Workspace V
  | done result, space => (.ok result, space)
  | fail error, space => (.error error, space)
  | perform op next, space =>
    let (answer, space) := space.perform op
    (next answer).run space

/-- Go on with another program that depends on the result. -/
def bind : Program V α → (α → Program V β) → Program V β
  | done result, next => next result
  | fail error, _ => fail error
  | perform op rest, next => perform op fun answer => (rest answer).bind next

instance : Monad (Program V) where
  pure := done
  bind := bind

/-- End with the error of a failed operation, or with its answer. -/
def ofExcept : Except ActionError α → Program V α
  | .ok result => done result
  | .error error => fail error

/-- Running programs in sequence. -/
theorem run_bind (program : Program V α) (next : α → Program V β) (space : Workspace V) :
    (program.bind next).run space =
      match program.run space with
      | (.ok result, space) => (next result).run space
      | (.error error, space) => (.error error, space) := by
  induction program generalizing space with
  | done result => rfl
  | fail error => rfl
  | perform op rest ih => simp only [bind, run, ih]

/-! ## Single operations as programs -/

/-- Put a value on top of the stack. -/
def push (value : V) : Program V Unit :=
  perform (.push value) done

/-- Put values on top of the stack one after another. -/
def pushAll (values : List V) : Program V Unit :=
  values.forM push

/-- Put a value into the stack so that it ends up at a depth. -/
def pushAt (down : Nat) (value : V) : Program V Unit :=
  perform (.pushAt down value) ofExcept

/-- The value at a depth of the stack. -/
def peekAt (down : Nat) : Program V V :=
  perform (.peekAt down) ofExcept

/-- The topmost value of the stack. -/
def peek : Program V V :=
  peekAt 0

/-- Take out the value at a depth of the stack. -/
def popAt (down : Nat) : Program V V :=
  perform (.popAt down) ofExcept

/-- Take out the topmost value of the stack. -/
def pop : Program V V :=
  popAt 0

/-- Take out the topmost values of the stack, in the order they come off. -/
def popMany : Nat → Program V (List V)
  | 0 => done []
  | count + 1 => do
    let value ← pop
    let values ← popMany count
    return value :: values

/-- Replace the value at a depth of the stack. -/
def pokeAt (down : Nat) (value : V) : Program V V :=
  perform (.pokeAt down value) ofExcept

/-- Put a copy of the topmost value on top of the stack. -/
def dup : Program V Unit :=
  perform .dup ofExcept

/-- Reverse the topmost values of the stack. -/
def reverseTop (count : Nat) : Program V Unit :=
  perform (.reverseTop count) ofExcept

/-- The values on the stack, topmost last. -/
def values : Program V (List V) :=
  perform .values done

/-- The value of a rule variable. -/
def get (index : Nat) (kind : VarKind) : Program V (Option (kind.Carrier V)) :=
  perform (.get index kind) done

/-- Set a rule variable. -/
def set (index : Nat) (kind : VarKind) (content : kind.Carrier V) : Program V Unit :=
  perform (.set index kind content) done

/-- Take the value of a rule variable, which becomes unset. -/
def take (index : Nat) (kind : VarKind) : Program V (Option (kind.Carrier V)) :=
  perform (.take index kind) done

end Program

/-! ## What an action sees -/

/-- The match an action runs on.  Inside a sequence it is what the nearest
element in front of the action matched; elsewhere it is empty. -/
structure MatchView where
  /-- The whole text that patterns see. -/
  text : List Char
  /-- The matched span. -/
  span : Span
  /-- Whether the element was stood in for and not really matched. -/
  synthetic : Bool
  /-- Whether the parse is being repaired. -/
  inRecovery : Bool
  deriving Repr

namespace MatchView

/-- The matched text. -/
def matched (view : MatchView) : List Char :=
  view.span.slice view.text

/-- The matched text, or another one if the element was stood in for. -/
def matchedOr (view : MatchView) (default : List Char) : List Char :=
  if view.synthetic then default else view.matched

/-- The first character of the matched text. -/
def char? (view : MatchView) : Option Char :=
  view.matched.head?

/-- The offset after the match. -/
def position (view : MatchView) : Nat :=
  view.span.stop

@[simp] theorem matchedOr_of_synthetic {view : MatchView} (h : view.synthetic = true)
    (default : List Char) : view.matchedOr default = default := by
  simp [matchedOr, h]

@[simp] theorem matchedOr_of_not_synthetic {view : MatchView} (h : view.synthetic = false)
    (default : List Char) : view.matchedOr default = view.matched := by
  simp [matchedOr, h]

end MatchView

/-- An action: for every match a program that accepts or refuses it. -/
abbrev Action (V : Type) : Type :=
  MatchView → Program V Bool

end Peg

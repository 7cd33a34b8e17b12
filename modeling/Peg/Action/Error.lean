/-!
# Errors of actions

An action ends a parse when it needs more values than the stack holds, when a
value has the wrong type, or when it says so itself.
-/

namespace Peg

/-- The stack operations named in underflow errors. -/
inductive StackOperation where
  | pop
  | peek
  | poke
  | dup
  | swap
  | pushAt
  deriving DecidableEq, Repr

/-- The name of an operation in messages. -/
def StackOperation.name : StackOperation → String
  | pop => "pop"
  | peek => "peek"
  | poke => "poke"
  | dup => "dup"
  | swap => "swap"
  | pushAt => "push_at"

/-- Why an action ended the parse. -/
inductive ActionError where
  /-- The stack holds fewer values than an operation needs. -/
  | underflow (operation : StackOperation) (required available : Nat)
  /-- A value does not convert to the type asked for. -/
  | typeMismatch (expected detail : String)
  /-- The action reports a failure of its own. -/
  | failed (message : String)
  deriving DecidableEq, Repr

namespace ActionError

/-- The stack holds no value at a depth.  The number of values needed there, one
more than the depth, is a 64-bit word and wraps around. -/
def noValueAt (operation : StackOperation) (down available : Nat) : ActionError :=
  underflow operation ((down + 1) % UInt64.size) available

/-- The message of an error. -/
def message : ActionError → String
  | underflow operation required available =>
    "value stack underflow in `" ++ operation.name ++ "`: needs " ++ toString required ++
      " value(s), stack holds " ++ toString available
  | typeMismatch expected detail => "type mismatch: expected " ++ expected ++ ", " ++ detail
  | failed message => message

/-- The code that names the kind of an error. -/
def code : ActionError → String
  | underflow .. => "action::stack_underflow"
  | typeMismatch .. => "action::type_mismatch"
  | failed _ => "action::failed"

end ActionError

end Peg

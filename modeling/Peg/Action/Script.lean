import Peg.Action.Program
import Peg.Value

/-!
# Action scripts

A small command language for actions over dynamic values.  A script is a list
of steps that run in order.  A step may refuse the match, which ends the script,
or fail, which ends the parse; what earlier steps did stays done.

Main results:

- `Script.run_refuse`: nothing runs after a refusal.
- `Arithmetic.compute?_eq_some_iff`: arithmetic succeeds exactly when the result
  fits into 64 bits.
-/

namespace Peg

open Number

/-! ## Arithmetic -/

/-- The operations on two integers. -/
inductive Arithmetic where
  | add
  | sub
  | mul
  | div
  deriving DecidableEq, Repr

namespace Arithmetic

/-- Whether an integer fits into 64 bits. -/
def fits (n : Int) : Bool :=
  Int64.minValue.toInt ≤ n && n ≤ Int64.maxValue.toInt

/-- The exact result; there is none for a division by zero.  Division truncates
toward zero. -/
def exactResult? (op : Arithmetic) (a b : Int) : Option Int :=
  match op with
  | add => some (a + b)
  | sub => some (a - b)
  | mul => some (a * b)
  | div => if b = 0 then none else some (a.tdiv b)

/-- The result of an operation, if there is one and it fits into 64 bits. -/
def compute? (op : Arithmetic) (a b : Int64) : Option Int64 :=
  (op.exactResult? a.toInt b.toInt).bind fun n => if fits n then some (Int64.ofInt n) else none

/-- Arithmetic succeeds exactly when there is a result that fits. -/
theorem compute?_eq_some_iff {op : Arithmetic} {a b c : Int64} :
    op.compute? a b = some c ↔
      ∃ n, op.exactResult? a.toInt b.toInt = some n ∧ fits n = true ∧ Int64.ofInt n = c := by
  simp only [compute?, Option.bind_eq_some_iff, Option.ite_none_right_eq_some, Option.some.injEq]

end Arithmetic

/-- The integer written in decimal with an optional sign, if the text is one and
it fits into 64 bits. -/
def decimalInt? (text : List Char) : Option Int64 :=
  let (negative, digits) :=
    match text with
    | '-' :: digits => (true, digits)
    | '+' :: digits => (false, digits)
    | digits => (false, digits)
  if digits.isEmpty || !digits.all Char.isDigit then none
  else
    let size := digits.foldl (fun size c => size * 10 + (c.toNat - '0'.toNat)) 0
    let n : Int := if negative then -size else size
    if Arithmetic.fits n then some (Int64.ofInt n) else none

/-! ## Conversions of popped values -/

/-- The types a popped value can be converted to. -/
inductive PopType where
  | bool
  | int
  | float
  | char
  | string
  | compactString
  | list
  deriving DecidableEq, Repr

namespace PopType

/-- The name of a type in error messages. -/
def name : PopType → String
  | bool => "bool"
  | int => "i64"
  | float => "f64"
  | char => "char"
  | string => "alloc::string::String"
  | compactString => "compact_str::CompactString"
  | list => "alloc::vec::Vec<pegstack::value::Value>"

/-- Convert a value to a type, and back to a dynamic value. -/
def convert (type : PopType) (value : Value) : Except Value.KindMismatch Value :=
  match type with
  | bool => value.toBool?.map .bool
  | int => value.toInt?.map .int
  | float => value.toFloat?.map .float
  | char => value.toChar?.map .char
  | string => value.toStr?.map .str
  | compactString => value.toStr?.map .str
  | list => value.toList?.map .list

end PopType

/-- Pop a value and convert it. -/
def Program.popAs {α : Type} (type : PopType) (convert : Value → Except Value.KindMismatch α) :
    Program Value α := do
  let value ← Program.pop
  match convert value with
  | .ok converted => return converted
  | .error mismatch => .fail (.typeMismatch type.name mismatch.message)

/-- Pop an integer. -/
def Program.popInt : Program Value Int64 :=
  Program.popAs .int Value.toInt?

/-- Pop a list. -/
def Program.popList : Program Value (List Value) :=
  Program.popAs .list Value.toList?

/-! ## Steps -/

/-- One step of a script. -/
inductive Step where
  /-- Push a value. -/
  | push (value : Value)
  /-- Push values one after another. -/
  | pushAll (values : List Value)
  /-- Put a value in at a depth. -/
  | pushAt (down : Nat) (value : Value)
  /-- Push the matched text. -/
  | text
  /-- Push the matched text, or another one if it was stood in for. -/
  | textOr (default : String)
  /-- Push the matched text, or another one, as a decimal integer. -/
  | intOr (default : String)
  /-- Push the first matched character or null. -/
  | char
  /-- Push the ends of the matched span. -/
  | range
  /-- Push the offset after the match. -/
  | position
  /-- Push the number of values on the stack. -/
  | size
  /-- Push whether the match was stood in for. -/
  | synthetic
  /-- Push whether the parse is being repaired. -/
  | recovering
  /-- Push the whole parsed text. -/
  | input
  /-- Push the values on the stack as a list. -/
  | stack
  /-- Push a copy of the value at a depth. -/
  | pick (down : Nat)
  /-- Take out the value at a depth and forget it. -/
  | drop (down : Nat)
  /-- Move the value at a depth to the top. -/
  | roll (down : Nat)
  /-- Replace the value at a depth. -/
  | poke (down : Nat) (value : Value)
  /-- Push a copy of the topmost value. -/
  | dup
  /-- Reverse the topmost values. -/
  | reverse (count : Nat)
  /-- Convert the topmost value. -/
  | convert (type : PopType)
  /-- Combine the two topmost integers. -/
  | arithmetic (op : Arithmetic)
  /-- Add the topmost value to the end of the list below it. -/
  | append
  /-- Gather the topmost values into a list, the deepest one first. -/
  | pack (count : Nat)
  /-- Replace the list on top by its items. -/
  | spread
  /-- Set a variable to a value. -/
  | set (index : Nat) (value : Value)
  /-- Set a variable to the matched text. -/
  | setText (index : Nat)
  /-- Push the value of a variable or null. -/
  | get (index : Nat)
  /-- Push the value of a variable or null, and unset the variable. -/
  | take (index : Nat)
  /-- Set a character variable to the first matched character or a question
  mark. -/
  | setChar (index : Nat)
  /-- Push the value of a character variable or null. -/
  | getChar (index : Nat)
  /-- Push the value of a character variable or null, and unset the variable. -/
  | takeChar (index : Nat)
  /-- Refuse unless the first matched character is the value of a character
  variable, or neither exists. -/
  | sameChar (index : Nat)
  /-- Refuse unless the topmost value equals another one. -/
  | require (value : Value)
  /-- Refuse. -/
  | refuse
  /-- Fail with a message. -/
  | fail (message : String)
  /-- Fail with a message if the match was stood in for. -/
  | failIfSynthetic (message : String)
  deriving Repr

namespace Step

/-- A value that may be missing. -/
def orNull {α : Type} (wrap : α → Value) : Option α → Value
  | some content => wrap content
  | none => .null

/-- An offset or a count as a value. -/
def natural (n : Nat) : Value :=
  .int (Int64.ofNat n)

/-- Go on after a program. -/
def andGoOn (program : Program Value Unit) : Program Value Bool := do
  program
  return true

/-- Push a value and go on. -/
def pushing (value : Value) : Program Value Bool :=
  andGoOn (Program.push value)

/-- Run one step; the result says whether to go on. -/
def run (view : MatchView) : Step → Program Value Bool
  | push value => pushing value
  | pushAll values => andGoOn (Program.pushAll values)
  | pushAt down value => andGoOn (Program.pushAt down value)
  | text => pushing (.str (String.ofList view.matched))
  | textOr default => pushing (.str (String.ofList (view.matchedOr default.toList)))
  | intOr default =>
    match decimalInt? (view.matchedOr default.toList) with
    | some n => pushing (.int n)
    | none => .fail (.failed "bad number")
  | char => pushing (orNull .char view.char?)
  | range => pushing (.list [natural view.span.start, natural view.span.stop])
  | position => pushing (natural view.position)
  | size => do
    let values ← Program.values
    pushing (natural values.length)
  | synthetic => pushing (.bool view.synthetic)
  | recovering => pushing (.bool view.inRecovery)
  | input => pushing (.str (String.ofList view.text))
  | stack => do
    let values ← Program.values
    pushing (.list values)
  | pick down => do
    let value ← Program.peekAt down
    pushing value
  | drop down => do
    let _ ← Program.popAt down
    return true
  | roll down => do
    let value ← Program.popAt down
    pushing value
  | poke down value => do
    let _ ← Program.pokeAt down value
    return true
  | dup => andGoOn Program.dup
  | reverse count => andGoOn (Program.reverseTop count)
  | convert type => do
    let value ← Program.popAs type type.convert
    pushing value
  | arithmetic op => do
    let b ← Program.popInt
    let a ← Program.popInt
    match op.compute? a b with
    | some n => pushing (.int n)
    | none => .fail (.failed "arithmetic overflow")
  | append => do
    let item ← Program.pop
    let items ← Program.popList
    pushing (.list (items ++ [item]))
  | pack count => do
    Program.reverseTop count
    let items ← Program.popMany count
    pushing (.list items)
  | spread => do
    let items ← Program.popList
    andGoOn (Program.pushAll items)
  | set index value => andGoOn (Program.set index .value value)
  | setText index => andGoOn (Program.set index .value (.str (String.ofList view.matched)))
  | get index => do
    let value? ← Program.get index .value
    pushing (orNull id value?)
  | take index => do
    let value? ← Program.take index .value
    pushing (orNull id value?)
  | setChar index => andGoOn (Program.set index .char (view.char?.getD '?'))
  | getChar index => do
    let char? ← Program.get index .char
    pushing (orNull .char char?)
  | takeChar index => do
    let char? ← Program.take index .char
    pushing (orNull .char char?)
  | sameChar index => do
    let char? ← Program.get index .char
    return view.char? == char?
  | require value => do
    let top ← Program.peek
    return top == value
  | refuse => return false
  | fail message => .fail (.failed message)
  | failIfSynthetic message =>
    if view.synthetic then .fail (.failed message) else return true

end Step

/-! ## Scripts -/

/-- Steps that run in order. -/
abbrev Script : Type :=
  List Step

namespace Script

/-- Run steps until one refuses; the result says whether none did. -/
def run (view : MatchView) : Script → Program Value Bool
  | [] => return true
  | step :: steps => do
    if ← step.run view then run view steps else return false

/-- The action that accepts unless a step refuses. -/
def action (script : Script) : Action Value :=
  fun view => script.run view

/-- The action that accepts even if a step refuses. -/
def exec (script : Script) : Action Value :=
  fun view => do
    let _ ← script.run view
    return true

/-- Nothing runs after a refusal. -/
theorem run_refuse (view : MatchView) (steps : Script) :
    run view (.refuse :: steps) = run view [.refuse] :=
  rfl

end Script

end Peg

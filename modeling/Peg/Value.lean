import Peg.Number.Binary64
import Peg.Text.Quoted

/-!
# Dynamic values

Values whose kind is known only when a parse runs, for grammars that build
numbers, texts and lists without a type of their own for results.  A value
converts to a Lean type if it has the matching kind; integers also convert to
floating-point numbers.

Main results:

- `beq_eq_false_of_kind_ne`: values of different kinds are never equal.
- `toInt?_int`, `toFloat?_int`, …: conversions of matching kinds succeed.
-/

namespace Peg

open Number

/-- A dynamic value. -/
inductive Value where
  | null
  | bool (b : Bool)
  | int (n : Int64)
  | float (x : Binary64)
  | char (c : Char)
  | str (s : String)
  | list (items : List Value)
  deriving Repr, Inhabited

namespace Value

/-- The kinds of values. -/
inductive Kind where
  | null
  | bool
  | int
  | float
  | char
  | string
  | list
  deriving DecidableEq, Repr

/-- The name of a kind in messages. -/
def Kind.name : Kind → String
  | null => "null"
  | bool => "bool"
  | int => "int"
  | float => "float"
  | char => "char"
  | string => "string"
  | list => "list"

instance : ToString Kind where
  toString := Kind.name

/-- The kind of a value. -/
def kind : Value → Kind
  | null => .null
  | bool _ => .bool
  | int _ => .int
  | float _ => .float
  | char _ => .char
  | str _ => .string
  | list _ => .list

/-! ## Equality -/

mutual

/-- Equality of values: kinds must agree, and floating-point numbers are
compared as numbers. -/
def beq : Value → Value → Bool
  | null, null => true
  | bool a, bool b => a == b
  | int a, int b => a == b
  | float a, float b => a.ieeeEq b
  | char a, char b => a == b
  | str a, str b => a == b
  | list as, list bs => beqList as bs
  | _, _ => false

/-- Equality of lists of values, item by item. -/
def beqList : List Value → List Value → Bool
  | [], [] => true
  | a :: as, b :: bs => beq a b && beqList as bs
  | _, _ => false

end

instance : BEq Value where
  beq := beq

/-- Values of different kinds are never equal. -/
theorem beq_eq_false_of_kind_ne {a b : Value} (h : a.kind ≠ b.kind) : (a == b) = false := by
  change beq a b = false
  cases a <;> cases b <;> first | rfl | exact absurd rfl h

/-! ## Text -/

mutual

/-- A value as text: characters and strings are quoted, lists are bracketed. -/
def toText : Value → String
  | null => "null"
  | bool b => if b then "true" else "false"
  | int n => toString n.toInt
  | float x => x.toText
  | char c => Text.quoteChar c
  | str s => Text.quoteString s
  | list items => "[" ++ String.intercalate ", " (toTexts items) ++ "]"

/-- The texts of the items of a list. -/
def toTexts : List Value → List String
  | [] => []
  | item :: items => toText item :: toTexts items

end

instance : ToString Value where
  toString := toText

/-! ## Conversions -/

/-- A value has another kind than a conversion asks for. -/
structure KindMismatch where
  /-- The kind asked for. -/
  expected : Kind
  /-- The kind of the value. -/
  found : Kind
  deriving DecidableEq, Repr

/-- The message of a failed conversion. -/
def KindMismatch.message (mismatch : KindMismatch) : String :=
  "found " ++ mismatch.found.name

/-- Whether a value is null. -/
def isNull : Value → Bool
  | null => true
  | _ => false

/-- The truth value held. -/
def toBool? : Value → Except KindMismatch Bool
  | bool b => .ok b
  | other => .error ⟨.bool, other.kind⟩

/-- The integer held. -/
def toInt? : Value → Except KindMismatch Int64
  | int n => .ok n
  | other => .error ⟨.int, other.kind⟩

/-- The floating-point number held, or the one nearest to the integer held. -/
def toFloat? : Value → Except KindMismatch Binary64
  | float x => .ok x
  | int n => .ok (Binary64.ofInt64 n)
  | other => .error ⟨.float, other.kind⟩

/-- The character held. -/
def toChar? : Value → Except KindMismatch Char
  | char c => .ok c
  | other => .error ⟨.char, other.kind⟩

/-- The text held. -/
def toStr? : Value → Except KindMismatch String
  | str s => .ok s
  | other => .error ⟨.string, other.kind⟩

/-- The items held. -/
def toList? : Value → Except KindMismatch (List Value)
  | list items => .ok items
  | other => .error ⟨.list, other.kind⟩

@[simp] theorem toInt?_int (n : Int64) : toInt? (int n) = .ok n :=
  rfl

@[simp] theorem toFloat?_float (x : Binary64) : toFloat? (float x) = .ok x :=
  rfl

@[simp] theorem toFloat?_int (n : Int64) : toFloat? (int n) = .ok (Binary64.ofInt64 n) :=
  rfl

@[simp] theorem toList?_list (items : List Value) : toList? (list items) = .ok items :=
  rfl

@[simp] theorem toStr?_str (s : String) : toStr? (str s) = .ok s :=
  rfl

end Value

end Peg

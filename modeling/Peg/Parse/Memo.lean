import Std.Data.HashMap
import Peg.Expr.Basic

/-!
# Remembered mismatches

A rule that is known not to match somewhere need not be tried there again.  Only
mismatches are remembered, since a match may have run actions.  In a parse with
repairs, whether a rule matches also depends on what repairs are possible, so
that is part of the key; an entry also says whether the rule would have been
repaired if repairs had not been switched off.

Main results:

- `find?_insert_self`: an entry just made is found.
- `eq_of_find?_insert`: every other entry found was there before.
-/

namespace Peg

/-- What besides rule and offset decides whether a rule matches. -/
inductive MemoContext where
  /-- A parse without repairs. -/
  | plain
  /-- A parse with repairs: whether the surroundings have consumed input, whether
  repairs are switched on, whether a lookahead is going on, and how many repairs
  have been made. -/
  | repair (committed mayInsert inProbe : Bool) (inserted : Nat)
  deriving DecidableEq, Repr, Hashable

/-- A rule at an offset in a context. -/
structure MemoKey where
  /-- The rule. -/
  rule : RuleId
  /-- The offset. -/
  offset : Nat
  /-- The context. -/
  context : MemoContext
  deriving DecidableEq, Repr, Hashable

/-- The mismatches that are remembered. -/
structure Memo where
  /-- For each known mismatch, whether a repair was refused only because repairs
  were switched off. -/
  entries : Std.HashMap MemoKey Bool

namespace Memo

/-- Nothing remembered. -/
def empty : Memo :=
  ⟨∅⟩

instance : Inhabited Memo :=
  ⟨empty⟩

/-- What is remembered of a key. -/
def find? (memo : Memo) (key : MemoKey) : Option Bool :=
  memo.entries[key]?

/-- Remember a mismatch; if the limit is reached, all others are forgotten. -/
def insert (memo : Memo) (limit : Nat) (key : MemoKey) (wouldInsert : Bool) : Memo :=
  if limit ≤ memo.entries.size then ⟨(∅ : Std.HashMap MemoKey Bool).insert key wouldInsert⟩
  else ⟨memo.entries.insert key wouldInsert⟩

@[simp] theorem find?_empty (key : MemoKey) : empty.find? key = none := by
  simp [empty, find?]

/-- An entry just made is found. -/
@[simp] theorem find?_insert_self (memo : Memo) (limit : Nat) (key : MemoKey)
    (wouldInsert : Bool) : (memo.insert limit key wouldInsert).find? key = some wouldInsert := by
  unfold insert find?
  split <;> simp

/-- Every other entry that is found was there before. -/
theorem eq_of_find?_insert {memo : Memo} {limit : Nat} {key other : MemoKey}
    {wouldInsert found : Bool} (ne : other ≠ key)
    (h : (memo.insert limit key wouldInsert).find? other = some found) :
    memo.find? other = some found := by
  unfold insert find? at h
  split at h
  next => simp [ne.symm] at h
  next => simpa [find?, Std.HashMap.getElem?_insert, ne.symm] using h

end Memo

end Peg

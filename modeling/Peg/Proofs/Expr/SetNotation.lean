import Mathlib.Data.List.Basic
import Mathlib.Data.Set.Function
import Peg.Proofs.Memo.Coverage

/-!
# The notation of character sets

A set is named in messages by its ranges, one right behind the other in brackets.  Nothing
separates them, so the notation rests on what single members are written as: characters that
mean something in it are escaped.  Here it is read again, member by member.  A set is got back
with its ranges in their order, so no two sets are named alike, and each set keeps an entry of
its own when a name is dropped from what was expected because it is there already.

Main results:

- `Text.ofHexDigits_toDigits`: hexadecimal digits give the number back.
- `CharSet.readMember?_escapeMember` and `CharSet.readRange?_describeRange`: a member, and a
  range, is told apart from what follows it.
- `CharSet.ofNotation?_describe`: the notation gives the set back.
- `CharSet.unambiguous_describe`: sets that are named alike are alike.
-/

namespace Peg

namespace Text

/-! ## Code points -/

/-- The value of a hexadecimal digit. -/
def hexValue (c : Char) : Nat :=
  if c.isDigit then c.toNat - '0'.toNat else c.toNat - 'a'.toNat + 10

/-- The number that hexadecimal digits stand for. -/
def ofHexDigits (digits : List Char) : Nat :=
  digits.foldl (fun value c => 16 * value + hexValue c) 0

/-- Read the digits of an escaped code point, up to the brace behind them. -/
def readCodePoint? (text : List Char) : Option (Char × List Char) :=
  match text.dropWhile (· != '\x7d') with
  | [] => none
  | _ :: rest => some (Char.ofNat (ofHexDigits (text.takeWhile (· != '\x7d'))), rest)

theorem hexValue_digitChar {digit : Nat} (h : digit < 16) : hexValue digit.digitChar = digit := by
  revert digit
  decide

theorem digitChar_ne_brace {digit : Nat} (h : digit < 16) : digit.digitChar ≠ '\x7d' := by
  revert digit
  decide

/-- Hexadecimal digits give the number back. -/
theorem ofHexDigits_toDigits (n : Nat) : ofHexDigits (Nat.toDigits 16 n) = n := by
  induction n using Nat.strongRecOn with
  | _ n ih =>
      by_cases hless : n < 16
      · rw [Nat.toDigits_of_lt_base hless, ofHexDigits, List.foldl_cons, List.foldl_nil,
          hexValue_digitChar hless, Nat.mul_zero, Nat.zero_add]
      · have hfront := ih (n / 16) (by omega)
        rw [Nat.toDigits_of_base_le (by decide) (Nat.not_lt.1 hless), ofHexDigits,
          List.foldl_append, ← ofHexDigits, hfront, List.foldl_cons, List.foldl_nil,
          hexValue_digitChar (Nat.mod_lt n (by decide))]
        exact Nat.div_add_mod n 16

/-- No brace stands among hexadecimal digits. -/
theorem ne_brace_of_mem_toDigits {n : Nat} {c : Char} (h : c ∈ Nat.toDigits 16 n) :
    c ≠ '\x7d' := by
  induction n using Nat.strongRecOn with
  | _ n ih =>
      by_cases hless : n < 16
      · rw [Nat.toDigits_of_lt_base hless, List.mem_singleton] at h
        exact h ▸ digitChar_ne_brace hless
      · rw [Nat.toDigits_of_base_le (by decide) (Nat.not_lt.1 hless), List.mem_append,
          List.mem_singleton] at h
        rcases h with hfront | rfl
        · exact ih (n / 16) (by omega) hfront
        · exact digitChar_ne_brace (Nat.mod_lt n (by decide))

/-- An escaped code point gives the character back. -/
theorem readCodePoint?_append (c : Char) (rest : List Char) :
    readCodePoint? (Nat.toDigits 16 c.toNat ++ '\x7d' :: rest) = some (c, rest) := by
  have hdigits : ∀ d ∈ Nat.toDigits 16 c.toNat, (d != '\x7d') = true := fun d hd =>
    bne_iff_ne.2 (ne_brace_of_mem_toDigits hd)
  rw [readCodePoint?, List.dropWhile_append_of_pos hdigits, List.takeWhile_append_of_pos hdigits]
  simp [ofHexDigits_toDigits]

end Text

namespace CharSet

open Text

/-! ## Reading the notation -/

/-- Read what follows a backslash. -/
def readEscape? : List Char → Option (Char × List Char)
  | [] => none
  | 'n' :: rest => some ('\n', rest)
  | 'r' :: rest => some ('\r', rest)
  | 't' :: rest => some ('\t', rest)
  | 'u' :: '\x7b' :: rest => readCodePoint? rest
  | c :: rest => some (c, rest)

/-- Read one end of a range. -/
def readMember? : List Char → Option (Char × List Char)
  | [] => none
  | c :: rest => if c = '\\' then readEscape? rest else some (c, rest)

/-- Read a range, whose ends are the same if no dash follows the first of them. -/
def readRange? (text : List Char) : Option ((Char × Char) × List Char) :=
  match readMember? text with
  | none => none
  | some (low, '-' :: rest) => (readMember? rest).map fun (high, rest) => ((low, high), rest)
  | some (low, rest) => some ((low, low), rest)

/-- Read less than some number of ranges, up to the bracket behind them. -/
def readRanges? : Nat → List Char → Option (List (Char × Char))
  | 0, _ => none
  | count + 1, text =>
    if text = [']'] then some []
    else (readRange? text).bind fun read => (readRanges? count read.2).map (read.1 :: ·)

/-- Read a set as it is named in messages. -/
def ofNotation? (text : String) : Option CharSet :=
  match text.toList with
  | '[' :: rest =>
    let negated := rest.head? == some '^'
    let body := if negated then rest.tail else rest
    (readRanges? body.length body).map (⟨·, negated⟩)
  | _ => none

variable {rest : List Char}

/-! ## Members -/

/-- A member is told apart from what follows it. -/
theorem readMember?_escapeMember (c : Char) (rest : List Char) :
    readMember? (escapeMember c ++ rest) = some (c, rest) := by
  unfold escapeMember
  split
  next h => subst h; rfl
  split
  next h => subst h; rfl
  split
  next h => subst h; rfl
  split
  next h =>
      have hspecial : c = '\\' ∨ c = ']' ∨ c = '^' ∨ c = '-' := by simpa [or_assoc] using h
      rcases hspecial with rfl | rfl | rfl | rfl <;> rfl
  next hplain =>
      split
      next =>
          rw [codePointEscape, List.append_assoc, List.append_assoc]
          exact readCodePoint?_append c rest
      next =>
          have hbackslash : c ≠ '\\' := by rintro rfl; simp at hplain
          exact if_neg hbackslash

/-- What a member begins with means nothing in the notation of a set, a backslash excepted. -/
theorem exists_escapeMember_eq_cons (c : Char) :
    ∃ first more, escapeMember c = first :: more ∧ first ≠ '-' ∧ first ≠ ']' ∧ first ≠ '^' := by
  unfold escapeMember
  split
  next => exact ⟨_, _, rfl, by decide, by decide, by decide⟩
  split
  next => exact ⟨_, _, rfl, by decide, by decide, by decide⟩
  split
  next => exact ⟨_, _, rfl, by decide, by decide, by decide⟩
  split
  next => exact ⟨_, _, rfl, by decide, by decide, by decide⟩
  next hplain =>
      split
      next => exact ⟨_, _, rfl, by decide, by decide, by decide⟩
      next =>
          refine ⟨c, [], rfl, ?_, ?_, ?_⟩
          · rintro rfl
            simp at hplain
          · rintro rfl
            simp at hplain
          · rintro rfl
            simp at hplain

/-! ## Ranges -/

/-- A range is told apart from what follows it, unless that is a dash. -/
theorem readRange?_describeRange (range : Char × Char) (hrest : rest.head? ≠ some '-') :
    readRange? (describeRange range ++ rest) = some (range, rest) := by
  rcases range with ⟨low, high⟩
  unfold describeRange
  split
  next hsame =>
      obtain rfl : high = low := hsame
      rw [readRange?, readMember?_escapeMember]
      split
      next h => cases h
      next dash h =>
          obtain ⟨-, rfl⟩ := Prod.mk.inj (Option.some.inj h)
          exact absurd rfl hrest
      next h =>
          obtain ⟨rfl, rfl⟩ := Prod.mk.inj (Option.some.inj h)
          rfl
  next =>
      rw [readRange?, List.append_assoc, readMember?_escapeMember]
      change Option.map _ (readMember? (escapeMember high ++ rest)) = _
      rw [readMember?_escapeMember]
      rfl

theorem exists_describeRange_eq_cons (range : Char × Char) :
    ∃ first more, describeRange range = first :: more ∧
      first ≠ '-' ∧ first ≠ ']' ∧ first ≠ '^' := by
  rcases exists_escapeMember_eq_cons range.1 with ⟨first, more, hfirst, hne⟩
  unfold describeRange
  rw [hfirst]
  split
  next => exact ⟨first, more, rfl, hne⟩
  next => exact ⟨first, _, rfl, hne⟩

/-- What ranges begin with, or the bracket behind them. -/
theorem head?_describeRanges (ranges : List (Char × Char)) :
    (ranges.flatMap describeRange ++ [']']).head? ≠ some '-' ∧
      (ranges.flatMap describeRange ++ [']']).head? ≠ some '^' := by
  cases ranges with
  | nil => exact ⟨by decide, by decide⟩
  | cons range ranges =>
      rcases exists_describeRange_eq_cons range with ⟨first, more, hfirst, hdash, -, hcaret⟩
      rw [List.flatMap_cons, hfirst]
      exact ⟨fun h => hdash (Option.some.inj h), fun h => hcaret (Option.some.inj h)⟩

/-- The ranges of a set are read one by one. -/
theorem readRanges?_describeRanges {count : Nat} {ranges : List (Char × Char)}
    (henough : ranges.length < count) :
    readRanges? count (ranges.flatMap describeRange ++ [']']) = some ranges := by
  induction ranges generalizing count with
  | nil =>
      cases count with
      | zero => cases henough
      | succ count => exact if_pos rfl
  | cons range ranges ih =>
      cases count with
      | zero => cases henough
      | succ count =>
          have hmore : (range :: ranges).flatMap describeRange ++ [']'] ≠ [']'] := by
            rcases exists_describeRange_eq_cons range with ⟨first, more, hfirst, -, hbracket, -⟩
            rw [List.flatMap_cons, hfirst]
            exact fun h => hbracket (List.cons.inj h).1
          rw [readRanges?, if_neg hmore, List.flatMap_cons, List.append_assoc,
            readRange?_describeRange range (head?_describeRanges ranges).1, Option.bind_some,
            ih (Nat.lt_of_succ_lt_succ henough), Option.map_some]

/-- No range is written as nothing. -/
theorem length_lt_length_describeRanges (ranges : List (Char × Char)) :
    ranges.length < (ranges.flatMap describeRange ++ [']']).length := by
  induction ranges with
  | nil => exact Nat.zero_lt_one
  | cons range ranges ih =>
      rcases exists_describeRange_eq_cons range with ⟨first, more, hfirst, -⟩
      rw [List.flatMap_cons, hfirst, List.append_assoc, List.length_append, List.length_cons,
        List.length_cons]
      omega

/-! ## Sets -/

/-- The notation gives the set back. -/
theorem ofNotation?_describe (set : CharSet) : ofNotation? set.describe = some set := by
  rcases set with ⟨ranges, negated⟩
  have hread := readRanges?_describeRanges (length_lt_length_describeRanges ranges)
  have hcaret := (head?_describeRanges ranges).2
  rw [ofNotation?, describe, String.toList_ofList, List.append_assoc]
  dsimp only
  generalize ranges.flatMap describeRange ++ [']'] = body at hread hcaret
  cases negated with
  | true => simp [hread]
  | false => simp [hread, hcaret]

/-- No two sets are named alike. -/
theorem describe_injective : Function.Injective describe := by
  intro a b h
  have hread := ofNotation?_describe a
  rw [h, ofNotation?_describe] at hread
  exact (Option.some.inj hread).symm

/-! ## Expected sets -/

/-- What names a set that was tried is among what was expected. -/
theorem describe_mem_labels {V : Type} {grammar : Grammar V} {frontier : Frontier V}
    {set : CharSet} (h : .terminal (.oneOf set) ∈ frontier.tried) :
    set.describe ∈ frontier.labels grammar :=
  Frontier.mem_labels_iff.2 ⟨_, h, rfl⟩

/-- Sets that are named alike have the same ranges in the same order, and either both or
neither of them is a complement.  So every set that was tried keeps an entry of its own in
what was expected, whatever else was tried and however often. -/
theorem unambiguous_describe {V : Type} :
    (∀ a b : CharSet, a.describe = b.describe → a.ranges = b.ranges ∧ a.negated = b.negated) ∧
      ∀ (grammar : Grammar V) (frontier : Frontier V), ∃ entry : CharSet → Nat,
        (∀ set, .terminal (.oneOf set) ∈ frontier.tried →
          (frontier.labels grammar)[entry set]? = some set.describe) ∧
        Set.InjOn entry {set | .terminal (.oneOf set) ∈ frontier.tried} := by
  refine ⟨fun a b h => ?_, fun grammar frontier => ?_⟩
  · obtain rfl := describe_injective h
    exact ⟨rfl, rfl⟩
  · refine ⟨fun set => (frontier.labels grammar).idxOf set.describe, fun set hset => ?_, ?_⟩
    · exact List.getElem?_idxOf (describe_mem_labels hset)
    · intro a ha b hb hsame
      exact describe_injective ((List.idxOf_inj (describe_mem_labels ha)).1 hsame)

/-- Members that are escaped one way or the other, and a set tried along with its
complement. -/
theorem unambiguous_describe_escaped :
    let set := anyOf ['u', ']', '-', '^', '\x01', '\\']
    let listed : CharSet :=
      ofRanges [('\x01', '\x01'), ('-', '-'), ('\\', '\\'), (']', ']'), ('^', '^'), ('u', 'u')]
    let frontier : Frontier Nat := ⟨0, [.terminal (.oneOf set.negate), .terminal (.oneOf set)]⟩
    set.describe = listed.describe ∧ set.ranges = listed.ranges ∧
      ∃ i j : Nat, i ≠ j ∧ (frontier.labels ⟨#[]⟩)[i]? = some set.describe ∧
        (frontier.labels ⟨#[]⟩)[j]? = some set.negate.describe := by
  intro set listed frontier
  have hsame : set.describe = listed.describe := by decide
  rcases unambiguous_describe.2 ⟨#[]⟩ frontier with ⟨entry, hentry, hinj⟩
  have hset : .terminal (.oneOf set) ∈ frontier.tried := .tail _ (.head _)
  have hnegate : .terminal (.oneOf set.negate) ∈ frontier.tried := .head _
  refine ⟨hsame, ((unambiguous_describe (V := Nat)).1 set listed hsame).1, entry set,
    entry set.negate, fun h => ?_, hentry set hset, hentry set.negate hnegate⟩
  exact absurd (hinj hset hnegate h) (by decide)

end CharSet

end Peg

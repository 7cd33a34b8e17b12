import Mathlib.Data.List.Forall2
import Peg.Parse.Eval

/-!
# What terminals accept

A terminal consumes some characters in front of the rest of the text.  Which ones
is said here by one rule for each kind of terminal; reading with a cursor consumes
exactly those.

Main results:

- `Eval.consume?_eq_some_iff`: a terminal is consumed exactly if it accepts what
  stands between the two cursors.
-/

namespace Peg

open Text

variable {V : Type}

/-- A terminal accepts some characters in front of a rest. -/
inductive Expr.Accepts : Expr V → List Char → List Char → Prop
  | char (c : Char) (rest : List Char) : Accepts (.char c) [c] rest
  | range {low high c : Char} (rest : List Char) (hlow : low ≤ c) (hhigh : c ≤ high) :
      Accepts (.range low high) [c] rest
  | oneOf {set : CharSet} {c : Char} (rest : List Char) (hset : set.matches c = true) :
      Accepts (.oneOf set) [c] rest
  | literal (text : String) (rest : List Char) :
      Accepts (.literal text false) text.toList rest
  | literalIgnoringCase {text : String} {read : List Char} (rest : List Char)
      (hread : List.Forall₂ (fun c expected => sameLetter c expected = true) read text.toList) :
      Accepts (.literal text true) read rest
  | any (c : Char) (rest : List Char) : Accepts .any [c] rest
  | endOfInput : Accepts .endOfInput [] []
  | empty (rest : List Char) : Accepts .empty [] rest

namespace Text.Cursor

/-- A cursor in a text is not behind its end. -/
theorem Within.offset_le {text : List Char} {cursor : Cursor} (h : cursor.Within text) :
    cursor.offset ≤ byteSize text := by
  rcases h with ⟨front, htext, hoffset⟩
  rw [hoffset, htext, byteSize_append]
  exact Nat.le_add_right _ _

/-- A cursor that nothing follows is at the end of its text. -/
theorem Within.offset_of_atEnd {text : List Char} {cursor : Cursor} (h : cursor.Within text)
    (hend : cursor.atEnd = true) : cursor.offset = byteSize text := by
  rcases h with ⟨front, htext, hoffset⟩
  rw [List.isEmpty_iff.1 hend, List.append_nil] at htext
  rw [hoffset, htext]

/-- One cursor stands behind another one, with some characters between them. -/
structure Past (a : Cursor) (consumed : List Char) (b : Cursor) : Prop where
  rest_eq : a.rest = consumed ++ b.rest
  offset_eq : b.offset = a.offset + byteSize consumed

/-- A head that has read on is still within the text. -/
theorem Past.within {text consumed : List Char} {a b : Cursor} (h : Past a consumed b)
    (ha : a.Within text) : b.Within text := by
  rcases ha with ⟨front, htext, hoffset⟩
  refine ⟨front ++ consumed, ?_, ?_⟩
  · rw [htext, h.rest_eq, List.append_assoc]
  · rw [h.offset_eq, hoffset, byteSize_append]

/-- Reading moves a head forwards. -/
theorem Past.offset_le {consumed : List Char} {a b : Cursor} (h : Past a consumed b) :
    a.offset ≤ b.offset := by
  rw [h.offset_eq]
  exact Nat.le_add_right _ _

/-- The place behind some characters is determined by them. -/
theorem Past.eq {consumed : List Char} {a b c : Cursor} (hb : Past a consumed b)
    (hc : Past a consumed c) : b = c := by
  have hrest : b.rest = c.rest :=
    List.append_cancel_left (hb.rest_eq.symm.trans hc.rest_eq)
  have hoffset : b.offset = c.offset := hb.offset_eq.trans hc.offset_eq.symm
  rcases b with ⟨_, _⟩
  rcases c with ⟨_, _⟩
  simp_all

theorem past_nil_iff {a b : Cursor} : Past a [] b ↔ b = a := by
  constructor
  · intro h
    exact h.eq ⟨rfl, rfl⟩
  · rintro rfl
    exact ⟨rfl, rfl⟩

/-- One character is read, if it is accepted. -/
theorem eatIf?_eq_some_iff {accept : Char → Bool} {a b : Cursor} :
    a.eatIf? accept = some b ↔ ∃ c, accept c = true ∧ Past a [c] b := by
  rcases a with ⟨offset, _ | ⟨c, rest⟩⟩
  · constructor
    · intro h
      cases h
    · rintro ⟨c, -, hpast⟩
      cases hpast.rest_eq
  · constructor
    · intro h
      simp only [eatIf?, Option.ite_none_right_eq_some, Option.some.injEq] at h
      rcases h with ⟨haccept, rfl⟩
      exact ⟨c, haccept, rfl, by simp⟩
    · rintro ⟨d, haccept, hpast⟩
      have hrest := hpast.rest_eq
      simp only [List.cons_append, List.nil_append, List.cons.injEq] at hrest
      rcases hrest with ⟨rfl, hrest⟩
      have hb : b = ⟨offset + c.utf8Size, rest⟩ := hpast.eq ⟨rfl, by simp⟩
      simp [eatIf?, haccept, hb]

/-- A literal is read by characters that agree with it one by one. -/
theorem eatAgreeing?_eq_some_iff {agree : Char → Char → Bool} {literal : List Char}
    {a b : Cursor} :
    a.eatAgreeing? agree literal = some b ↔
      ∃ read, List.Forall₂ (fun c expected => agree c expected = true) read literal ∧
        Past a read b := by
  induction literal generalizing a with
  | nil =>
      simp only [eatAgreeing?, Option.some.injEq, List.forall₂_nil_right_iff, exists_eq_left,
        past_nil_iff]
      exact eq_comm
  | cons expected literal ih =>
      constructor
      · intro h
        rcases a with ⟨offset, _ | ⟨c, rest⟩⟩
        · cases h
        · simp only [eatAgreeing?, Option.ite_none_right_eq_some] at h
          rcases h with ⟨hagree, h⟩
          rcases ih.1 h with ⟨read, hread, hpast⟩
          refine ⟨c :: read, .cons hagree hread, ?_, ?_⟩
          · rw [List.cons_append, ← hpast.rest_eq]
          · rw [hpast.offset_eq, byteSize_cons, Nat.add_assoc]
      · rintro ⟨read, hread, hpast⟩
        cases hread with
        | @cons c _ read _ hagree hread =>
            rcases a with ⟨offset, arest⟩
            have hrest : arest = c :: (read ++ b.rest) := hpast.rest_eq
            subst hrest
            have hoffset := hpast.offset_eq
            rw [byteSize_cons, ← Nat.add_assoc] at hoffset
            simp only [eatAgreeing?, hagree, if_true]
            exact ih.2 ⟨read, hread, rfl, hoffset⟩

end Text.Cursor

namespace Eval

open Cursor

/-- The terminals that read one character. -/
theorem consume?_eq_some_iff_of_eatIf? {e : Expr V} {accept : Char → Bool} {a b : Cursor}
    (hconsume : consume? e a = a.eatIf? accept)
    (haccepts : ∀ consumed rest, e.Accepts consumed rest ↔ ∃ c, accept c = true ∧ consumed = [c]) :
    consume? e a = some b ↔ ∃ consumed, e.Accepts consumed b.rest ∧ Past a consumed b := by
  rw [hconsume, eatIf?_eq_some_iff]
  constructor
  · rintro ⟨c, haccept, hpast⟩
    exact ⟨[c], (haccepts _ _).2 ⟨c, haccept, rfl⟩, hpast⟩
  · rintro ⟨consumed, hconsumed, hpast⟩
    rcases (haccepts _ _).1 hconsumed with ⟨c, haccept, rfl⟩
    exact ⟨c, haccept, hpast⟩

/-- Reading consumes exactly what a terminal accepts. -/
theorem consume?_eq_some_iff {e : Expr V} {a b : Cursor} :
    consume? e a = some b ↔ ∃ consumed, e.Accepts consumed b.rest ∧ Past a consumed b := by
  cases e with
  | char c =>
      refine consume?_eq_some_iff_of_eatIf? rfl fun consumed rest => ⟨?_, ?_⟩
      · rintro ⟨⟩
        exact ⟨c, by simp, rfl⟩
      · rintro ⟨d, hd, rfl⟩
        rw [beq_iff_eq] at hd
        exact hd ▸ .char d rest
  | range low high =>
      refine consume?_eq_some_iff_of_eatIf? rfl fun consumed rest => ⟨?_, ?_⟩
      · rintro ⟨⟩
        exact ⟨_, by simp_all, rfl⟩
      · rintro ⟨c, hc, rfl⟩
        simp only [Bool.and_eq_true, decide_eq_true_eq] at hc
        exact .range rest hc.1 hc.2
  | oneOf set =>
      refine consume?_eq_some_iff_of_eatIf? rfl fun consumed rest => ⟨?_, ?_⟩
      · rintro ⟨⟩
        exact ⟨_, by assumption, rfl⟩
      · rintro ⟨c, hc, rfl⟩
        exact .oneOf rest hc
  | any =>
      refine consume?_eq_some_iff_of_eatIf? rfl fun consumed rest => ⟨?_, ?_⟩
      · rintro ⟨⟩
        exact ⟨_, rfl, rfl⟩
      · rintro ⟨c, -, rfl⟩
        exact .any c rest
  | literal text ignoreCase =>
      cases ignoreCase with
      | false =>
          simp only [consume?, Bool.false_eq_true, if_false, eatLiteral?_eq_some_iff]
          constructor
          · rintro ⟨hrest, hoffset⟩
            exact ⟨text.toList, .literal text b.rest, hrest, hoffset⟩
          · rintro ⟨_, ⟨⟩, hpast⟩
            exact ⟨hpast.rest_eq, hpast.offset_eq⟩
      | true =>
          simp only [consume?, if_true, eatLiteralIgnoringCase?, eatAgreeing?_eq_some_iff]
          constructor
          · rintro ⟨read, hread, hpast⟩
            exact ⟨read, .literalIgnoringCase b.rest hread, hpast⟩
          · rintro ⟨read, ⟨⟩, hpast⟩
            exact ⟨read, by assumption, hpast⟩
  | endOfInput =>
      simp only [consume?, Option.ite_none_right_eq_some, Option.some.injEq]
      constructor
      · rintro ⟨hend, rfl⟩
        have hrest : a.rest = [] := List.isEmpty_iff.1 hend
        refine ⟨[], ?_, rfl, rfl⟩
        rw [hrest]
        exact .endOfInput
      · rintro ⟨consumed, haccepts, hpast⟩
        generalize hrest : b.rest = rest at haccepts
        cases haccepts
        rw [past_nil_iff] at hpast
        subst hpast
        exact ⟨List.isEmpty_iff.2 hrest, rfl⟩
  | empty =>
      simp only [consume?, Option.some.injEq]
      constructor
      · rintro rfl
        exact ⟨[], .empty _, rfl, rfl⟩
      · rintro ⟨consumed, ⟨⟩, hpast⟩
        exact (past_nil_iff.1 hpast).symm
  | _ =>
      constructor
      · intro h
        cases h
      · rintro ⟨consumed, ⟨⟩, -⟩

end Eval

end Peg

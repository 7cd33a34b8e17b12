import Peg.Proofs.Grammar.Nullability
import Peg.Proofs.Reference.Semantics

/-!
# Progress of matches

A match never goes back, and it consumes something unless the expression is nullable.
A mismatch of an expression is back at the start.

Main results:

- `Runs.progress`: what every match does to the place in the text.
- `Runs.nullable_of_offset_eq`: what matches without consuming is nullable.
- `Runs.rewind_eq`: a mismatch of an expression has nothing to go back for.
-/

namespace Peg

open Text

variable {V : Type}

namespace Reference

variable {grammar : Grammar V} {text : List Char} {known : RuleId → Bool}

/-- Whether a goal may match without consuming. -/
def Goal.nullable (known : RuleId → Bool) : Goal V → Bool
  | expr e => e.nullable known
  | items parts _ => parts.all (Expr.nullable known)

/-- How an ending relates to the start of a match.  Repetitions do not mismatch. -/
def Ending.Progress (known : RuleId → Bool) (goal : Goal V) (s : State V) : Ending V → Prop
  | matched left =>
    s.offset ≤ left.offset ∧ (left.offset = s.offset → goal.nullable known = true)
  | mismatched left =>
    ∀ e, goal = .expr e → left.cursor = s.cursor ∧ ∀ body, e ≠ .star body
  | aborted .. => True

/-- The ending of a part that starts in the same place, as the ending of the whole. -/
theorem Ending.Progress.whole {part e : Expr V} {s t : State V} {ending : Ending V}
    (h : ending.Progress known (.expr part) t) (hcursor : t.cursor = s.cursor)
    (hnullable : part.nullable known = true → e.nullable known = true)
    (hstar : ∀ body, e ≠ .star body) : ending.Progress known (.expr e) s := by
  have hoffset : t.offset = s.offset := congrArg Cursor.offset hcursor
  rcases ending with left | left | _
  · rw [Ending.Progress, hoffset] at h
    exact ⟨h.1, fun heq => hnullable (h.2 heq)⟩
  · rintro e ⟨⟩
    exact ⟨(h part rfl).1.trans hcursor, hstar⟩
  · trivial

/-- Actions do not move. -/
theorem progress_act {goal : Goal V} (id : RuleId) (action : Action V) (span : Span) (s : State V)
    (hnullable : goal.nullable known = true) (hstar : ∀ body, goal ≠ .expr (.star body)) :
    (act text id action span s).Progress known goal s := by
  unfold act
  split
  · exact ⟨Nat.le_refl _, fun _ => hnullable⟩
  · intro e he
    exact ⟨rfl, fun body hbody => hstar body (hbody ▸ he)⟩
  · trivial

theorem offset_of_act {id : RuleId} {action : Action V} {span : Span} {s t : State V}
    (h : act text id action span s = .matched t) : t.offset = s.offset := by
  unfold act at h
  split at h
  · cases h
    rfl
  · cases h
  · cases h

/-- What every match does to the place in the text, given which rules are nullable. -/
theorem Runs.progress
    (hclosed : ∀ {id rule}, grammar.rule? id = some rule → rule.body.nullable known = true →
      known id = true)
    {id : RuleId} {goal : Goal V} {s : State V} {ending : Ending V}
    (h : Runs grammar text id goal s ending) : ending.Progress known goal s := by
  induction h with
  | @read id e s consumed behind haccepts hpast =>
      refine ⟨hpast.offset_le, fun heq => ?_⟩
      have hoffset : behind.offset = s.cursor.offset + byteSize consumed := hpast.offset_eq
      have hzero : byteSize consumed = 0 := by
        have heq : behind.offset = s.cursor.offset := heq
        omega
      rw [byteSize_eq_zero_iff] at hzero
      subst hzero
      exact haccepts.nullable known
  | stuck hterminal hnone =>
      rintro e ⟨⟩
      refine ⟨rfl, ?_⟩
      rintro body rfl
      cases hterminal
  | @seq id items s ending hitems ih =>
      rcases ending with left | left | _
      · exact ⟨ih.1, fun heq => by simpa [Goal.nullable, Expr.nullable] using ih.2 heq⟩
      · rintro e ⟨⟩
        exact ⟨rfl, by simp⟩
      · trivial
  | done => exact ⟨Nat.le_refl _, fun _ => rfl⟩
  | @act_next id action items previous s t ending hact hrest ih =>
      have hoffset := offset_of_act hact
      rcases ending with left | left | _
      · rw [Ending.Progress, hoffset] at ih
        exact ⟨ih.1, fun heq => by simpa [Goal.nullable, Expr.nullable] using ih.2 heq⟩
      · rintro e ⟨⟩
      · trivial
  | @act_last id action items previous s ending hact hends =>
      rcases ending with left | left | _
      · cases hends
      · rintro e ⟨⟩
      · trivial
  | @item_next id item items previous s t ending hitem hfirst hrest ihfirst ihrest =>
      rcases ending with left | left | _
      · refine ⟨Nat.le_trans ihfirst.1 ihrest.1, fun heq => ?_⟩
        have hhead := ihfirst.2 (Nat.le_antisymm (heq ▸ ihrest.1) ihfirst.1)
        have htail := ihrest.2 (Nat.le_antisymm (heq ▸ ihfirst.1) ihrest.1)
        simp only [Goal.nullable] at hhead htail ⊢
        rw [List.all_cons, hhead, htail, Bool.and_self]
      · rintro e ⟨⟩
      · trivial
  | @item_last id item items previous s ending hitem hfirst hends ih =>
      rcases ending with left | left | _
      · cases hends
      · rintro e ⟨⟩
      · trivial
  | choice_nil =>
      rintro e ⟨⟩
      exact ⟨rfl, by simp⟩
  | @choice_next id item items s t ending hfirst hrest ihfirst ihrest =>
      refine ihrest.whole (ihfirst item rfl).1 (fun htail => ?_) (by simp)
      simp only [Expr.nullable, Expr.nullableAmong] at htail ⊢
      rw [htail, Bool.or_true]
  | @choice_last id item items s ending hfirst hends ih =>
      refine ih.whole rfl (fun hhead => ?_) (by simp)
      simp only [Expr.nullable, Expr.nullableAmong]
      rw [hhead, Bool.true_or]
  | @star_next id body s t ending hfirst hrest ihfirst ihrest =>
      rcases ending with left | left | _
      · exact ⟨Nat.le_trans ihfirst.1 ihrest.1, fun _ => rfl⟩
      · exact absurd rfl ((ihrest _ rfl).2 body)
      · trivial
  | @star_last id body s ending hfirst hends ih =>
      rcases ending with left | left | _
      · cases hends
      · exact ⟨Nat.le_of_eq (congrArg Cursor.offset (ih body rfl).1.symm), fun _ => rfl⟩
      · trivial
  | @plus_next id body s t ending hfirst hrest ihfirst ihrest =>
      rcases ending with left | left | _
      · refine ⟨Nat.le_trans ihfirst.1 ihrest.1, fun heq => ?_⟩
        exact ihfirst.2 (Nat.le_antisymm (heq ▸ ihrest.1) ihfirst.1)
      · exact absurd rfl ((ihrest _ rfl).2 body)
      · trivial
  | plus_last hfirst hends ih =>
      exact ih.whole rfl (fun hbody => hbody) (by simp)
  | @optional id body s ending hbody ih =>
      rcases ending with left | left | _
      · exact ⟨ih.1, fun _ => rfl⟩
      · exact ⟨Nat.le_of_eq (congrArg Cursor.offset (ih body rfl).1.symm), fun _ => rfl⟩
      · trivial
  | @notAhead id body s ending hbody ih =>
      rcases ending with left | left | _
      · rintro e ⟨⟩
        exact ⟨rfl, by simp⟩
      · exact ⟨Nat.le_refl _, fun _ => rfl⟩
      · trivial
  | @ahead id body s ending hbody ih =>
      rcases ending with left | left | _
      · exact ⟨Nat.le_refl _, fun _ => rfl⟩
      · rintro e ⟨⟩
        exact ⟨rfl, by simp⟩
      · trivial
  | @rule id next definition s ending hrule hbody ih =>
      rcases ending with left | left | _
      · exact ⟨ih.1, fun heq => hclosed hrule (ih.2 heq)⟩
      · rintro e ⟨⟩
        exact ⟨(ih _ rfl).1, by simp⟩
      · trivial
  | label hbody ih =>
      exact ih.whole rfl (fun hbody => hbody) (by simp)
  | @action id action s =>
      exact progress_act id action _ s rfl (by simp)

/-- What matches without consuming is nullable. -/
theorem Runs.nullable_of_offset_eq
    (hclosed : ∀ {id rule}, grammar.rule? id = some rule → rule.body.nullable known = true →
      known id = true)
    {id : RuleId} {e : Expr V} {s left : State V}
    (h : Runs grammar text id (.expr e) s (.matched left)) (hoffset : left.offset = s.offset) :
    e.nullable known = true :=
  (h.progress hclosed).2 hoffset

/-- A mismatch of an expression has nothing to go back for. -/
theorem Runs.rewind_eq
    (hclosed : ∀ {id rule}, grammar.rule? id = some rule → rule.body.nullable known = true →
      known id = true)
    {id : RuleId} {e : Expr V} {s : State V} {ending : Ending V}
    (h : Runs grammar text id (.expr e) s ending) : ending.rewind s = ending := by
  have hprogress := h.progress hclosed
  rcases ending with left | left | _
  · rfl
  · rw [Ending.rewind, ← (hprogress e rfl).1]
  · rfl

end Reference

end Peg

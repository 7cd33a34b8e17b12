import Peg.Grammar.Basic
import Peg.Proofs.Expr.Terminal
import Peg.Proofs.Reference.Memory

/-!
# The reference semantics of matching

What it means for an expression to match, told by one rule for each way it can go.  A
state is a place in the text, a list of values and the variables of the rule being
matched; going back is using an earlier state again.

A mismatch gives up what was consumed but keeps what actions did.  Only lookahead
restores the values, and never the variables.  An action that fails ends the match
under the name of the innermost rule.

Main results:

- `Runs.deterministic`: an expression ends in one way at most.
-/

namespace Peg.Reference

open Text

variable {V : Type}

/-! ## States and endings -/

/-- The state of a match. -/
structure State (V : Type) where
  /-- The place in the text. -/
  cursor : Cursor
  /-- The values and the variables. -/
  memory : Memory V

/-- The place of a state. -/
def State.offset (s : State V) : Nat :=
  s.cursor.offset

/-- A state in front of a text, with neither values nor variables. -/
def State.start (text : List Char) : State V :=
  ⟨Cursor.start text, ⟨[], fun _ => none⟩⟩

/-- How a match ends. -/
inductive Ending (V : Type) where
  | matched (left : State V)
  | mismatched (left : State V)
  /-- An action failed, in a rule and at a place. -/
  | aborted (rule : RuleId) (offset : Nat) (cause : ActionError)

namespace Ending

def isMatched : Ending V → Bool
  | matched _ => true
  | _ => false

def isMismatched : Ending V → Bool
  | mismatched _ => true
  | _ => false

/-- A mismatch goes back to the place of the start. -/
def rewind (s : State V) : Ending V → Ending V
  | mismatched left => mismatched { left with cursor := s.cursor }
  | ending => ending

/-- A mismatch is as good as a match. -/
def accept : Ending V → Ending V
  | mismatched left => matched left
  | ending => ending

/-- The caller's variables come back. -/
def giveBack (s : State V) : Ending V → Ending V
  | matched left => matched { left with memory := { left.memory with vars := s.memory.vars } }
  | mismatched left =>
    mismatched { left with memory := { left.memory with vars := s.memory.vars } }
  | ending => ending

/-- The place and the values come back, but not the variables. -/
def restore (s left : State V) : State V :=
  { cursor := s.cursor, memory := { left.memory with values := s.memory.values } }

/-- Nothing has happened but that one knows whether there was a match. -/
def lookahead (expectMatch : Bool) (s : State V) : Ending V → Ending V
  | matched left =>
    if expectMatch then matched (restore s left) else mismatched (restore s left)
  | mismatched left =>
    if expectMatch then mismatched (restore s left) else matched (restore s left)
  | ending => ending

end Ending

/-- Run an action of a rule on what was matched. -/
def act (text : List Char) (id : RuleId) (action : Action V) (span : Span) (s : State V) :
    Ending V :=
  match (action ⟨text, span, false, false⟩).runOn s.memory with
  | (.ok true, memory) => .matched { s with memory := memory }
  | (.ok false, memory) => .mismatched { s with memory := memory }
  | (.error cause, _) => .aborted id span.stop cause

/-! ## Matching -/

/-- What is to be matched: an expression, or what remains of a sequence behind the
nearest item that is not an action. -/
inductive Goal (V : Type) where
  | expr (e : Expr V)
  | items (items : List (Expr V)) (previous : Span)

/-- From a state, inside of a rule, a goal ends in a certain way. -/
inductive Runs (grammar : Grammar V) (text : List Char) :
    RuleId → Goal V → State V → Ending V → Prop
  | read {id : RuleId} {e : Expr V} {s : State V} {consumed : List Char} {behind : Cursor}
      (haccepts : e.Accepts consumed behind.rest) (hpast : s.cursor.Past consumed behind) :
      Runs grammar text id (.expr e) s (.matched { s with cursor := behind })
  | stuck {id : RuleId} {e : Expr V} {s : State V} (hterminal : e.isTerminal = true)
      (hnone : ∀ consumed behind, e.Accepts consumed behind.rest →
        ¬ s.cursor.Past consumed behind) :
      Runs grammar text id (.expr e) s (.mismatched s)
  | seq {id : RuleId} {items : List (Expr V)} {s : State V} {ending : Ending V}
      (hitems : Runs grammar text id (.items items (Span.emptyAt s.offset)) s ending) :
      Runs grammar text id (.expr (.seq items)) s (ending.rewind s)
  | done {id : RuleId} {previous : Span} {s : State V} :
      Runs grammar text id (.items [] previous) s (.matched s)
  /-- An action in a sequence sees what the nearest item in front of it matched that is
  not an action. -/
  | act_next {id : RuleId} {action : Action V} {items : List (Expr V)} {previous : Span}
      {s t : State V} {ending : Ending V} (hact : act text id action previous s = .matched t)
      (hrest : Runs grammar text id (.items items previous) t ending) :
      Runs grammar text id (.items (.action action :: items) previous) s ending
  | act_last {id : RuleId} {action : Action V} {items : List (Expr V)} {previous : Span}
      {s : State V} {ending : Ending V} (hact : act text id action previous s = ending)
      (hends : ending.isMatched = false) :
      Runs grammar text id (.items (.action action :: items) previous) s ending
  | item_next {id : RuleId} {item : Expr V} {items : List (Expr V)} {previous : Span}
      {s t : State V} {ending : Ending V} (hitem : item.isAction = false)
      (hfirst : Runs grammar text id (.expr item) s (.matched t))
      (hrest : Runs grammar text id (.items items ⟨s.offset, t.offset⟩) t ending) :
      Runs grammar text id (.items (item :: items) previous) s ending
  | item_last {id : RuleId} {item : Expr V} {items : List (Expr V)} {previous : Span}
      {s : State V} {ending : Ending V} (hitem : item.isAction = false)
      (hfirst : Runs grammar text id (.expr item) s ending)
      (hends : ending.isMatched = false) :
      Runs grammar text id (.items (item :: items) previous) s ending
  | choice_nil {id : RuleId} {s : State V} :
      Runs grammar text id (.expr (.choice [])) s (.mismatched s)
  | choice_next {id : RuleId} {item : Expr V} {items : List (Expr V)} {s t : State V}
      {ending : Ending V} (hfirst : Runs grammar text id (.expr item) s (.mismatched t))
      (hrest : Runs grammar text id (.expr (.choice items)) t ending) :
      Runs grammar text id (.expr (.choice (item :: items))) s ending
  | choice_last {id : RuleId} {item : Expr V} {items : List (Expr V)} {s : State V}
      {ending : Ending V} (hfirst : Runs grammar text id (.expr item) s ending)
      (hends : ending.isMismatched = false) :
      Runs grammar text id (.expr (.choice (item :: items))) s ending
  | star_next {id : RuleId} {body : Expr V} {s t : State V} {ending : Ending V}
      (hfirst : Runs grammar text id (.expr body) s (.matched t))
      (hrest : Runs grammar text id (.expr (.star body)) t ending) :
      Runs grammar text id (.expr (.star body)) s ending
  | star_last {id : RuleId} {body : Expr V} {s : State V} {ending : Ending V}
      (hfirst : Runs grammar text id (.expr body) s ending)
      (hends : ending.isMatched = false) :
      Runs grammar text id (.expr (.star body)) s ending.accept
  | plus_next {id : RuleId} {body : Expr V} {s t : State V} {ending : Ending V}
      (hfirst : Runs grammar text id (.expr body) s (.matched t))
      (hrest : Runs grammar text id (.expr (.star body)) t ending) :
      Runs grammar text id (.expr (.plus body)) s ending
  | plus_last {id : RuleId} {body : Expr V} {s : State V} {ending : Ending V}
      (hfirst : Runs grammar text id (.expr body) s ending)
      (hends : ending.isMatched = false) :
      Runs grammar text id (.expr (.plus body)) s ending
  | optional {id : RuleId} {body : Expr V} {s : State V} {ending : Ending V}
      (hbody : Runs grammar text id (.expr body) s ending) :
      Runs grammar text id (.expr (.optional body)) s ending.accept
  | notAhead {id : RuleId} {body : Expr V} {s : State V} {ending : Ending V}
      (hbody : Runs grammar text id (.expr body) s ending) :
      Runs grammar text id (.expr (.notAhead body)) s (ending.lookahead false s)
  | ahead {id : RuleId} {body : Expr V} {s : State V} {ending : Ending V}
      (hbody : Runs grammar text id (.expr body) s ending) :
      Runs grammar text id (.expr (.ahead body)) s (ending.lookahead true s)
  /-- A rule starts without variables. -/
  | rule {id next : RuleId} {definition : Rule V} {s : State V} {ending : Ending V}
      (hrule : grammar.rule? next = some definition)
      (hbody : Runs grammar text next (.expr definition.body)
        { s with memory := s.memory.fresh } ending) :
      Runs grammar text id (.expr (.rule next)) s (ending.giveBack s)
  | label {id : RuleId} {name : String} {body : Expr V} {s : State V} {ending : Ending V}
      (hbody : Runs grammar text id (.expr body) s ending) :
      Runs grammar text id (.expr (.label name body)) s ending
  /-- Outside of a sequence an action sees an empty match. -/
  | action {id : RuleId} {action : Action V} {s : State V} :
      Runs grammar text id (.expr (.action action)) s
        (act text id action (Span.emptyAt s.offset) s)

/-! ## Determinism -/

variable {grammar : Grammar V} {text : List Char}

/-- A terminal reads in one way at most. -/
theorem behind_eq {e : Expr V} {cursor a b : Cursor} {first second : List Char}
    (ha : e.Accepts first a.rest) (hfirst : cursor.Past first a)
    (hb : e.Accepts second b.rest) (hsecond : cursor.Past second b) : a = b := by
  have hread := Eval.consume?_eq_some_iff.2 ⟨first, ha, hfirst⟩
  rw [Eval.consume?_eq_some_iff.2 ⟨second, hb, hsecond⟩, Option.some_inj] at hread
  exact hread.symm

/-- An expression ends in one way at most. -/
theorem Runs.deterministic {id : RuleId} {goal : Goal V} {s : State V} {first second : Ending V}
    (h : Runs grammar text id goal s first) (h' : Runs grammar text id goal s second) :
    first = second := by
  -- The second run is inverted at the constructor that the first one fixes.  Terminals stand
  -- for any expression there, so they have to be ruled out for every other one.
  induction h generalizing second with
  | read haccepts hpast =>
      cases h' with
      | read haccepts' hpast' => rw [behind_eq haccepts hpast haccepts' hpast']
      | stuck _ hnone => exact absurd hpast (hnone _ _ haccepts)
      | _ => contradiction
  | stuck hterminal hnone =>
      cases h' with
      | read haccepts hpast => exact absurd hpast (hnone _ _ haccepts)
      | stuck => rfl
      | _ => contradiction
  | seq hitems ih =>
      cases h' with
      | seq hitems' => rw [ih hitems']
      | read | stuck => contradiction
  | done =>
      cases h' with
      | done => rfl
  | act_next hact hrest ih =>
      cases h' with
      | act_next hact' hrest' =>
          cases hact.symm.trans hact'
          exact ih hrest'
      | act_last hact' hends =>
          cases hact.symm.trans hact'
          cases hends
      | item_next | item_last => contradiction
  | act_last hact hends =>
      cases h' with
      | act_next hact' hrest' =>
          cases hact.symm.trans hact'
          cases hends
      | act_last hact' hends' => exact hact.symm.trans hact'
      | item_next | item_last => contradiction
  | item_next hitem hfirst hrest ihfirst ihrest =>
      cases h' with
      | item_next _ hfirst' hrest' =>
          cases ihfirst hfirst'
          exact ihrest hrest'
      | item_last _ hfirst' hends =>
          cases ihfirst hfirst'
          cases hends
      | act_next | act_last => contradiction
  | item_last hitem hfirst hends ih =>
      cases h' with
      | item_next _ hfirst' hrest' =>
          cases ih hfirst'
          cases hends
      | item_last _ hfirst' hends' => exact ih hfirst'
      | act_next | act_last => contradiction
  | choice_nil =>
      cases h' with
      | choice_nil => rfl
      | read | stuck => contradiction
  | choice_next hfirst hrest ihfirst ihrest =>
      cases h' with
      | choice_next hfirst' hrest' =>
          cases ihfirst hfirst'
          exact ihrest hrest'
      | choice_last hfirst' hends =>
          cases ihfirst hfirst'
          cases hends
      | read | stuck => contradiction
  | choice_last hfirst hends ih =>
      cases h' with
      | choice_next hfirst' hrest' =>
          cases ih hfirst'
          cases hends
      | choice_last hfirst' hends' => exact ih hfirst'
      | read | stuck => contradiction
  | star_next hfirst hrest ihfirst ihrest =>
      cases h' with
      | star_next hfirst' hrest' =>
          cases ihfirst hfirst'
          exact ihrest hrest'
      | star_last hfirst' hends =>
          cases ihfirst hfirst'
          cases hends
      | read | stuck => contradiction
  | star_last hfirst hends ih =>
      cases h' with
      | star_next hfirst' hrest' =>
          cases ih hfirst'
          cases hends
      | star_last hfirst' hends' => rw [ih hfirst']
      | read | stuck => contradiction
  | plus_next hfirst hrest ihfirst ihrest =>
      cases h' with
      | plus_next hfirst' hrest' =>
          cases ihfirst hfirst'
          exact ihrest hrest'
      | plus_last hfirst' hends =>
          cases ihfirst hfirst'
          cases hends
      | read | stuck => contradiction
  | plus_last hfirst hends ih =>
      cases h' with
      | plus_next hfirst' hrest' =>
          cases ih hfirst'
          cases hends
      | plus_last hfirst' hends' => exact ih hfirst'
      | read | stuck => contradiction
  | optional hbody ih =>
      cases h' with
      | optional hbody' => rw [ih hbody']
      | read | stuck => contradiction
  | notAhead hbody ih =>
      cases h' with
      | notAhead hbody' => rw [ih hbody']
      | read | stuck => contradiction
  | ahead hbody ih =>
      cases h' with
      | ahead hbody' => rw [ih hbody']
      | read | stuck => contradiction
  | rule hrule hbody ih =>
      cases h' with
      | rule hrule' hbody' =>
          cases hrule.symm.trans hrule'
          rw [ih hbody']
      | read | stuck => contradiction
  | label hbody ih =>
      cases h' with
      | label hbody' => exact ih hbody'
      | read | stuck => contradiction
  | action =>
      cases h' with
      | action => rfl
      | read | stuck => contradiction

end Peg.Reference

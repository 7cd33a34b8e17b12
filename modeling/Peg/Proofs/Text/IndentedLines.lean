import Mathlib.Data.List.Basic
import Mathlib.Data.List.Induction
import Peg.Proofs.Text.Blocks
import Peg.Proofs.Text.LineIndex

/-!
# Lines that are indented

The index of lines ends lines at carriage returns too, the markers of indentation ask for line
feeds.  A line of the index that is not blank takes part in opening and closing blocks if it
starts the text, or if what it starts behind ends with a line feed.  A line behind a lone
carriage return does not: its indentation goes unseen.

Main results:

- `splitLines_append`: a line feed ends a line, whatever follows.
- `Source.takesPart_of_indexed_line`: a line of the index takes part, unless a lone carriage return
  stands in front of it.
- `Source.joined_of_indexed_line`: a line behind a lone carriage return belongs to the line in front
  of it.
-/

namespace Peg.Text

namespace Layout

variable {options : LayoutOptions} {levels : List Nat} {width : Nat}
variable {text line front back rest : List Char}

/-! ## Lines in a text -/

/-- A line feed ends a line, whatever follows. -/
theorem splitLines_append (h : front = [] ∨ front.getLast? = some '\n') (back : List Char) :
    splitLines (front ++ back) = splitLines front ++ splitLines back := by
  induction front with
  | nil => rfl
  | cons c front ih =>
      have hlast : front = [] ∨ front.getLast? = some '\n' := by
        cases front with
        | nil => exact .inl rfl
        | cons d front =>
            rw [List.getLast?_cons_cons] at h
            exact .inr (h.resolve_left (List.cons_ne_nil _ _))
      rw [List.cons_append, splitLines, splitLines, ih hlast]
      split
      next => rfl
      next hplain =>
          cases hlines : splitLines front with
          | nil =>
              have hnil : front = [] := by rw [← flatten_splitLines front, hlines]; rfl
              subst hnil
              exact absurd (by simpa using h) hplain
          | cons first lines => rfl

/-- What has no line feed in it is part of one line. -/
theorem exists_splitLines_append (hne : line ≠ []) (hline : '\n' ∉ line) (rest : List Char) :
    ∃ tail lines, splitLines (line ++ rest) = (line ++ tail) :: lines := by
  induction line with
  | nil => exact absurd rfl hne
  | cons c line ih =>
      have hc : c ≠ '\n' := fun h => hline (h ▸ List.mem_cons_self)
      have hlater : '\n' ∉ line := fun h => hline (List.mem_cons_of_mem _ h)
      rw [List.cons_append, splitLines, if_neg hc]
      by_cases hnil : line = []
      · subst hnil
        cases splitLines ([] ++ rest) with
        | nil => exact ⟨[], [], rfl⟩
        | cons first lines => exact ⟨first, lines, rfl⟩
      · rcases ih hnil hlater with ⟨tail, lines, hlines⟩
        rw [hlines]
        exact ⟨tail, lines, rfl⟩

/-- Behind a character that does not indent nothing belongs to the leading blanks. -/
theorem leading_append (h : ∃ c ∈ line, indents c = false) (tail : List Char) :
    leading (line ++ tail) = leading line ∧ content (line ++ tail) = content line ++ tail := by
  have hcontent : content line ≠ [] := by
    rcases h with ⟨c, hc, hword⟩
    intro hnil
    have hleading := leading_append_content line
    rw [hnil, List.append_nil] at hleading
    have hindents := List.mem_takeWhile_imp (hleading.symm ▸ hc)
    rw [hword] at hindents
    cases hindents
  have htail : content (line ++ tail) = content line ++ tail := by
    rw [content, List.dropWhile_append, if_neg (by simpa [content] using hcontent)]
    rfl
  refine ⟨?_, htail⟩
  have hwhole := leading_append_content (line ++ tail)
  rw [htail, ← List.append_assoc] at hwhole
  have hline := List.append_cancel_right hwhole
  exact List.append_cancel_right (hline.trans (leading_append_content line).symm)

/-- The last line of a text begins behind nothing or behind a line feed. -/
theorem exists_last_line (text : List Char) :
    ∃ earlier same, text = earlier ++ same ∧ '\n' ∉ same ∧
      (earlier = [] ∨ earlier.getLast? = some '\n') := by
  induction text using List.reverseRecOn with
  | nil => exact ⟨[], [], rfl, List.not_mem_nil, .inl rfl⟩
  | append_singleton text c ih =>
      by_cases hfeed : c = '\n'
      · subst hfeed
        exact ⟨text ++ ['\n'], [], (List.append_nil _).symm, List.not_mem_nil, .inr (by simp)⟩
      · rcases ih with ⟨earlier, same, rfl, hsame, hearlier⟩
        refine ⟨earlier, same ++ [c], List.append_assoc _ _ _, ?_, hearlier⟩
        simp [hsame, Ne.symm hfeed]

/-! ## Markers of a line -/

/-- A line that is wider than the innermost block opens one, and closes none. -/
theorem Nested.run_of_wider (h : Nested levels) (hwider : levels.headD 0 < width) :
    run levels width = [indentMark] := by
  have hless : ∀ level ∈ levels, level ≤ width := fun level hlevel =>
    Nat.le_trans (h.le_headD level hlevel) (Nat.le_of_lt hwider)
  have hnone : levels.countP (width < ·) = 0 :=
    List.countP_eq_zero.2 fun level hlevel => by simpa using hless level hlevel
  have hall : levels.filter (· ≤ width) = levels :=
    List.filter_eq_self.2 fun level hlevel => by simpa using hless level hlevel
  rw [run, hnone, hall, if_pos hwider]
  rfl

/-- A line that is less wide than the innermost block closes that one. -/
theorem countP_pos_of_narrower (hnarrower : width < levels.headD 0) :
    0 < levels.countP (width < ·) := by
  cases levels with
  | nil => cases hnarrower
  | cons level levels =>
      exact List.countP_pos_iff.2 ⟨level, List.mem_cons_self, by simpa using hnarrower⟩

end Layout

/-! ## Lines of the index -/

/-- There is one leading part of each size. -/
theorem eq_of_prefix_of_byteSize_eq {text front back : List Char} (hfront : front <+: text)
    (hback : back <+: text) (hsize : byteSize front = byteSize back) : front = back := by
  rcases hfront with ⟨rest, rfl⟩
  rcases hback with ⟨rest', hback⟩
  have hrest := dropBytes?_append front rest
  rw [hsize, ← hback, dropBytes?_append, Option.some.injEq] at hrest
  subst hrest
  exact (List.append_cancel_right hback).symm

/-- Where a line of the index stands: behind nothing, or behind a terminator. -/
theorem Lines.exists_of_line? {text line before : List Char} {k : Nat}
    (hbefore : before <+: text) (hstart : (ofText text).start? k = some (byteSize before))
    (hline : (ofText text).line? k = some line) :
    ∃ rest, text = before ++ (line ++ rest) ∧ (∀ c ∈ line, isTerminator c = false) ∧
      (before = [] ∨ before.getLast? = some '\n' ∨ before.getLast? = some '\r') := by
  rcases exists_piece_of_start? hstart with ⟨front, piece, back, hpieces, rfl, hsize⟩
  rcases exists_ending hpieces with ⟨body, ending, rfl, hbody, hending⟩
  have hsame : line = body :=
    Option.some.inj (hline.symm.trans (line?_of_pieces hpieces hbody hending))
  subst hsame
  have htext : text = front.flatten ++ (line ++ (ending ++ back.flatten)) := by
    rw [← flatten_pieces text, hpieces]
    simp
  have hfront : before = front.flatten :=
    eq_of_prefix_of_byteSize_eq hbefore ⟨_, htext.symm⟩ hsize
  subst hfront
  exact ⟨_, htext, hbody, getLast?_flatten_of_pieces hpieces⟩

namespace Source

open Layout

/-- A line of the index that is not blank takes part in opening and closing blocks, unless a
lone carriage return stands in front of it: its markers stand behind its leading blanks.  If the
line is wider than the innermost block that is open there, a block is opened, and if it is less
wide, the blocks that are wider are closed. -/
theorem takesPart_of_indexed_line (options : LayoutOptions) {text line before : List Char} {k : Nat}
    (hbefore : before <+: text)
    (hstart : (Lines.ofText text).start? k = some (byteSize before))
    (hline : (Lines.ofText text).line? k = some line) (hword : ∃ c ∈ line, isBlank c = false)
    (hfeed : before.getLast? ≠ some '\r') :
    let levels := blocks options [] (splitLines before)
    let width := lineWidth options line
    (∃ tail later, splitLines text = splitLines before ++ (line ++ tail) :: later ∧
      TakesPart options (line ++ tail)) ∧
    (∃ after, (withLayout options text).text = marked options [] (splitLines before) ++
      (leading line ++ (run levels width ++ (content line ++ after)))) ∧
    (levels.headD 0 < width → run levels width = [indentMark]) ∧
    (width < levels.headD 0 → 0 < levels.countP (width < ·) ∧
      List.replicate (levels.countP (width < ·)) dedentMark <+: run levels width) := by
  intro levels width
  have hnested : Nested levels := nested_nil.blocks (splitLines before)
  rcases Lines.exists_of_line? hbefore hstart hline with ⟨rest, rfl, hplain, hbreak⟩
  -- Both ways of cutting the text cut it here, so the line of the index begins a line.
  have hlast : before = [] ∨ before.getLast? = some '\n' :=
    hbreak.imp_right fun hlast => hlast.resolve_right hfeed
  have hne : line ≠ [] := by
    rintro rfl
    rcases hword with ⟨c, hc, -⟩
    cases hc
  have hnofeed : '\n' ∉ line := fun hmem => Bool.false_ne_true (hplain _ hmem).symm
  rcases exists_splitLines_append hne hnofeed rest with ⟨tail, later, hlater⟩
  have hsplit : splitLines (before ++ (line ++ rest)) =
      splitLines before ++ (line ++ tail) :: later := by
    rw [splitLines_append hlast, hlater]
  have htakes : TakesPart options (line ++ tail) := by
    rcases hword with ⟨c, hc, hword⟩
    exact .inr ⟨c, List.mem_append_left _ hc, hword⟩
  have hwide : ∃ c ∈ line, indents c = false := by
    rcases hword with ⟨c, hc, hword⟩
    refine ⟨c, hc, Bool.eq_false_iff.2 fun hindents => ?_⟩
    exact Bool.false_ne_true (hword.symm.trans (isBlank_of_indents hindents))
  rcases leading_append hwide tail with ⟨hleading, hcontent⟩
  refine ⟨⟨tail, later, hsplit, htakes⟩, ?_, hnested.run_of_wider, fun hnarrower =>
    ⟨countP_pos_of_narrower hnarrower, List.prefix_append _ _⟩⟩
  have hmarked : (withLayout options (before ++ (line ++ rest))).text = _ :=
    nested_nil.annotatedText_annotateLines (splitLines (before ++ (line ++ rest)))
  rw [hmarked, hsplit, marked_append, marked, lineRun, if_pos htakes, lineWidth, hleading, hcontent]
  simp only [List.append_assoc]
  exact ⟨_, rfl⟩

/-- A block that is opened by a line of the index. -/
theorem takesPart_of_indexed_line_nested :
    ("a\n".toList <+: "a\n  b".toList ∧
      (Lines.ofText "a\n  b".toList).start? 1 = some (byteSize "a\n".toList) ∧
      (Lines.ofText "a\n  b".toList).line? 1 = some "  b".toList ∧
      (∃ c ∈ "  b".toList, isBlank c = false) ∧ "a\n".toList.getLast? ≠ some '\r') ∧
    run (blocks {} [] (splitLines "a\n".toList)) (lineWidth {} "  b".toList) = [indentMark] ∧
    (withLayout {} "a\n  b".toList).text = "a\n  ".toList ++ indentMark :: 'b' :: [dedentMark] := by
  have hbefore : "a\n".toList <+: "a\n  b".toList := ⟨"  b".toList, by decide⟩
  have hstart : (Lines.ofText "a\n  b".toList).start? 1 = some (byteSize "a\n".toList) := by
    decide
  have hline : (Lines.ofText "a\n  b".toList).line? 1 = some "  b".toList := by decide
  have hword : ∃ c ∈ "  b".toList, isBlank c = false := ⟨'b', by simp, rfl⟩
  have hfeed : "a\n".toList.getLast? ≠ some '\r' := by decide
  rcases takesPart_of_indexed_line {} hbefore hstart hline hword hfeed with ⟨-, -, hopens, -⟩
  exact ⟨⟨hbefore, hstart, hline, hword, hfeed⟩, hopens (by decide), by cbv⟩

/-- A line of the index behind a lone carriage return is taken for a part of the line in front
of it, whose leading blanks decide. -/
theorem joined_of_indexed_line {text line before : List Char} {k : Nat} (hbefore : before <+: text)
    (hstart : (Lines.ofText text).start? k = some (byteSize before))
    (hline : (Lines.ofText text).line? k = some line)
    (hcarriage : before.getLast? = some '\r') :
    ∃ earlier same tail later, before = earlier ++ same ∧ same ≠ [] ∧
      splitLines text = splitLines earlier ++ (same ++ (line ++ tail)) :: later ∧
      leading (same ++ (line ++ tail)) = leading same := by
  rcases Lines.exists_of_line? hbefore hstart hline with ⟨rest, rfl, hplain, -⟩
  rcases exists_last_line before with ⟨earlier, same, rfl, hsame, hearlier⟩
  have hne : same ≠ [] := by
    rintro rfl
    rw [List.append_nil] at hcarriage
    rcases hearlier with rfl | hfeed
    · cases hcarriage
    · cases hcarriage.symm.trans hfeed
  have hreturn : '\r' ∈ same := by
    rw [List.getLast?_append_of_ne_nil _ hne] at hcarriage
    exact List.mem_of_getLast? hcarriage
  have hnofeed : '\n' ∉ same ++ line := fun hmem =>
    (List.mem_append.1 hmem).elim hsame fun hmem => Bool.false_ne_true (hplain _ hmem).symm
  rcases exists_splitLines_append (by simp [hne]) hnofeed rest with ⟨tail, later, hlater⟩
  refine ⟨earlier, same, tail, later, rfl, hne, ?_, (leading_append ⟨_, hreturn, rfl⟩ _).1⟩
  rw [List.append_assoc, splitLines_append hearlier, ← List.append_assoc same, hlater,
    List.append_assoc]

/-- The second line of the index is wider than any open block, but it opens none. -/
theorem indexed_line_without_marker :
    (indentMark ∉ "a\r  b".toList ∧ dedentMark ∉ "a\r  b".toList) ∧
      (Lines.ofText "a\r  b".toList).line? 1 = some "  b".toList ∧
      (∃ c ∈ "  b".toList, isBlank c = false) ∧ lineWidth {} "  b".toList = 2 ∧
      (withLayout {} "a\r  b".toList).text = "a\r  b".toList := by
  exact ⟨by decide, by decide, ⟨'b', by simp, rfl⟩, by cbv, by cbv⟩

end Source

end Peg.Text

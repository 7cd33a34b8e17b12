import Mathlib
import Peg.Parse.Report
import Peg.Proofs.Report.Places
import Peg.Proofs.Text.LineTiling

/-!
# The caret under a place

A report shows the line of the text that holds a place, and a caret below it.  What the line is
and which part of it is in front of the place is said here by what stands around the place: the
line reaches to the nearest terminators on both sides, and a place between the two characters of
a terminator is behind all of the line.  Lines, columns and offsets come from different parts of
a source, and the report shows that they agree.

Main results:

- `Text.Lines.lt_start_succ`: the line behind that of an offset starts behind the offset.
- `Text.exists_around`: the index gives the line around a place, and its column the part in
  front.
- `Report.splitOn_render`: a report has four lines.
- `Report.render_points_at`: the report of a place shows its line and points at it.
-/

namespace Peg

namespace Text

variable {text left right front body rest : List Char} {offset next : Nat}

/-! ## Lines around places -/

/-- A place between two parts of a text is inside of a terminator. -/
def InTerminator (left right : List Char) : Prop :=
  left.getLast? = some '\r' ∧ right.head? = some '\n'

instance (left right : List Char) : Decidable (InTerminator left right) :=
  inferInstanceAs (Decidable (_ ∧ _))

/-- What the line that holds a place has in front of it: everything back to the nearest
terminator, given what stands in front of the place and behind it. -/
def lineBefore (left right : List Char) : List Char :=
  (if InTerminator left right then left.dropLast else left).rtakeWhile (!isTerminator ·)

/-- What the line that holds a place has behind it: everything up to the nearest terminator. -/
def lineBehind (left right : List Char) : List Char :=
  if InTerminator left right then [] else right.takeWhile (!isTerminator ·)

/-- Number of bytes in front of a place from the start of its line: what the line has there, and
the first character of the terminator if the place is behind it. -/
def bytesBefore (left right : List Char) : Nat :=
  byteSize (lineBefore left right) + if InTerminator left right then 1 else 0

/-- A stretch without terminators reaches up to the end of its line. -/
theorem takeWhile_append (hbody : ∀ c ∈ body, isTerminator c = false)
    (hrest : ∀ c, rest.head? = some c → isTerminator c = true) :
    (body ++ rest).takeWhile (!isTerminator ·) = body := by
  rw [List.takeWhile_append_of_pos fun c hc => by rw [hbody c hc]; rfl]
  cases rest with
  | nil => exact List.append_nil body
  | cons c rest => rw [List.takeWhile_cons_of_neg (by simp [hrest c rfl]), List.append_nil]

/-- A stretch without terminators reaches back to the start of its line. -/
theorem rtakeWhile_append (hbody : ∀ c ∈ body, isTerminator c = false)
    (hfront : ∀ c, front.getLast? = some c → isTerminator c = true) :
    (front ++ body).rtakeWhile (!isTerminator ·) = body := by
  have hreversed : ∀ c ∈ body.reverse, isTerminator c = false := fun c hc =>
    hbody c (List.mem_reverse.1 hc)
  have hrest : ∀ c, front.reverse.head? = some c → isTerminator c = true := by
    intro c hc
    rw [List.head?_reverse] at hc
    exact hfront c hc
  rw [List.rtakeWhile, List.reverse_append, takeWhile_append hreversed hrest,
    List.reverse_reverse]

namespace Lines

/-- The line behind that of an offset starts behind the offset. -/
theorem lt_start_succ (h : (ofText text).start? ((ofText text).lineAt offset + 1) = some next) :
    min offset (byteSize text) < next := by
  generalize hbound : min offset (byteSize text) = bound
  have hline : (ofText text).lineAt offset + 1 =
      ((0 :: terminatorEnds 0 text).filter (· ≤ bound)).length := by
    rw [lineAt_ofText, hbound, List.filter_cons_of_pos (by simp), List.length_cons]
  rcases filter_le_prefix (pairwise_terminatorEnds 0 text) bound with ⟨later, hstarts⟩
  have hnone : later.filter (· ≤ bound) = [] := by
    have hfilter := congrArg (List.filter (· ≤ bound)) hstarts
    rw [List.filter_append, List.filter_filter] at hfilter
    simpa using hfilter
  generalize (0 :: terminatorEnds 0 text).filter (· ≤ bound) = upTo at hline hstarts
  rw [start?, starts_ofText, hline, ← hstarts, List.getElem?_append_right (Nat.le_refl _)] at h
  have hnext := List.filter_eq_nil_iff.1 hnone next (List.mem_of_getElem? h)
  simpa using hnext

end Lines

/-- What stands behind a line begins with a terminator, unless there is nothing. -/
theorem Ending.isTerminator_head {back : List (List Char)} {ending : List Char}
    (h : Ending ending back) {c : Char} (hc : (ending ++ back.flatten).head? = some c) :
    Text.isTerminator c = true := by
  cases h with
  | none => cases hc
  | feed | both | carriage =>
      obtain rfl := Option.some.inj hc
      rfl

/-- What stands in front of a line ends with a terminator, unless there is nothing. -/
theorem isTerminator_getLast {front back : List (List Char)} {piece : List Char}
    (h : pieces text = front ++ piece :: back) {c : Char}
    (hc : front.flatten.getLast? = some c) : isTerminator c = true := by
  rcases getLast?_flatten_of_pieces h with hnil | hfeed | hcarriage
  · rw [hnil] at hc
    cases hc
  · rw [hfeed] at hc
    obtain rfl := Option.some.inj hc
    rfl
  · rw [hcarriage] at hc
    obtain rfl := Option.some.inj hc
    rfl

/-- Nothing is taken from a text that is too short. -/
theorem takeBytes?_eq_none {count : Nat} (h : byteSize text < count) :
    takeBytes? count text = none := by
  induction text generalizing count with
  | nil =>
      cases count with
      | zero => cases h
      | succ count => rfl
  | cons c text ih =>
      rw [byteSize_cons] at h
      have hsplit : count = c.utf8Size + (count - c.utf8Size) := by omega
      rw [hsplit, takeBytes?_cons, ih (by omega)]
      rfl

section Pieces

variable {front back : List (List Char)} {body before behind ending : List Char}

/-- A place up to the end of a line. -/
theorem around_of_pieces (hpieces : pieces text = front ++ (body ++ ending) :: back)
    (hbody : ∀ c ∈ body, isTerminator c = false) (hending : Ending ending back)
    (hsplit : body = before ++ behind) :
    lineBefore (front.flatten ++ before) (behind ++ (ending ++ back.flatten)) = before ∧
      lineBehind (front.flatten ++ before) (behind ++ (ending ++ back.flatten)) = behind ∧
      bytesBefore (front.flatten ++ before) (behind ++ (ending ++ back.flatten)) =
        byteSize before := by
  have hbefore : ∀ c ∈ before, isTerminator c = false := fun c hc =>
    hbody c (hsplit ▸ List.mem_append_left _ hc)
  have hbehind : ∀ c ∈ behind, isTerminator c = false := fun c hc =>
    hbody c (hsplit ▸ List.mem_append_right _ hc)
  have hnot : ¬ InTerminator (front.flatten ++ before) (behind ++ (ending ++ back.flatten)) := by
    rintro ⟨hlast, hhead⟩
    by_cases hempty : before = []
    · subst hempty
      rw [List.append_nil] at hlast
      refine head?_ne_feed_of_pieces hpieces hlast ?_
      rw [List.flatten_cons, hsplit, List.nil_append, List.append_assoc]
      exact hhead
    · rw [List.getLast?_append_of_ne_nil _ hempty] at hlast
      exact Bool.false_ne_true (hbefore _ (List.mem_of_getLast? hlast)).symm
  rw [bytesBefore, lineBefore, lineBehind, if_neg hnot, if_neg hnot, if_neg hnot,
    rtakeWhile_append hbefore fun c hc => isTerminator_getLast hpieces hc]
  exact ⟨rfl, takeWhile_append hbehind fun c hc => hending.isTerminator_head hc, rfl⟩

/-- A place between the two characters of a terminator. -/
theorem around_pair_of_pieces (hpieces : pieces text = front ++ (body ++ ['\r', '\n']) :: back)
    (hbody : ∀ c ∈ body, isTerminator c = false) :
    lineBefore (front.flatten ++ (body ++ ['\r'])) ('\n' :: back.flatten) = body ∧
      lineBehind (front.flatten ++ (body ++ ['\r'])) ('\n' :: back.flatten) = [] ∧
      bytesBefore (front.flatten ++ (body ++ ['\r'])) ('\n' :: back.flatten) =
        byteSize (body ++ ['\r']) := by
  have hinside : InTerminator (front.flatten ++ (body ++ ['\r'])) ('\n' :: back.flatten) := by
    refine ⟨?_, rfl⟩
    rw [← List.append_assoc, List.getLast?_concat]
  rw [bytesBefore, lineBefore, lineBehind, if_pos hinside, if_pos hinside, if_pos hinside,
    ← List.append_assoc, List.dropLast_concat,
    rtakeWhile_append hbody fun c hc => isTerminator_getLast hpieces hc, byteSize_append]
  exact ⟨rfl, rfl, rfl⟩

end Pieces

/-- A place up to the end of a line cuts it in two. -/
theorem exists_cut_of_boundary {front body rest : List Char} {column : Nat}
    (hplace : Boundary (front ++ (body ++ rest)) (byteSize front + column))
    (hwithin : column ≤ byteSize body) :
    ∃ before behind, body = before ++ behind ∧ column = byteSize before := by
  rcases boundary_append hplace with ⟨hless, -⟩ | ⟨-, hrest⟩
  · omega
  · rw [Nat.add_sub_cancel_left] at hrest
    rcases boundary_append hrest with ⟨-, hin⟩ | ⟨hle, -⟩
    · exact hin
    · exact ⟨body, [], (List.append_nil body).symm, Nat.le_antisymm hwithin hle⟩

/-- Behind a line, but in front of the end of its terminator, there is only the place between
the two characters of a terminator. -/
theorem Ending.eq_pair {back : List (List Char)} {body ending : List Char} {column : Nat}
    (h : Ending ending back) (hbehind : byteSize body < column)
    (hless : column < byteSize (body ++ ending)) :
    ending = ['\r', '\n'] ∧ column = byteSize (body ++ ['\r']) := by
  rw [byteSize_append] at hless ⊢
  cases h with
  | none =>
      rw [byteSize_nil] at hless
      omega
  | feed | carriage =>
      change column < byteSize body + 1 at hless
      omega
  | both =>
      change column < byteSize body + 2 at hless
      have hcolumn : column = byteSize body + 1 := by omega
      exact ⟨rfl, hcolumn⟩

/-- The line of a place and the part of it in front of the place, given how the index cuts the
text into lines: the place is up to the end of its line, or between the two characters of the
terminator there. -/
theorem exists_around_of_pieces {front back : List (List Char)} {body ending : List Char}
    {column : Nat} (hpieces : pieces text = front ++ (body ++ ending) :: back)
    (hbody : ∀ c ∈ body, isTerminator c = false) (hending : Ending ending back)
    (hplace : Boundary text (byteSize front.flatten + column))
    (hcolumn : column ≤ byteSize body ∨ column < byteSize (body ++ ending)) :
    ∃ left right, text = left ++ right ∧ byteSize left = byteSize front.flatten + column ∧
      lineBefore left right ++ lineBehind left right = body ∧
      Report.beforeColumn body column = lineBefore left right ∧
      column = bytesBefore left right := by
  have htext : text = front.flatten ++ (body ++ (ending ++ back.flatten)) := by
    rw [← flatten_pieces text, hpieces]
    simp
  by_cases hwithin : column ≤ byteSize body
  · rw [htext] at hplace
    rcases exists_cut_of_boundary hplace hwithin with ⟨before, behind, hsplit, rfl⟩
    rcases around_of_pieces hpieces hbody hending hsplit with ⟨hbefore, hbehind, hbytes⟩
    refine ⟨front.flatten ++ before, behind ++ (ending ++ back.flatten), ?_,
      byteSize_append _ _, ?_, ?_, hbytes.symm⟩
    · rw [htext, hsplit]
      simp
    · rw [hbefore, hbehind, hsplit]
    · rw [hbefore, hsplit, Report.beforeColumn, takeBytes?_append]
      rfl
  · have hless := hcolumn.resolve_left hwithin
    rcases hending.eq_pair (Nat.lt_of_not_le hwithin) hless with ⟨rfl, rfl⟩
    rcases around_pair_of_pieces hpieces hbody with ⟨hbefore, hbehind, hbytes⟩
    refine ⟨front.flatten ++ (body ++ ['\r']), '\n' :: back.flatten, ?_,
      byteSize_append _ _, ?_, ?_, hbytes.symm⟩
    · rw [htext]
      simp
    · rw [hbefore, hbehind, List.append_nil]
    · rw [hbefore, Report.beforeColumn, takeBytes?_eq_none (Nat.lt_of_not_le hwithin)]
      rfl

/-- A place is up to the end of its line, or in front of the end of its terminator. -/
theorem column_of_pieces {front back : List (List Char)} {body ending : List Char} {place : Nat}
    (hpieces : pieces text = front ++ (body ++ ending) :: back) (hending : Ending ending back)
    (hplace : place ≤ byteSize text)
    (hline : (Lines.ofText text).lineAt place = front.length)
    (hcolumn : byteSize front.flatten + (Lines.ofText text).columnAt place = place) :
    (Lines.ofText text).columnAt place ≤ byteSize body ∨
      (Lines.ofText text).columnAt place < byteSize (body ++ ending) := by
  have hstop := Lines.stop_of_pieces hpieces
  cases hnext : (Lines.ofText text).start? (front.length + 1) with
  | some next =>
      rw [hnext, Option.getD_some] at hstop
      rw [← hline] at hnext
      have hbehind := Lines.lt_start_succ hnext
      omega
  | none =>
      -- There is no line behind this one, so it has no terminator.
      rw [hnext, Option.getD_none, Lines.size_ofText] at hstop
      cases back with
      | nil =>
          cases hending with
          | none =>
              rw [List.append_nil] at hstop
              omega
          | feed h | both h | carriage h => exact absurd rfl h
      | cons piece back =>
          have hlater : pieces text = (front ++ [body ++ ending]) ++ piece :: back := by
            simpa using hpieces
          have hstart := Lines.start?_of_pieces hlater
          rw [List.length_append, List.length_singleton, hnext] at hstart
          cases hstart

/-- The index gives the line around a place, and the column the part of it in front. -/
theorem exists_around {place : Nat} (hplace : Boundary text place) :
    ∃ left right, text = left ++ right ∧ byteSize left = place ∧
      (Lines.ofText text).line? ((Lines.ofText text).lineAt place) =
        some (lineBefore left right ++ lineBehind left right) ∧
      Report.beforeColumn (lineBefore left right ++ lineBehind left right)
        ((Lines.ofText text).columnAt place) = lineBefore left right ∧
      (Lines.ofText text).columnAt place = bytesBefore left right := by
  rcases Lines.exists_start_lineAt text place with ⟨start, hstart, hcolumn⟩
  rcases Lines.exists_piece_of_start? hstart with ⟨front, piece, back, hpieces, hline, rfl⟩
  rcases exists_ending hpieces with ⟨body, ending, rfl, hbody, hending⟩
  rw [Nat.min_eq_left hplace.offset_le] at hcolumn
  have hwithin := column_of_pieces hpieces hending hplace.offset_le hline hcolumn
  generalize (Lines.ofText text).columnAt place = column at hcolumn hwithin ⊢
  subst hcolumn
  rcases exists_around_of_pieces hpieces hbody hending hplace hwithin with
    ⟨left, right, htext, hleft, hsame, hbefore, hbytes⟩
  refine ⟨left, right, htext, hleft, ?_, ?_, hbytes⟩
  · rw [hline, Lines.line?_of_pieces hpieces hbody hending, hsame]
  · rw [hsame, hbefore]

end Text

namespace Report

open Text

variable {source : Source} {position : Position} {text line : List Char} {message : String}

/-! ## The lines of a report -/

/-- Numbers are written in one line. -/
theorem feed_not_mem_toDigits (n : Nat) : '\n' ∉ Nat.toDigits 10 n := by
  intro h
  exact absurd (Nat.isDigit_of_mem_toDigits (by decide) (by decide) h) (by decide)

/-- A position is written by the numbers of its line and its column. -/
theorem toString_position (position : Position) :
    toString position = toString ((position.line + 1) % UInt32.size) ++ ":" ++
      toString ((position.column + 1) % UInt32.size) :=
  rfl

theorem feed_not_mem_position (position : Position) : '\n' ∉ (toString position).toList := by
  rw [toString_position]
  simp [feed_not_mem_toDigits]

/-- The padding has a tab for each tab and a space for each other character. -/
theorem forall₂_caretPad (before : List Char) :
    List.Forall₂ (fun c pad => pad = if c = '\t' then '\t' else ' ') before (caretPad before) := by
  rw [caretPad, List.forall₂_map_right_iff]
  exact List.forall₂_same.2 fun c hc => rfl

theorem feed_not_mem_caretPad (before : List Char) : '\n' ∉ caretPad before := by
  intro h
  rcases List.mem_map.1 h with ⟨c, -, hc⟩
  split at hc
  next => cases hc
  next => cases hc

/-- A report has four lines, if the message has one. -/
theorem splitOn_render (hmessage : '\n' ∉ message.toList)
    (hline : source.lines.line? position.line = some line) (hfeed : '\n' ∉ line) :
    (render source position message).toList.splitOn '\n' =
      [("error: " ++ message ++ " at " ++ toString position).toList,
        List.replicate (toString (position.line + 1)).length ' ' ++ " |".toList,
        (toString (position.line + 1)).toList ++ " | ".toList ++ line,
        List.replicate (toString (position.line + 1)).length ' ' ++ " | ".toList ++
          caretPad (beforeColumn line position.column) ++ ['^']] := by
  rw [render, hline, String.toList_intercalate]
  refine (List.splitOn_intercalate '\n' ?_ (by simp)).trans ?_
  · simp [hmessage, hfeed, feed_not_mem_toDigits, feed_not_mem_position, feed_not_mem_caretPad]
  · simp

/-! ## The report of a place -/

/-- Between the terminators around a place there is none. -/
theorem isTerminator_of_mem_line {left right : List Char} {c : Char}
    (h : c ∈ lineBefore left right ++ lineBehind left right) : isTerminator c = false := by
  have hnot : (!isTerminator c) = true := by
    rcases List.mem_append.1 h with hbefore | hbehind
    · exact List.mem_rtakeWhile_imp (p := (!isTerminator ·)) hbefore
    · rw [lineBehind] at hbehind
      split at hbehind
      next => cases hbehind
      next => exact List.mem_takeWhile_imp (p := (!isTerminator ·)) hbehind
  simpa using hnot

/-- The position of a place that patterns see is read off the index of the written text. -/
theorem position_ofSegments {segments : List Segment}
    (hsize : byteSize (writtenText segments) < 2 ^ 32) {offset : Nat}
    (h : Boundary (Source.ofSegments segments).text offset) :
    (Source.ofSegments segments).position offset = ⟨writtenOffset segments offset,
      (Lines.ofText (writtenText segments)).lineAt (writtenOffset segments offset),
      (Lines.ofText (writtenText segments)).columnAt (writtenOffset segments offset)⟩ := by
  rw [Source.position, Source.size_ofSegments, Nat.min_eq_left h.offset_le]
  dsimp only [Source.ofSegments, Source.writtenOffset]
  rw [Lines.lineColumn_ofText hsize]

/-- The line and the column of a position are those of the place in the written text. -/
theorem exists_around_position {segments : List Segment}
    (hsize : byteSize (writtenText segments) < 2 ^ 32) {offset : Nat}
    (h : Boundary (Source.ofSegments segments).text offset)
    (hposition : (Source.ofSegments segments).position offset = position) :
    ∃ left right, writtenText segments = left ++ right ∧
      byteSize left = writtenOffset segments offset ∧
      (Source.ofSegments segments).lines.line? position.line =
        some (lineBefore left right ++ lineBehind left right) ∧
      beforeColumn (lineBefore left right ++ lineBehind left right) position.column =
        lineBefore left right ∧
      position = ⟨writtenOffset segments offset,
        {span | TerminatorAt (writtenText segments) span ∧ span.stop ≤ byteSize left}.ncard,
        bytesBefore left right⟩ := by
  have hplace : Boundary (writtenText segments) (writtenOffset segments offset) :=
    boundary_writtenOffset h
  rw [position_ofSegments hsize h] at hposition
  subst hposition
  rcases exists_around hplace with ⟨left, right, htext, hleft, hline, hbefore, hbytes⟩
  have hcounted := Lines.lineAt_ofText (writtenText segments) (writtenOffset segments offset)
  rw [← ncard_terminatorAt, Nat.min_eq_left hplace.offset_le] at hcounted
  refine ⟨left, right, htext, hleft, hline, hbefore, ?_⟩
  rw [hleft, ← hcounted, ← hbytes]

/-- In front of the greatest 32-bit number, lines and columns are counted from one. -/
theorem toString_position_of_lt (hline : position.line + 1 < 2 ^ 32)
    (hcolumn : position.column + 1 < 2 ^ 32) :
    toString position =
      toString (position.line + 1) ++ ":" ++ toString (position.column + 1) := by
  have hlineNumber : (position.line + 1) % UInt32.size = position.line + 1 :=
    Nat.mod_eq_of_lt hline
  have hcolumnNumber : (position.column + 1) % UInt32.size = position.column + 1 :=
    Nat.mod_eq_of_lt hcolumn
  rw [toString_position, hlineNumber, hcolumnNumber]

-- Behind the greatest column the numbers start over.
example : toString (⟨4294967295, 0, 4294967295⟩ : Position) = "1:0" := by cbv

/-- The line and the column of a position are not greater than the written text. -/
theorem position_le {segments : List Segment}
    (hsize : byteSize (writtenText segments) < 2 ^ 32) {offset : Nat}
    (h : Boundary (Source.ofSegments segments).text offset) :
    ((Source.ofSegments segments).position offset).line ≤ byteSize (writtenText segments) ∧
      ((Source.ofSegments segments).position offset).column ≤
        byteSize (writtenText segments) := by
  rw [position_ofSegments hsize h]
  exact ⟨Lines.lineAt_le (writtenText segments) _, Lines.columnAt_le (writtenText segments) _⟩

/-- The report of a place that patterns see, in a plain text or one with the markers of its
indented blocks, has four lines.  The third is the line of the written text that holds the
place, behind its number: one more than the number of terminators that end up to the place.  In
the fourth the caret stands behind one character of padding for each character of that line in
front of the place, which is a tab for a tab and a space otherwise; all of the line is in front
of a place between the two characters of its terminator.  What is in front of the bars is
equally wide in all of them.  The place, its line and its column belong to the written text, and
line and column fit into 32 bits.  The first line counts them from one.  Only at the end of a text
of the greatest size admitted here may the number of one of them not fit, and then it is zero. -/
theorem render_points_at
    (hsource : source = .plain text ∨ ∃ options, source = .withLayout options text)
    (hsize : byteSize text < 2 ^ 32) {offset : Nat} (hoffset : Boundary source.text offset)
    (hmessage : '\n' ∉ message.toList) :
    (source.position offset).line < 2 ^ 32 ∧ (source.position offset).column < 2 ^ 32 ∧
      (byteSize text + 1 < 2 ^ 32 → toString (source.position offset) =
        toString ((source.position offset).line + 1) ++ ":" ++
          toString ((source.position offset).column + 1)) ∧
      ∃ left right number gutter pad : List Char,
        text = left ++ right ∧ byteSize left = source.writtenOffset offset ∧
        source.position offset = ⟨source.writtenOffset offset,
          {span | TerminatorAt text span ∧ span.stop ≤ byteSize left}.ncard,
          bytesBefore left right⟩ ∧
        (render source (source.position offset) message).toList.splitOn '\n' =
          [("error: " ++ message ++ " at " ++ toString (source.position offset)).toList,
            gutter ++ " |".toList,
            number ++ " | ".toList ++ (lineBefore left right ++ lineBehind left right),
            gutter ++ " | ".toList ++ pad ++ ['^']] ∧
        number = (toString ({span | TerminatorAt text span ∧
          span.stop ≤ byteSize left}.ncard + 1)).toList ∧
        gutter = List.replicate number.length ' ' ∧
        List.Forall₂ (fun c pad => pad = if c = '\t' then '\t' else ' ')
          (lineBefore left right) pad := by
  rcases exists_ofSegments hsource with ⟨segments, rfl, rfl⟩
  rcases position_le hsize hoffset with ⟨hline, hcolumn⟩
  refine ⟨hline.trans_lt hsize, hcolumn.trans_lt hsize, fun hshorter =>
    toString_position_of_lt (Nat.lt_of_le_of_lt (Nat.succ_le_succ hline) hshorter)
      (Nat.lt_of_le_of_lt (Nat.succ_le_succ hcolumn) hshorter), ?_⟩
  clear hline hcolumn
  generalize hposition : (Source.ofSegments segments).position offset = position
  rcases exists_around_position hsize hoffset hposition with
    ⟨left, right, htext, hleft, hline, hbefore, hplace⟩
  have hfeed : '\n' ∉ lineBefore left right ++ lineBehind left right := fun h =>
    Bool.false_ne_true (isTerminator_of_mem_line h).symm
  refine ⟨left, right, (toString (position.line + 1)).toList, _,
    caretPad (lineBefore left right), htext, hleft, hplace, ?_, ?_, rfl, forall₂_caretPad _⟩
  · rw [splitOn_render hmessage hline hfeed, hbefore, String.length_toList]
  · rw [hplace]

theorem render_points_at_pair :
    Boundary (Source.withLayout {} "a:\r\n\té;\r\nb".toList).text 12 ∧
      render (.withLayout {} "a:\r\n\té;\r\nb".toList)
        ((Source.withLayout {} "a:\r\n\té;\r\nb".toList).position 12) "expected X" =
        "error: expected X at 2:6\n  |\n2 | \té;\n  | \t  ^" ∧
      ∃ left right number gutter pad : List Char,
        "a:\r\n\té;\r\nb".toList = left ++ right ∧ byteSize left = 9 ∧
        "error: expected X at 2:6\n  |\n2 | \té;\n  | \t  ^".toList.splitOn '\n' =
          ["error: expected X at 2:6".toList, gutter ++ " |".toList,
            number ++ " | ".toList ++ (lineBefore left right ++ lineBehind left right),
            gutter ++ " | ".toList ++ pad ++ ['^']] ∧
        gutter = List.replicate number.length ' ' ∧
        List.Forall₂ (fun c pad => pad = if c = '\t' then '\t' else ' ')
          (lineBefore left right) pad := by
  have hplace : Boundary (Source.withLayout {} "a:\r\n\té;\r\nb".toList).text 12 :=
    ⟨"a:\r\n\t".toList ++ [indentMark] ++ "é;\r".toList,
      '\n' :: dedentMark :: "b".toList, by cbv, by decide⟩
  have hposition : (Source.withLayout {} "a:\r\n\té;\r\nb".toList).position 12 = ⟨9, 1, 5⟩ := by
    cbv
  have hwritten : (Source.withLayout {} "a:\r\n\té;\r\nb".toList).writtenOffset 12 = 9 := by
    cbv
  have hrender : render (.withLayout {} "a:\r\n\té;\r\nb".toList) ⟨9, 1, 5⟩ "expected X" =
      "error: expected X at 2:6\n  |\n2 | \té;\n  | \t  ^" := by
    cbv
  have hpoints := @render_points_at _ "a:\r\n\té;\r\nb".toList "expected X" (.inr ⟨{}, rfl⟩)
    (by decide) 12 hplace (by decide)
  rw [hposition, hwritten, hrender] at hpoints
  rcases hpoints with ⟨-, -, -, left, right, number, gutter, pad, htext, hleft, -, hlines, -,
    hgutter, hpad⟩
  exact ⟨hplace, hposition.symm ▸ hrender, left, right, number, gutter, pad, htext, hleft, hlines,
    hgutter, hpad⟩

end Report

end Peg

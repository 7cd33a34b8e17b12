import Mathlib.Data.List.Pairwise
import Mathlib.Data.Set.Card
import Peg.Proofs.Text.LineIndex

/-!
# Lines tile the text

What an index of lines says about a text is said here without the index: which spans of the
text are terminators, and how lines and terminators take turns.  The spans of the lines fill
the text but for one terminator between any two of them, and the line of an offset is the
number of terminators that end up to it.

Main results:

- `mem_terminatorSpans_iff`: the scan finds the terminators of the text, and nothing else.
- `tiles_lineSpans`: lines and terminators take turns up to the end of the text.
- `Lines.exact_ofText`: the index of a text is exact.
-/

namespace Peg.Text

variable {text front ending back : List Char} {c : Char} {span : Span}

/-! ## Terminators in a text -/

/-- Some characters are a line terminator, given what stands in front of them and behind
them: the halves of a pair are none by themselves. -/
inductive Terminator (front : List Char) : List Char → List Char → Prop
  | both (back : List Char) : Terminator front ['\r', '\n'] back
  | feed (hfront : front.getLast? ≠ some '\r') (back : List Char) : Terminator front ['\n'] back
  | carriage {back : List Char} (hback : back.head? ≠ some '\n') : Terminator front ['\r'] back

/-- A line terminator stands at a span of a text. -/
def TerminatorAt (text : List Char) (span : Span) : Prop :=
  ∃ front ending back, text = front ++ (ending ++ back) ∧
    span = ⟨byteSize front, byteSize front + byteSize ending⟩ ∧ Terminator front ending back

/-- A line terminator stands at a span, in what follows a leading part of a text. -/
def TerminatorBehind (front text : List Char) (span : Span) : Prop :=
  ∃ more ending back, text = more ++ (ending ++ back) ∧
    span = ⟨byteSize (front ++ more), byteSize (front ++ more) + byteSize ending⟩ ∧
    Terminator (front ++ more) ending back

theorem not_terminatorBehind_nil (front : List Char) (span : Span) :
    ¬ TerminatorBehind front [] span := by
  rintro ⟨more, ending, back, htext, -, hterm⟩
  cases hterm <;> simp at htext

/-- A terminator stands at the next character, or behind it. -/
theorem terminatorBehind_cons_iff :
    TerminatorBehind front (c :: text) span ↔
      (∃ ending back, c :: text = ending ++ back ∧
        span = ⟨byteSize front, byteSize front + byteSize ending⟩ ∧
        Terminator front ending back) ∨ TerminatorBehind (front ++ [c]) text span := by
  constructor
  · rintro ⟨more, ending, back, htext, rfl, hterm⟩
    cases more with
    | nil =>
        rw [List.append_nil] at hterm ⊢
        exact .inl ⟨ending, back, htext, rfl, hterm⟩
    | cons d more =>
        obtain ⟨rfl, rfl⟩ := List.cons.inj htext
        have hfront : front ++ c :: more = front ++ [c] ++ more := by simp
        rw [hfront] at hterm ⊢
        exact .inr ⟨more, ending, back, rfl, rfl, hterm⟩
  · rintro (⟨ending, back, htext, rfl, hterm⟩ | ⟨more, ending, back, rfl, rfl, hterm⟩)
    · exact ⟨[], ending, back, htext, by rw [List.append_nil], by rwa [List.append_nil]⟩
    · have hfront : front ++ c :: more = front ++ [c] ++ more := by simp
      exact ⟨c :: more, ending, back, rfl, by rw [hfront], by rwa [hfront]⟩

/-- A pair is one terminator. -/
theorem terminatorBehind_pair_iff :
    TerminatorBehind front ('\r' :: '\n' :: text) span ↔
      span = ⟨byteSize front, byteSize front + 2⟩ ∨
        TerminatorBehind (front ++ ['\r', '\n']) text span := by
  have hfront : front ++ ['\r'] ++ ['\n'] = front ++ ['\r', '\n'] := by simp
  rw [terminatorBehind_cons_iff, terminatorBehind_cons_iff, hfront]
  constructor
  · rintro (⟨ending, back, htext, rfl, hterm⟩ | ⟨ending, back, htext, -, hterm⟩ | hlater)
    · cases hterm with
      | both => exact .inl rfl
      | feed => simp at htext
      | carriage hback =>
          obtain ⟨-, rfl⟩ := List.cons.inj htext
          exact absurd rfl hback
    · cases hterm with
      | both => simp at htext
      | feed hlast => simp at hlast
      | carriage => simp at htext
    · exact .inr hlater
  · rintro (rfl | hlater)
    · exact .inl ⟨['\r', '\n'], text, rfl, rfl, .both text⟩
    · exact .inr (.inr hlater)

/-- A character by itself is a terminator or none. -/
theorem terminatorBehind_single_iff (hfront : front.getLast? = some '\r' → c ≠ '\n')
    (hnot : c = '\r' → text.head? ≠ some '\n') :
    TerminatorBehind front (c :: text) span ↔
      (isTerminator c = true ∧ span = ⟨byteSize front, byteSize front + c.utf8Size⟩) ∨
        TerminatorBehind (front ++ [c]) text span := by
  rw [terminatorBehind_cons_iff]
  refine or_congr_left ⟨?_, ?_⟩
  · rintro ⟨ending, back, htext, rfl, hterm⟩
    cases hterm with
    | both =>
        obtain ⟨rfl, rfl⟩ := List.cons.inj htext
        exact absurd rfl (hnot rfl)
    | feed =>
        obtain ⟨rfl, -⟩ := List.cons.inj htext
        exact ⟨rfl, rfl⟩
    | carriage =>
        obtain ⟨rfl, -⟩ := List.cons.inj htext
        exact ⟨rfl, rfl⟩
  · rintro ⟨hc, rfl⟩
    refine ⟨[c], text, rfl, rfl, ?_⟩
    rw [isTerminator, Bool.or_eq_true, beq_iff_eq, beq_iff_eq] at hc
    rcases hc with rfl | rfl
    · exact .feed (fun hlast => hfront hlast rfl) text
    · exact .carriage (hnot rfl)

/-- The spans of the line terminators of a text whose first byte has the given offset. -/
def terminatorSpans : Nat → List Char → List Span
  | _, [] => []
  | offset, '\r' :: '\n' :: text => ⟨offset, offset + 2⟩ :: terminatorSpans (offset + 2) text
  | offset, c :: text =>
    if isTerminator c then
      ⟨offset, offset + c.utf8Size⟩ :: terminatorSpans (offset + c.utf8Size) text
    else terminatorSpans (offset + c.utf8Size) text

/-- Lines start where terminators end. -/
theorem map_stop_terminatorSpans (offset : Nat) (text : List Char) :
    (terminatorSpans offset text).map Span.stop = terminatorEnds offset text := by
  fun_induction terminatorEnds offset text with
  | case1 offset => rfl
  | case2 offset text ih => rw [terminatorSpans, List.map_cons, ih]
  | case3 offset c text hnot hterminator ih =>
      rw [terminatorSpans.eq_3 _ _ _ hnot, if_pos hterminator, List.map_cons, ih]
  | case4 offset c text hnot hplain ih =>
      rw [terminatorSpans.eq_3 _ _ _ hnot, if_neg hplain, ih]

/-- The scan finds the terminators of the text, and nothing else. -/
theorem mem_terminatorSpans_iff (hjoint : front.getLast? = some '\r' → text.head? ≠ some '\n') :
    span ∈ terminatorSpans (byteSize front) text ↔ TerminatorBehind front text span := by
  generalize hoffset : byteSize front = offset
  fun_induction terminatorSpans offset text generalizing front with
  | case1 offset => exact iff_of_false List.not_mem_nil (not_terminatorBehind_nil front span)
  | case2 offset text ih =>
      rw [List.mem_cons, terminatorBehind_pair_iff, hoffset]
      refine or_congr_right (ih ?_ ?_)
      · simp
      · rw [byteSize_append, hoffset]
        rfl
  | case3 offset c text hnot hterminator ih =>
      rw [List.mem_cons, terminatorBehind_single_iff (by simpa using hjoint) (head?_ne_feed hnot),
        hoffset, and_iff_right hterminator]
      refine or_congr_right (ih ?_ ?_)
      · simpa using head?_ne_feed hnot
      · rw [byteSize_append, hoffset]
        rfl
  | case4 offset c text hnot hplain ih =>
      rw [terminatorBehind_single_iff (by simpa using hjoint) (head?_ne_feed hnot),
        or_iff_right fun hhere => hplain hhere.1]
      refine ih ?_ ?_
      · simpa using head?_ne_feed hnot
      · rw [byteSize_append, hoffset]
        rfl

/-- Terminators end in their order. -/
theorem pairwise_terminatorEnds (offset : Nat) (text : List Char) :
    (offset :: terminatorEnds offset text).Pairwise (· < ·) := by
  fun_induction terminatorEnds offset text with
  | case1 offset => exact List.pairwise_singleton _ _
  | case2 offset text ih => exact List.pairwise_cons_cons_iff_of_trans.2 ⟨by omega, ih⟩
  | case3 offset c text hnot hterminator ih =>
      have hless : offset < offset + c.utf8Size := Nat.lt_add_of_pos_right c.utf8Size_pos
      exact List.pairwise_cons_cons_iff_of_trans.2 ⟨hless, ih⟩
  | case4 offset c text hnot hplain ih =>
      have hless : offset < offset + c.utf8Size := Nat.lt_add_of_pos_right c.utf8Size_pos
      rcases List.pairwise_cons.1 ih with ⟨hlater, hrest⟩
      exact List.pairwise_cons.2 ⟨fun stop hstop => Nat.lt_trans hless (hlater stop hstop), hrest⟩

/-! ## Lines and terminators in turn -/

/-- Spans tile a text from an offset on: they hold no character of a terminator, one
terminator stands between one of them and the next, and the last one reaches the end of the
text. -/
inductive Tiles (text : List Char) : Nat → List Span → Prop
  | last {start : Nat} {body : List Char} (hbody : slice? start (byteSize text) text = some body)
      (hbare : ∀ c ∈ body, isTerminator c = false) :
      Tiles text start [⟨start, byteSize text⟩]
  | next {start stop after : Nat} {body : List Char} {spans : List Span}
      (hbody : slice? start stop text = some body) (hbare : ∀ c ∈ body, isTerminator c = false)
      (hending : TerminatorAt text ⟨stop, after⟩) (hrest : Tiles text after spans) :
      Tiles text start (⟨start, stop⟩ :: spans)

/-- A piece without its terminator. -/
def bare (piece : List Char) : List Char :=
  piece.takeWhile (!isTerminator ·)

/-- The spans of the lines of some pieces, the first of which starts at an offset. -/
def lineSpans : Nat → List (List Char) → List Span
  | _, [] => []
  | offset, piece :: rest =>
    ⟨offset, offset + byteSize (bare piece)⟩ :: lineSpans (offset + byteSize piece) rest

theorem bare_append {body ending : List Char} {back : List (List Char)}
    (hbody : ∀ c ∈ body, isTerminator c = false) (hending : Ending ending back) :
    bare (body ++ ending) = body := by
  rw [bare, List.takeWhile_append_of_pos fun c hc => by rw [hbody c hc]; rfl]
  cases hending with
  | none => simp
  | feed => simp [isTerminator]
  | both => simp [isTerminator]
  | carriage => simp [isTerminator]

theorem map_start_lineSpans (offset : Nat) (pieces : List (List Char)) :
    (lineSpans offset pieces).map Span.start = startsOf offset pieces := by
  induction pieces generalizing offset with
  | nil => rfl
  | cons piece rest ih => rw [lineSpans, List.map_cons, startsOf, ih]

/-- The span of a line stands behind the pieces in front of its own. -/
theorem getElem?_lineSpans_append (offset : Nat) (front : List (List Char)) (piece : List Char)
    (back : List (List Char)) :
    (lineSpans offset (front ++ piece :: back))[front.length]? =
      some ⟨offset + byteSize front.flatten,
        offset + byteSize front.flatten + byteSize (bare piece)⟩ := by
  induction front generalizing offset with
  | nil => simp [lineSpans]
  | cons first front ih =>
      rw [List.cons_append, lineSpans, List.length_cons, List.getElem?_cons_succ, ih,
        List.flatten_cons, byteSize_append, Nat.add_assoc offset]

/-- The spans that the index gives are those of the pieces. -/
theorem Lines.span?_eq_getElem? (text : List Char) (line : Nat) :
    (ofText text).span? line = (lineSpans 0 (pieces text))[line]? := by
  cases hstart : (ofText text).start? line with
  | none =>
      have hspan : (ofText text).span? line = none := by rw [span?, hstart]; rfl
      have hnone : ((lineSpans 0 (pieces text)).map Span.start)[line]? = none := by
        rw [map_start_lineSpans, ← start?_ofText, hstart]
      rw [List.getElem?_map, Option.map_eq_none_iff] at hnone
      rw [hspan, hnone]
  | some start =>
      rcases exists_piece_of_start? hstart with ⟨front, piece, back, hpieces, rfl, -⟩
      rcases exists_ending hpieces with ⟨body, ending, rfl, hbody, hending⟩
      rw [span?_of_pieces hpieces hbody hending, hpieces, getElem?_lineSpans_append,
        bare_append hbody hending, Nat.zero_add]

/-- A carriage return at the end of a piece has no line feed behind it. -/
theorem head?_ne_feed_of_pieces {front back : List (List Char)} {piece : List Char}
    (h : pieces text = front ++ piece :: back) (hlast : front.flatten.getLast? = some '\r') :
    (piece :: back).flatten.head? ≠ some '\n' := by
  rcases front.eq_nil_or_concat with rfl | ⟨earlier, last, rfl⟩
  · cases hlast
  · rw [List.concat_eq_append, List.append_assoc] at h
    rw [List.concat_eq_append, List.flatten_append, List.flatten_singleton] at hlast
    rcases exists_ending h with ⟨body, ending, rfl, -, hending⟩
    cases hending with
    | feed => simp at hlast
    | both => simp at hlast
    | carriage _ hfeed => exact hfeed

/-- A piece ends with a terminator of the text, the last one excepted. -/
theorem terminatorAt_of_pieces {front back : List (List Char)} {body ending : List Char}
    (h : pieces text = front ++ (body ++ ending) :: back)
    (hbody : ∀ c ∈ body, isTerminator c = false) (hending : Ending ending back)
    (hback : back ≠ []) :
    TerminatorAt text ⟨byteSize front.flatten + byteSize body,
      byteSize front.flatten + byteSize (body ++ ending)⟩ := by
  have htext : text = (front.flatten ++ body) ++ (ending ++ back.flatten) := by
    rw [← flatten_pieces text, h]
    simp
  refine ⟨front.flatten ++ body, ending, back.flatten, htext, ?_, ?_⟩
  · simp [Nat.add_assoc]
  · cases hending with
    | none => exact absurd rfl hback
    | both => exact .both _
    | carriage _ hfeed => exact .carriage hfeed
    | feed =>
        refine .feed (fun hlast => ?_) _
        by_cases hempty : body = []
        · subst hempty
          rw [List.append_nil] at hlast
          exact head?_ne_feed_of_pieces h hlast rfl
        · rw [List.getLast?_append_of_ne_nil _ hempty] at hlast
          exact Bool.false_ne_true (hbody _ (List.mem_of_getLast? hlast)).symm

/-- Lines and terminators take turns up to the end of the text. -/
theorem tiles_lineSpans {front back : List (List Char)} (h : pieces text = front ++ back)
    (hback : back ≠ []) :
    Tiles text (byteSize front.flatten) (lineSpans (byteSize front.flatten) back) := by
  induction back generalizing front with
  | nil => exact absurd rfl hback
  | cons piece back ih =>
      rcases exists_ending h with ⟨body, ending, rfl, hbody, hending⟩
      rw [lineSpans, bare_append hbody hending]
      have htext : text = front.flatten ++ (body ++ (ending ++ back.flatten)) := by
        rw [← flatten_pieces text, h]
        simp
      have hslice : slice? (byteSize front.flatten) (byteSize front.flatten + byteSize body) text =
          some body := by
        rw [htext]
        simp [slice?]
      by_cases hlast : back = []
      · subst hlast
        cases hending with
        | none =>
            have hsize : byteSize text = byteSize front.flatten + byteSize body := by
              rw [htext]
              simp
            rw [← hsize] at hslice ⊢
            exact .last hslice hbody
        | feed hnext | both hnext | carriage hnext => exact absurd rfl hnext
      · have hrest := @ih (front ++ [body ++ ending]) (by simpa using h) hlast
        have hsize : byteSize (front ++ [body ++ ending]).flatten =
            byteSize front.flatten + byteSize (body ++ ending) := by simp
        rw [hsize] at hrest
        exact .next hslice hbody (terminatorAt_of_pieces h hbody hending hlast) hrest

/-! ## Looking up an offset -/

/-- The numbers up to some bound stand in front of the others in an ascending list. -/
theorem filter_le_prefix {numbers : List Nat} (h : numbers.Pairwise (· < ·)) (bound : Nat) :
    numbers.filter (· ≤ bound) <+: numbers := by
  induction numbers with
  | nil => exact List.prefix_refl _
  | cons first numbers ih =>
      rcases List.pairwise_cons.1 h with ⟨hless, hrest⟩
      by_cases hfirst : first ≤ bound
      · rw [List.filter_cons_of_pos (by simpa using hfirst)]
        exact List.cons_prefix_cons.2 ⟨rfl, ih hrest⟩
      · have hnone : (first :: numbers).filter (· ≤ bound) = [] := by
          refine List.filter_eq_nil_iff.2 fun number hnumber => ?_
          rcases List.mem_cons.1 hnumber with rfl | hlater
          · simpa using hfirst
          · have := hless number hlater
            simp only [decide_eq_true_eq]
            omega
        rw [hnone]
        exact List.nil_prefix

theorem length_terminatorEnds_le (offset : Nat) (text : List Char) :
    (terminatorEnds offset text).length ≤ byteSize text := by
  fun_induction terminatorEnds offset text with
  | case1 offset => exact Nat.le_refl _
  | case2 offset text ih =>
      rw [List.length_cons, byteSize_cons, byteSize_cons, ← Nat.add_assoc, Nat.add_comm]
      exact Nat.add_le_add (by decide) ih
  | case3 offset c text hnot hterminator ih =>
      rw [List.length_cons, byteSize_cons, Nat.add_comm]
      exact Nat.add_le_add c.utf8Size_pos ih
  | case4 offset c text hnot hplain ih => exact Nat.le_add_left_of_le ih

/-- The terminators that end up to an offset are as many as the ends up to it. -/
theorem ncard_terminatorAt (text : List Char) (bound : Nat) :
    {span | TerminatorAt text span ∧ span.stop ≤ bound}.ncard =
      ((terminatorEnds 0 text).filter (· ≤ bound)).length := by
  have hnodup : (terminatorSpans 0 text).Nodup := by
    refine List.Nodup.of_map Span.stop ?_
    rw [map_stop_terminatorSpans]
    exact (List.pairwise_cons.1 (pairwise_terminatorEnds 0 text)).2.imp Nat.ne_of_lt
  have hset : {span | TerminatorAt text span ∧ span.stop ≤ bound} =
      ((terminatorSpans 0 text).filter (·.stop ≤ bound)).toFinset := by
    ext span
    have hjoint : [].getLast? = some '\r' → text.head? ≠ some '\n' := nofun
    have hmem : span ∈ _ ↔ _ := mem_terminatorSpans_iff hjoint
    simp only [Set.mem_ofPred_eq, List.coe_toFinset, List.mem_filter, decide_eq_true_eq]
    exact and_congr_left fun _ => hmem.symm
  rw [hset, Set.ncard_coe_finset, List.toFinset_card_of_nodup (hnodup.filter _),
    ← map_stop_terminatorSpans, List.filter_map, List.length_map]
  rfl

namespace Lines

/-- The line of an offset is the number of terminators that end up to it. -/
theorem lineAt_ofText (text : List Char) (offset : Nat) :
    (ofText text).lineAt offset =
      ((terminatorEnds 0 text).filter (· ≤ min offset (byteSize text))).length := by
  rw [lineAt, size_ofText, starts_ofText, List.filter_cons_of_pos (by simp)]
  rfl

/-- The line of an offset starts up to it. -/
theorem exists_start_lineAt (text : List Char) (offset : Nat) :
    ∃ start, (ofText text).start? ((ofText text).lineAt offset) = some start ∧
      start + (ofText text).columnAt offset = min offset (byteSize text) := by
  rcases filter_le_prefix (pairwise_terminatorEnds 0 text) (min offset (byteSize text)) with
    ⟨later, hstarts⟩
  have hline : (ofText text).lineAt offset <
      ((0 :: terminatorEnds 0 text).filter (· ≤ min offset (byteSize text))).length := by
    rw [lineAt_ofText, List.filter_cons_of_pos (by simp)]
    exact Nat.lt_succ_self _
  have hstart := @List.getElem?_append_left Nat _ later _ hline
  rw [hstarts, List.getElem?_eq_getElem hline] at hstart
  refine ⟨_, hstart, ?_⟩
  have hle := (List.mem_filter.1 (List.getElem_mem hline)).2
  rw [decide_eq_true_eq] at hle
  rw [columnAt, size_ofText, start?, starts_ofText, hstart, Option.getD_some]
  exact Nat.add_sub_cancel' hle

/-- There are no more lines than bytes. -/
theorem lineAt_le (text : List Char) (offset : Nat) :
    (ofText text).lineAt offset ≤ byteSize text := by
  rw [lineAt_ofText]
  exact Nat.le_trans (List.length_filter_le _ _) (length_terminatorEnds_le 0 text)

/-- Lines are not longer than the text. -/
theorem columnAt_le (text : List Char) (offset : Nat) :
    (ofText text).columnAt offset ≤ byteSize text :=
  Nat.le_trans (Nat.sub_le _ _) (Nat.min_le_right _ _)

/-- In a text whose offsets fit into 32 bits, lines and columns fit as well. -/
theorem lineColumn_ofText {text : List Char} (hsize : byteSize text < 2 ^ 32) (offset : Nat) :
    (ofText text).lineColumn offset =
      ⟨(ofText text).lineAt offset, (ofText text).columnAt offset⟩ := by
  have hmost : byteSize text ≤ UInt32.size - 1 := Nat.le_sub_one_of_lt hsize
  rw [lineColumn, Nat.min_eq_left (Nat.le_trans (lineAt_le text offset) hmost),
    Nat.min_eq_left (Nat.le_trans (columnAt_le text offset) hmost)]

/-- Lines and columns are 32-bit words. -/
theorem lineColumn_lt (lines : Lines) (offset : Nat) :
    (lines.lineColumn offset).line < 2 ^ 32 ∧ (lines.lineColumn offset).column < 2 ^ 32 :=
  ⟨Nat.lt_of_le_of_lt (Nat.min_le_right _ _) (by decide),
    Nat.lt_of_le_of_lt (Nat.min_le_right _ _) (by decide)⟩

/-! ## The index -/

/-- What an index of lines says about a text is exact. -/
structure Exact (text : List Char) (lines : Lines) : Prop where
  /-- The first line starts the text. -/
  head_starts : lines.starts.head? = some 0
  /-- Lines start one behind another. -/
  increasing : lines.starts.Pairwise (· < ·)
  /-- The lines without their terminators, and one terminator between any two of them, make
  up the text. -/
  tiling : ∃ spans, (∀ line, lines.span? line = spans[line]?) ∧
    spans.map Span.start = lines.starts ∧ Tiles text 0 spans
  /-- An offset is found again from its line and its column. -/
  inverse : ∀ offset, ∃ start, lines.start? (lines.lineColumn offset).line = some start ∧
    start + (lines.lineColumn offset).column = min offset (byteSize text)
  /-- The line of an offset is the number of terminators that end up to it. -/
  counted : ∀ offset, (lines.lineColumn offset).line =
    {span | TerminatorAt text span ∧ span.stop ≤ min offset (byteSize text)}.ncard
  /-- Lines and columns fit into 32 bits. -/
  fits : ∀ offset, (lines.lineColumn offset).line < 2 ^ 32 ∧
    (lines.lineColumn offset).column < 2 ^ 32

/-- The index of a text is exact, whatever terminators the text mixes, if offsets in it fit
into 32 bits. -/
theorem exact_ofText {text : List Char} (hsize : byteSize text < 2 ^ 32) :
    Exact text (ofText text) where
  head_starts := rfl
  increasing := pairwise_terminatorEnds 0 text
  tiling := by
    refine ⟨lineSpans 0 (pieces text), span?_eq_getElem? text, ?_, ?_⟩
    · rw [map_start_lineSpans, starts_ofText, starts_eq_startsOf]
    · have hpieces : pieces text = [] ++ pieces text := rfl
      exact tiles_lineSpans hpieces (pieces_ne_nil text)
  inverse offset := by
    rw [lineColumn_ofText hsize]
    exact exists_start_lineAt text offset
  counted offset := by rw [lineColumn_ofText hsize, lineAt_ofText, ncard_terminatorAt]
  fits := lineColumn_lt (ofText text)

/-- Pairs, lone carriage returns and line feeds next to one another. -/
theorem exact_ofText_mixed :
    byteSize "a\r\n\rb\n\r".toList < 2 ^ 32 ∧
      Exact "a\r\n\rb\n\r".toList (ofText "a\r\n\rb\n\r".toList) ∧
      (ofText "a\r\n\rb\n\r".toList).starts = [0, 3, 4, 6, 7] ∧
      (ofText "a\r\n\rb\n\r".toList).lineColumn 2 = ⟨0, 2⟩ := by
  have hsize : byteSize "a\r\n\rb\n\r".toList < 2 ^ 32 := by decide
  exact ⟨hsize, exact_ofText hsize, by decide, by decide⟩

end Lines

end Peg.Text

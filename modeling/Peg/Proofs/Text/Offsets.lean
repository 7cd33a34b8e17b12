import Peg.Proofs.Text.Blocks
import Peg.Proofs.Text.Written

/-!
# Offsets in annotated text

The markers of an annotated text are undone by tracing offsets back to the written text:
offsets keep their order, every place in the written text is reached, a byte that was written is
traced back to itself, and a byte of a marker to the place where the marker was put in.

The walk over the segments comes to the same as looking up the last run of markers that begins
at or in front of the offset, in a table of all runs with the number of marker bytes in front
of each.

Main results:

- `writtenOffset_append`: offsets behind a leading part are traced back behind it.
- `writtenOffset_eq_trace`: the walk agrees with the table.
- `Source.tracesBack_withLayout`: the markers of indented blocks are undone.
-/

namespace Peg.Text

variable {segments front back : List Segment} {text marks : List Char} {offset place : Nat}

/-! ## Segments -/

/-- A place inside of kept text is its own. -/
theorem writtenOffset_kept_of_lt (h : offset < byteSize text) (segments : List Segment) :
    writtenOffset (.kept text :: segments) offset = offset := by
  rw [writtenOffset, if_pos h]

/-- Behind kept text the count goes on. -/
theorem writtenOffset_kept_add (text : List Char) (segments : List Segment) (offset : Nat) :
    writtenOffset (.kept text :: segments) (byteSize text + offset) =
      byteSize text + writtenOffset segments offset := by
  rw [writtenOffset, if_neg (by omega), Nat.add_sub_cancel_left]

/-- A place inside of markers is where they were put in. -/
theorem writtenOffset_inserted_of_lt (h : offset < byteSize marks) (segments : List Segment) :
    writtenOffset (.inserted marks :: segments) offset = 0 := by
  rw [writtenOffset, if_pos h]

/-- Behind markers the count goes on as if they were not there. -/
theorem writtenOffset_inserted_add (marks : List Char) (segments : List Segment)
    (offset : Nat) :
    writtenOffset (.inserted marks :: segments) (byteSize marks + offset) =
      writtenOffset segments offset := by
  rw [writtenOffset, if_neg (by omega), Nat.add_sub_cancel_left]

/-- Offsets behind a leading part are traced back behind it. -/
theorem writtenOffset_append (front back : List Segment) (offset : Nat) :
    writtenOffset (front ++ back) (byteSize (annotatedText front) + offset) =
      byteSize (writtenText front) + writtenOffset back offset := by
  induction front with
  | nil => exact (congrArg _ (Nat.zero_add offset)).trans (Nat.zero_add _).symm
  | cons segment front ih =>
      rw [annotatedText_cons, writtenText_cons, byteSize_append, byteSize_append,
        List.cons_append, Nat.add_assoc, Nat.add_assoc, ← ih]
      cases segment with
      | kept text => exact writtenOffset_kept_add ..
      | inserted marks => exact (writtenOffset_inserted_add ..).trans (Nat.zero_add _).symm

/-- Places come in the same order in the written text. -/
theorem writtenOffset_mono (segments : List Segment) {a b : Nat} (h : a ≤ b) :
    writtenOffset segments a ≤ writtenOffset segments b := by
  induction segments generalizing a b with
  | nil => exact h
  | cons segment segments ih =>
      cases segment with
      | kept text =>
          simp only [writtenOffset]
          have hrest := ih (Nat.sub_le_sub_right h (byteSize text))
          split
          next hin =>
              split
              next => exact h
              next => omega
          next hout =>
              rw [if_neg (by omega)]
              omega
      | inserted marks =>
          simp only [writtenOffset]
          split
          next => exact Nat.zero_le _
          next hout =>
              rw [if_neg (by omega)]
              exact ih (Nat.sub_le_sub_right h (byteSize marks))

/-- Every place in the written text is reached. -/
theorem exists_writtenOffset_eq (h : place ≤ byteSize (writtenText segments)) :
    ∃ offset ≤ byteSize (annotatedText segments), writtenOffset segments offset = place := by
  induction segments generalizing place with
  | nil => exact ⟨place, h, rfl⟩
  | cons segment segments ih =>
      rw [writtenText_cons, byteSize_append] at h
      rw [annotatedText_cons, byteSize_append]
      cases segment with
      | kept text =>
          simp only [Segment.written, Segment.chars] at h ⊢
          by_cases hin : place < byteSize text
          · exact ⟨place, by omega, writtenOffset_kept_of_lt hin segments⟩
          · have hrest : place - byteSize text ≤ byteSize (writtenText segments) := by omega
            rcases ih hrest with ⟨offset, hle, hoffset⟩
            refine ⟨byteSize text + offset, by omega, ?_⟩
            rw [writtenOffset_kept_add, hoffset]
            omega
      | inserted marks =>
          simp only [Segment.written, Segment.chars, byteSize_nil, Nat.zero_add] at h ⊢
          rcases ih h with ⟨offset, hle, hoffset⟩
          refine ⟨byteSize marks + offset, by omega, ?_⟩
          rw [writtenOffset_inserted_add, hoffset]

/-! ## Runs of markers -/

/-- A run of markers in annotated text. -/
structure MarkerRun where
  /-- Where it begins in the annotated text. -/
  start : Nat
  /-- Number of its bytes. -/
  size : Nat
  /-- Number of bytes of the runs in front of it. -/
  before : Nat
  deriving DecidableEq, Repr

/-- The runs of markers in segments that have a number of bytes in front of them, some of which
are bytes of markers. -/
def markerRuns : Nat → Nat → List Segment → List MarkerRun
  | _, _, [] => []
  | start, before, .kept text :: segments => markerRuns (start + byteSize text) before segments
  | start, before, .inserted marks :: segments =>
    if marks = [] then markerRuns start before segments
    else
      ⟨start, byteSize marks, before⟩ ::
        markerRuns (start + byteSize marks) (before + byteSize marks) segments

/-- Trace an offset back by a run at or in front of it. -/
def MarkerRun.trace (run : MarkerRun) (offset : Nat) : Nat :=
  if offset < run.start + run.size then run.start - run.before
  else offset - run.before - run.size

/-- The last of the runs that begin at or in front of an offset. -/
def lastRun? (runs : List MarkerRun) (offset : Nat) : Option MarkerRun :=
  (runs.takeWhile (·.start ≤ offset)).getLast?

/-- Trace an offset back by the last run that begins at or in front of it, if there is one. -/
def trace (runs : List MarkerRun) (offset : Nat) : Nat :=
  (lastRun? runs offset).elim offset (·.trace offset)

theorem lastRun?_cons {run : MarkerRun} (h : run.start ≤ offset) (runs : List MarkerRun) :
    lastRun? (run :: runs) offset = some ((lastRun? runs offset).getD run) := by
  rw [lastRun?, List.takeWhile_cons_of_pos (by simpa using h), List.getLast?_cons]
  rfl

/-- Behind a run the last of the later ones decides; if there is none, the markers of the run are
in front. -/
theorem MarkerRun.trace_getD {run : MarkerRun} (h : run.start + run.size ≤ offset)
    (later : Option MarkerRun) :
    (later.getD run).trace offset =
      later.elim (offset - (run.before + run.size)) (·.trace offset) := by
  cases later with
  | some other => rfl
  | none =>
      rw [Option.getD_none, Option.elim_none, MarkerRun.trace, if_neg (Nat.not_lt.2 h), Nat.sub_sub]

/-- The runs of segments begin behind what is in front of the segments. -/
theorem start_le_of_mem_markerRuns {start before : Nat} {run : MarkerRun}
    (h : run ∈ markerRuns start before segments) : start ≤ run.start := by
  induction segments generalizing start before with
  | nil => cases h
  | cons segment segments ih =>
      cases segment with
      | kept text => exact Nat.le_trans (Nat.le_add_right _ _) (ih h)
      | inserted marks =>
          rw [markerRuns] at h
          split at h
          next => exact ih h
          next =>
              rcases List.mem_cons.1 h with rfl | hlater
              · exact Nat.le_refl _
              · exact Nat.le_trans (Nat.le_add_right _ _) (ih hlater)

/-- No run begins in front of the segments. -/
theorem lastRun?_markerRuns_eq_none {start before : Nat} (h : offset < start) :
    lastRun? (markerRuns start before segments) offset = none := by
  cases hruns : markerRuns start before segments with
  | nil => rfl
  | cons run runs =>
      have hle : start ≤ run.start := start_le_of_mem_markerRuns (hruns ▸ List.mem_cons_self)
      rw [lastRun?, List.takeWhile_cons_of_neg (by simp; omega)]
      rfl

/-- From behind a number of bytes on, the last run that begins at or in front of an offset
decides; if there is none, all markers are in front. -/
theorem elim_lastRun?_markerRuns {start before : Nat} (hbefore : before ≤ start)
    (hstart : start ≤ offset) :
    (lastRun? (markerRuns start before segments) offset).elim (offset - before) (·.trace offset) =
      start - before + writtenOffset segments (offset - start) := by
  -- The table counts from the front of the text, the walk from the front of the segments.
  induction segments generalizing start before with
  | nil =>
      rw [writtenOffset]
      change offset - before = _
      omega
  | cons segment segments ih =>
      cases segment with
      | kept text =>
          rw [markerRuns]
          by_cases hin : offset < start + byteSize text
          · rw [lastRun?_markerRuns_eq_none hin, writtenOffset_kept_of_lt (by omega),
              Option.elim_none]
            omega
          · have hsplit : offset - start = byteSize text + (offset - (start + byteSize text)) := by
              omega
            rw [ih (by omega) (by omega), hsplit, writtenOffset_kept_add]
            omega
      | inserted marks =>
          rw [markerRuns]
          by_cases hempty : marks = []
          · subst hempty
            have hnone := writtenOffset_inserted_add [] segments (offset - start)
            rw [byteSize_nil, Nat.zero_add] at hnone
            rw [if_pos rfl, ih hbefore hstart, hnone]
          · rw [if_neg hempty, lastRun?_cons hstart, Option.elim_some]
            by_cases hin : offset < start + byteSize marks
            · rw [lastRun?_markerRuns_eq_none hin, writtenOffset_inserted_of_lt (by omega)]
              exact if_pos hin
            · have hsplit :
                  offset - start = byteSize marks + (offset - (start + byteSize marks)) := by
                omega
              rw [MarkerRun.trace_getD (Nat.not_lt.1 hin), ih (by omega) (by omega), hsplit,
                writtenOffset_inserted_add, Nat.add_sub_add_right]

/-- The walk over the segments agrees with the table of all runs. -/
theorem writtenOffset_eq_trace (segments : List Segment) (offset : Nat) :
    writtenOffset segments offset = trace (markerRuns 0 0 segments) offset := by
  have htrace : (lastRun? (markerRuns 0 0 segments) offset).elim (offset - 0) (·.trace offset) =
      0 - 0 + writtenOffset segments (offset - 0) :=
    elim_lastRun?_markerRuns (Nat.le_refl 0) (Nat.zero_le offset)
  rw [trace]
  simpa using htrace.symm

/-! ## Sources -/

/-- The markers of a source are undone: its offsets are traced back to a text. -/
structure Source.TracesBack (source : Source) (text : List Char) : Prop where
  /-- Without the markers it is the text. -/
  written : source.text = annotatedText source.segments ∧ writtenText source.segments = text
  /-- Offsets keep their order. -/
  mono : ∀ a b, a ≤ b → source.writtenOffset a ≤ source.writtenOffset b
  /-- They are traced back to the text. -/
  within : ∀ offset ≤ source.size, source.writtenOffset offset ≤ byteSize text
  /-- Every place in the text is reached. -/
  onto : ∀ place ≤ byteSize text, ∃ offset ≤ source.size, source.writtenOffset offset = place
  /-- The end is traced back to the end. -/
  stop : source.writtenOffset source.size = byteSize text
  /-- A byte that was written is traced back to itself. -/
  kept : ∀ front text back, source.segments = front ++ .kept text :: back →
    ∀ i < byteSize text, source.writtenOffset (byteSize (annotatedText front) + i) =
      byteSize (writtenText front) + i
  /-- A byte of a marker is traced back to where the marker was put in. -/
  inserted : ∀ front marks back, source.segments = front ++ .inserted marks :: back →
    ∀ i < byteSize marks, source.writtenOffset (byteSize (annotatedText front) + i) =
      byteSize (writtenText front)

/-- The offsets of any annotated text trace back to the written one. -/
theorem Source.tracesBack_ofSegments (segments : List Segment) :
    (ofSegments segments).TracesBack (writtenText segments) where
  written := ⟨rfl, rfl⟩
  mono _ _ h := writtenOffset_mono segments h
  within offset hoffset := by
    have hmono := writtenOffset_mono segments hoffset
    exact Nat.le_trans hmono (Nat.le_of_eq (writtenOffset_byteSize segments))
  onto _ hplace := exists_writtenOffset_eq hplace
  stop := writtenOffset_byteSize segments
  kept front text back hsegments i hi := by
    change Text.writtenOffset (ofSegments segments).segments _ = _
    rw [hsegments, writtenOffset_append, writtenOffset_kept_of_lt hi]
  inserted front marks back hsegments i hi := by
    change Text.writtenOffset (ofSegments segments).segments _ = _
    rw [hsegments, writtenOffset_append, writtenOffset_inserted_of_lt hi]
    rfl

namespace Layout

/-- What brings the open blocks in line with a width are markers. -/
theorem isMark_of_mem_adjust {levels : List Nat} {width : Nat} {c : Char}
    (h : c ∈ (adjust levels width).2) : IsMark c := by
  unfold adjust at h
  dsimp only at h
  split at h
  next =>
      rcases List.mem_append.1 h with hclosing | hopening
      · exact .inr (List.eq_of_mem_replicate hclosing)
      · exact .inl (List.mem_singleton.1 hopening)
  next => exact .inr (List.eq_of_mem_replicate h)

/-- Nothing but markers is put into a text. -/
theorem isMark_of_mem_annotateLines {options : LayoutOptions} {levels : List Nat}
    {lines : List (List Char)} {marks : List Char} {c : Char}
    (hmarks : .inserted marks ∈ annotateLines options levels lines) (hc : c ∈ marks) :
    IsMark c := by
  induction lines generalizing levels with
  | nil =>
      rw [annotateLines, List.mem_singleton, Segment.inserted.injEq] at hmarks
      exact .inr (List.eq_of_mem_replicate (hmarks ▸ hc))
  | cons line lines ih =>
      rw [annotateLines_cons] at hmarks
      rcases List.mem_append.1 hmarks with hline | hlater
      · rw [annotateLine_eq] at hline
        split at hline
        next => cases List.mem_singleton.1 hline
        next =>
            have hrun : marks = (adjust levels (lineWidth options line)).2 := by
              simpa using hline
            exact isMark_of_mem_adjust (hrun ▸ hc)
      · exact ih hlater

end Layout

/-- The markers of indented blocks are undone, and nothing but markers was put in. -/
theorem Source.tracesBack_withLayout (options : LayoutOptions) (text : List Char) :
    (withLayout options text).TracesBack text ∧
      ∀ marks, .inserted marks ∈ (withLayout options text).segments →
        ∀ c ∈ marks, Layout.IsMark c := by
  constructor
  · have htraces := tracesBack_ofSegments (Layout.annotate options text)
    rwa [Layout.written_annotate] at htraces
  · exact fun marks hmarks c hc => Layout.isMark_of_mem_annotateLines hmarks hc

end Peg.Text

import Peg.Text.Lines

/-!
# Lines as pieces of the text

The index of lines keeps offsets.  Here a text is cut into pieces, each a line with its
terminator, and the index is read off the pieces: a line starts behind the pieces in front of
its own, and its text is its piece without the terminator.

Main results:

- `flatten_pieces`: cutting a text into pieces loses nothing.
- `exists_ending`: a piece has its terminator at the end, and nowhere else.
- `Lines.start?_of_pieces`, `Lines.span?_of_pieces` and `Lines.line?_of_pieces`: the index read
  off the pieces.
-/

namespace Peg.Text

variable {text piece body : List Char} {front back : List (List Char)} {line offset start : Nat}

/-! ## Cutting a text into pieces -/

/-- Cut a text behind each line terminator. -/
def pieces : List Char → List (List Char)
  | [] => [[]]
  | '\r' :: '\n' :: text => ['\r', '\n'] :: pieces text
  | c :: text =>
    if isTerminator c then [c] :: pieces text else (pieces text).modifyHead (c :: ·)

/-- There is a piece at the end, which may be empty. -/
theorem pieces_ne_nil (text : List Char) : pieces text ≠ [] := by
  fun_induction pieces text with
  | case1 => simp
  | case2 text ih => simp
  | case3 c text hnot hterminator ih => simp
  | case4 c text hnot hplain ih => simpa using ih

/-- Cutting a text into pieces loses nothing. -/
theorem flatten_pieces (text : List Char) : (pieces text).flatten = text := by
  fun_induction pieces text with
  | case1 => rfl
  | case2 text ih => simp [ih]
  | case3 c text hnot hterminator ih => simp [ih]
  | case4 c text hnot hplain ih =>
      cases hpieces : pieces text with
      | nil => exact absurd hpieces (pieces_ne_nil text)
      | cons first rest =>
          rw [hpieces] at ih
          rw [List.modifyHead_cons, List.flatten_cons, List.cons_append, ← List.flatten_cons, ih]

/-- Where pieces start, from an offset on. -/
def startsOf : Nat → List (List Char) → List Nat
  | _, [] => []
  | offset, piece :: rest => offset :: startsOf (offset + byteSize piece) rest

/-- A line starts at the beginning of the text or behind a terminator, as its piece does. -/
theorem starts_eq_startsOf (offset : Nat) (text : List Char) :
    offset :: terminatorEnds offset text = startsOf offset (pieces text) := by
  fun_induction terminatorEnds offset text with
  | case1 offset => rfl
  | case2 offset text ih => rw [pieces, startsOf, ih]; rfl
  | case3 offset c text hnot hterminator ih =>
      rw [pieces.eq_3 _ _ hnot, if_pos hterminator, startsOf, ih]
      rfl
  | case4 offset c text hnot hplain ih =>
      rw [pieces.eq_3 _ _ hnot, if_neg hplain]
      cases hpieces : pieces text with
      | nil => exact absurd hpieces (pieces_ne_nil text)
      | cons first rest =>
          rw [hpieces, startsOf] at ih
          rw [List.modifyHead_cons, startsOf, (List.cons.inj ih).2, byteSize_cons, Nat.add_assoc]

theorem length_startsOf (offset : Nat) (pieces : List (List Char)) :
    (startsOf offset pieces).length = pieces.length := by
  induction pieces generalizing offset with
  | nil => rfl
  | cons piece rest ih => rw [startsOf, List.length_cons, List.length_cons, ih]

/-- A piece starts behind the pieces in front of it. -/
theorem getElem?_startsOf_append (offset : Nat) (front back : List (List Char)) :
    (startsOf offset (front ++ back))[front.length]? =
      if back = [] then none else some (offset + byteSize front.flatten) := by
  induction front generalizing offset with
  | nil =>
      cases back with
      | nil => rfl
      | cons piece back => simp [startsOf]
  | cons piece front ih =>
      rw [List.cons_append, startsOf, List.length_cons, List.getElem?_cons_succ, ih,
        List.flatten_cons, byteSize_append, Nat.add_assoc]

/-! ## Terminators -/

/-- What a piece ends with, given the pieces behind it: a terminator, which the last piece
lacks. -/
inductive Ending : List Char → List (List Char) → Prop
  | none : Ending [] []
  | feed {back : List (List Char)} (hback : back ≠ []) : Ending ['\n'] back
  | both {back : List (List Char)} (hback : back ≠ []) : Ending ['\r', '\n'] back
  | carriage {back : List (List Char)} (hback : back ≠ [])
      (hfeed : back.flatten.head? ≠ some '\n') : Ending ['\r'] back

theorem Ending.isTerminator {ending : List Char} (h : Ending ending back) :
    ∀ c ∈ ending, isTerminator c = true := by
  cases h <;> simp [Text.isTerminator]

/-- What is no carriage return with a line feed behind it. -/
theorem head?_ne_feed {c : Char} (h : ∀ rest, c = '\r' → text = '\n' :: rest → False) :
    c = '\r' → text.head? ≠ some '\n' := by
  intro hc hhead
  rcases List.head?_eq_some_iff.1 hhead with ⟨rest, htext⟩
  exact h rest hc htext

/-- A terminator of one character, which is no carriage return with a line feed behind it. -/
theorem ending_singleton {c : Char} (h : isTerminator c = true)
    (hfeed : ∀ rest, c = '\r' → text = '\n' :: rest → False) : Ending [c] (pieces text) := by
  rw [Text.isTerminator, Bool.or_eq_true, beq_iff_eq, beq_iff_eq] at h
  rcases h with rfl | rfl
  · exact .feed (pieces_ne_nil text)
  · refine .carriage (pieces_ne_nil text) ?_
    rw [flatten_pieces]
    exact head?_ne_feed hfeed rfl

/-- A piece has its terminator at the end, and nowhere else. -/
theorem exists_ending (h : pieces text = front ++ piece :: back) :
    ∃ body ending, piece = body ++ ending ∧ (∀ c ∈ body, isTerminator c = false) ∧
      Ending ending back := by
  fun_induction pieces text generalizing front piece back with
  | case1 =>
      cases front with
      | nil =>
          obtain ⟨rfl, rfl⟩ := List.cons.inj h
          exact ⟨[], [], rfl, nofun, .none⟩
      | cons first front => simp at h
  | case2 text ih =>
      cases front with
      | nil =>
          obtain ⟨rfl, rfl⟩ := List.cons.inj h
          exact ⟨[], _, rfl, nofun, .both (pieces_ne_nil text)⟩
      | cons first front => exact ih (List.cons.inj h).2
  | case3 c text hnot hterminator ih =>
      cases front with
      | nil =>
          obtain ⟨rfl, rfl⟩ := List.cons.inj h
          exact ⟨[], [c], rfl, nofun, ending_singleton hterminator hnot⟩
      | cons first front => exact ih (List.cons.inj h).2
  | case4 c text hnot hplain ih =>
      cases hpieces : pieces text with
      | nil => exact absurd hpieces (pieces_ne_nil text)
      | cons first rest =>
          rw [hpieces, List.modifyHead_cons] at h
          cases front with
          | nil =>
              obtain ⟨rfl, rfl⟩ := List.cons.inj h
              have hfirst : pieces text = [] ++ first :: rest := hpieces
              rcases ih hfirst with ⟨body, ending, rfl, hbody, hending⟩
              exact ⟨c :: body, ending, rfl,
                List.forall_mem_cons.2 ⟨Bool.eq_false_iff.2 hplain, hbody⟩, hending⟩
          | cons other front =>
              obtain ⟨-, rfl⟩ := List.cons.inj h
              have hlater : pieces text = (first :: front) ++ piece :: back := hpieces
              exact ih hlater

/-- Behind the first piece every piece starts behind a terminator. -/
theorem getLast?_flatten_of_pieces (h : pieces text = front ++ piece :: back) :
    front.flatten = [] ∨ front.flatten.getLast? = some '\n' ∨
      front.flatten.getLast? = some '\r' := by
  rcases front.eq_nil_or_concat with rfl | ⟨earlier, last, rfl⟩
  · exact .inl rfl
  · rw [List.concat_eq_append, List.append_assoc] at h
    rcases exists_ending h with ⟨body, ending, rfl, -, hending⟩
    rw [List.concat_eq_append, List.flatten_append, List.flatten_singleton, ← List.append_assoc]
    cases hending with
    | feed hback => exact .inr (.inl (by simp))
    | both hback => exact .inr (.inl (by simp))
    | carriage hback hfeed => exact .inr (.inr (by simp))

/-! ## The index of lines -/

/-- The size of a text does not depend on the direction it is read in. -/
theorem byteSize_reverse (text : List Char) : byteSize text.reverse = byteSize text := by
  induction text with
  | nil => rfl
  | cons c text ih =>
      rw [List.reverse_cons, byteSize_append, ih, byteSize_cons, byteSize_cons, byteSize_nil]
      omega

namespace Lines

theorem start?_ofText (text : List Char) (line : Nat) :
    (ofText text).start? line = (startsOf 0 (pieces text))[line]? := by
  rw [start?, starts_ofText, starts_eq_startsOf]

/-- A line starts behind the pieces in front of its own. -/
theorem start?_of_pieces (h : pieces text = front ++ piece :: back) :
    (ofText text).start? front.length = some (byteSize front.flatten) := by
  rw [start?_ofText, h, getElem?_startsOf_append, if_neg (List.cons_ne_nil _ _), Nat.zero_add]

/-- Every line has its piece. -/
theorem exists_piece_of_start? (h : (ofText text).start? line = some start) :
    ∃ front piece back, pieces text = front ++ piece :: back ∧ line = front.length ∧
      start = byteSize front.flatten := by
  have hstarts := h
  rw [start?_ofText] at hstarts
  have hless := (List.getElem?_eq_some_iff.1 hstarts).1
  rw [length_startsOf] at hless
  have hpieces : pieces text = (pieces text).take line ++
      (pieces text)[line] :: (pieces text).drop (line + 1) := by
    rw [← List.drop_eq_getElem_cons hless, List.take_append_drop]
  have hlength : ((pieces text).take line).length = line :=
    List.length_take_of_le (Nat.le_of_lt hless)
  have hstart := start?_of_pieces hpieces
  rw [hlength, h] at hstart
  exact ⟨_, _, _, hpieces, hlength.symm, Option.some.inj hstart⟩

/-- A line stops behind its piece. -/
theorem stop_of_pieces (h : pieces text = front ++ piece :: back) :
    ((ofText text).start? (front.length + 1)).getD (ofText text).size =
      byteSize front.flatten + byteSize piece := by
  have hmore : pieces text = (front ++ [piece]) ++ back := by simpa using h
  have hlength : front.length + 1 = (front ++ [piece]).length := by simp
  have hflatten : (front ++ [piece]).flatten = front.flatten ++ piece := by simp
  rw [start?_ofText, hlength, hmore, getElem?_startsOf_append, hflatten, size_ofText]
  split
  next hend =>
      rw [← flatten_pieces text, h, hend]
      simp
  next => rw [Option.getD_some, byteSize_append, Nat.zero_add]

/-- The span of a line covers its piece without the terminator. -/
theorem span?_of_pieces {ending : List Char} (h : pieces text = front ++ (body ++ ending) :: back)
    (hbody : ∀ c ∈ body, isTerminator c = false) (hending : Ending ending back) :
    (ofText text).span? front.length =
      some ⟨byteSize front.flatten, byteSize front.flatten + byteSize body⟩ := by
  have htext : text = front.flatten ++ ((body ++ ending) ++ back.flatten) := by
    rw [← flatten_pieces text, h]
    simp
  have hbare : (body ++ ending).reverse.dropWhile isTerminator = body.reverse := by
    rw [List.reverse_append, List.dropWhile_append_of_pos fun c hc =>
      hending.isTerminator c (List.mem_reverse.1 hc)]
    cases hrest : body.reverse with
    | nil => rfl
    | cons c rest =>
        have hmem : c ∈ body := List.mem_reverse.1 (hrest ▸ List.mem_cons_self)
        exact List.dropWhile_cons_of_neg (by rw [hbody c hmem]; exact Bool.false_ne_true)
  have hslice := Span.slice_append front.flatten (body ++ ending) back.flatten
  rw [← htext] at hslice
  rw [span?, start?_of_pieces h, Option.map_some]
  dsimp only
  rw [stop_of_pieces h]
  change some (Span.mk _ (_ + byteSize ((Span.slice _ text).reverse.dropWhile isTerminator))) = _
  rw [hslice, hbare, byteSize_reverse]

/-- The text of a line is its piece without the terminator. -/
theorem line?_of_pieces {ending : List Char} (h : pieces text = front ++ (body ++ ending) :: back)
    (hbody : ∀ c ∈ body, isTerminator c = false) (hending : Ending ending back) :
    (ofText text).line? front.length = some body := by
  have htext : text = front.flatten ++ (body ++ (ending ++ back.flatten)) := by
    rw [← flatten_pieces text, h]
    simp
  rw [line?, span?_of_pieces h hbody hending, Option.map_some]
  change some (Span.slice _ text) = _
  rw [htext, Span.slice_append]

end Lines

end Peg.Text

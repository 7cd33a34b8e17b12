import Peg.Proofs.Parse.FrontierSum

/-!
# Reports that already say it

Two frontiers give the same report if they are at the same offset and name the same
things there in the same order, each once.  A frontier covers what a stretch would add
to it if the report stays the same when the stretch is left out.

Main results:

- `Frontier.SameReport.append` and `Frontier.SameReport.recordNamed`: what is noted keeps
  reports the same.
- `Frontier.Covers.sameReport_append`: what is covered can be left out.
- `Frontier.Covers.recordNamed`: a failed rule does not take away what was covered before
  it began.
-/

namespace Peg.Frontier

variable {V : Type} {grammar : Grammar V}

/-! ## Labels -/

/-- The names in a report are those of what was tried. -/
theorem mem_labels_iff {frontier : Frontier V} {name : String} :
    name ∈ frontier.labels grammar ↔
      ∃ expected ∈ frontier.tried, expected.describe grammar = name := by
  rw [labels, List.mem_eraseDups]
  simp

/-- The names of what is added come after those that were there. -/
theorem labels_append (position : Nat) (later earlier : List (Expected V)) :
    labels grammar ⟨position, later ++ earlier⟩ =
      labels grammar ⟨position, earlier⟩ ++
        ((later.reverse.map (Expected.describe grammar)).filter
          fun name => name ∉ labels grammar ⟨position, earlier⟩).eraseDups := by
  simp only [labels, List.reverse_append, List.map_append, List.eraseDups_append]
  congr 2
  unfold List.removeAll
  refine List.filter_congr fun name _ => ?_
  simp only [List.elem_eq_mem, List.mem_eraseDups, decide_not]

/-! ## Reports -/

/-- Two frontiers are reported alike. -/
structure SameReport (grammar : Grammar V) (a b : Frontier V) : Prop where
  position_eq : a.position = b.position
  labels_eq : a.labels grammar = b.labels grammar

/-- A frontier is reported like itself. -/
theorem SameReport.refl (a : Frontier V) : SameReport grammar a a :=
  ⟨rfl, rfl⟩

theorem SameReport.symm {a b : Frontier V} (h : SameReport grammar a b) :
    SameReport grammar b a :=
  ⟨h.position_eq.symm, h.labels_eq.symm⟩

/-- Reports may be compared by way of a third. -/
theorem SameReport.trans {a b c : Frontier V} (hab : SameReport grammar a b)
    (hbc : SameReport grammar b c) : SameReport grammar a c :=
  ⟨hab.position_eq.trans hbc.position_eq, hab.labels_eq.trans hbc.labels_eq⟩

/-- What fails at the same offset later is reported behind the same names. -/
theorem SameReport.cons {position position' : Nat} {earlier earlier' : List (Expected V)}
    (h : SameReport grammar ⟨position, earlier⟩ ⟨position', earlier'⟩)
    (later : List (Expected V)) :
    SameReport grammar ⟨position, later ++ earlier⟩ ⟨position', later ++ earlier'⟩ := by
  refine ⟨h.position_eq, ?_⟩
  rw [labels_append, labels_append, h.labels_eq]

/-- A stretch adds the same to frontiers that are reported alike. -/
theorem SameReport.append {a b : Frontier V} (h : SameReport grammar a b) (later : Frontier V) :
    SameReport grammar (a ++ later) (b ++ later) := by
  have hposition := h.position_eq
  rcases Nat.lt_trichotomy a.position later.position with hlt | heq | hgt
  · rw [append_of_lt hlt, append_of_lt (hposition ▸ hlt)]
    exact .refl later
  · rw [append_of_eq heq.symm, append_of_eq (heq.symm.trans hposition)]
    exact h.cons later.tried
  · rw [append_of_gt hgt, append_of_gt (hposition ▸ hgt)]
    exact h

/-- A failed rule or label adds the same to frontiers that are reported alike. -/
theorem SameReport.recordNamed {a b before before' : Frontier V} (h : SameReport grammar a b)
    (hbefore : SameReport grammar before before') (start : Nat) (expected : Expected V) :
    SameReport grammar (a.recordNamed start before expected)
      (b.recordNamed start before' expected) := by
  unfold Frontier.recordNamed
  rw [h.position_eq, hbefore.position_eq]
  split
  next => exact h
  next =>
      split
      next =>
          have hsame : SameReport grammar ⟨start, before.tried⟩ ⟨start, before'.tried⟩ :=
            ⟨rfl, hbefore.labels_eq⟩
          exact hsame.cons [expected]
      next => exact .refl _

/-! ## Coverage -/

/-- What a stretch adds if it ends with a failed rule that started with it: something
behind the start, or the rule alone. -/
def Named (added : Frontier V) (start : Nat) (expected : Expected V) : Prop :=
  start < added.position ∨ added = ⟨start, [expected]⟩

/-- A rule that is noted as failed leaves something behind its start, or itself alone. -/
theorem named_recordNamed_empty (frontier : Frontier V) (start : Nat) (expected : Expected V) :
    Named (frontier.recordNamed start .empty expected) start expected := by
  unfold Frontier.recordNamed
  split
  next hlt => exact .inl hlt
  next => exact .inr (by rw [empty, ite_self])

/-- What a stretch added is in the frontier, or the frontier has moved on; nothing is
asked if it added only a rule that failed at the start. -/
def Covers (grammar : Grammar V) (frontier : Frontier V) (start : Nat) (added : Frontier V) :
    Prop :=
  start < added.position → added.position ≤ frontier.position ∧
    (added.position = frontier.position →
      ∀ name ∈ added.labels grammar, name ∈ frontier.labels grammar)

variable {frontier later added : Frontier V} {start : Nat} {expected : Expected V}

/-- What is covered stays so in every frontier that is reported alike. -/
theorem Covers.sameReport (h : Covers grammar frontier start added) {frontier' : Frontier V}
    (hreport : SameReport grammar frontier frontier') : Covers grammar frontier' start added := by
  intro hlt
  have hcovers := h hlt
  rwa [hreport.position_eq, hreport.labels_eq] at hcovers

/-- What is covered stays covered when more is added. -/
theorem Covers.append (h : Covers grammar frontier start added) (later : Frontier V) :
    Covers grammar (frontier ++ later) start added := by
  intro hlt
  rcases h hlt with ⟨hle, hnames⟩
  rcases Nat.lt_trichotomy frontier.position later.position with hlater | hlater | hlater
  · rw [append_of_lt hlater]
    exact ⟨by omega, fun heq => by omega⟩
  · rw [append_of_eq hlater.symm]
    refine ⟨hle, fun heq name hname => ?_⟩
    rw [labels_append]
    exact List.mem_append_left _ (hnames heq name hname)
  · rw [append_of_gt hlater]
    exact ⟨hle, hnames⟩

/-- What was just added is covered. -/
theorem covers_append (frontier added : Frontier V) (start : Nat) :
    Covers grammar (frontier ++ added) start added := by
  intro _
  rcases Nat.lt_trichotomy frontier.position added.position with hadded | hadded | hadded
  · rw [append_of_lt hadded]
    exact ⟨Nat.le_refl _, fun _ name hname => hname⟩
  · rw [append_of_eq hadded.symm]
    refine ⟨Nat.le_of_eq hadded.symm, fun _ name hname => ?_⟩
    rw [mem_labels_iff] at hname ⊢
    rcases hname with ⟨expected, hmem, hdescribe⟩
    exact ⟨expected, List.mem_append_left _ hmem, hdescribe⟩
  · rw [append_of_gt hadded]
    exact ⟨Nat.le_of_lt hadded, fun heq => absurd heq (Nat.ne_of_lt hadded)⟩

/-- A rule that fails where it started keeps what the frontier covered before it. -/
theorem Covers.recordNamed {before : Frontier V} {offset : Nat}
    (h : Covers grammar before start added) (hle : before.position ≤ frontier.position)
    (hfrontier : frontier.position ≤ offset) :
    Covers grammar (frontier.recordNamed offset before expected) start added := by
  intro hlt
  rcases h hlt with ⟨hadded, hnames⟩
  rw [Frontier.recordNamed, if_neg (Nat.not_lt.2 hfrontier)]
  refine ⟨by dsimp only; omega, fun heq name hname => ?_⟩
  have hbefore : before.position = offset := by
    dsimp only at heq
    omega
  rw [if_pos hbefore, ← List.singleton_append, labels_append]
  exact List.mem_append_left _ (hnames (heq.trans hbefore.symm) name hname)

/-- What is covered can be left out, in favour of the failed rule alone. -/
theorem Covers.sameReport_append (h : Covers grammar frontier start added)
    (hnamed : added.Named start expected) :
    SameReport grammar (frontier ++ ⟨start, [expected]⟩) (frontier ++ added) := by
  rcases hnamed with hlt | rfl
  · rcases h hlt with ⟨hle, hnames⟩
    have hstart : start < frontier.position := Nat.lt_of_lt_of_le hlt hle
    rw [append_of_gt (b := ⟨start, [expected]⟩) hstart]
    rcases Nat.lt_or_eq_of_le hle with hgt | heq
    · rw [append_of_gt hgt]
      exact .refl frontier
    · rw [append_of_eq heq]
      refine ⟨rfl, ?_⟩
      have hnone : (added.tried.reverse.map (Expected.describe grammar)).filter
          (fun name => name ∉ labels grammar ⟨frontier.position, frontier.tried⟩) = [] := by
        rw [List.filter_eq_nil_iff]
        intro name hname
        rcases List.mem_map.1 hname with ⟨expected, hmem, hdescribe⟩
        have hlabel : name ∈ added.labels grammar :=
          mem_labels_iff.2 ⟨expected, List.mem_reverse.1 hmem, hdescribe⟩
        simpa using hnames heq name hlabel
      rw [labels_append, hnone, List.eraseDups_nil, List.append_nil]
  · exact .refl _

end Peg.Frontier

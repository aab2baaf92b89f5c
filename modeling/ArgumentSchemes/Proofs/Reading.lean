import ArgumentSchemes.Header.Cursor

/-!
# Runs of the line reader

`State.after` and `State.drafts` read a whole list of classified lines: the state that is reached,
and the drafts that come out on the way. Both take lines apart at any point (`State.after_append`,
`State.drafts_append`), and the items of a header are the checked drafts, followed by the fault of
a scheme that is left open (`Checker.parse_eq`).

Inside a scheme the run is a fold of `Draft.absorb` over the body. It never changes what the opening
line and the summary have set (`Draft.exists_absorbAll_eq`), and a failure that it notes names the
scheme and is not fatal (`Draft.FailureSound.absorbAll`).
-/

namespace ArgumentSchemes.Header

/-- What the lines of a header text say. -/
def kinds (text : String) : List Line := (Text.lines text).map Line.classify

/-! ### States and drafts of a run -/

namespace State

/-- Where the reading stands behind lines that are numbered from `number`. -/
def after (s : State) (number : Nat) : List Line → State
  | [] => s
  | line :: rest => (s.step number line).1.after (number + 1) rest

/-- The drafts that come out while lines numbered from `number` are read, in order. -/
def drafts (s : State) (number : Nat) : List Line → List Draft
  | [] => []
  | line :: rest =>
    (s.step number line).2.toList ++ (s.step number line).1.drafts (number + 1) rest

/-- The draft of the scheme that is open, if one is. -/
def draft? : State → Option Draft
  | idle => none
  | inSummary draft | inBody draft => some draft

theorem after_append (s : State) (number : Nat) (xs ys : List Line) :
    s.after number (xs ++ ys) = (s.after number xs).after (number + xs.length) ys := by
  induction xs generalizing s number with
  | nil => rfl
  | cons x xs ih =>
    simp only [List.cons_append, after, List.length_cons, ih]
    rw [show number + 1 + xs.length = number + (xs.length + 1) by omega]

theorem drafts_append (s : State) (number : Nat) (xs ys : List Line) :
    s.drafts number (xs ++ ys) =
      s.drafts number xs ++ (s.after number xs).drafts (number + xs.length) ys := by
  induction xs generalizing s number with
  | nil => rfl
  | cons x xs ih =>
    simp only [List.cons_append, drafts, after, List.length_cons, ih, List.append_assoc]
    rw [show number + 1 + xs.length = number + (xs.length + 1) by omega]

/-- A terminator closes the scheme that is open. -/
theorem step_terminator {s : State} {d : Draft} (h : s.draft? = some d) (number : Nat) :
    s.step number .terminator = (idle, some d) := by
  cases s with
  | idle => simp [draft?] at h
  | inSummary d' => obtain rfl := Option.some.inj h; rfl
  | inBody d' => obtain rfl := Option.some.inj h; rfl

/-- A scheme that is open at the end has no terminator. -/
theorem finish_eq {s : State} {d : Draft} (h : s.draft? = some d) :
    s.finish = some (.unterminated d.name d.startLine) := by
  cases s with
  | idle => simp [draft?] at h
  | inSummary d' => obtain rfl := Option.some.inj h; rfl
  | inBody d' => obtain rfl := Option.some.inj h; rfl

end State

/-- The items of lines that are read from `s` on: the drafts that come out, checked, and the fault
of the scheme that is left open. -/
theorem Cursor.itemsFrom_eq (checker : Checker) (s : State) (number : Nat) (ls : List String) :
    Cursor.itemsFrom checker s number ls =
      (s.drafts number (ls.map Line.classify)).map checker.check ++
        (s.after number (ls.map Line.classify)).finish.toList.map .error := by
  induction ls generalizing s number with
  | nil => rfl
  | cons l ls ih =>
    rw [Cursor.itemsFrom]
    rcases h : s.feed number l with ⟨s', _ | d⟩
    · have hstep : s.step number (Line.classify l) = (s', none) := h
      simp [State.drafts, State.after, hstep, ih]
    · have hstep : s.step number (Line.classify l) = (s', some d) := h
      simp [State.drafts, State.after, hstep, ih]

/-- **The items of a header** are the drafts of its lines, checked, and the fault of the scheme that
is left open. -/
theorem Checker.parse_eq (checker : Checker) (text : String) :
    checker.parse text =
      (State.idle.drafts 1 (kinds text)).map checker.check ++
        (State.idle.after 1 (kinds text)).finish.toList.map .error :=
  Cursor.itemsFrom_eq checker .idle 1 (Text.lines text)

/-! ### Bodies -/

namespace Draft

/-- Takes in lines of the body that are numbered from `number`. -/
def absorbAll (d : Draft) (number : Nat) : List Line → Draft
  | [] => d
  | line :: rest => (d.absorb number line).absorbAll (number + 1) rest

theorem absorbAll_append (d : Draft) (number : Nat) (xs ys : List Line) :
    d.absorbAll number (xs ++ ys) =
      (d.absorbAll number xs).absorbAll (number + xs.length) ys := by
  induction xs generalizing d number with
  | nil => rfl
  | cons x xs ih =>
    simp only [List.cons_append, absorbAll, List.length_cons, ih]
    rw [show number + 1 + xs.length = number + (xs.length + 1) by omega]

/-- A line of the body sets nothing but the enum, the entries and the failure. -/
theorem exists_absorb_eq (d : Draft) (number : Nat) (line : Line) :
    ∃ group entries failure,
      d.absorb number line =
        { d with group := group, entries := entries, failure := failure } := by
  cases line with
  | schemeStart role title name => exact ⟨_, _, _, rfl⟩
  | entryDoc text tag => exact ⟨_, _, _, rfl⟩
  | enumHeader group =>
    simp only [absorb, setGroup]
    split
    · exact ⟨_, _, _, rfl⟩
    · exact ⟨_, _, _, rfl⟩
  | enumEntry constant =>
    simp only [absorb, bindConstant]
    split
    · exact ⟨_, _, _, rfl⟩
    · split
      · exact ⟨_, _, _, rfl⟩
      · exact ⟨_, _, _, rfl⟩
  | doc text => exact ⟨_, _, _, rfl⟩
  | terminator => exact ⟨_, _, _, rfl⟩
  | other => exact ⟨_, _, _, rfl⟩

/-- The body sets nothing but the enum, the entries and the failure. -/
theorem exists_absorbAll_eq (d : Draft) (number : Nat) (ls : List Line) :
    ∃ group entries failure,
      d.absorbAll number ls =
        { d with group := group, entries := entries, failure := failure } := by
  induction ls generalizing d number with
  | nil => exact ⟨_, _, _, rfl⟩
  | cons l ls ih =>
    obtain ⟨g, es, f, h⟩ := exists_absorb_eq d number l
    obtain ⟨g', es', f', h'⟩ := ih (d.absorb number l) (number + 1)
    exact ⟨g', es', f', by rw [absorbAll, h', h]⟩

@[simp] theorem absorbAll_name (d : Draft) (number : Nat) (ls : List Line) :
    (d.absorbAll number ls).name = d.name := by
  obtain ⟨_, _, _, h⟩ := exists_absorbAll_eq d number ls
  rw [h]

@[simp] theorem absorbAll_role (d : Draft) (number : Nat) (ls : List Line) :
    (d.absorbAll number ls).role = d.role := by
  obtain ⟨_, _, _, h⟩ := exists_absorbAll_eq d number ls
  rw [h]

@[simp] theorem absorbAll_startLine (d : Draft) (number : Nat) (ls : List Line) :
    (d.absorbAll number ls).startLine = d.startLine := by
  obtain ⟨_, _, _, h⟩ := exists_absorbAll_eq d number ls
  rw [h]

/-! ### Failures of a draft -/

theorem fail_failure_ne_none (d : Draft) (fault : SchemeFault) : (d.fail fault).failure ≠ none := by
  change (d.failure <|> some fault) ≠ none
  rcases d.failure with _ | noted <;> simp

/-- The first failure stays. -/
theorem failure_absorb {d : Draft} {fault : SchemeFault} (h : d.failure = some fault)
    (number : Nat) (line : Line) : (d.absorb number line).failure = some fault := by
  have hfail : ∀ other, (d.fail other).failure = some fault := fun other => by
    change (d.failure <|> some other) = some fault
    rw [h]
    rfl
  cases line with
  | schemeStart role title name => exact h
  | entryDoc text tag => exact h
  | enumHeader group =>
    simp only [absorb, setGroup]
    split
    · exact h
    · exact hfail _
  | enumEntry constant =>
    simp only [absorb, bindConstant]
    split
    · exact h
    · split
      · exact hfail _
      · exact h
  | doc text => exact h
  | terminator => exact h
  | other => exact h

theorem failure_absorbAll {d : Draft} {fault : SchemeFault} (h : d.failure = some fault)
    (number : Nat) (ls : List Line) : (d.absorbAll number ls).failure = some fault := by
  induction ls generalizing d number with
  | nil => exact h
  | cons line ls ih => exact ih (failure_absorb h number line) (number + 1)

theorem failure_eq_none_of_absorbAll {d : Draft} {number : Nat} {ls : List Line}
    (h : (d.absorbAll number ls).failure = none) : d.failure = none := by
  rcases hd : d.failure with _ | fault
  · rfl
  · rw [failure_absorbAll hd] at h
    cases h

/-- The failure of a draft, if there is one, names its scheme and does not end the run. -/
def FailureSound (d : Draft) : Prop :=
  ∀ fault, d.failure = some fault → fault.scheme = d.name ∧ fault.isFatal = false

theorem FailureSound.fail {d : Draft} (h : d.FailureSound) {fault : SchemeFault}
    (hname : fault.scheme = d.name) (hfatal : fault.isFatal = false) :
    (d.fail fault).FailureSound := by
  intro f hf
  change (d.failure <|> some fault) = some f at hf
  rcases hd : d.failure with _ | f'
  · rw [hd] at hf
    obtain rfl : fault = f := Option.some.inj hf
    exact ⟨hname, hfatal⟩
  · rw [hd] at hf
    obtain rfl : f' = f := Option.some.inj hf
    exact h f' hd

theorem FailureSound.absorb {d : Draft} (h : d.FailureSound) (number : Nat) (line : Line) :
    (d.absorb number line).FailureSound := by
  cases line with
  | schemeStart role title name => exact h
  | entryDoc text tag => exact h
  | enumHeader group =>
    simp only [Draft.absorb, setGroup]
    split
    · exact h
    · exact h.fail rfl rfl
  | enumEntry constant =>
    simp only [Draft.absorb, bindConstant]
    split
    · exact h
    · split
      · exact h.fail rfl rfl
      · exact h
  | doc text => exact h
  | terminator => exact h
  | other => exact h

theorem FailureSound.absorbAll {d : Draft} (h : d.FailureSound) (number : Nat) (ls : List Line) :
    (d.absorbAll number ls).FailureSound := by
  induction ls generalizing d number with
  | nil => exact h
  | cons l ls ih => exact ih (h.absorb number l) (number + 1)

end Draft

end ArgumentSchemes.Header

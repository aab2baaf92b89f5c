import ArgumentSchemes.Proofs.FaultOrder

/-!
# One header under two reserved markers

The reserved marker is looked at last, when everything else about a scheme is settled. So the
reading of a header factors: it is read as if no marker were reserved (`Checker.unmarked`), and then
every scheme that was accepted is kept or dropped for its constants alone
(`Checker.unlessReserved`). All that is said here of two markers follows from this one equation
(`Checker.parse_eq_map_unlessReserved`), since only its second part depends on the marker.

A longer marker reserves less: what holds a text holds every part of it.

Main statement: a marker only drops the schemes that use it (`reserved_marker_only_drops`).
-/

namespace ArgumentSchemes.Header

/-- The item is the report of a constant that holds the reserved marker. -/
def Item.IsCollision (item : Item) : Prop :=
  ∃ scheme constant marker, item = .error (.reservedName scheme constant marker)

namespace Checker

/-- The checker that reserves no constant. -/
def unmarked : Checker := { reservedMarker := "" }

/-- The last of the checks: the scheme itself, unless one of its constants is reserved. -/
def unlessReserved (checker : Checker) (s : Scheme) : Item :=
  match s.entries.find? (checker.reserves ·.constant) with
  | some e => .error (.reservedName s.name e.constant checker.reservedMarker)
  | none => .ok s

theorem find?_reserves_unmarked (entries : List Entry) :
    entries.find? (unmarked.reserves ·.constant) = none :=
  List.find?_eq_none.mpr fun e _ => by simp [reserves_iff, unmarked]

theorem unlessReserved_eq_ok_iff {checker : Checker} {s t : Scheme} :
    checker.unlessReserved s = .ok t ↔
      s = t ∧ ∀ e ∈ t.entries, checker.reserves e.constant = false := by
  rw [unlessReserved]
  rcases hr : s.entries.find? (checker.reserves ·.constant) with _ | e
  · simp only [hr, Except.ok.injEq]
    constructor
    · rintro rfl
      exact ⟨rfl, by simpa using hr⟩
    · exact And.left
  · simp only [hr, reduceCtorEq, false_iff]
    rintro ⟨rfl, hfree⟩
    have hreserved := List.find?_some hr
    rw [hfree e (List.mem_of_find?_eq_some hr)] at hreserved
    cases hreserved

/-- What is not kept has a reserved constant, and is reported with it. -/
theorem unlessReserved_eq_or (checker : Checker) (s : Scheme) :
    checker.unlessReserved s = .ok s ∨
      ∃ e ∈ s.entries, checker.reserves e.constant = true ∧
        checker.unlessReserved s =
          .error (.reservedName s.name e.constant checker.reservedMarker) := by
  rw [unlessReserved]
  rcases hr : s.entries.find? (checker.reserves ·.constant) with _ | e
  · exact .inl (by simp only [hr])
  · have hreserved : checker.reserves e.constant = true := by simpa using List.find?_some hr
    exact .inr ⟨e, List.mem_of_find?_eq_some hr, hreserved, by simp only [hr]⟩

/-! ### The factorisation -/

/-- A draft is checked as if nothing were reserved, and then for the marker. -/
theorem check_eq_bind_unlessReserved (checker : Checker) (d : Draft) :
    checker.check d = (unmarked.check d).bind checker.unlessReserved := by
  rw [check, check]
  rcases d.failure with _ | fault
  · rcases completeEntries d.name 1 d.entries with fault | entries
    · rfl
    · rcases d.groupFault? with _ | fault
      · simp only [find?_reserves_unmarked]
        rfl
      · rfl
  · rfl

/-- **A header is read as if nothing were reserved**, and then each of its schemes is looked at by
itself. -/
theorem parse_eq_map_unlessReserved (checker : Checker) (text : String) :
    checker.parse text = (unmarked.parse text).map (·.bind checker.unlessReserved) := by
  rw [checker.parse_eq_map_segments, unmarked.parse_eq_map_segments, List.map_map]
  refine List.map_congr_left fun seg _ => ?_
  cases seg with
  | closed r => exact checker.check_eq_bind_unlessReserved r.draft
  | unclosed r => rfl

/-! ### What the marker can change -/

/-- Two markers give the same item, or one of them refuses the scheme. -/
theorem bind_unlessReserved_eq_or_isCollision (c₁ c₂ : Checker) (item : Item) :
    item.bind c₁.unlessReserved = item.bind c₂.unlessReserved ∨
      Item.IsCollision (item.bind c₁.unlessReserved) ∨
        Item.IsCollision (item.bind c₂.unlessReserved) := by
  cases item with
  | error fault => exact .inl rfl
  | ok s =>
    obtain h₁ | ⟨e, -, -, h₁⟩ := c₁.unlessReserved_eq_or s
    · obtain h₂ | ⟨e, -, -, h₂⟩ := c₂.unlessReserved_eq_or s
      · exact .inl (h₁.trans h₂.symm)
      · exact .inr (.inr ⟨_, _, _, h₂⟩)
    · exact .inr (.inl ⟨_, _, _, h₁⟩)

/-- Nothing but the marker makes a collision: none of the other checks reports one, and neither do
the lines of a region while they are read. -/
theorem not_isCollision_of_mem_parse_unmarked {text : String} {item : Item}
    (h : item ∈ unmarked.parse text) : ¬ item.IsCollision := by
  rw [unmarked.parse_eq_map_segments] at h
  obtain ⟨seg, -, rfl⟩ := List.mem_map.mp h
  rintro ⟨scheme, constant, marker, hitem⟩
  cases seg with
  | unclosed r => cases hitem
  | closed r =>
    rcases check_eq_error_iff.mp hitem with hf | ⟨-, hes | ⟨_, -, hg | ⟨-, e, he, -⟩⟩⟩
    · obtain ⟨_, _, -, -, hcontradicts⟩ := (r.failure_draft_iff.2 _).mp hf
      cases hcontradicts
    · obtain ⟨_, _, _, -, heq⟩ := completeEntries_eq_error_iff.mp hes
      cases heq
    · obtain ⟨_, _, heq⟩ := Draft.groupFault?_eq_some hg
      cases heq
    · rw [find?_reserves_unmarked] at he
      cases he

/-- At every place stands what stands there without a marker, unless this is a scheme with a
constant that holds the marker. -/
theorem getElem?_parse_eq_or (checker : Checker) (text : String) (n : Nat) :
    (checker.parse text)[n]? = (unmarked.parse text)[n]? ∨
      ∃ s, (unmarked.parse text)[n]? = some (.ok s) ∧
        ∃ e ∈ s.entries, checker.reserves e.constant = true ∧
          (checker.parse text)[n]? =
            some (.error (.reservedName s.name e.constant checker.reservedMarker)) := by
  rw [checker.parse_eq_map_unlessReserved, List.getElem?_map]
  rcases (unmarked.parse text)[n]? with _ | (fault | s)
  · exact .inl rfl
  · exact .inl rfl
  · obtain h | ⟨e, he, hreserved, h⟩ := checker.unlessReserved_eq_or s
    · exact .inl (congrArg some h)
    · exact .inr ⟨s, rfl, e, he, hreserved, congrArg some h⟩

/-- A longer marker reserves less. -/
theorem reserves_eq_false_of_infix {c₁ c₂ : Checker} (hne : c₁.reservedMarker ≠ "")
    (hpart : c₁.reservedMarker.toList <:+: c₂.reservedMarker.toList) {constant : String}
    (h : c₁.reserves constant = false) : c₂.reserves constant = false := by
  rw [← Bool.not_eq_true, reserves_iff] at h ⊢
  rintro ⟨-, hconstant⟩
  exact h ⟨hne, hpart.trans hconstant⟩

/-- What passes under a marker passes under a longer one, at its place. -/
theorem getElem?_parse_eq_ok_of_infix {c₁ c₂ : Checker} (hne : c₁.reservedMarker ≠ "")
    (hpart : c₁.reservedMarker.toList <:+: c₂.reservedMarker.toList) {text : String} {n : Nat}
    {s : Scheme} (h : (c₁.parse text)[n]? = some (.ok s)) :
    (c₂.parse text)[n]? = some (.ok s) := by
  rw [parse_eq_map_unlessReserved, List.getElem?_map, Option.map_eq_some_iff] at h ⊢
  obtain ⟨item, hitem, hkept⟩ := h
  refine ⟨item, hitem, ?_⟩
  cases item with
  | error fault => cases hkept
  | ok s' =>
    obtain ⟨rfl, hfree⟩ := unlessReserved_eq_ok_iff.mp hkept
    exact unlessReserved_eq_ok_iff.mpr
      ⟨rfl, fun e he => reserves_eq_false_of_infix hne hpart (hfree e he)⟩

end Checker

/-- **A reserved marker only drops the schemes that use it.** Under any two markers a header has
equally many items, and where two of them differ one is a collision. The empty marker makes no
collision, and where another marker changes an item of it, this is a scheme with a constant that
holds the marker, and the collision is with such a constant. A scheme that is accepted under a
marker is accepted, unchanged and at its place, under every marker that this one is a part of. -/
theorem reserved_marker_only_drops (text m₁ m₂ : String) :
    List.Forall₂ (fun i₁ i₂ : Item => i₁ = i₂ ∨ i₁.IsCollision ∨ i₂.IsCollision)
        (Checker.parse { reservedMarker := m₁ } text)
        (Checker.parse { reservedMarker := m₂ } text) ∧
      (∀ item ∈ Checker.parse { reservedMarker := "" } text, ¬ Item.IsCollision item) ∧
      (∀ n : Nat,
        (Checker.parse { reservedMarker := m₁ } text)[n]? =
            (Checker.parse { reservedMarker := "" } text)[n]? ∨
          ∃ s : Scheme, (Checker.parse { reservedMarker := "" } text)[n]? = some (Except.ok s) ∧
            ∃ e ∈ s.entries, m₁ ≠ "" ∧ m₁.toList <:+: e.constant.toList ∧
              (Checker.parse { reservedMarker := m₁ } text)[n]? =
                some (Except.error (.reservedName s.name e.constant m₁))) ∧
      (m₁ ≠ "" → m₁.toList <:+: m₂.toList → ∀ (n : Nat) (s : Scheme),
        (Checker.parse { reservedMarker := m₁ } text)[n]? = some (Except.ok s) →
          (Checker.parse { reservedMarker := m₂ } text)[n]? = some (Except.ok s)) := by
  refine ⟨?_, fun item hitem => Checker.not_isCollision_of_mem_parse_unmarked hitem,
    fun n => ?_, fun hne hpart n s hs => Checker.getElem?_parse_eq_ok_of_infix hne hpart hs⟩
  · rw [Checker.parse_eq_map_unlessReserved,
      Checker.parse_eq_map_unlessReserved { reservedMarker := m₂ }, List.forall₂_map_left_iff,
      List.forall₂_map_right_iff, List.forall₂_same]
    exact fun item _ => Checker.bind_unlessReserved_eq_or_isCollision _ _ item
  · refine (Checker.getElem?_parse_eq_or { reservedMarker := m₁ } text n).imp_right ?_
    rintro ⟨s, hs, e, he, hreserved, hitem⟩
    obtain ⟨hne, hinfix⟩ := Checker.reserves_iff.mp hreserved
    exact ⟨s, hs, e, he, hne, hinfix, hitem⟩

/-- The first scheme has a constant that holds the shorter marker only, and the second one none that
holds either. -/
theorem reserved_marker_only_drops_longer :
    let text := "/// Input arguments of f [fIn]\nenum fIn \x7b\n/// a -- the a [F_NUM_A]\n" ++
      "F_NUM_A,\n\x7d;\n/// Output arguments of g [gOut]\nenum gOut \x7b\n/// b -- the b [G_B]\n" ++
      "G_B,\n\x7d;\n"
    let f : Scheme := ⟨.input, "fIn", "Input arguments of f", "", "fIn",
      [⟨"a", "the a", "F_NUM_A"⟩]⟩
    let g : Scheme := ⟨.output, "gOut", "Output arguments of g", "", "gOut",
      [⟨"b", "the b", "G_B"⟩]⟩
    "_NUM_" ≠ "" ∧ "_NUM_".toList <:+: "_NUM_B".toList ∧
      Checker.parse { reservedMarker := "_NUM_" } text =
        [.error (.reservedName "fIn" "F_NUM_A" "_NUM_"), .ok g] ∧
      (Checker.parse { reservedMarker := "_NUM_B" } text)[0]? = some (.ok f) ∧
      (Checker.parse { reservedMarker := "_NUM_B" } text)[1]? = some (.ok g) := by
  intro text f g
  have hne : "_NUM_" ≠ "" := by decide
  have hpart : "_NUM_".toList <:+: "_NUM_B".toList := by decide
  have hparse : Checker.parse { reservedMarker := "_NUM_" } text =
      [.error (.reservedName "fIn" "F_NUM_A" "_NUM_"), .ok g] := by decide +kernel
  refine ⟨hne, hpart, hparse, by decide +kernel, ?_⟩
  refine (reserved_marker_only_drops text "_NUM_" "_NUM_B").2.2.2 hne hpart 1 g ?_
  rw [hparse]
  rfl

end ArgumentSchemes.Header

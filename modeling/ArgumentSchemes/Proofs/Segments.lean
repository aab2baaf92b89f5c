import ArgumentSchemes.Proofs.Checking
import ArgumentSchemes.Proofs.Reading

/-!
# The schemes of a header as a segmentation of its lines

`segments` cuts the lines of a header without any state: it skips to the first line that opens a
scheme, goes on from there to the first terminator, and starts again behind it. What stands between
is a `Region`. The lines of a region are its **summary**, the longest run of plain documentation
right behind the opening line, and its **body**.

Main statement: a `Cursor` gives the items of these segments, one for each call
(`cursor_yields_segments`).
-/

namespace ArgumentSchemes.Header

/-! ### Regions -/

/-- The texts of the plain documentation lines that the lines begin with. -/
def summaryOf : List Line → List String
  | .doc text :: rest => text :: summaryOf rest
  | _ => []

/-- The lines behind the plain documentation lines that the lines begin with. -/
def bodyOf : List Line → List Line
  | .doc _ :: rest => bodyOf rest
  | ls => ls

theorem map_doc_summaryOf_append_bodyOf (ls : List Line) :
    (summaryOf ls).map .doc ++ bodyOf ls = ls := by
  induction ls with
  | nil => rfl
  | cons line ls ih =>
    cases line with
    | doc text => simp [summaryOf, bodyOf, ih]
    | _ => rfl

/-- Whether a line opens a scheme. -/
def Line.isOpening : Line → Bool
  | .schemeStart .. => true
  | _ => false

/-- A scheme as it stands in a header: what its opening line says and where it stands, and the lines
behind it, up to the terminator or to the end of the header. -/
structure Region where
  /-- The number of the opening line. -/
  number : Nat
  role : Role
  title : String
  name : String
  inside : List Line
deriving DecidableEq, Repr

namespace Region

/-- The opening line. -/
def opening (r : Region) : Line := .schemeStart r.role r.title r.name

/-- The texts of the plain documentation lines right behind the opening line. -/
def summary (r : Region) : List String := summaryOf r.inside

/-- The lines behind the summary. -/
def body (r : Region) : List Line := bodyOf r.inside

/-- The draft of a region before its body is read. -/
def heading (r : Region) : Draft :=
  { Draft.start r.role r.title r.name r.number with summary := r.summary }

/-- The draft of a region. -/
def draft (r : Region) : Draft :=
  r.heading.absorbAll (r.number + 1 + r.summary.length) r.body

@[simp] theorem draft_name (r : Region) : r.draft.name = r.name := by
  rw [draft, Draft.absorbAll_name]
  rfl

@[simp] theorem draft_startLine (r : Region) : r.draft.startLine = r.number := by
  rw [draft, Draft.absorbAll_startLine]
  rfl

theorem failureSound_draft (r : Region) : r.draft.FailureSound := by
  have h : r.heading.FailureSound := fun _ hf => by simp [heading, Draft.start] at hf
  exact h.absorbAll _ _

end Region

/-! ### Segments -/

/-- The lines in front of the first terminator and those behind it, if there is one. -/
def splitAtTerminator? : List Line → Option (List Line × List Line)
  | [] => none
  | line :: rest =>
    if line = .terminator then some ([], rest)
    else (splitAtTerminator? rest).map fun (inside, behind) => (line :: inside, behind)

theorem splitAtTerminator?_eq_none_iff {ls : List Line} :
    splitAtTerminator? ls = none ↔ .terminator ∉ ls := by
  induction ls with
  | nil => simp [splitAtTerminator?]
  | cons line ls ih =>
    rw [splitAtTerminator?]
    split
    · next h => simp [h]
    · next h => simp [ih, Ne.symm h]

theorem splitAtTerminator?_eq_some {ls inside behind : List Line}
    (h : splitAtTerminator? ls = some (inside, behind)) :
    ls = inside ++ .terminator :: behind ∧ .terminator ∉ inside := by
  induction ls generalizing inside with
  | nil => simp [splitAtTerminator?] at h
  | cons line ls ih =>
    rw [splitAtTerminator?] at h
    split at h
    · next hl =>
      obtain ⟨rfl, rfl⟩ := Prod.mk.inj (Option.some.inj h)
      exact ⟨by rw [hl, List.nil_append], List.not_mem_nil⟩
    · next hl =>
      obtain ⟨⟨inside', behind'⟩, hrest, heq⟩ := Option.map_eq_some_iff.mp h
      obtain ⟨rfl, rfl⟩ := Prod.mk.inj heq
      obtain ⟨rfl, hnot⟩ := ih hrest
      exact ⟨rfl, by simp [Ne.symm hl, hnot]⟩

theorem splitAtTerminator?_append {inside : List Line} (h : .terminator ∉ inside)
    (behind : List Line) :
    splitAtTerminator? (inside ++ .terminator :: behind) = some (inside, behind) := by
  induction inside with
  | nil => rfl
  | cons line inside ih =>
    rw [List.mem_cons, not_or] at h
    rw [List.cons_append, splitAtTerminator?, if_neg (Ne.symm h.1), ih h.2]
    rfl

/-- A region together with how it ends. -/
inductive Segment where
  | closed (region : Region)
  /-- The header ends inside the region. -/
  | unclosed (region : Region)
deriving DecidableEq, Repr

namespace Segment

/-- The region of a segment. -/
def region : Segment → Region
  | closed r | unclosed r => r

/-- What a header gives for a segment. -/
def item (checker : Checker) : Segment → Item
  | closed r => checker.check r.draft
  | unclosed r => .error (.unterminated r.name r.number)

end Segment

/-- The **segments** of lines that are numbered from `number`. -/
def segments (number : Nat) (ls : List Line) : List Segment :=
  match ls with
  | [] => []
  | .schemeStart role title name :: rest =>
    match h : splitAtTerminator? rest with
    | some (inside, behind) =>
      .closed ⟨number, role, title, name, inside⟩ :: segments (number + inside.length + 2) behind
    | none => [.unclosed ⟨number, role, title, name, rest⟩]
  | _ :: rest => segments (number + 1) rest
termination_by ls.length
decreasing_by
  · obtain ⟨rfl, -⟩ := splitAtTerminator?_eq_some h
    simp only [List.length_cons, List.length_append]
    omega
  · simp

theorem segments_cons {line : Line} (h : line.isOpening = false) (number : Nat) (ls : List Line) :
    segments number (line :: ls) = segments (number + 1) ls := by
  cases line with
  | schemeStart role title name => cases h
  | _ => simp [segments]

/-- An opening line and the first terminator behind it are the ends of a closed segment. -/
theorem segments_closed {inside : List Line} (h : .terminator ∉ inside) (number : Nat) (role : Role)
    (title name : String) (behind : List Line) :
    segments number (.schemeStart role title name :: (inside ++ .terminator :: behind)) =
      .closed ⟨number, role, title, name, inside⟩ ::
        segments (number + inside.length + 2) behind := by
  have hsplit := splitAtTerminator?_append h behind
  rw [segments]
  split
  · next hsome =>
    rw [hsplit] at hsome
    obtain ⟨rfl, rfl⟩ := Prod.mk.inj (Option.some.inj hsome)
    rfl
  · next hnone =>
    rw [hsplit] at hnone
    cases hnone

/-! ### What the reader makes of a region -/

namespace State

/-- The numbers of the opening lines that are met outside any scheme. -/
def openings (s : State) (number : Nat) : List Line → List Nat
  | [] => []
  | line :: rest =>
    (if s.isIdle && line.isOpening then [number] else []) ++
      (s.step number line).1.openings (number + 1) rest

theorem openings_append (s : State) (number : Nat) (xs ys : List Line) :
    s.openings number (xs ++ ys) =
      s.openings number xs ++ (s.after number xs).openings (number + xs.length) ys := by
  induction xs generalizing s number with
  | nil => rfl
  | cons x xs ih =>
    simp only [List.cons_append, openings, after, List.length_cons, ih, List.append_assoc]
    rw [show number + 1 + xs.length = number + (xs.length + 1) by omega]

/-- Inside a scheme only a terminator makes a draft come out. -/
theorem step_of_open {s : State} {d : Draft} (h : s.draft? = some d) (number : Nat) {line : Line}
    (hline : line ≠ .terminator) :
    ∃ s' d', s.step number line = (s', none) ∧ s'.draft? = some d' := by
  cases s with
  | idle => simp [draft?] at h
  | inSummary d => cases line <;> first | exact ⟨_, _, rfl, rfl⟩ | exact absurd rfl hline
  | inBody d => cases line <;> first | exact ⟨_, _, rfl, rfl⟩ | exact absurd rfl hline

/-- Inside a scheme nothing comes out and nothing is opened before the terminator. -/
theorem drafts_and_openings_of_open {s : State} {d : Draft} (h : s.draft? = some d) (number : Nat)
    {ls : List Line} (hls : .terminator ∉ ls) :
    s.drafts number ls = [] ∧ s.openings number ls = [] := by
  induction ls generalizing s d number with
  | nil => exact ⟨rfl, rfl⟩
  | cons line ls ih =>
    rw [List.mem_cons, not_or] at hls
    obtain ⟨s', d', hstep, hopen⟩ := step_of_open h number (Ne.symm hls.1)
    obtain ⟨hd, ho⟩ := ih hopen (number + 1) hls.2
    have hidle : s.isIdle = false := by cases s <;> simp_all [draft?, isIdle]
    simp [drafts, openings, hstep, hd, ho, hidle]

theorem after_inBody (d : Draft) (number : Nat) {ls : List Line} (hls : .terminator ∉ ls) :
    (inBody d).after number ls = inBody (d.absorbAll number ls) := by
  induction ls generalizing d number with
  | nil => rfl
  | cons line ls ih =>
    rw [List.mem_cons, not_or] at hls
    have hstep : (inBody d).step number line = (inBody (d.absorb number line), none) := by
      cases line <;> first | rfl | exact absurd rfl hls.1
    rw [after, hstep, ih _ _ hls.2, Draft.absorbAll]

/-- What is read behind an opening line: first the summary, then the body. -/
theorem draft?_after_inSummary (d : Draft) (number : Nat) {ls : List Line}
    (hls : .terminator ∉ ls) :
    ((inSummary d).after number ls).draft? =
      some ({ d with summary := d.summary ++ summaryOf ls }.absorbAll
        (number + (summaryOf ls).length) (bodyOf ls)) := by
  induction ls generalizing d number with
  | nil => simp [after, draft?, summaryOf, bodyOf, Draft.absorbAll]
  | cons line ls ih =>
    rw [List.mem_cons, not_or] at hls
    cases line with
    | doc text =>
      rw [after, show (inSummary d).step number (.doc text) = (inSummary (d.addSummary text), none)
        from rfl, ih _ _ hls.2]
      simp only [Draft.addSummary, summaryOf, bodyOf, List.append_assoc, List.singleton_append,
        List.length_cons]
      rw [show number + 1 + (summaryOf ls).length = number + ((summaryOf ls).length + 1) by omega]
    | terminator => exact absurd rfl hls.1
    | _ =>
      -- the line ends the summary and is read as a line of the body
      rw [after]
      change ((inBody (d.absorb number _)).after (number + 1) ls).draft? = _
      rw [after_inBody _ _ hls.2]
      simp [draft?, summaryOf, bodyOf, Draft.absorbAll]

/-- Behind the opening line and the lines of a region its draft is open. -/
theorem draft?_after_region (r : Region) (h : .terminator ∉ r.inside) :
    (idle.after r.number (r.opening :: r.inside)).draft? = some r.draft :=
  draft?_after_inSummary (Draft.start r.role r.title r.name r.number) (r.number + 1) h

theorem drafts_and_openings_region (r : Region) (h : .terminator ∉ r.inside) :
    idle.drafts r.number (r.opening :: r.inside) = [] ∧
      idle.openings r.number (r.opening :: r.inside) = [r.number] := by
  have hopen : (inSummary (Draft.start r.role r.title r.name r.number)).draft? = some _ := rfl
  obtain ⟨hd, ho⟩ := drafts_and_openings_of_open hopen (r.number + 1) h
  constructor
  · exact hd
  · exact congrArg (r.number :: ·) ho

/-- A closed region gives its draft, and the reading goes on behind it outside any scheme. -/
theorem run_closed (r : Region) (h : .terminator ∉ r.inside) (behind : List Line) :
    idle.drafts r.number (r.opening :: (r.inside ++ .terminator :: behind)) =
        r.draft :: idle.drafts (r.number + r.inside.length + 2) behind ∧
      idle.after r.number (r.opening :: (r.inside ++ .terminator :: behind)) =
        idle.after (r.number + r.inside.length + 2) behind ∧
      idle.openings r.number (r.opening :: (r.inside ++ .terminator :: behind)) =
        r.number :: idle.openings (r.number + r.inside.length + 2) behind := by
  obtain ⟨hd, ho⟩ := drafts_and_openings_region r h
  have hstep := step_terminator (draft?_after_region r h) (r.number + (r.inside.length + 1))
  have hlen : r.number + (r.inside.length + 1) + 1 = r.number + r.inside.length + 2 := by omega
  rw [← List.cons_append]
  refine ⟨?_, ?_, ?_⟩
  · rw [drafts_append, hd, List.nil_append, drafts, List.length_cons, hstep, hlen]
    rfl
  · rw [after_append, after, List.length_cons, hstep, hlen]
  · rw [openings_append, ho, openings, List.length_cons, hstep, hlen]
    simp [Line.isOpening]

/-- The end of the header in a region leaves its scheme open. -/
theorem run_unclosed (r : Region) (h : .terminator ∉ r.inside) :
    idle.drafts r.number (r.opening :: r.inside) = [] ∧
      (idle.after r.number (r.opening :: r.inside)).finish = some (.unterminated r.name r.number) ∧
      idle.openings r.number (r.opening :: r.inside) = [r.number] := by
  obtain ⟨hd, ho⟩ := drafts_and_openings_region r h
  refine ⟨hd, ?_, ho⟩
  rw [finish_eq (draft?_after_region r h), Region.draft_name, Region.draft_startLine]

/-- Outside any scheme only an opening line counts. -/
theorem step_idle {line : Line} (h : line.isOpening = false) (number : Nat) :
    idle.step number line = (idle, none) := by
  cases line <;> first | rfl | cases h

end State

/-- **The reader sees the segments of the lines**: their drafts come out, the fault at the end is
that of an unclosed one, and their opening lines are those that are met outside any scheme. -/
theorem run_eq_segments (checker : Checker) (number : Nat) (ls : List Line) :
    (State.idle.drafts number ls).map checker.check ++
        (State.idle.after number ls).finish.toList.map .error =
      (segments number ls).map (·.item checker) ∧
    State.idle.openings number ls = (segments number ls).map (·.region.number) := by
  fun_induction segments number ls with
  | case1 => exact ⟨rfl, rfl⟩
  | case2 number role title name rest inside behind h ih =>
    -- a closed region: its draft comes out, and the rest is read from behind its terminator
    obtain ⟨rfl, hnot⟩ := splitAtTerminator?_eq_some h
    obtain ⟨hd, ha, ho⟩ := State.run_closed ⟨number, role, title, name, inside⟩ hnot behind
    simp only [Region.opening] at hd ha ho
    rw [hd, ha, ho, List.map_cons, List.cons_append, ih.1, ih.2]
    exact ⟨rfl, rfl⟩
  | case3 number role title name rest h =>
    -- the lines end inside the region
    obtain ⟨hd, ha, ho⟩ := State.run_unclosed ⟨number, role, title, name, rest⟩
      (splitAtTerminator?_eq_none_iff.mp h)
    simp only [Region.opening] at hd ha ho
    rw [hd, ha, ho]
    exact ⟨rfl, rfl⟩
  | case4 number line rest hline ih =>
    -- a line outside any scheme
    have hopening : line.isOpening = false := by
      cases line <;> first | rfl | exact (hline _ _ _ rfl).elim
    have hstep := State.step_idle hopening number
    rw [State.drafts, State.after, State.openings, hstep, hopening]
    simpa using ih

/-- The items of a header are those of its segments. -/
theorem Checker.parse_eq_map_segments (checker : Checker) (text : String) :
    checker.parse text = (segments 1 (kinds text)).map (·.item checker) := by
  rw [Checker.parse_eq, (run_eq_segments checker 1 (kinds text)).1]

/-- What a segment reports names the scheme of its opening line. -/
theorem Segment.scheme_of_item_eq_error {checker : Checker} {seg : Segment} {fault : SchemeFault}
    (h : seg.item checker = .error fault) : fault.scheme = seg.region.name := by
  cases seg with
  | closed r =>
    rw [Segment.region, ← r.draft_name]
    rcases Checker.scheme_of_check_eq_error h with hf | ⟨hname, -⟩
    · exact (r.failureSound_draft fault hf).1
    · exact hname
  | unclosed r =>
    obtain rfl := Except.error.inj h
    rfl

/-- What is wrong with a scheme that has its terminator never ends a run. -/
theorem Segment.isFatal_of_item_closed_eq_error {checker : Checker} {r : Region}
    {fault : SchemeFault} (h : (closed r).item checker = .error fault) :
    fault.isFatal = false := by
  rcases Checker.scheme_of_check_eq_error h with hf | ⟨-, hfatal⟩
  · exact (r.failureSound_draft fault hf).2
  · exact hfatal

/-- Nothing but the end of the header leaves a scheme open. -/
theorem Segment.item_closed_ne_unterminated (checker : Checker) (r : Region) (name : String)
    (line : Nat) : (closed r).item checker ≠ .error (.unterminated name line) := by
  intro h
  cases isFatal_of_item_closed_eq_error h

/-- Only the last segment can be unclosed. -/
theorem exists_closed_of_mem_dropLast {number : Nat} {ls : List Line} {seg : Segment}
    (h : seg ∈ (segments number ls).dropLast) : ∃ r, seg = .closed r := by
  fun_induction segments number ls with
  | case1 => simp at h
  | case2 number role title name rest inside behind hsplit ih =>
    rcases hrest : segments (number + inside.length + 2) behind with _ | ⟨next, others⟩
    · simp [hrest] at h
    · rw [hrest] at h ih
      rw [List.dropLast_cons_of_ne_nil (by simp)] at h
      rcases List.mem_cons.mp h with rfl | hmem
      · exact ⟨_, rfl⟩
      · exact ih hmem
  | case3 number role title name rest hsplit => simp at h
  | case4 number line rest hline ih => exact ih h

/-! ### The calls of a cursor -/

namespace Cursor

/-- What the call of number `n`, counted from 0, gives. -/
def call : Nat → Cursor → Option Item
  | 0, c => c.next.1
  | n + 1, c => call n c.next.2

/-- The calls of a cursor give its items one after the other, and nothing behind the last. -/
theorem call_eq_getElem? (n : Nat) (c : Cursor) : c.call n = c.items[n]? := by
  induction n generalizing c with
  | zero =>
    rw [call, c.items_of_next]
    rcases c.next with ⟨_ | item, c'⟩ <;> rfl
  | succ n ih =>
    rw [call, ih, c.items_of_next]
    rcases h : c.next with ⟨_ | item, c'⟩
    · have hend := c'.items_of_next
      rw [next_eq_none h] at hend
      rw [hend]
      rfl
    · rfl

end Cursor

/-- **The cursor yields the segments of its header**, one for each call. There is one segment for
each opening line that is met outside any scheme, in the order of the lines; what is reported for it
names the scheme of that line; only the last item can be the fault of a scheme that is left open;
and after the first call that gives nothing no call gives anything. -/
theorem cursor_yields_segments (checker : Checker) (text : String) :
    (∀ n, (checker.cursor text).call n = (segments 1 (kinds text))[n]?.map (·.item checker)) ∧
    checker.parse text = (segments 1 (kinds text)).map (·.item checker) ∧
    (segments 1 (kinds text)).map (·.region.draft.startLine) =
      State.idle.openings 1 (kinds text) ∧
    (∀ seg ∈ segments 1 (kinds text), ∀ fault, seg.item checker = .error fault →
      fault.scheme = seg.region.name) ∧
    (∀ name line, .error (.unterminated name line) ∉ (checker.parse text).dropLast) ∧
    (∀ m n, m ≤ n → (checker.cursor text).call m = none → (checker.cursor text).call n = none) := by
  have hcall : ∀ n, (checker.cursor text).call n =
      (segments 1 (kinds text))[n]?.map (·.item checker) := by
    intro n
    rw [Cursor.call_eq_getElem?, ← List.getElem?_map, ← checker.parse_eq_map_segments]
    rfl
  refine ⟨hcall, checker.parse_eq_map_segments text, ?_, ?_, ?_, ?_⟩
  · simp only [Region.draft_startLine]
    exact (run_eq_segments checker 1 (kinds text)).2.symm
  · intro seg _ fault h
    exact Segment.scheme_of_item_eq_error h
  · intro name line hmem
    rw [checker.parse_eq_map_segments, ← List.map_dropLast] at hmem
    obtain ⟨seg, hseg, hitem⟩ := List.mem_map.mp hmem
    obtain ⟨r, rfl⟩ := exists_closed_of_mem_dropLast hseg
    exact Segment.item_closed_ne_unterminated checker r name line hitem
  · intro m n hmn hm
    rw [hcall, Option.map_eq_none_iff, List.getElem?_eq_none_iff] at hm ⊢
    omega

end ArgumentSchemes.Header

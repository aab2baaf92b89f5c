import ArgumentSchemes.Proofs.Checking
import ArgumentSchemes.Proofs.LineBreaks
import ArgumentSchemes.Proofs.Reading

/-!
# Headers that are read in parts

A text that ends in a newline can be cut off in front of another one: the lines of both together are
those of the first and then those of the second (`Text.lines_append`). If the first part leaves no
scheme open, the reader stands where it started, and all that it still knows is how many lines it
has read. This number goes into the drafts that are opened and the faults that are noted from there
on, and nowhere else: reading commutes with `moved`, which adds to every line number that a fault, a
draft or a state carries (`State.step_moved` for one line, `State.run_moved` for many).

Main statement: the items of the two texts together are those of the first and then, moved by the
number of its lines, those of the second (`parse_append`).
-/

namespace ArgumentSchemes

/-! ### Line numbers that are moved -/

/-- The fault with `k` more lines in front of it. -/
def SchemeFault.moved (k : Nat) : SchemeFault → SchemeFault
  | unterminated scheme line => unterminated scheme (line + k)
  | duplicateConstant scheme entry existing constant line =>
    duplicateConstant scheme entry existing constant (line + k)
  | fault => fault

namespace Header

/-- The item with `k` more lines in front of it. -/
def Item.moved (k : Nat) (item : Item) : Item := item.mapError (·.moved k)

namespace Draft

/-- The draft with `k` more lines in front of it. -/
def moved (k : Nat) (d : Draft) : Draft :=
  { d with startLine := d.startLine + k, failure := d.failure.map (·.moved k) }

theorem fail_moved (k : Nat) (d : Draft) (fault : SchemeFault) :
    (d.moved k).fail (fault.moved k) = (d.fail fault).moved k := by
  rcases h : d.failure with _ | noted <;> simp [fail, moved, h]

theorem absorb_moved (k : Nat) (d : Draft) (number : Nat) (line : Line) :
    (d.moved k).absorb (number + k) line = (d.absorb number line).moved k := by
  cases line with
  | enumHeader group =>
    have hgroup : (d.moved k).group = d.group := rfl
    simp only [absorb, setGroup, hgroup]
    split
    · rfl
    · next existing hexisting =>
      exact fail_moved k d
        (.malformedGroup d.name group d.role s!"enum group already set to `{existing}`")
  | enumEntry constant =>
    have hentries : (d.moved k).entries = d.entries := rfl
    simp only [absorb, bindConstant, hentries]
    split
    · rfl
    · next entry hentry =>
      split
      · next existing hexisting =>
        exact fail_moved k d
          (.duplicateConstant d.name (entry.label.getD constant) existing constant number)
      · rfl
  | _ => rfl

end Draft

/-- A check sees a line number only in a failure that is noted already. -/
theorem Checker.check_moved (checker : Checker) (k : Nat) (d : Draft) :
    checker.check (d.moved k) = Item.moved k (checker.check d) := by
  rcases hf : d.failure with _ | fault
  · have hf' : (d.moved k).failure = none := by simp [Draft.moved, hf]
    have hname : (d.moved k).name = d.name := rfl
    have hentries : (d.moved k).entries = d.entries := rfl
    have hgroup : (d.moved k).groupFault? = d.groupFault? := rfl
    simp only [check, hf, hf', hname, hentries, hgroup]
    rcases hes : completeEntries d.name 1 d.entries with fault | entries
    · obtain ⟨_, _, _, -, rfl⟩ := completeEntries_eq_error_iff.mp hes
      rfl
    · rcases hg : d.groupFault? with _ | fault
      · rcases hr : entries.find? (checker.reserves ·.constant) with _ | entry
        · simp only [hr]
          rfl
        · simp only [hr]
          rfl
      · obtain ⟨_, _, rfl⟩ := Draft.groupFault?_eq_some hg
        rfl
  · have hf' : (d.moved k).failure = some (fault.moved k) := by simp [Draft.moved, hf]
    simp only [check, hf, hf']
    rfl

namespace State

/-- The state with `k` more lines in front of it. -/
def moved (k : Nat) : State → State
  | idle => idle
  | inSummary draft => inSummary (draft.moved k)
  | inBody draft => inBody (draft.moved k)

theorem bodyStep_moved (k : Nat) (d : Draft) (number : Nat) (line : Line) :
    bodyStep (d.moved k) (number + k) line =
      ((bodyStep d number line).1.moved k, (bodyStep d number line).2.map (·.moved k)) := by
  cases line with
  | terminator => rfl
  | _ =>
    simp only [bodyStep, Draft.absorb_moved]
    rfl

/-- **One line** with more lines in front of it. -/
theorem step_moved (k : Nat) (s : State) (number : Nat) (line : Line) :
    (s.moved k).step (number + k) line =
      ((s.step number line).1.moved k, (s.step number line).2.map (·.moved k)) := by
  cases s with
  | idle =>
    cases line with
    | schemeStart role title name =>
      simp [step, moved, Draft.start, Draft.moved]
    | _ => rfl
  | inSummary d =>
    cases line with
    | doc text => rfl
    | _ =>
      simp only [step, moved]
      exact bodyStep_moved k d number _
  | inBody d => exact bodyStep_moved k d number line

/-- **Many lines** with more lines in front of them. -/
theorem run_moved (k : Nat) (s : State) (number : Nat) (ls : List Line) :
    (s.moved k).after (number + k) ls = (s.after number ls).moved k ∧
      (s.moved k).drafts (number + k) ls = (s.drafts number ls).map (·.moved k) := by
  induction ls generalizing s number with
  | nil => exact ⟨rfl, rfl⟩
  | cons line ls ih =>
    obtain ⟨hafter, hdrafts⟩ := ih (s.step number line).1 (number + 1)
    have hnumber : number + k + 1 = number + 1 + k := by omega
    constructor
    · rw [after, after, step_moved, hnumber, hafter]
    · rw [drafts, drafts, step_moved, hnumber, hdrafts, List.map_append]
      rcases (s.step number line).2 with _ | d <;> rfl

theorem finish_moved (k : Nat) (s : State) : (s.moved k).finish = s.finish.map (·.moved k) := by
  cases s <;> rfl

theorem finish_eq_none_iff {s : State} : s.finish = none ↔ s = idle := by
  cases s <;> simp [finish]

theorem exists_of_finish_eq_some {s : State} {fault : SchemeFault} (h : s.finish = some fault) :
    ∃ name line, fault = .unterminated name line := by
  cases s with
  | idle => cases h
  | _ => exact ⟨_, _, (Option.some.inj h).symm⟩

end State

/-! ### Headers in parts -/

/-- The items of lines that are read behind `k` others, when these leave no scheme open. -/
theorem items_moved (checker : Checker) (k : Nat) (ls : List Line) :
    (State.idle.drafts (1 + k) ls).map checker.check ++
        (State.idle.after (1 + k) ls).finish.toList.map .error =
      ((State.idle.drafts 1 ls).map checker.check ++
        (State.idle.after 1 ls).finish.toList.map Except.error).map (Item.moved k) := by
  obtain ⟨hafter, hdrafts⟩ := State.run_moved k .idle 1 ls
  have hidle : State.idle.moved k = .idle := rfl
  have hcheck : checker.check ∘ (·.moved k) = Item.moved k ∘ checker.check :=
    funext fun d => checker.check_moved k d
  rw [hidle] at hafter hdrafts
  rw [hafter, hdrafts, State.finish_moved, List.map_append, List.map_map, List.map_map, hcheck]
  rcases (State.idle.after 1 ls).finish with _ | fault <;> rfl

/-- The reader stands outside any scheme behind a text whose last item is not that of a scheme that
is left open. -/
theorem after_kinds_eq_idle {checker : Checker} {text : String}
    (h : ∀ name line, (checker.parse text).getLast? ≠ some (.error (.unterminated name line))) :
    State.idle.after 1 (kinds text) = .idle := by
  rw [← State.finish_eq_none_iff, Option.eq_none_iff_forall_ne_some]
  intro fault hfault
  obtain ⟨name, line, rfl⟩ := State.exists_of_finish_eq_some hfault
  refine h name line ?_
  rw [checker.parse_eq, hfault]
  simp

/-- **Headers are read part by part**: behind a part that ends in a newline and leaves no scheme
open, the items of another part are what they are on their own, moved by the number of lines in
front of them. Nothing else of the first part, accepted or refused, has any bearing on them. -/
theorem parse_append (checker : Checker) {a : String} (ha : Text.Ended a)
    (hclosed : ∀ name line, (checker.parse a).getLast? ≠ some (.error (.unterminated name line)))
    (b : String) :
    checker.parse (a ++ b) =
      checker.parse a ++ (checker.parse b).map (Item.moved (Text.lines a).length) := by
  have hidle := after_kinds_eq_idle hclosed
  have hkinds : kinds (a ++ b) = kinds a ++ kinds b := by
    rw [kinds, Text.lines_append ha, List.map_append, kinds, kinds]
  have hlength : (Text.lines a).length = (kinds a).length := by rw [kinds, List.length_map]
  rw [checker.parse_eq a, checker.parse_eq b, checker.parse_eq (a ++ b), hkinds,
    State.drafts_append, State.after_append, hidle, hlength, ← items_moved, List.map_append]
  simp [State.finish]

/-- Behind four lines with a scheme that is refused: one that is bound twice, on a line whose number
is moved, and one that is left open. -/
theorem parse_append_behind_refused :
    let a := "/// Input arguments of f [fIn]\r\nenum fOut \x7b\r\n\x7d;\r\n\n"
    let b := "/// Input arguments of g [gIn]\n/// a -- the a [G_A]\nG_A,\nG_B,\n\x7d;\n" ++
      "/// Output arguments of h [hOut]"
    let refused : Item :=
      .error (.malformedGroup "fIn" "fOut" .input "`fOut` does not end in an Input suffix")
    Text.Ended a ∧ Checker.parse {} a = [refused] ∧ Checker.parse {} (a ++ b) =
      [refused, .error (.duplicateConstant "gIn" "a" "G_A" "G_B" 8),
        .error (.unterminated "hOut" 10)] := by
  intro a b refused
  have hended : Text.Ended a := .inr (by decide)
  have ha : Checker.parse {} a = [refused] := by decide +kernel
  have hb : Checker.parse {} b =
      [.error (.duplicateConstant "gIn" "a" "G_A" "G_B" 4), .error (.unterminated "hOut" 6)] := by
    decide +kernel
  have hlength : (Text.lines a).length = 4 := by decide +kernel
  refine ⟨hended, ha, ?_⟩
  rw [parse_append {} hended (by simp [ha, refused]) b, ha, hb, hlength]
  rfl

end Header

end ArgumentSchemes

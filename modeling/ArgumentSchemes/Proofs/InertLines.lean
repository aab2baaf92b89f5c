import ArgumentSchemes.Proofs.Layout
import ArgumentSchemes.Proofs.Segments

/-!
# Lines that do not count

Most lines of a header are code that has nothing to do with schemes. Which lines the reader passes
over depends on where it stands: outside any scheme it is every line that opens none, among the
lines of a summary it is a line of no kind, and in a body plain documentation as well
(`State.passesOver`). Such a line does to the reader what an empty one does
(`State.step_of_passesOver`); an empty line is not nothing, for it ends a summary like any other
line that is no documentation. So a run over lines of which some are made empty goes through the
same states, line by line, as the run over the lines themselves (`State.run_blanked`).

Main statement: whichever lines that are passed over are made empty, the items of the header stay
the same (`parse_blanked`).
-/

namespace ArgumentSchemes.Header

open Text

namespace State

/-- Whether a line does not count where the reading stands. -/
def passesOver : State → Line → Bool
  | idle, line => !line.isOpening
  | inSummary _, .other => true
  | inBody _, .other | inBody _, .doc _ => true
  | _, _ => false

/-- The given lines, numbered from `number` and read from `s` on, with an empty line in the place of
each one that is passed over and picked by its number. -/
def blanked (s : State) (pick : Nat → Bool) (number : Nat) : List String → List String
  | [] => []
  | line :: rest =>
    (if pick number && s.passesOver (Line.classify line) then "" else line) ::
      (s.feed number line).1.blanked pick (number + 1) rest

/-- A line that is passed over does what a line of no kind does. -/
theorem step_of_passesOver {s : State} {line : Line} (h : s.passesOver line = true)
    (number : Nat) : s.step number line = s.step number .other := by
  cases s with
  | idle =>
    have hopening : line.isOpening = false := by simpa [passesOver] using h
    rw [step_idle hopening, step_idle rfl]
  | inSummary d =>
    cases line with
    | other => rfl
    | _ => cases h
  | inBody d =>
    cases line with
    | other => rfl
    | doc text => rfl
    | _ => cases h

/-- **Made empty or not**, lines that are passed over lead through the same states, and the same
drafts come out. -/
theorem run_blanked (s : State) (pick : Nat → Bool) (number : Nat) (ls : List String) :
    s.after number ((s.blanked pick number ls).map Line.classify) =
        s.after number (ls.map Line.classify) ∧
      s.drafts number ((s.blanked pick number ls).map Line.classify) =
        s.drafts number (ls.map Line.classify) := by
  induction ls generalizing s number with
  | nil => exact ⟨rfl, rfl⟩
  | cons line ls ih =>
    have hempty : Line.classify "" = .other := by decide
    -- whichever line stands here, the step is that of the line itself
    have hstep : s.step number (Line.classify
        (if pick number && s.passesOver (Line.classify line) then "" else line)) =
          s.step number (Line.classify line) := by
      split
      · next h => rw [hempty, step_of_passesOver (Bool.and_eq_true_iff.mp h).2]
      · rfl
    obtain ⟨hafter, hdrafts⟩ := ih (s.feed number line).1 (number + 1)
    rw [feed] at hafter hdrafts
    simp only [blanked, List.map_cons, after, drafts, hstep, feed, hafter, hdrafts, and_self]

/-- Code outside of the scheme goes, and so do a remark and plain documentation in its body. -/
example :
    idle.blanked (fun _ => true) 1
      ["int f();", "/// Input arguments of f [fIn]", "/// computes f", "// a remark", "/// plain",
        "enum fIn \x7b", "/// the x [x]", "F_X,", "F_NUM_IN", "\x7d;", "/// the y [y]", "F_Y,"] =
      ["", "/// Input arguments of f [fIn]", "/// computes f", "", "", "enum fIn \x7b",
        "/// the x [x]", "F_X,", "", "\x7d;", "", ""] := by
  decide +kernel

theorem newline_not_mem_of_mem_blanked {s : State} {pick : Nat → Bool} {number : Nat}
    {ls : List String} (hls : ∀ l ∈ ls, '\n' ∉ l.toList) :
    ∀ l ∈ s.blanked pick number ls, '\n' ∉ l.toList := by
  induction ls generalizing s number with
  | nil => exact fun l hl => absurd hl List.not_mem_nil
  | cons line ls ih =>
    intro l hl
    rcases List.mem_cons.mp hl with rfl | hl
    · split
      · simp
      · exact hls line List.mem_cons_self
    · exact ih (fun l' hl' => hls l' (List.mem_cons_of_mem _ hl')) l hl

end State

/-- **Code between the lines of schemes is inert**: a header in which any of the lines that are
passed over are made empty has the items of the header itself, the numbers of lines in them
included. This does not depend on how the lines are ended, nor on whether the last one is. -/
theorem parse_blanked (checker : Checker) (text : String) (pick : Nat → Bool)
    (returned : Nat → Bool) (ended : Bool) :
    checker.parse (laidOut ended
        ((State.idle.blanked pick 1 (lines text)).mapIdx
          fun i line => { text := line, returned := returned i })) =
      checker.parse text := by
  let ls : List Placed := (State.idle.blanked pick 1 (lines text)).mapIdx
    fun i line => { text := line, returned := returned i }
  have htext : ls.map (Line.classify ·.text) =
      (State.idle.blanked pick 1 (lines text)).map Line.classify := by
    ext1 i
    simp [ls, Function.comp_def]
  have hplaced : ∀ l ∈ ls, l.InBlanks ∧ '\n' ∉ l.text.toList := by
    intro l hl
    obtain ⟨i, hi, rfl⟩ := List.mem_mapIdx.mp hl
    refine ⟨⟨by simp, by simp⟩, ?_⟩
    exact State.newline_not_mem_of_mem_blanked (fun _ => newline_not_mem_of_mem_lines) _
      (List.getElem_mem hi)
  have hparse : checker.parse text =
      (State.idle.drafts 1 (ls.map (Line.classify ·.text))).map checker.check ++
        (State.idle.after 1 (ls.map (Line.classify ·.text))).finish.toList.map .error := by
    obtain ⟨hafter, hdrafts⟩ := State.idle.run_blanked pick 1 (lines text)
    rw [checker.parse_eq, htext, hafter, hdrafts, kinds]
  rw [hparse, checker.parse_eq]
  rcases kinds_laidOut ended hplaced with h | h
  · rw [h]
  · -- the last line is empty, and gets lost without its ending
    obtain ⟨hdrafts, hfinish⟩ := State.run_concat_other 1 (kinds (laidOut ended ls))
    rw [h, hdrafts, hfinish]

end ArgumentSchemes.Header

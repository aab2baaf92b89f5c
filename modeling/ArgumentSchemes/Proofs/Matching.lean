import ArgumentSchemes.Proofs.Trimming

/-!
# Matching of patterns

A **pattern** is a regular expression that repeats nothing but single characters. It fits the
beginning of a text in a list of ways, the preferred one first (`LinePattern.ways`): a greedy
repetition prefers to take more, a lazy one less, and a choice its first pattern. Whether a pattern
fits is told by taking the text apart, from left to right (`LinePattern.fits_chars_seq`,
`LinePattern.fits_most_seq`). What its groups keep is what they have taken in the preferred way
(`LinePattern.captures?`): a greedy repetition takes a run up to where its class ends, if the rest
fits there (`LinePattern.captures?_seq_of_head?`), and a lazy one the shortest run that lets the
rest fit (`LinePattern.findSome?_runs`).
-/

namespace ArgumentSchemes.Header

open Text

/-! ### Patterns -/

/-- A regular expression that is to fit the beginning of a text. Only single characters are
repeated. -/
inductive LinePattern where
  /-- These characters. -/
  | chars (cs : List Char)
  /-- A character of a class. -/
  | one (fits : Char → Bool)
  /-- Characters of a class, as many as possible. -/
  | most (fits : Char → Bool)
  /-- Characters of a class, as few as possible. -/
  | fewest (fits : Char → Bool)
  /-- A word begins or ends. -/
  | boundary
  /-- The text ends. -/
  | stop
  /-- What the pattern takes is kept. -/
  | group (p : LinePattern)
  /-- One pattern, or else the other. -/
  | alt (p q : LinePattern)
  /-- One pattern, and behind it the other. -/
  | seq (p q : LinePattern)

namespace LinePattern

/-- A way in which a pattern fits a text: what its groups keep, in the order in which they open,
what it takes, and what it leaves. -/
structure Way where
  groups : List (List Char)
  taken : List Char
  rest : List Char

/-- One way, and another from where it ends. -/
def Way.andThen (u v : Way) : Way := ⟨u.groups ++ v.groups, u.taken ++ v.taken, v.rest⟩

/-- The ways to take characters of a class off the front of a text, the shortest first. -/
def runs (fits : Char → Bool) : List Char → List (List Char × List Char)
  | [] => [([], [])]
  | c :: cs =>
    ([], c :: cs) :: if fits c then (runs fits cs).map fun run => (c :: run.1, run.2) else []

/-- The ways in which a pattern fits a text, the preferred one first. The text stands behind
another, `behind`, and whether a word begins or ends depends on that too. -/
def ways : LinePattern → List Char → List Char → List Way
  | chars s, _, cs => ((afterPrefix? s cs).map fun rest => ⟨[], s, rest⟩).toList
  | one fits, _, cs =>
    match cs with
    | [] => []
    | c :: cs => if fits c then [⟨[], [c], cs⟩] else []
  | most fits, _, cs => (runs fits cs).reverse.map fun run => ⟨[], run.1, run.2⟩
  | fewest fits, _, cs => (runs fits cs).map fun run => ⟨[], run.1, run.2⟩
  | boundary, behind, cs =>
    if behind.getLast?.any isWordChar != cs.head?.any isWordChar then [⟨[], [], cs⟩] else []
  | stop, _, cs => if cs.isEmpty then [⟨[], [], []⟩] else []
  | group p, behind, cs => (p.ways behind cs).map fun w => { w with groups := w.taken :: w.groups }
  | alt p q, behind, cs => p.ways behind cs ++ q.ways behind cs
  | seq p q, behind, cs =>
    (p.ways behind cs).flatMap fun w => (q.ways (behind ++ w.taken) w.rest).map w.andThen

/-- What the groups of a pattern keep, when it fits in the preferred way. -/
def captures? (p : LinePattern) (behind cs : List Char) : Option (List (List Char)) :=
  (p.ways behind cs).head?.map Way.groups

/-- `\s*` -/
def blanks : LinePattern := most isBlank

/-- Characters of a class, as many as possible, but one at least. -/
def many (fits : Char → Bool) : LinePattern := seq (one fits) (most fits)

/-- `\w+` -/
def word : LinePattern := many isWordChar

/-! ### Runs -/

variable {fits : Char → Bool} {behind cs : List Char} {p q : LinePattern} {w : Way}
  {gs : List (List Char)}

theorem runs_cons_of_pos {c : Char} (h : fits c = true) :
    runs fits (c :: cs) =
      ([], c :: cs) :: (runs fits cs).map fun run => (c :: run.1, run.2) := by
  rw [runs, if_pos h]

theorem runs_cons_of_neg {c : Char} (h : ¬ fits c = true) :
    runs fits (c :: cs) = [([], c :: cs)] := by
  rw [runs, if_neg h]

theorem mem_runs {taken rest : List Char} :
    (taken, rest) ∈ runs fits cs ↔ (∀ c ∈ taken, fits c = true) ∧ cs = taken ++ rest := by
  induction cs generalizing taken with
  | nil =>
    rw [runs, List.mem_singleton, Prod.mk.injEq]
    constructor
    · rintro ⟨rfl, rfl⟩
      simp
    · exact fun h => List.append_eq_nil_iff.mp h.2.symm
  | cons c cs ih =>
    by_cases hc : fits c = true
    · rw [runs_cons_of_pos hc, List.mem_cons, List.mem_map]
      constructor
      · rintro (h | ⟨run, hrun, h⟩)
        · obtain ⟨rfl, rfl⟩ := Prod.mk.inj h
          simp
        · obtain ⟨rfl, rfl⟩ := Prod.mk.inj h
          obtain ⟨hall, hcs⟩ := ih.mp hrun
          exact ⟨List.forall_mem_cons.mpr ⟨hc, hall⟩, congrArg (c :: ·) hcs⟩
      · rintro ⟨hall, hcs⟩
        cases taken with
        | nil => exact .inl (Prod.ext rfl hcs.symm)
        | cons d taken =>
          obtain ⟨rfl, htail⟩ := List.cons.inj hcs
          exact .inr ⟨(taken, rest), ih.mpr ⟨(List.forall_mem_cons.mp hall).2, htail⟩, rfl⟩
    · rw [runs_cons_of_neg hc, List.mem_singleton, Prod.mk.injEq]
      constructor
      · rintro ⟨rfl, rfl⟩
        simp
      · rintro ⟨hall, hcs⟩
        cases taken with
        | nil => exact ⟨rfl, hcs.symm⟩
        | cons d taken =>
          obtain ⟨rfl, -⟩ := List.cons.inj hcs
          exact absurd (hall c List.mem_cons_self) hc

/-! ### Ways -/

theorem ways_chars (s : List Char) :
    (chars s).ways behind cs = ((afterPrefix? s cs).map fun rest => ⟨[], s, rest⟩).toList := rfl

theorem ways_one_nil : (one fits).ways behind [] = [] := rfl

theorem ways_one_cons {c : Char} :
    (one fits).ways behind (c :: cs) = if fits c then [⟨[], [c], cs⟩] else [] := rfl

theorem ways_most :
    (most fits).ways behind cs = (runs fits cs).reverse.map fun run => ⟨[], run.1, run.2⟩ := rfl

theorem ways_fewest :
    (fewest fits).ways behind cs = (runs fits cs).map fun run => ⟨[], run.1, run.2⟩ := rfl

theorem ways_boundary :
    boundary.ways behind cs =
      if behind.getLast?.any isWordChar != cs.head?.any isWordChar then [⟨[], [], cs⟩] else [] :=
  rfl

theorem ways_stop : stop.ways behind cs = if cs.isEmpty then [⟨[], [], []⟩] else [] := rfl

theorem ways_group :
    (group p).ways behind cs =
      (p.ways behind cs).map fun w => { w with groups := w.taken :: w.groups } := rfl

theorem ways_alt : (alt p q).ways behind cs = p.ways behind cs ++ q.ways behind cs := rfl

theorem ways_seq :
    (seq p q).ways behind cs =
      (p.ways behind cs).flatMap fun w => (q.ways (behind ++ w.taken) w.rest).map w.andThen := rfl

attribute [simp] ways_chars ways_one_nil ways_one_cons ways_most ways_fewest ways_stop ways_group
  ways_alt ways_seq

/-! ### Where a pattern fits -/

/-- The pattern fits the beginning of a text. -/
def Fits (p : LinePattern) (behind cs : List Char) : Prop := p.ways behind cs ≠ []

theorem captures?_eq_none_iff : p.captures? behind cs = none ↔ ¬ p.Fits behind cs := by
  rw [captures?, Option.map_eq_none_iff, List.head?_eq_none_iff, Fits, not_not]

theorem fits_seq :
    (seq p q).Fits behind cs ↔
      ∃ w ∈ p.ways behind cs, q.Fits (behind ++ w.taken) w.rest := by
  simp [Fits]

theorem fits_seq_assoc {r : LinePattern} :
    (seq (seq p q) r).Fits behind cs ↔ (seq p (seq q r)).Fits behind cs := by
  simp [fits_seq, Way.andThen, and_assoc]

/-- A group takes what its pattern takes. -/
theorem fits_group_seq : (seq (group p) q).Fits behind cs ↔ (seq p q).Fits behind cs := by
  simp [fits_seq]

theorem fits_stop : stop.Fits behind cs ↔ cs = [] := by
  simp [Fits]

theorem fits_chars {s : List Char} : (chars s).Fits behind cs ↔ ∃ rest, cs = s ++ rest := by
  simp only [Fits, ways_chars, ← afterPrefix?_eq_some_iff]
  cases afterPrefix? s cs <;> simp

theorem fits_chars_seq {s : List Char} :
    (seq (chars s) q).Fits behind cs ↔ ∃ rest, cs = s ++ rest ∧ q.Fits (behind ++ s) rest := by
  simp only [fits_seq, ways_chars, ← afterPrefix?_eq_some_iff]
  cases afterPrefix? s cs <;> simp

theorem fits_most_seq :
    (seq (most fits) q).Fits behind cs ↔ ∃ taken rest,
      (∀ c ∈ taken, fits c = true) ∧ cs = taken ++ rest ∧ q.Fits (behind ++ taken) rest := by
  simp [fits_seq, mem_runs, and_assoc]

theorem fits_fewest_seq :
    (seq (fewest fits) q).Fits behind cs ↔ ∃ taken rest,
      (∀ c ∈ taken, fits c = true) ∧ cs = taken ++ rest ∧ q.Fits (behind ++ taken) rest := by
  simp [fits_seq, mem_runs, and_assoc]

theorem fits_one_seq :
    (seq (one fits) q).Fits behind cs ↔
      ∃ c rest, fits c = true ∧ cs = c :: rest ∧ q.Fits (behind ++ [c]) rest := by
  rw [fits_seq]
  rcases cs with _ | ⟨c, cs⟩
  · simp
  · by_cases hc : fits c = true
    · simp only [ways_one_cons, hc, if_true, List.mem_singleton, exists_eq_left]
      constructor
      · exact fun hq => ⟨c, cs, hc, rfl, hq⟩
      · rintro ⟨d, rest, -, hcs, hq⟩
        obtain ⟨rfl, rfl⟩ := List.cons.inj hcs
        exact hq
    · simp only [ways_one_cons, hc]
      constructor
      · rintro ⟨w, hw, -⟩
        cases hw
      · rintro ⟨d, rest, hd, hcs, -⟩
        obtain ⟨rfl, -⟩ := List.cons.inj hcs
        exact absurd hd hc

theorem fits_many_seq :
    (seq (many fits) q).Fits behind cs ↔ ∃ taken rest, taken ≠ [] ∧
      (∀ c ∈ taken, fits c = true) ∧ cs = taken ++ rest ∧ q.Fits (behind ++ taken) rest := by
  rw [many, fits_seq_assoc, fits_one_seq]
  simp only [fits_most_seq]
  constructor
  · rintro ⟨c, _, hc, rfl, taken, rest, hall, rfl, hq⟩
    exact ⟨c :: taken, rest, by simp, List.forall_mem_cons.mpr ⟨hc, hall⟩, rfl, by simpa using hq⟩
  · rintro ⟨taken, rest, hne, hall, rfl, hq⟩
    obtain ⟨c, taken, rfl⟩ := List.exists_cons_of_ne_nil hne
    obtain ⟨hc, hall⟩ := List.forall_mem_cons.mp hall
    exact ⟨c, _, hc, rfl, taken, rest, hall, rfl, by simpa using hq⟩

theorem fits_alt_seq {r : LinePattern} :
    (seq (alt p q) r).Fits behind cs ↔ (seq p r).Fits behind cs ∨ (seq q r).Fits behind cs := by
  simp [fits_seq, or_and_right, exists_or]

/-- Behind a word there is a boundary where the word goes on no further. -/
theorem ways_boundary_of_word (h : behind.getLast?.any isWordChar = true) :
    boundary.ways behind cs = if cs.head?.any isWordChar then [] else [⟨[], [], cs⟩] := by
  rw [ways_boundary, h]
  cases cs.head?.any isWordChar <;> rfl

theorem fits_boundary_seq (h : behind.getLast?.any isWordChar = true) :
    (seq boundary q).Fits behind cs ↔ WordEnds cs ∧ q.Fits behind cs := by
  rw [fits_seq, ways_boundary_of_word h, wordEnds_iff]
  cases cs.head?.any isWordChar <;> simp

/-! ### The preferred way -/

/-- A lazy repetition takes the shortest run that lets the rest fit. -/
theorem findSome?_runs {β : Type} {f : List Char × List Char → Option β} {b : β}
    {taken rest : List Char} (hall : ∀ c ∈ taken, fits c = true)
    (hf : f (taken, rest) = some b)
    (hshort : ∀ taken' rest', taken ++ rest = taken' ++ rest' → taken'.length < taken.length →
      f (taken', rest') = none) :
    (runs fits (taken ++ rest)).findSome? f = some b := by
  induction taken generalizing f with
  | nil => rcases rest with _ | ⟨c, rest⟩ <;> simp [runs, hf]
  | cons c taken ih =>
    -- taking nothing is preferred, but it is shorter
    have hnil : f ([], c :: (taken ++ rest)) = none := hshort [] _ rfl (by simp)
    rw [List.cons_append, runs_cons_of_pos (hall c List.mem_cons_self), List.findSome?_cons, hnil]
    simp only [List.findSome?_map]
    refine ih (fun d hd => hall d (List.mem_cons_of_mem _ hd)) hf fun taken' rest' heq hlt => ?_
    exact hshort (c :: taken') rest' (congrArg (c :: ·) heq) (by simpa using hlt)

theorem captures?_seq :
    (seq p q).captures? behind cs = (p.ways behind cs).findSome? fun u =>
      (q.captures? (behind ++ u.taken) u.rest).map (u.groups ++ ·) := by
  rw [captures?, ways_seq, List.head?_flatMap, List.map_findSome?]
  congr 1
  funext u
  simp only [Function.comp_apply, captures?, List.head?_map, Option.map_map]
  rfl

/-- Where the preferred way of a pattern lets the other fit, it stays the preferred one. -/
theorem captures?_seq_of_head? (hp : (p.ways behind cs).head? = some w)
    (hq : q.captures? (behind ++ w.taken) w.rest = some gs) :
    (seq p q).captures? behind cs = some (w.groups ++ gs) := by
  obtain ⟨ws, hws⟩ := List.head?_eq_some_iff.mp hp
  rw [captures?_seq, hws, List.findSome?_cons, hq]
  rfl

theorem head?_ways_chars (s rest : List Char) :
    ((chars s).ways behind (s ++ rest)).head? = some ⟨[], s, rest⟩ := by
  rw [ways_chars, afterPrefix?_eq_some_iff.mpr rfl]
  rfl

/-- A greedy repetition goes on to where its class ends. -/
theorem head?_ways_most {taken rest : List Char} (hall : ∀ c ∈ taken, fits c = true)
    (hrest : ∀ c ∈ rest.head?, fits c = false) :
    ((most fits).ways behind (taken ++ rest)).head? = some ⟨[], taken, rest⟩ := by
  -- the longest run comes last among the runs, so first among the ways
  have hlast : (runs fits (taken ++ rest)).getLast? = some (taken, rest) := by
    induction taken with
    | nil =>
      rcases rest with _ | ⟨c, rest⟩
      · rfl
      · simp [runs, hrest c rfl]
    | cons c taken ih =>
      obtain ⟨hc, hall⟩ := List.forall_mem_cons.mp hall
      rw [List.cons_append, runs_cons_of_pos hc, List.getLast?_cons, List.getLast?_map, ih hall]
      rfl
  rw [ways_most, List.head?_map, List.head?_reverse, hlast]
  rfl

theorem head?_ways_many {taken rest : List Char} (hne : taken ≠ [])
    (hall : ∀ c ∈ taken, fits c = true) (hrest : ∀ c ∈ rest.head?, fits c = false) :
    ((many fits).ways behind (taken ++ rest)).head? = some ⟨[], taken, rest⟩ := by
  obtain ⟨c, taken, rfl⟩ := List.exists_cons_of_ne_nil hne
  obtain ⟨hc, hall⟩ := List.forall_mem_cons.mp hall
  have hone : (one fits).ways behind (c :: (taken ++ rest)) = [⟨[], [c], taken ++ rest⟩] := by
    simp [hc]
  rw [many, List.cons_append, ways_seq, hone, List.flatMap_singleton, List.head?_map,
    head?_ways_most hall hrest]
  rfl

theorem head?_ways_group (h : (p.ways behind cs).head? = some w) :
    ((group p).ways behind cs).head? = some ⟨w.taken :: w.groups, w.taken, w.rest⟩ := by
  rw [ways_group, List.head?_map, h]
  rfl

theorem captures?_chars_seq {s rest : List Char}
    (h : q.captures? (behind ++ s) rest = some gs) :
    (seq (chars s) q).captures? behind (s ++ rest) = some gs :=
  captures?_seq_of_head? (head?_ways_chars s rest) h

theorem captures?_blanks_seq {bs rest : List Char} (hbs : ∀ b ∈ bs, isBlank b = true)
    (hrest : trimStart rest = rest) (h : q.captures? (behind ++ bs) rest = some gs) :
    (seq blanks q).captures? behind (bs ++ rest) = some gs := by
  refine captures?_seq_of_head? (head?_ways_most hbs fun c hc => ?_) h
  obtain ⟨rest, rfl⟩ := List.head?_eq_some_iff.mp hc
  exact trimStart_cons_eq_self_iff.mp hrest

theorem captures?_word_seq {name rest : List Char} (hname : IsWord name) (hrest : WordEnds rest)
    (h : q.captures? (behind ++ name) rest = some gs) :
    (seq (group word) q).captures? behind (name ++ rest) = some (name :: gs) :=
  captures?_seq_of_head? (head?_ways_group (head?_ways_many hname.ne_nil hname.all hrest)) h

/-- The blanks in front go to the greedy repetition, when that lets the rest fit. -/
theorem captures?_blanks_trimStart (h : ∀ behind, q.captures? behind (trimStart cs) = some gs) :
    (seq blanks q).captures? behind cs = some gs := by
  obtain ⟨bs, hbs, hcs⟩ := exists_eq_append_trimStart cs
  rw [hcs]
  exact captures?_blanks_seq hbs (trimStart_trimStart cs) (h _)

theorem captures?_blanks_chars {bs rest : List Char} {c : Char}
    (hbs : ∀ b ∈ bs, isBlank b = true) (hc : isBlank c = false) :
    (seq blanks (chars [c])).captures? behind (bs ++ c :: rest) = some [] := by
  refine captures?_blanks_seq hbs (trimStart_cons_eq_self_iff.mpr hc) ?_
  have hhead : ((chars [c]).ways (behind ++ bs) ([c] ++ rest)).head? = some ⟨[], [c], rest⟩ :=
    head?_ways_chars [c] rest
  exact congrArg (Option.map Way.groups) hhead

end LinePattern

end ArgumentSchemes.Header

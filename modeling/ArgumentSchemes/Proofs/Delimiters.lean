import ArgumentSchemes.Text.CharClass
import ArgumentSchemes.Text.Lines
import Mathlib.Algebra.GroupWithZero.Nat
import Mathlib.Data.List.Infix

/-!
# Taking a text apart at its delimiters

Readers for texts that were put together from parts: `cutAt?` finds the first place of a mark
(`cutChars?_eq_some_iff`), `between?` takes away what stands at both ends (`between?_append`),
`listed?` takes the elements of a list that is separated by commas out of what stands around each of
them (`listed?_joinWith`), and `number?` reads digits (`number?_toString`).

A mark behind a text is the first one exactly when it does not stand in the text itself, as long as
the text does not end like the mark begins (`cutChars?_append_iff`). How often a mark stands in a
text is counted piece by piece: a character that the mark does not hold keeps the pieces apart
(`occurrences_append_cons`).
-/

namespace ArgumentSchemes.Text

/-! ### The first place of a mark -/

/-- The characters in front of the first place where `mark` stands, and those behind it. -/
def cutChars? (mark : List Char) : List Char → Option (List Char × List Char)
  | [] => if mark = [] then some ([], []) else none
  | c :: cs =>
    match afterPrefix? mark (c :: cs) with
    | some behind => some ([], behind)
    | none => (cutChars? mark cs).map fun (front, behind) => (c :: front, behind)

/-- The text in front of the first place where `mark` stands, and the text behind it. -/
def cutAt? (mark text : String) : Option (String × String) :=
  (cutChars? mark.toList text.toList).map fun (front, behind) =>
    (String.ofList front, String.ofList behind)

/-- **The first place of a mark** is the one with the least in front of it. -/
theorem cutChars?_eq_some_iff {mark cs front behind : List Char} :
    cutChars? mark cs = some (front, behind) ↔
      cs = front ++ mark ++ behind ∧
        ∀ front' behind', cs = front' ++ mark ++ behind' → front.length ≤ front'.length := by
  induction cs generalizing front with
  | nil =>
    rw [cutChars?]
    constructor
    · intro h
      obtain ⟨rfl, h⟩ := Option.ite_none_right_eq_some.mp h
      obtain ⟨rfl, rfl⟩ := Prod.mk.inj (Option.some.inj h)
      exact ⟨rfl, fun _ _ _ => Nat.zero_le _⟩
    · rintro ⟨h, -⟩
      simp only [List.nil_eq, List.append_eq_nil_iff] at h
      obtain ⟨⟨rfl, rfl⟩, rfl⟩ := h
      rfl
  | cons c cs ih =>
    rw [cutChars?]
    rcases hprefix : afterPrefix? mark (c :: cs) with _ | rest
    · -- the mark does not stand right here, so every place is one of the rest
      have hfront : ∀ front' behind', c :: cs = front' ++ mark ++ behind' →
          ∃ front'', front' = c :: front'' ∧ cs = front'' ++ mark ++ behind' := by
        intro front' behind' h
        cases front' with
        | nil =>
          rw [List.nil_append] at h
          rw [afterPrefix?_eq_some_iff.mpr h] at hprefix
          cases hprefix
        | cons c' front'' =>
          obtain ⟨rfl, rfl⟩ := List.cons.inj h
          exact ⟨front'', rfl, rfl⟩
      constructor
      · intro h
        obtain ⟨⟨front₀, behind₀⟩, hcut, hpair⟩ := Option.map_eq_some_iff.mp h
        obtain ⟨rfl, rfl⟩ := Prod.mk.inj hpair
        obtain ⟨rfl, hfirst⟩ := ih.mp hcut
        refine ⟨rfl, fun front' behind' h' => ?_⟩
        obtain ⟨front'', rfl, hcs⟩ := hfront front' behind' h'
        exact Nat.succ_le_succ (hfirst front'' behind' hcs)
      · rintro ⟨h, hfirst⟩
        obtain ⟨front₀, rfl, hcs⟩ := hfront front behind h
        refine Option.map_eq_some_iff.mpr ⟨(front₀, behind), ih.mpr ⟨hcs, ?_⟩, rfl⟩
        intro front' behind' h'
        exact Nat.le_of_succ_le_succ (hfirst (c :: front') behind' (by rw [h']; rfl))
    · have hcs := afterPrefix?_eq_some_iff.mp hprefix
      simp only [Option.some.injEq, Prod.mk.injEq]
      constructor
      · rintro ⟨rfl, rfl⟩
        exact ⟨hcs, fun _ _ _ => Nat.zero_le _⟩
      · rintro ⟨h, hfirst⟩
        have hnil : front = [] := List.length_eq_zero_iff.mp (Nat.le_zero.mp (hfirst [] rest hcs))
        subst hnil
        exact ⟨rfl, List.append_cancel_left (hcs.symm.trans h)⟩

/-- A mark is found at a character that stands neither in front of the mark nor earlier in it. -/
theorem cutChars?_append_of_not_mem {m : Char} {front start : List Char} (h : m ∉ front ++ start)
    (rest behind : List Char) :
    cutChars? (start ++ m :: rest) (front ++ (start ++ m :: rest) ++ behind) =
      some (front, behind) := by
  refine cutChars?_eq_some_iff.mpr ⟨rfl, fun front' behind' heq => ?_⟩
  by_contra hlt
  -- an earlier place would bring the character into what is in front of it here
  have hhere : front ++ start <+: front ++ (start ++ m :: rest) ++ behind :=
    ⟨m :: rest ++ behind, by simp⟩
  have hthere : front' ++ start ++ [m] <+: front ++ (start ++ m :: rest) ++ behind :=
    ⟨rest ++ behind', by simp [heq]⟩
  have hfront : front' ++ start ++ [m] <+: front ++ start := by
    refine List.prefix_of_prefix_length_le hthere hhere ?_
    simp only [List.length_append, List.length_singleton]
    omega
  exact h (hfront.subset (by simp))

theorem cutAt?_append_of_not_mem {front mark : String} {m : Char} {start rest : List Char}
    (hmark : mark.toList = start ++ m :: rest) (h : m ∉ front.toList ++ start) (behind : String) :
    cutAt? mark (front ++ mark ++ behind) = some (front, behind) := by
  rw [cutAt?, String.toList_append, String.toList_append, hmark, cutChars?_append_of_not_mem h]
  simp

/-- A mark that begins with a character which is not in front of it is found. -/
theorem cutAt?_append {front : String} {m : Char} (h : m ∉ front.toList) (mark : String)
    (hmark : mark.toList.head? = some m) (behind : String) :
    cutAt? mark (front ++ mark ++ behind) = some (front, behind) := by
  obtain ⟨rest, hrest⟩ := List.head?_eq_some_iff.mp hmark
  have hstart : mark.toList = [] ++ m :: rest := hrest
  exact cutAt?_append_of_not_mem hstart (by simpa using h) behind

/-- **A mark behind a text is the first one** exactly when it does not stand in the text, as long as
the text does not end in a character that the mark goes on behind. -/
theorem cutChars?_append_iff {mark front : List Char} (hne : mark ≠ [])
    (hlast : ∀ c ∈ front.getLast?, c ∉ mark.dropLast) (behind : List Char) :
    cutChars? mark (front ++ mark ++ behind) = some (front, behind) ↔ ¬ mark <:+: front := by
  rw [cutChars?_eq_some_iff]
  constructor
  · rintro ⟨-, hfirst⟩ ⟨before, after, rfl⟩
    have hlength := hfirst before (after ++ mark ++ behind) (by simp)
    have hpos := List.length_pos_iff.mpr hne
    simp only [List.length_append] at hlength
    omega
  · refine fun hnot => ⟨rfl, fun front' behind' heq => ?_⟩
    rw [List.append_assoc, List.append_assoc] at heq
    rcases List.append_eq_append_iff.mp heq with ⟨as, rfl, -⟩ | ⟨as, hfront, has⟩
    · simp
    · -- the mark would begin with the end `as` of `front`
      rcases List.append_eq_append_iff.mp has with ⟨bs, rfl, -⟩ | ⟨bs, hmark, -⟩
      · exact absurd ⟨front', bs, by rw [hfront, List.append_assoc]⟩ hnot
      · rcases List.eq_nil_or_concat' as with rfl | ⟨init, c, rfl⟩
        · simp [hfront]
        · rcases List.eq_nil_or_concat' bs with rfl | ⟨bs, b, rfl⟩
          · exact absurd ⟨front', [], by rw [hfront, hmark]; simp⟩ hnot
          · have hc : c ∈ mark.dropLast := by
              rw [hmark, ← List.append_assoc, List.dropLast_concat]
              simp
            have hend : c ∈ front.getLast? := by
              rw [hfront, ← List.append_assoc, List.getLast?_concat]
              rfl
            exact absurd hc (hlast c hend)

theorem cutAt?_append_iff {mark front : String} (hne : mark.toList ≠ [])
    (hlast : ∀ c ∈ front.toList.getLast?, c ∉ mark.toList.dropLast) (behind : String) :
    cutAt? mark (front ++ mark ++ behind) = some (front, behind) ↔
      ¬ mark.toList <:+: front.toList := by
  rw [← cutChars?_append_iff hne hlast behind.toList, cutAt?, String.toList_append,
    String.toList_append]
  constructor
  · intro h
    obtain ⟨⟨cs, ds⟩, hcut, hparts⟩ := Option.map_eq_some_iff.mp h
    obtain ⟨rfl, rfl⟩ := Prod.mk.inj hparts
    rw [hcut, String.toList_ofList, String.toList_ofList]
  · intro h
    exact Option.map_eq_some_iff.mpr ⟨_, h, by simp⟩

/-- What is cut off in front tells where the mark was found. -/
theorem map_fst_cutChars?_iff {mark front behind : List Char} :
    (cutChars? mark (front ++ mark ++ behind)).map (·.1) = some front ↔
      cutChars? mark (front ++ mark ++ behind) = some (front, behind) := by
  rw [Option.map_eq_some_iff]
  constructor
  · rintro ⟨⟨front₀, behind₀⟩, hcut, rfl⟩
    rw [hcut, List.append_cancel_left (cutChars?_eq_some_iff.mp hcut).1]
  · exact fun hcut => ⟨_, hcut, rfl⟩

/-! ### How often a mark stands in a text -/

/-- How often the mark stands in the text; places that overlap count each. -/
def occurrences (mark text : List Char) : Nat := text.tails.countP (mark.isPrefixOf ·)

theorem occurrences_cons (mark : List Char) (c : Char) (cs : List Char) :
    occurrences mark (c :: cs) =
      occurrences mark cs + if mark.isPrefixOf (c :: cs) then 1 else 0 := by
  rw [occurrences, List.tails_cons, List.countP_cons]
  rfl

/-- A mark that stands nowhere in a text is no part of it. -/
theorem occurrences_eq_zero_iff {mark text : List Char} :
    occurrences mark text = 0 ↔ ¬ mark <:+: text := by
  rw [occurrences, List.countP_eq_zero, List.infix_iff_prefix_suffix]
  simp only [List.mem_tails, List.isPrefixOf_iff_prefix, not_exists, not_and]
  exact forall_congr' fun _ => imp_not_comm

/-- A mark does not go over a character that it does not hold. -/
theorem prefix_append_cons_iff {mark : List Char} {c : Char} (hc : c ∉ mark) (xs ys : List Char) :
    mark <+: xs ++ c :: ys ↔ mark <+: xs := by
  constructor
  · intro h
    have hfront : xs ++ [c] <+: xs ++ c :: ys := ⟨ys, by simp⟩
    rcases List.prefix_or_prefix_of_prefix h hfront with hmark | hmark
    · rcases List.prefix_concat_iff.mp hmark with rfl | hmark
      · exact absurd (by simp) hc
      · exact hmark
    · exact absurd (hmark.subset (by simp)) hc
  · exact fun h => h.trans (List.prefix_append _ _)

section

variable {mark : List Char} (hne : mark ≠ [])

include hne

/-- **A mark stands on one side** of a character that it does not hold. -/
theorem occurrences_append_cons {c : Char} (hc : c ∉ mark) (xs ys : List Char) :
    occurrences mark (xs ++ c :: ys) = occurrences mark xs + occurrences mark ys := by
  induction xs with
  | nil =>
    have hhere : ¬ mark.isPrefixOf (c :: ys) = true := by
      rw [List.isPrefixOf_iff_prefix]
      exact fun h => hne (List.prefix_nil.mp ((prefix_append_cons_iff hc [] ys).mp h))
    have hnil : occurrences mark [] = 0 :=
      occurrences_eq_zero_iff.mpr fun h => hne (List.infix_nil.mp h)
    rw [List.nil_append, occurrences_cons, if_neg hhere, hnil, Nat.zero_add, Nat.add_zero]
  | cons x xs ih =>
    have hhere : mark.isPrefixOf (x :: (xs ++ c :: ys)) = mark.isPrefixOf (x :: xs) := by
      rw [Bool.eq_iff_iff, List.isPrefixOf_iff_prefix, List.isPrefixOf_iff_prefix]
      exact prefix_append_cons_iff hc (x :: xs) ys
    rw [List.cons_append, occurrences_cons, occurrences_cons, ih, hhere]
    omega

theorem occurrences_eq_zero {text : List Char} (h : ∀ c ∈ text, c ∉ mark) :
    occurrences mark text = 0 := by
  obtain ⟨c, rest, rfl⟩ := List.exists_cons_of_ne_nil hne
  refine occurrences_eq_zero_iff.mpr fun hmark => ?_
  exact h c (hmark.subset List.mem_cons_self) List.mem_cons_self

theorem occurrences_append_left {ys : List Char} (h : ∀ c ∈ ys, c ∉ mark) (xs : List Char) :
    occurrences mark (xs ++ ys) = occurrences mark xs := by
  cases ys with
  | nil => rw [List.append_nil]
  | cons c ys =>
    rw [occurrences_append_cons hne (h c List.mem_cons_self),
      occurrences_eq_zero hne fun c' hc' => h c' (List.mem_cons_of_mem _ hc'), Nat.add_zero]

theorem occurrences_append_right {xs : List Char} (h : ∀ c ∈ xs, c ∉ mark) (ys : List Char) :
    occurrences mark (xs ++ ys) = occurrences mark ys := by
  rcases List.eq_nil_or_concat' xs with rfl | ⟨init, c, rfl⟩
  · rw [List.nil_append]
  · rw [List.append_assoc, List.singleton_append, occurrences_append_cons hne (h c (by simp)),
      occurrences_eq_zero hne fun c' hc' => h c' (List.mem_append_left _ hc'), Nat.zero_add]

/-- Lines that are ended by a character which the mark does not hold. -/
theorem occurrences_flatMap {c : Char} (hc : c ∉ mark) (ls : List (List Char)) :
    occurrences mark (ls.flatMap (· ++ [c])) = (ls.map (occurrences mark)).sum := by
  induction ls with
  | nil => exact occurrences_eq_zero hne (by simp)
  | cons l ls ih =>
    rw [List.flatMap_cons, List.append_assoc, List.singleton_append,
      occurrences_append_cons hne hc, ih, List.map_cons, List.sum_cons]

end

/-! ### What stands at both ends -/

/-- The text without `front` at its beginning and `back` at its end, if it has both. -/
def between? (front back text : String) : Option String :=
  (afterPrefix? front.toList text.toList).bind fun rest =>
    (afterPrefix? back.toList.reverse rest.reverse).map fun cs => String.ofList cs.reverse

theorem between?_append (front text back : String) :
    between? front back (front ++ text ++ back) = some text := by
  have hfront : afterPrefix? front.toList (front ++ text ++ back).toList =
      some (text.toList ++ back.toList) :=
    afterPrefix?_eq_some_iff.mpr (by simp)
  have hback : afterPrefix? back.toList.reverse (text.toList ++ back.toList).reverse =
      some text.toList.reverse :=
    afterPrefix?_eq_some_iff.mpr (by simp)
  rw [between?, hfront, Option.bind_some, hback]
  simp

/-! ### Lists -/

/-- The elements of a list that is separated by commas, each taken out of what stands around it. -/
def listed? (front back text : String) : Option (List String) :=
  (text.toList.splitOn ',').mapM fun cs => between? front back (String.ofList cs)

/-- A run over a list that never fails gives all its results. -/
theorem mapM_eq_pure {m : Type → Type} [Monad m] [LawfulMonad m] {α β : Type} {f : α → m β}
    {g : α → β} {xs : List α} (h : ∀ x ∈ xs, f x = pure (g x)) : xs.mapM f = pure (xs.map g) := by
  induction xs with
  | nil => rw [List.mapM_nil, List.map_nil]
  | cons x xs ih =>
    rw [List.mapM_cons, h x List.mem_cons_self, ih fun y hy => h y (List.mem_cons_of_mem x hy),
      pure_bind, pure_bind, List.map_cons]

theorem listed?_joinWith (front back : String) {names : List String} (hne : names ≠ [])
    (h : ∀ name ∈ names, ',' ∉ (front ++ name ++ back).toList) :
    listed? front back (joinWith "," (names.map fun name => front ++ name ++ back)) =
      some names := by
  have hsplit : (joinWith "," (names.map fun name => front ++ name ++ back)).toList.splitOn ',' =
      names.map fun name => (front ++ name ++ back).toList := by
    rw [joinWith, String.toList_intercalate, List.map_map]
    refine List.splitOn_intercalate ',' (fun cs hcs => ?_) (by simpa using hne)
    obtain ⟨name, hname, rfl⟩ := List.mem_map.mp hcs
    exact h name hname
  have hread : ∀ name ∈ names,
      between? front back (String.ofList (front ++ name ++ back).toList) = pure name := by
    intro name _
    rw [String.ofList_toList, between?_append]
    rfl
  rw [listed?, hsplit, List.mapM_map]
  exact (mapM_eq_pure hread).trans (by rw [List.map_id']; rfl)

/-- The elements with nothing around them. -/
theorem listed?_joinWith_bare {names : List String} (hne : names ≠ [])
    (h : ∀ name ∈ names, ',' ∉ name.toList) : listed? "" "" (joinWith "," names) = some names := by
  have hbare : names.map (fun name => "" ++ name ++ "") = names := by simp
  have hread := listed?_joinWith "" "" hne (by simpa using h)
  rwa [hbare] at hread

/-! ### Numbers -/

/-- The number that a text of digits stands for. -/
def number? (text : String) : Option Nat :=
  if text ≠ "" ∧ text.toList.all Char.isDigit then some (Nat.ofDigitChars 10 text.toList 0)
  else none

/-- A number is written in digits only. -/
theorem not_mem_toDigits {c : Char} (hc : c.isDigit = false) (n : Nat) :
    c ∉ Nat.toDigits 10 n := by
  intro h
  rw [Nat.isDigit_of_mem_toDigits (by decide) (by decide) h] at hc
  cases hc

theorem number?_toString (n : Nat) : number? (toString n) = some n := by
  have hchars : (toString n).toList = Nat.toDigits 10 n := by simp
  have hne : toString n ≠ "" := by
    rw [Ne, ← String.toList_eq_nil_iff, hchars]
    exact Nat.toDigits_ne_nil
  have hdigits : (Nat.toDigits 10 n).all Char.isDigit = true :=
    List.all_eq_true.mpr fun c hc => Nat.isDigit_of_mem_toDigits (by decide) (by decide) hc
  rw [number?, hchars, if_pos ⟨hne, hdigits⟩, Nat.ofDigitChars_toDigits (by decide) (by decide)]

end ArgumentSchemes.Text

import ArgumentSchemes.Command.Invocation
import Mathlib.Data.List.Basic
import Mathlib.Control.Monad.Basic

/-!
# Leaving out a flag

A **flag** of a grammar is an option without a value and without a letter, so that only one argument
can give it. Arguments that were read with a flag are read without it when that argument is left
out, and all else is given as before (`Grammar.readFrom_of_flag`).

Main statement: when the arguments of the program ask for `generate --check`, one of them is
`--check`, and without it they ask for the same command in the mode that writes
(`Invocation.exists_of_check`).
-/

namespace ArgumentSchemes.Command

/-! ### What is given besides a flag -/

namespace Given

/-- What was given besides one option. -/
def without (g : Given) (long : String) : Given :=
  { g with options := g.options.filter (·.1 != long) }

theorem value?_without {g : Given} {long other : String} (h : other ≠ long) :
    (g.without long).value? other = g.value? other := by
  rw [value?, value?, without]
  induction g.options with
  | nil => rfl
  | cons option options ih =>
    by_cases hoption : option.1 = long
    · have hother : (other == option.1) = false := by simpa [hoption] using h
      rw [List.filter_cons_of_neg (by simpa using hoption), List.lookup_cons, hother, ih]
    · rw [List.filter_cons_of_pos (by simpa using hoption), List.lookup_cons, List.lookup_cons, ih]

theorem has_without {g : Given} {long other : String} (h : other ≠ long) :
    (g.without long).has other = g.has other := by
  rw [has, has, value?_without h]

theorem has_without_self (g : Given) (long : String) : (g.without long).has long = false := by
  have hnone : (g.without long).options.lookup long = none := by
    rw [List.lookup_eq_none_iff]
    intro option hoption
    have hne : option.1 ≠ long := by simpa using (List.mem_filter.mp hoption).2
    simpa using hne.symm
  rw [has, value?, hnone]
  rfl

@[simp] theorem positional_without (g : Given) (long : String) :
    (g.without long).positional = g.positional := rfl

/-- One option more. -/
def withOption (g : Given) (long value : String) : Given :=
  { g with options := g.options ++ [(long, value)] }

theorem without_withOption_self (g : Given) (long value : String) :
    (g.withOption long value).without long = g.without long := by
  simp [without, withOption]

theorem without_withOption {g : Given} {long other value : String} (h : other ≠ long) :
    (g.withOption other value).without long = (g.without long).withOption other value := by
  simp [without, withOption, h]

theorem has_withOption (g : Given) (long other value : String) :
    (g.withOption other value).has long = (g.has long || (long == other)) := by
  simp only [has, value?, withOption, List.lookup_append]
  cases g.options.lookup long <;> cases h : long == other <;> simp [List.lookup_cons, h]

end Given

/-! ### One argument -/

/-- An option that only the argument `--long` gives. -/
def Grammar.IsFlag (g : Grammar) (long : String) : Prop :=
  ∀ spec ∈ g.options, spec.long = long → spec.takesValue = false ∧ spec.short = none

theorem Grammar.long_of_long? {g : Grammar} {name : String} {spec : OptionSpec}
    (h : g.long? name = some spec) : spec ∈ g.options ∧ spec.long = name :=
  ⟨List.mem_of_find?_eq_some h, by simpa using List.find?_some h⟩

theorem Grammar.IsFlag.ne_of_short? {g : Grammar} {long : String} (hflag : g.IsFlag long)
    {c : Char} {spec : OptionSpec} (h : g.short? c = some spec) : spec.long ≠ long := by
  intro hlong
  have hshort := (hflag spec (List.mem_of_find?_eq_some h) hlong).2
  simpa [hshort] using List.find?_some h

theorem Grammar.IsFlag.ne_of_takesValue {g : Grammar} {long : String} (hflag : g.IsFlag long)
    {name : String} {spec : OptionSpec} (h : g.long? name = some spec)
    (htakes : spec.takesValue = true) : spec.long ≠ long := by
  intro hlong
  have hnone := (hflag spec (g.long_of_long? h).1 hlong).1
  rw [htakes] at hnone
  cases hnone

namespace Progress

/-- The same point of a reading, as if an option had not been given. -/
def without (p : Progress) (long : String) : Progress :=
  { p with given := p.given.without long }

/-- No option of this name waits for its value. -/
def NotWaitingFor (p : Progress) (long : String) : Prop :=
  ∀ spec, p.waiting = some spec → spec.long ≠ long

/-- A step from `p` to `q` that has nothing to do with a flag: it is the same without the flag. -/
structure Keeps (p q : Progress) (long : String)
    (step : Progress → Except Stop Progress) : Prop where
  without : step (p.without long) = .ok (q.without long)
  has : q.given.has long = p.given.has long
  waiting : q.NotWaitingFor long

variable {g : Grammar} {long : String} {p q : Progress}

theorem store_eq_ok {spec : OptionSpec} {value : String} (h : p.store spec value = .ok q) :
    p.given.has spec.long = false ∧
      q = { p with given := p.given.withOption spec.long value, waiting := none } := by
  rw [store] at h
  split at h
  · cases h
  · split at h
    · cases h
    · split at h
      · cases h
      · next hfresh =>
        refine ⟨?_, (Except.ok.inj h).symm⟩
        simp only [not_or, Bool.not_eq_true] at hfresh
        exact hfresh.1

theorem keeps_store {spec : OptionSpec} {value : String} (hne : spec.long ≠ long)
    (h : p.store spec value = .ok q) : Keeps p q long (store · spec value) := by
  obtain ⟨-, rfl⟩ := store_eq_ok h
  refine ⟨?_, ?_, fun _ hnone => by cases hnone⟩
  · rw [store] at h ⊢
    simp only [without, Given.has_without hne, Given.without_withOption hne]
    split at h
    · cases h
    · next hhelp =>
      rw [if_neg hhelp]
      split at h
      · cases h
      · next hversion =>
        rw [if_neg hversion]
        split at h
        · cases h
        · next hfresh => rw [if_neg hfresh]; rfl
  · have : (long == spec.long) = false := by simpa using hne.symm
    simp [Given.has_withOption, this]

theorem keeps_addPositional {argument : String} (hwaiting : p.NotWaitingFor long)
    (h : p.addPositional g argument = .ok q) :
    Keeps p q long (addPositional g · argument) := by
  rw [addPositional] at h
  split at h
  · next hroom =>
    obtain rfl := Except.ok.inj h
    exact ⟨if_pos hroom, rfl, hwaiting⟩
  · cases h

theorem keeps_addShort {letters : List Char} (hflag : g.IsFlag long)
    (hwaiting : p.NotWaitingFor long) (h : p.addShort g letters = .ok q) :
    Keeps p q long (addShort g · letters) := by
  induction letters generalizing p with
  | nil =>
    obtain rfl := Except.ok.inj h
    exact ⟨rfl, rfl, hwaiting⟩
  | cons c rest ih =>
    unfold addShort at h ⊢
    rcases hspec : g.short? c with _ | spec
    · rw [hspec] at h
      cases h
    have hne := hflag.ne_of_short? hspec
    rw [hspec] at h
    rcases htakes : spec.takesValue with _ | _
    · simp only [htakes, Bool.false_eq_true, if_false] at h ⊢
      rcases hstored : p.store spec "" with stop | p'
      · rw [hstored] at h
        cases h
      · rw [hstored] at h
        obtain ⟨hwithout, hhas, hnone⟩ := keeps_store hne hstored
        obtain ⟨hwithout', hhas', hnone'⟩ := ih hnone h
        exact ⟨by simpa only [hwithout] using hwithout', hhas'.trans hhas, hnone'⟩
    · simp only [htakes, if_true] at h ⊢
      split at h
      · obtain rfl := Except.ok.inj h
        exact ⟨rfl, rfl, fun _ hsome => Option.some.inj hsome ▸ hne⟩
      · exact keeps_store hne h
      · exact keeps_store hne h

/-- A step takes in the flag itself. -/
structure Flags (p q : Progress) (long : String) : Prop where
  without : q.without long = p.without long
  fresh : p.given.has long = false
  has : q.given.has long = true
  waiting : q.waiting = none

theorem keeps_or_flags_addLong {name : String} {value : Option String} (hflag : g.IsFlag long)
    (hwaiting : p.waiting = none) (h : p.addLong g name value = .ok q) :
    Keeps p q long (addLong g · name value) ∨ (name = long ∧ value = none ∧ Flags p q long) := by
  unfold addLong at h ⊢
  rcases hspec : g.long? name with _ | spec
  · rw [hspec] at h
    cases h
  obtain ⟨-, hname⟩ := g.long_of_long? hspec
  rw [hspec] at h
  rcases htakes : spec.takesValue with _ | _
  · rcases value with _ | value
    · simp only [htakes, Bool.false_eq_true, if_false] at h ⊢
      by_cases hlong : name = long
      · subst hlong hname
        obtain ⟨hfresh, rfl⟩ := store_eq_ok h
        refine .inr ⟨rfl, trivial, ?_, hfresh, ?_, rfl⟩
        · simp [without, Given.without_withOption_self, hwaiting]
        · simp [Given.has_withOption]
      · exact .inl (keeps_store (hname ▸ hlong) h)
    · simp [htakes] at h
  · have hne := hflag.ne_of_takesValue hspec htakes
    rcases value with _ | value
    · simp only [htakes, if_true] at h ⊢
      obtain rfl := Except.ok.inj h
      exact .inl ⟨rfl, rfl, fun _ hsome => Option.some.inj hsome ▸ hne⟩
    · simp only [htakes, if_true] at h ⊢
      exact .inl (keeps_store hne h)

/-- A name behind two hyphens that takes up everything is the whole argument. -/
theorem eq_of_takeWhile_equals {rest : List Char}
    (h : ((rest.drop (rest.takeWhile (· != '=')).length).tail?.map String.ofList) = none) :
    rest.takeWhile (· != '=') = rest := by
  have hdrop : rest.drop (rest.takeWhile (· != '=')).length = [] := by
    cases hrest : rest.drop (rest.takeWhile (· != '=')).length with
    | nil => rfl
    | cons c cs => simp [hrest] at h
  conv_rhs => rw [← List.take_append_drop (rest.takeWhile (· != '=')).length rest, hdrop]
  rw [List.append_nil]
  exact List.prefix_iff_eq_take.mp (List.takeWhile_prefix _)

/-- Behind `--` every argument is positional. -/
theorem add_of_literal {argument : String} (hwait : p.waiting = none)
    (hliteral : p.literal = true) : p.add g argument = p.addPositional g argument := by
  unfold add
  split <;> simp_all

/-- An argument either gives the flag or has nothing to do with it. -/
theorem keeps_or_flags_add {argument : String} (hflag : g.IsFlag long)
    (hwaiting : p.NotWaitingFor long) (h : p.add g argument = .ok q) :
    Keeps p q long (add g · argument) ∨ (argument = "--" ++ long ∧ Flags p q long) := by
  have hsame : (p.without long).waiting = p.waiting := rfl
  have hsame' : (p.without long).literal = p.literal := rfl
  by_cases hliteral : p.waiting = none ∧ p.literal = true
  · obtain ⟨hwait, hliteral⟩ := hliteral
    rw [add_of_literal hwait hliteral] at h
    obtain ⟨hwithout, hhas, hnone⟩ := keeps_addPositional hwaiting h
    have hthere : (p.without long).add g argument = (p.without long).addPositional g argument :=
      add_of_literal hwait hliteral
    exact .inl ⟨hthere.trans hwithout, hhas, hnone⟩
  have hopen : p.waiting = none → p.literal = false := by simpa using hliteral
  unfold add at h ⊢
  split at h
  · cases h
  · next spec hwait hhyphen =>
    obtain ⟨hwithout, hhas, hnone⟩ := keeps_store (hwaiting _ hwait) h
    refine .inl ⟨?_, hhas, hnone⟩
    simp only [hsame, hwait, hwithout]
  · next hwait hchars =>
    simp only [hopen hwait, Bool.false_eq_true, if_false] at h
    obtain rfl := Except.ok.inj h
    refine .inl ⟨?_, rfl, hwaiting⟩
    simp only [hsame, hwait, hchars, hsame', hopen hwait]
    rfl
  · next rest hmore hwait hchars =>
    simp only [hopen hwait, Bool.false_eq_true, if_false] at h
    rcases keeps_or_flags_addLong hflag hwait h with
      ⟨hwithout, hhas, hnone⟩ | ⟨hname, hvalue, hgives⟩
    · refine .inl ⟨?_, hhas, hnone⟩
      simp only [hsame, hwait, hchars, hsame', hopen hwait]
      exact hwithout
    · refine .inr ⟨?_, hgives⟩
      rw [eq_of_takeWhile_equals hvalue] at hname
      have htext : argument = String.ofList ('-' :: '-' :: rest) := by
        rw [← hchars, String.ofList_toList]
      rw [htext, ← hname]
      simp [String.ext_iff]
  · next c rest hmore hnot hwait hchars =>
    simp only [hopen hwait, Bool.false_eq_true, if_false] at h
    obtain ⟨hwithout, hhas, hnone⟩ := keeps_addShort hflag hwaiting h
    refine .inl ⟨?_, hhas, hnone⟩
    simp only [hsame, hwait, hchars, hsame', hopen hwait]
    exact hwithout
  · next hwait hseparator hlong hshort =>
    obtain ⟨hwithout, hhas, hnone⟩ := keeps_addPositional hwaiting h
    refine .inl ⟨?_, hhas, hnone⟩
    simp only [hsame, hwait, hwithout]

end Progress

/-! ### All arguments -/

namespace Grammar

variable {g : Grammar} {long : String} {p : Progress} {arguments rest : List String}
  {given : Given}

/-- Arguments that are read with a flag are read without it when the argument that gives it is left
out. -/
theorem readFrom_of_flag (hflag : g.IsFlag long) (hstops : g.stopsAtPositional = false)
    (hwaiting : p.NotWaitingFor long) (h : g.readFrom p arguments = .ok (given, rest)) :
    given.has long = p.given.has long ∧
        g.readFrom (p.without long) arguments = .ok (given.without long, rest) ∨
      p.given.has long = false ∧ ∃ before after, arguments = before ++ ("--" ++ long) :: after ∧
        g.readFrom (p.without long) (before ++ after) = .ok (given.without long, rest) := by
  induction arguments generalizing p with
  | nil =>
    rw [readFrom] at h
    split at h
    · cases h
    · next hwait =>
      obtain ⟨rfl, rfl⟩ := Prod.mk.inj (Except.ok.inj h)
      exact .inl ⟨rfl, if_neg hwait⟩
  | cons argument arguments ih =>
    rw [readFrom, if_neg (by simp [hstops])] at h
    split at h
    · cases h
    · next q hadd =>
      rcases Progress.keeps_or_flags_add hflag hwaiting hadd with
        ⟨hwithout, hhas, hnone⟩ | ⟨rfl, hwithout, hfresh, hhas, hnone⟩
      · have hstep : ∀ others, g.readFrom (p.without long) (argument :: others) =
            g.readFrom (q.without long) others := by
          intro others
          rw [readFrom, if_neg (by simp [hstops]), hwithout]
        rcases ih hnone h with ⟨hsame, hread⟩ | ⟨hfresh, before, after, rfl, hread⟩
        · exact .inl ⟨hsame.trans hhas, (hstep _).trans hread⟩
        · exact .inr ⟨hhas.symm.trans hfresh, argument :: before, after, rfl,
            (hstep _).trans hread⟩
      · -- the flag is given, so that it is not given again
        rcases ih (fun _ hsome => by rw [hnone] at hsome; cases hsome) h with
          ⟨-, hread⟩ | ⟨hfresh', -⟩
        · exact .inr ⟨hfresh, [], arguments, rfl, hwithout ▸ hread⟩
        · rw [hhas] at hfresh'
          cases hfresh'

/-- What is read up to the first positional argument does not depend on what follows. -/
theorem exists_of_readFrom_cons {x : String} (h : g.readFrom p arguments = .ok (given, x :: rest)) :
    ∃ before, arguments = before ++ x :: rest ∧
      ∀ rest', g.readFrom p (before ++ x :: rest') = .ok (given, x :: rest') := by
  induction arguments generalizing p with
  | nil =>
    rw [readFrom] at h
    split at h <;> cases h
  | cons argument arguments ih =>
    rw [readFrom] at h
    split at h
    · next hstop =>
      obtain ⟨rfl, hrest⟩ := Prod.mk.inj (Except.ok.inj h)
      obtain ⟨rfl, rfl⟩ := List.cons.inj hrest
      refine ⟨[], rfl, fun rest' => ?_⟩
      rw [List.nil_append, readFrom]
      exact if_pos hstop
    · next hstop =>
      split at h
      · cases h
      · next q hadd =>
        obtain ⟨before, rfl, hread⟩ := ih h
        refine ⟨argument :: before, rfl, fun rest' => ?_⟩
        rw [List.cons_append, readFrom, hadd]
        simp only [if_neg hstop]
        exact hread rest'

end Grammar

/-! ### The flag that only checks -/

theorem isFlag_check : generateGrammar.IsFlag "check" := by
  unfold Grammar.IsFlag
  decide

theorem ScanArguments.ofGiven_without_check (given : Given) :
    ofGiven (given.without "check") = ofGiven given := by
  simp [ofGiven, Given.value?_without]

/-- Without the flag `check` the same is asked for in the mode that writes. -/
theorem Request.generateOf_without_check {given : Given} {scan : ScanArguments}
    {outDir license : Option Files.Path} {scope : Option String}
    (h : generateOf given = .ok (.generate scan outDir license scope .check)) :
    given.has "check" = true ∧
      generateOf (given.without "check") = .ok (.generate scan outDir license scope .write) := by
  have hdry : (given.without "check").has "dry-run" = given.has "dry-run" :=
    Given.has_without (by decide)
  rcases hcheck : given.has "check" with _ | _
  · rcases hdryRun : given.has "dry-run" with _ | _ <;>
      simp [generateOf, hcheck, hdryRun, bind, Except.bind, pure, Except.pure] at h
  · rcases hdryRun : given.has "dry-run" with _ | _
    · simp [generateOf, hcheck, hdryRun, bind, Except.bind, pure, Except.pure] at h
      simp [generateOf, Given.has_without_self, hdry, hdryRun, bind, Except.bind, pure, Except.pure,
        Given.value?_without, ScanArguments.ofGiven_without_check, h]
    · simp [generateOf, hcheck, hdryRun, bind, Except.bind] at h

/-- Only the command `generate` asks for a run. -/
theorem Request.named?_of_generate {name : String} {grammar : Grammar}
    {build : Given → Except Stop Request} (h : named? name = some (grammar, build)) {given : Given}
    {scan : ScanArguments} {outDir license : Option Files.Path} {scope : Option String}
    {mode : Run.Mode} (hbuild : build given = .ok (.generate scan outDir license scope mode)) :
    name = "generate" ∧ grammar = generateGrammar ∧ build = generateOf := by
  rw [named?] at h
  split at h
  · next hname =>
    obtain ⟨rfl, rfl⟩ := Prod.mk.inj (Option.some.inj h)
    exact ⟨hname, rfl, rfl⟩
  · split at h
    · obtain ⟨rfl, rfl⟩ := Prod.mk.inj (Option.some.inj h)
      cases hbuild
    · split at h
      · obtain ⟨rfl, rfl⟩ := Prod.mk.inj (Option.some.inj h)
        rw [completionsOf] at hbuild
        split at hbuild <;> cases hbuild
      · cases h

/-- Arguments that ask for `generate --check` ask for the same in the mode that writes when one of
them, which is `--check`, is left out. -/
theorem Invocation.exists_of_check {arguments : List String} {verbose coloured : Bool}
    {scan : ScanArguments} {outDir license : Option Files.Path} {scope : Option String}
    (h : ofArguments arguments =
      .ok { verbose, coloured, request := .generate scan outDir license scope .check }) :
    ∃ before after, arguments = before ++ "--check" :: after ∧
      ofArguments (before ++ after) =
        .ok { verbose, coloured, request := .generate scan outDir license scope .write } := by
  rw [ofArguments] at h
  split at h
  · cases h
  · cases h
  · next top name rest htop =>
    split at h
    · cases h
    · next grammar build hname =>
      rcases hread : grammar.read rest with stop | ⟨given, others⟩
      · rw [hread] at h
        cases h
      rcases hbuild : build given with stop | request
      · simp [hread, hbuild, bind, Except.bind] at h
      simp [hread, hbuild, bind, Except.bind, pure, Except.pure] at h
      obtain ⟨rfl, rfl, rfl⟩ := h
      obtain ⟨rfl, rfl, rfl⟩ := Request.named?_of_generate hname hbuild
      obtain ⟨hcheck, hwrite⟩ := Request.generateOf_without_check hbuild
      obtain ⟨before, rfl, hbefore⟩ := Grammar.exists_of_readFrom_cons htop
      rcases Grammar.readFrom_of_flag isFlag_check rfl (fun _ hnone => by cases hnone) hread with
        ⟨hsame, -⟩ | ⟨-, before', after', rfl, hread'⟩
      · rw [hcheck] at hsame
        cases hsame
      refine ⟨before ++ "generate" :: before', after', by simp, ?_⟩
      have htop' : topGrammar.read (before ++ "generate" :: before' ++ after') =
          .ok (top, "generate" :: (before' ++ after')) := by
        rw [List.append_assoc]
        exact hbefore _
      have hread'' : generateGrammar.read (before' ++ after') =
          .ok (given.without "check", others) := hread'
      have hverbose : (given.without "check").has "verbose" = given.has "verbose" :=
        Given.has_without (by decide)
      have hcolour : (given.without "check").has "no-color" = given.has "no-color" :=
        Given.has_without (by decide)
      rw [ofArguments, htop']
      simp only [hname, hread'', bind, Except.bind, hwrite, pure, Except.pure, hverbose, hcolour,
        Bool.not_or]

end ArgumentSchemes.Command

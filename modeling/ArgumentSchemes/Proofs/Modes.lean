import ArgumentSchemes.Command.Execute
import ArgumentSchemes.Proofs.Flags
import ArgumentSchemes.Proofs.Stages
import Mathlib.Data.List.Forall2

/-!
# What the modes of a run have to do with each other

Before its outputs are settled a run does the same in every mode, and how they stand is told by the
comparison alone. So a run that does not write foretells what the same run would do if it wrote:
what it tells as stale is what the other writes (`Generation.Foretells`).

Main statement: runs that check or are dry touch nothing and foretell the run that writes; and the
command `generate --check` exits with 0 exactly when the same command without `--check` would find
both outputs unchanged (`unwritten_runs_foretell`).
-/

namespace ArgumentSchemes

namespace Run

open Files (Path Site Tree)

/-- The generation `g` of a run that does not write says of the same run that writes what its
generation `g'` says: an output that is stale in `g` is written in `g'`, and one that is unchanged
in `g` is so in `g'`. -/
structure Generation.Foretells (g g' : Generation) : Prop where
  filesScanned : g.filesScanned = g'.filesScanned
  generated : g.generated = g'.generated
  rejections : g.rejections = g'.rejections
  outputs : List.Forall₂ (fun told settled => told.1 = settled.1 ∧
    (told.2 = .unchanged ∧ settled.2 = .unchanged ∨ told.2 = .stale ∧ settled.2 = .written))
    g.outputs g'.outputs

/-- The statuses of outputs that are not written, beside those of the same outputs written. -/
theorem forall₂_statuses {mode : Mode} (hmode : mode ≠ .write)
    (outputs : List (Path × String × Bool)) :
    List.Forall₂ (fun told settled => told.1 = settled.1 ∧
      (told.2 = .unchanged ∧ settled.2 = .unchanged ∨ told.2 = .stale ∧ settled.2 = .written))
      (mode.statuses outputs) (Mode.write.statuses outputs) := by
  rw [Mode.statuses, Mode.statuses, List.forall₂_map_left_iff, List.forall₂_map_right_iff,
    List.forall₂_same]
  rintro ⟨p, content, current⟩ -
  cases current <;> simp [Mode.statusOf, hmode]

/-- A run that does not write leaves the tree as it is, whether it succeeds or fails. -/
theorem tree_of_ne_write {s : Site} {o : Options} (hmode : o.mode ≠ .write) :
    (generate s o).2 = s.tree := by
  rcases compared_or_not s o with ⟨artifacts, g, outputs, hrender, hcompare⟩ | hnot
  · rw [(generate_of_compared hrender hcompare).2, (settle_of_ne_write hmode).2]
  · exact (generate_of_not_compared hnot).2

/-- Where a run that writes succeeds, the same run in another mode foretells it. -/
theorem exists_foretells {s : Site} {o : Options} {g : Generation} {mode : Mode}
    (hmode : mode ≠ .write) (h : (generate s { o with mode := .write }).1.result = .ok g) :
    ∃ g', (generate s { o with mode }).1.result = .ok g' ∧ g'.Foretells g := by
  obtain ⟨artifacts, g₀, outputs, hrender, hcompare, -, rfl⟩ := generate_eq_ok_iff.mp h
  refine ⟨_, generate_eq_ok_iff.mpr
    ⟨artifacts, g₀, outputs, hrender, hcompare, (settle_of_ne_write hmode).1, rfl⟩, ?_⟩
  exact ⟨rfl, rfl, rfl, forall₂_statuses hmode outputs⟩

/-- A status is told as unchanged exactly where the output was current. -/
theorem statusOf_eq_unchanged_iff {mode : Mode} {current : Bool} :
    mode.statusOf current = .unchanged ↔ current = true := by
  cases current <;> cases mode <;> simp [Mode.statusOf]

/-- A run that checks finds nothing stale exactly when every output is current. -/
theorem hasStale_statuses_eq_false_iff {g : Generation} {outputs : List (Path × String × Bool)} :
    { g with outputs := Mode.check.statuses outputs }.hasStale = false ↔
      ∀ output ∈ outputs, output.2.2 = true := by
  simp only [Generation.hasStale, Mode.statuses, List.any_map, List.any_eq_false]
  refine forall₂_congr fun output _ => ?_
  rcases output with ⟨p, content, _ | _⟩ <;> simp [Mode.statusOf]

/-- The statuses are all unchanged exactly when every output is current. -/
theorem statuses_eq_unchanged_iff {mode : Mode} {outputs : List (Path × String × Bool)} :
    mode.statuses outputs = (outputs.map (·.1)).map (·, .unchanged) ↔
      ∀ output ∈ outputs, output.2.2 = true := by
  rw [Mode.statuses, List.map_map, List.map_inj_left]
  simp [statusOf_eq_unchanged_iff]

/-- A run that writes finds both outputs unchanged exactly when the same run that checks finds
nothing stale. -/
theorem unchanged_iff_not_hasStale {s : Site} {o : Options} :
    (∃ g, (generate s { o with mode := .write }).1.result = .ok g ∧
      g.outputs = o.outputPaths.map (·, .unchanged)) ↔
    ∃ g, (generate s { o with mode := .check }).1.result = .ok g ∧ g.hasStale = false := by
  have hpaths : ∀ {artifacts outputs}, compareOutputs s (o.outputs artifacts) = .ok outputs →
      outputs.map (·.1) = o.outputPaths := by
    intro artifacts outputs hcompare
    obtain ⟨current, current', rfl⟩ := compareOutputs_outputs_eq_ok hcompare
    rfl
  constructor
  · rintro ⟨g, hg, hunchanged⟩
    obtain ⟨artifacts, g₀, outputs, hrender, hcompare, -, rfl⟩ := generate_eq_ok_iff.mp hg
    refine ⟨_, generate_eq_ok_iff.mpr
      ⟨artifacts, g₀, outputs, hrender, hcompare, (settle_of_ne_write (by simp)).1, rfl⟩, ?_⟩
    rw [← hpaths hcompare] at hunchanged
    exact hasStale_statuses_eq_false_iff.mpr (statuses_eq_unchanged_iff.mp hunchanged)
  · rintro ⟨g, hg, hstale⟩
    obtain ⟨artifacts, g₀, outputs, hrender, hcompare, -, rfl⟩ := generate_eq_ok_iff.mp hg
    have hcurrent := hasStale_statuses_eq_false_iff.mp hstale
    refine ⟨_, generate_eq_ok_iff.mpr
      ⟨artifacts, g₀, outputs, hrender, hcompare, (settle_of_current hcurrent).1, rfl⟩, ?_⟩
    rw [← hpaths hcompare]
    exact statuses_eq_unchanged_iff.mpr hcurrent

end Run

namespace Command

open Config (Layer)
open Files (Path Site)
open Report (Told)
open Run (Failure Generation Mode Options Status)

/-- The options of the run that the command `generate` asks for. -/
def generateOptions (s : Site) (a : ScanArguments) (outDir : Option Path) (flags : Layer)
    (mode : Mode) : Except Failure Options :=
  (scanSettings s a).result.map fun (root, layer) =>
    { root, outDir := outDir.getD root, config := layer.merge flags, mode }

/-- The mode of a run has no part in its other options. -/
theorem generateOptions_with_mode {s : Site} {a : ScanArguments} {outDir : Option Path}
    {flags : Layer} {mode : Mode} {o : Options} (h : generateOptions s a outDir flags mode = .ok o)
    (mode' : Mode) :
    { o with mode } = o ∧
      generateOptions s a outDir flags mode' = .ok { o with mode := mode' } := by
  rw [generateOptions] at h ⊢
  rcases hprepared : (scanSettings s a).result with failure | ⟨root, layer⟩
  · rw [hprepared] at h
    cases h
  · rw [hprepared] at h
    obtain rfl := Except.ok.inj h
    exact ⟨rfl, rfl⟩

/-- Telling what came of a run fails only where outputs that were to be checked differ. -/
theorem reportGeneration_eq_ok_iff {s : Site} {mode : Mode} {g : Generation} :
    (reportGeneration s mode g).result = .ok () ↔ ¬(mode = .check ∧ g.hasStale = true) := by
  by_cases hrejections : g.rejections.isEmpty = true <;>
    by_cases hstale : mode = .check ∧ g.hasStale = true <;>
    simp [reportGeneration, showRejections, Told.tellAll, Told.tell, Told.note, Told.fail,
      hrejections, hstale]

/-- The command `generate` succeeds when its run does and finds nothing stale that was to be
checked. -/
theorem executeGenerate_eq_ok_iff {s : Site} {a : ScanArguments} {outDir : Option Path}
    {flags : Layer} {mode : Mode} :
    (executeGenerate s a outDir flags mode).1.result = .ok () ↔
      ∃ o g, generateOptions s a outDir flags mode = .ok o ∧
        (Run.generate s o).1.result = .ok g ∧ ¬(mode = .check ∧ g.hasStale = true) := by
  rw [executeGenerate, generateOptions]
  rcases hprepared : (scanSettings s a).result with failure | ⟨root, layer⟩
  · simp [Except.map]
  · simp only [Except.map, Except.ok.injEq, Told.result_bind_eq_ok_iff,
      reportGeneration_eq_ok_iff, Told.tellAll]
    exact ⟨fun ⟨_, _, g, hg⟩ => ⟨_, g, rfl, hg⟩, fun ⟨_, g, ho, hg⟩ => ⟨(), trivial, g, ho ▸ hg⟩⟩

/-- A command that is understood exits with 0 exactly when its request succeeds. -/
theorem exitCode_run_eq_zero_iff {s : Site} {texts : LibraryTexts} {arguments : List String}
    {invocation : Invocation} (h : Invocation.ofArguments arguments = .ok invocation) :
    (run s arguments texts).exitCode = 0 ↔
      (executeRequest s texts invocation.request).1.result = .ok () := by
  rw [run, h]
  rcases hresult : (executeRequest s texts invocation.request).1.result with failure | _ <;>
    simp [hresult]

/-- **The command `generate --check`** exits with 0 exactly when the same command without `--check`
would succeed with both outputs unchanged. -/
theorem exists_write_of_check {s : Site} {texts : LibraryTexts} {arguments : List String}
    {verbose coloured : Bool} {scan : ScanArguments} {outDir license : Option Path}
    {scope : Option String}
    (h : Invocation.ofArguments arguments =
      .ok { verbose, coloured, request := .generate scan outDir license scope .check }) :
    ∃ before after, arguments = before ++ "--check" :: after ∧
      Invocation.ofArguments (before ++ after) =
        .ok { verbose, coloured, request := .generate scan outDir license scope .write } ∧
      ((run s arguments texts).exitCode = 0 ↔ (run s (before ++ after) texts).exitCode = 0 ∧
        ∃ o g, generateOptions s scan outDir { license, scope } .write = .ok o ∧
          (Run.generate s o).1.result = .ok g ∧ g.outputs = o.outputPaths.map (·, .unchanged)) := by
  obtain ⟨before, after, harguments, hwrite⟩ := Invocation.exists_of_check h
  refine ⟨before, after, harguments, hwrite, ?_⟩
  rw [exitCode_run_eq_zero_iff h, exitCode_run_eq_zero_iff hwrite]
  simp only [executeRequest]
  rw [executeGenerate_eq_ok_iff, executeGenerate_eq_ok_iff]
  constructor
  · rintro ⟨o, g, ho, hg, hstale⟩
    obtain ⟨hmode, ho'⟩ := generateOptions_with_mode ho .write
    rw [← hmode] at hg
    have hcurrent : g.hasStale = false := by simpa using hstale
    obtain ⟨g', hg', hunchanged⟩ := Run.unchanged_iff_not_hasStale.mpr ⟨g, hg, hcurrent⟩
    exact ⟨⟨_, g', ho', hg', by simp⟩, _, g', ho', hg', hunchanged⟩
  · rintro ⟨-, o, g, ho, hg, hunchanged⟩
    obtain ⟨hmode, ho'⟩ := generateOptions_with_mode ho .check
    rw [← hmode] at hg
    obtain ⟨g', hg', hstale⟩ := Run.unchanged_iff_not_hasStale.mp ⟨g, hg, hunchanged⟩
    exact ⟨_, g', ho', hg', by simp [hstale]⟩

/-- **Runs that check or are dry foretell the run that writes, and touch nothing.** They leave the
tree as it is, whether they succeed or fail. Where the run that writes succeeds, so do they, and
they tell the same of the headers and of the outputs. Hence `generate --check` exits with 0 exactly
when the same command without `--check` would succeed with both outputs unchanged. -/
theorem unwritten_runs_foretell (s : Site) (texts : LibraryTexts) :
    (∀ o : Options, o.mode ≠ .write → (Run.generate s o).2 = s.tree) ∧
    (∀ (o : Options) (g : Generation) (mode : Mode), mode ≠ .write →
      (Run.generate s { o with mode := .write }).1.result = .ok g →
        ∃ g', (Run.generate s { o with mode }).1.result = .ok g' ∧ g'.Foretells g) ∧
    ∀ (arguments : List String) (verbose coloured : Bool) (scan : ScanArguments)
      (outDir license : Option Path) (scope : Option String),
      Invocation.ofArguments arguments =
        .ok { verbose, coloured, request := .generate scan outDir license scope .check } →
      ∃ before after, arguments = before ++ "--check" :: after ∧
        Invocation.ofArguments (before ++ after) =
          .ok { verbose, coloured, request := .generate scan outDir license scope .write } ∧
        ((run s arguments texts).exitCode = 0 ↔ (run s (before ++ after) texts).exitCode = 0 ∧
          ∃ o g, generateOptions s scan outDir { license, scope } .write = .ok o ∧
            (Run.generate s o).1.result = .ok g ∧
            g.outputs = o.outputPaths.map (·, .unchanged)) :=
  ⟨fun _ => Run.tree_of_ne_write, fun _ _ _ => Run.exists_foretells,
    fun _ _ _ _ _ _ _ => exists_write_of_check⟩

/-- Where the binding interface is as it should be and the native header is missing, a run that writes
makes the header and leaves the interface, and one that checks finds the header stale and the
interface unchanged. -/
theorem unwritten_runs_foretell_one_unchanged :
    let binding := "// L\n/** All edits to this file will be lost - autogenerated by schemegen */\n" ++
      "%include \"casadi/autogenerated.hpp\"\n"
    let s : Site :=
      { tree := ⟨[(["misc"], .directory),
          (["misc", "license_header.txt"], .file (Text.encode "// L\n")), (["swig"], .directory),
          (["swig", "autogenerated.i"], .file (Text.encode binding))]⟩
        cwd := [] }
    let o : Options := { root := ⟨"."⟩, outDir := ⟨"."⟩ }
    let g (status : Status) : Generation :=
      { filesScanned := 0, generated := [], rejections := []
        outputs := [(⟨"./casadi/autogenerated.hpp"⟩, status),
          (⟨"./swig/autogenerated.i"⟩, .unchanged)] }
    (Run.generate s { o with mode := .write }).1.result = .ok (g .written) ∧
      (Run.generate s { o with mode := .check }).1.result = .ok (g .stale) ∧
      (g .stale).Foretells (g .written) ∧ (Run.generate s { o with mode := .check }).2 = s.tree ∧
      ∃ before after, ["generate", "--check"] = before ++ "--check" :: after ∧
        ((run s ["generate", "--check"]).exitCode = 0 ↔ (run s (before ++ after)).exitCode = 0 ∧
          ∃ o g, generateOptions s {} none {} .write = .ok o ∧
            (Run.generate s o).1.result = .ok g ∧
            g.outputs = o.outputPaths.map (·, .unchanged)) := by
  intro binding s o g
  have hwrite : (Run.generate s { o with mode := .write }).1.result = .ok (g .written) := by
    decide +kernel
  have hcheck : (Run.generate s { o with mode := .check }).1.result = .ok (g .stale) := by
    decide +kernel
  have harguments : Invocation.ofArguments ["generate", "--check"] =
      .ok { verbose := false, coloured := true, request := .generate {} none none none .check } := by
    decide +kernel
  obtain ⟨hkeep, hforetell, hcommand⟩ := unwritten_runs_foretell s .brief
  obtain ⟨g', hg', hforetells⟩ := hforetell o (g .written) .check (by decide) hwrite
  obtain rfl := Except.ok.inj (hcheck.symm.trans hg')
  obtain ⟨before, after, hsplit, -, hexit⟩ := hcommand _ _ _ _ _ _ _ harguments
  exact ⟨hwrite, hcheck, hforetells, hkeep _ (by decide), before, after, hsplit, hexit⟩

end Command

end ArgumentSchemes

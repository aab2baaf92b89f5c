import ArgumentSchemes.Proofs.ListedHeaders

/-!
# Which layer decides a setting

Layers are merged one after another, from the weakest to the strongest. A field of a layer is told
by what the layer sets it to, if it does. Merging two layers takes what the stronger one sets, and
else what the weaker one does (`IsField`), so that by induction on the layers the last one that sets
a field decides it, and the default does when none sets it (`IsField.resolves`).

The commands that scan headers have three layers: the user's own file, then the file that is named
or else that of the project, and the flags on top (`scanSettings_eq_ok_iff`).

Main statement: every setting is decided by the last layer that sets it, and these are the layers
of a command (`settings_decided_by_last_layer`).
-/

namespace ArgumentSchemes

/-- A computation succeeds with its faults seen as those of another kind when it does itself. -/
theorem Report.Told.result_mapFault_eq_ok_iff {δ ε α : Type} {wrap : δ → ε} {x : Told δ α} {a : α} :
    (Told.mapFault wrap x).result = .ok a ↔ x.result = .ok a :=
  Told.result_lift_eq_ok_iff (x := x.result)

namespace Config

open Files (Path Site)
open Report (Told)

namespace Layer

/-- The layers merged one after another onto the empty one. -/
def mergeAll (layers : List Layer) : Layer := layers.foldl merge {}

theorem mergeAll_concat (layers : List Layer) (l : Layer) :
    mergeAll (layers ++ [l]) = (mergeAll layers).merge l := by
  simp [mergeAll]

/-- The value types that a layer sets: no types leave the field open. -/
def types? (l : Layer) : Option (List String) :=
  if l.valueTypes = [] then none else some l.valueTypes

end Layer

/-! ### Fields -/

/-- The value is that of the last layer that sets a field, or the default when none does. What a
layer sets the field to is given by `set?`. -/
inductive Resolves {α : Type} (set? : Layer → Option α) (default : α) (layers : List Layer) :
    α → Prop
  | setBy {before after : List Layer} {l : Layer} {v : α} : layers = before ++ l :: after →
      set? l = some v → (∀ m ∈ after, set? m = none) → Resolves set? default layers v
  | leftOpen : (∀ l ∈ layers, set? l = none) → Resolves set? default layers default

/-- A layer that leaves the field open leaves it to those before it. -/
theorem Resolves.concat_open {α : Type} {set? : Layer → Option α} {default v : α}
    {layers : List Layer} (h : Resolves set? default layers v) {l : Layer} (hl : set? l = none) :
    Resolves set? default (layers ++ [l]) v := by
  have hconcat : ∀ {ls : List Layer}, (∀ m ∈ ls, set? m = none) →
      ∀ m ∈ ls ++ [l], set? m = none := by
    intro ls hls m hm
    rcases List.mem_append.mp hm with hm | hm
    · exact hls m hm
    · rwa [List.mem_singleton.mp hm]
  cases h with
  | setBy hlayers hset hafter =>
    exact .setBy (by rw [hlayers, List.append_assoc, List.cons_append]) hset (hconcat hafter)
  | leftOpen hopen => exact .leftOpen (hconcat hopen)

/-- The empty layer does not set the field, and of two layers the stronger one does if it can. -/
structure IsField {α : Type} (set? : Layer → Option α) : Prop where
  empty : set? {} = none
  merge : ∀ weak strong, set? (weak.merge strong) = (set? strong <|> set? weak)

theorem isField_types? : IsField Layer.types? where
  empty := rfl
  merge weak strong := by
    rcases h : strong.valueTypes with _ | ⟨type, types⟩ <;>
      simp [Layer.types?, Layer.merge, Layer.mergeTypes, h]

/-- **The last layer that sets a field** decides it. -/
theorem IsField.resolves {α : Type} {set? : Layer → Option α} (h : IsField set?) (default : α)
    (layers : List Layer) :
    Resolves set? default layers ((set? (Layer.mergeAll layers)).getD default) := by
  induction layers using List.reverseRecOn with
  | nil =>
    have hempty : set? (Layer.mergeAll []) = none := h.empty
    rw [hempty]
    exact .leftOpen (by simp)
  | append_singleton layers l ih =>
    rw [Layer.mergeAll_concat, h.merge]
    rcases hl : set? l with _ | v
    · exact ih.concat_open hl
    · exact .setBy rfl hl (by simp)

/-- Every setting is that of the last layer that sets it, or else the default. The default of the
include path is made from the path of the native header. -/
structure Settings.DecidedBy (s : Settings) (layers : List Layer) : Prop where
  pattern : Resolves (·.pattern) "*.hpp" layers s.pattern
  scope : Resolves (·.scope) "CasADi" layers s.scope
  valueTypes : Resolves Layer.types? ["SXMatrix", "MX"] layers s.valueTypes
  nativeOutput : Resolves (·.nativeOutput) ⟨"casadi/autogenerated.hpp"⟩ layers s.nativeOutput
  bindingOutput : Resolves (·.bindingOutput) ⟨"swig/autogenerated.i"⟩ layers s.bindingOutput
  nativeInclude :
    Resolves (·.nativeInclude) (Layer.includePath s.nativeOutput) layers s.nativeInclude
  license : Resolves (·.license) ⟨"misc/license_header.txt"⟩ layers s.license
  reservedMarker : Resolves (·.reservedMarker) "_NUM_" layers s.reservedMarker
  generator : Resolves (·.generator) "schemegen" layers s.generator
  /-- What drafts are checked against is the resolved marker. -/
  checker : s.checker = { reservedMarker := s.reservedMarker }
  /-- Helpers are instantiated for the resolved types, in the resolved namespace. -/
  binding : s.binding = { scope := s.scope, valueTypes := s.valueTypes }
  /-- The include guard follows the name of the resolved native header. -/
  artifactOptions : ∀ license, s.artifactOptions license =
    { license, generator := s.generator, scope := s.scope, nativeInclude := s.nativeInclude
      includeGuard := Emit.includeGuard (s.nativeOutput.fileName?.getD "autogenerated.hpp") }

theorem decidedBy_mergeAll (layers : List Layer) :
    (Layer.mergeAll layers).settings.DecidedBy layers where
  pattern := IsField.resolves ⟨rfl, fun _ _ => rfl⟩ _ _
  scope := IsField.resolves ⟨rfl, fun _ _ => rfl⟩ _ _
  valueTypes := by
    have htypes (l : Layer) : l.settings.valueTypes = l.types?.getD ["SXMatrix", "MX"] := by
      rcases h : l.valueTypes with _ | ⟨type, types⟩ <;>
        simp [Layer.settings, Layer.types?, Layer.mergeTypes, h]
    rw [htypes]
    exact isField_types?.resolves _ _
  nativeOutput := IsField.resolves ⟨rfl, fun _ _ => rfl⟩ _ _
  bindingOutput := IsField.resolves ⟨rfl, fun _ _ => rfl⟩ _ _
  nativeInclude := IsField.resolves ⟨rfl, fun _ _ => rfl⟩ _ _
  license := IsField.resolves ⟨rfl, fun _ _ => rfl⟩ _ _
  reservedMarker := IsField.resolves ⟨rfl, fun _ _ => rfl⟩ _ _
  generator := IsField.resolves ⟨rfl, fun _ _ => rfl⟩ _ _
  checker := rfl
  binding := rfl
  artifactOptions _ := rfl

/-! ### Files -/

/-- The layer is that of a configuration file, or the empty one when there is no such file. -/
def Contributes (s : Site) (p : Path) (l : Layer) : Prop :=
  if s.pathExists p then load s p = .ok l else l = {}

instance (s : Site) (p : Path) (l : Layer) : Decidable (Contributes s p l) :=
  inferInstanceAs (Decidable (if s.pathExists p = true then load s p = .ok l else l = {}))

theorem result_loadIfPresent_eq_ok_iff {s : Site} {p : Path} {l : Layer} :
    (loadIfPresent s p).result = .ok l ↔ Contributes s p l := by
  rw [loadIfPresent, Contributes]
  split
  · rcases load s p with fault | layer <;>
      simp [Told.note, Told.tell, Told.lift, Except.mapError]
  · simp [eq_comm]

/-- The layer of the file that there can be, or the empty one when there can be none. -/
def ContributesIfAny (s : Site) (own : Option Path) (l : Layer) : Prop :=
  match own with
  | some p => Contributes s p l
  | none => l = {}

instance (s : Site) (own : Option Path) (l : Layer) : Decidable (ContributesIfAny s own l) :=
  match own with
  | some p => inferInstanceAs (Decidable (Contributes s p l))
  | none => inferInstanceAs (Decidable (l = {}))

theorem result_loadMerged_eq_ok_iff {s : Site} {own : Option Path} {project : Path} {l : Layer} :
    (loadMerged s own project).result = .ok l ↔ ∃ weak, ContributesIfAny s own weak ∧
      ∃ strong, Contributes s project strong ∧ weak.merge strong = l := by
  rw [loadMerged.eq_def]
  cases own <;>
    simp [ContributesIfAny, Told.result_bind_eq_ok_iff, result_loadIfPresent_eq_ok_iff]

end Config

namespace Command

open Config (Contributes ContributesIfAny Layer)
open Files (Path Site Tree)
open Report (Told)
open Run (Failure Options)

/-! ### Commands -/

/-- The layers of the files of a scan: that of the user's own file, and on top of it that of the
file that is named, which must be there, or else that of the file of the project. -/
@[mk_iff]
structure FileLayers (s : Site) (a : ScanArguments) (own file : Layer) : Prop where
  own : ContributesIfAny s (Config.ownFile s) own
  file : match a.config with
    | some p => Config.load s p = .ok file
    | none => Contributes s (Config.projectFile (a.root.getD s.cwdPath)) file

/-- Where there is no file of a project, the user's own file is all there is. -/
theorem contributes_nowhere_iff {s : Site} {l : Layer} : Contributes s ⟨""⟩ l ↔ l = {} := by
  have hnowhere : s.pathExists ⟨""⟩ = false := by
    simp [Site.pathExists, Site.lookup, Site.follow, Path.refusal?, Path.senseless?, Except.isOk,
      Except.toBool]
  simp [Contributes, hnowhere]

/-- **The settings of a scan** are those of its files, overlaid by the pattern that was given. -/
theorem scanSettings_eq_ok_iff {s : Site} {a : ScanArguments} {root : Path} {layer : Layer} :
    (scanSettings s a).result = .ok (root, layer) ↔
      a.root.getD s.cwdPath = root ∧ s.isDirectory root = true ∧ ∃ own file,
        FileLayers s a own file ∧ Layer.mergeAll [own, file, { pattern := a.pattern }] = layer := by
  have hmerge : ∀ own file : Layer, Layer.mergeAll [own, file, { pattern := a.pattern }] =
      (own.merge file).merge { pattern := a.pattern } := by
    simp [Layer.mergeAll]
  rw [scanSettings]
  split
  · next hdir =>
    refine Iff.trans (b := ∃ own file, FileLayers s a own file ∧ a.root.getD s.cwdPath = root ∧
      (own.merge file).merge { pattern := a.pattern } = layer) ?_ ?_
    · rcases hconfig : a.config with _ | p <;>
        simp [Told.result_bind_eq_ok_iff, Told.result_mapFault_eq_ok_iff,
          Told.result_lift_eq_ok_iff, Config.result_loadMerged_eq_ok_iff, contributes_nowhere_iff,
          fileLayers_iff, hconfig, and_assoc]
    · simp only [hmerge]
      constructor
      · rintro ⟨own, file, hfiles, rfl, rfl⟩
        exact ⟨rfl, hdir, own, file, hfiles, rfl⟩
      · rintro ⟨rfl, -, own, file, hfiles, rfl⟩
        exact ⟨own, file, hfiles, rfl, rfl⟩
  · next hdir =>
    constructor
    · intro h
      cases h
    · rintro ⟨rfl, hroot, -⟩
      exact absurd hroot hdir

namespace Request

/-- What a command that scans headers is given for the scan. -/
def scan? : Request → Option ScanArguments
  | .generate scan .. | .list scan _ => some scan
  | .completions _ => none

/-- The layer of the flags of a command. -/
def flags : Request → Layer
  | .generate scan _ license scope _ => { pattern := scan.pattern, license, scope }
  | .list scan _ => { pattern := scan.pattern }
  | .completions _ => {}

/-- What a command does once its root and its layers are known. -/
def carryOut (s : Site) (texts : LibraryTexts) (root : Path) (config : Layer) :
    Request → Told Failure Unit × Tree
  | .generate _ outDir _ _ mode =>
    let (outcome, tree) := Run.generate s { root, outDir := outDir.getD root, config, mode }
    (do reportGeneration { s with tree } mode (← outcome), tree)
  | .list _ json =>
    (do
      let headers ← Run.findHeaders s root config.settings.pattern (outputsIn config root)
      tellListing s json (← Run.scan s config.settings.checker headers), s.tree)
  | .completions shell => (Told.tell (.printed (texts.script shell)), s.tree)

end Request

/-- The flags of a command are on top of what the scan makes of the files. -/
theorem mergeAll_flags (own file : Layer) (pattern : Option String) (license : Option Path)
    (scope : Option String) :
    (Layer.mergeAll [own, file, { pattern }]).merge { license, scope } =
      Layer.mergeAll [own, file, { pattern, license, scope }] := by
  have hflags : Layer.merge { pattern } { license, scope } = { pattern, license, scope } := by
    simp [Layer.merge, Layer.mergeTypes]
  simp only [Layer.mergeAll, List.foldl_cons, List.foldl_nil, Layer.empty_merge,
    Layer.merge_assoc, hflags]

/-- A command of which the settings are known tells what was told for them, and is carried out. -/
theorem executeRequest_of_scanSettings {s : Site} {texts : LibraryTexts} {request : Request}
    {scan : ScanArguments} (hscan : request.scan? = some scan) {own file : Layer}
    (hfiles : FileLayers s scan own file)
    (hdir : s.isDirectory (scan.root.getD s.cwdPath) = true) :
    executeRequest s texts request =
      (do
        Told.tellAll (scanSettings s scan).events
        (request.carryOut s texts (scan.root.getD s.cwdPath)
          (Layer.mergeAll [own, file, request.flags])).1,
      (request.carryOut s texts (scan.root.getD s.cwdPath)
        (Layer.mergeAll [own, file, request.flags])).2) := by
  have hprepared : (scanSettings s scan).result = .ok (scan.root.getD s.cwdPath,
      Layer.mergeAll [own, file, { pattern := scan.pattern }]) :=
    scanSettings_eq_ok_iff.mpr ⟨rfl, hdir, own, file, hfiles, rfl⟩
  cases request with
  | completions shell => cases hscan
  | generate scan' outDir license scope mode =>
    obtain rfl := Option.some.inj hscan
    simp only [executeRequest, executeGenerate, hprepared, mergeAll_flags]
    rfl
  | list scan' json =>
    obtain rfl := Option.some.inj hscan
    rcases hsettings : scanSettings s scan' with ⟨events, result⟩
    rw [hsettings] at hprepared
    obtain rfl : result = _ := hprepared
    simp only [executeRequest, executeList, hsettings]
    rfl

/-- A command of which the settings cannot be had fails, and touches nothing. -/
theorem executeRequest_of_scanSettings_ne_ok {s : Site} {texts : LibraryTexts}
    {request : Request} {scan : ScanArguments} (hscan : request.scan? = some scan)
    {failure : Failure} (h : (scanSettings s scan).result = .error failure) :
    (executeRequest s texts request).1.result = .error failure ∧
      (executeRequest s texts request).2 = s.tree := by
  cases request with
  | completions shell => cases hscan
  | generate scan' outDir license scope mode =>
    obtain rfl := Option.some.inj hscan
    simp only [executeRequest, executeGenerate, h, and_self]
  | list scan' json =>
    obtain rfl := Option.some.inj hscan
    exact ⟨Told.result_bind_eq_error_iff.mpr (.inl h), rfl⟩

/-- **The last layer that sets a setting decides it**, and else the default does; merging does not
depend on how the layers are put together, and the empty layer sets nothing. The layers of a command
are, from the weakest to the strongest, the user's own file, the file that is named or else that of
the project, and the flags; a command of which the files cannot be loaded fails. -/
theorem settings_decided_by_last_layer :
    (∀ layers : List Layer, (Layer.mergeAll layers).settings.DecidedBy layers) ∧
    (∀ a b c : Layer, (a.merge b).merge c = a.merge (b.merge c)) ∧
    (∀ l : Layer, Layer.merge {} l = l ∧ l.merge {} = l) ∧
    ∀ (s : Site) (texts : LibraryTexts) (request : Request) (scan : ScanArguments),
      request.scan? = some scan →
      let root := scan.root.getD s.cwdPath
      (∀ own file, FileLayers s scan own file → s.isDirectory root = true →
        let config := Layer.mergeAll [own, file, request.flags]
        executeRequest s texts request =
          (do
            Told.tellAll (scanSettings s scan).events
            (request.carryOut s texts root config).1,
          (request.carryOut s texts root config).2)) ∧
      ((s.isDirectory root = false ∨ ∀ own file, ¬ FileLayers s scan own file) →
        ∃ failure, (executeRequest s texts request).1.result = .error failure ∧
          (executeRequest s texts request).2 = s.tree) := by
  refine ⟨Config.decidedBy_mergeAll, Layer.merge_assoc, fun l => ⟨l.empty_merge, l.merge_empty⟩, ?_⟩
  intro s texts request scan hscan root
  refine ⟨fun own file hfiles hdir => executeRequest_of_scanSettings hscan hfiles hdir, ?_⟩
  intro hnone
  rcases hprepared : (scanSettings s scan).result with failure | ⟨root', layer⟩
  · exact ⟨failure, executeRequest_of_scanSettings_ne_ok hscan hprepared⟩
  · -- settings that are known come from a directory and its files
    obtain ⟨rfl, hdir, own, file, hfiles, -⟩ := scanSettings_eq_ok_iff.mp hprepared
    rcases hnone with hnodir | hnofiles
    · simp [root, hdir] at hnodir
    · exact absurd hfiles (hnofiles own file)

/-- A run with all three layers: the namespace is that of the flag, the value types are those of the
project, and the pattern and the generator are those of the user's own file. -/
theorem settings_decided_by_last_layer_namespace :
    let s : Site :=
      { tree := ⟨[(["home"], .directory), (["home", ".schemegen"], .directory),
          (["home", ".schemegen", "config.toml"], .file (Text.encode ("[discover]\n" ++
            "pattern = \"*.hh\"\n[emit]\nnamespace = \"own\"\ngenerator = \"tool\"\n"))),
          (["schemegen.toml"], .file (Text.encode
            "[emit]\nnamespace = \"project\"\nvalue_types = [\"DM\"]\n"))]⟩
        cwd := [], home := some ⟨"/home"⟩ }
    let own : Layer := { pattern := some "*.hh", scope := some "own", generator := some "tool" }
    let file : Layer := { scope := some "project", valueTypes := ["DM"] }
    let scan : ScanArguments := { root := some ⟨"/"⟩ }
    let request : Request := .generate scan none none (some "flag") .check
    let config := Layer.mergeAll [own, file, request.flags]
    FileLayers s scan own file ∧ s.isDirectory ⟨"/"⟩ = true ∧
      (executeRequest s .brief request).2 = (request.carryOut s .brief ⟨"/"⟩ config).2 ∧
      config.settings = { Layer.settings {} with
        pattern := "*.hh", scope := "flag", valueTypes := ["DM"], generator := "tool" } := by
  intro s own file scan request config
  have hown : ContributesIfAny s (Config.ownFile s) own := by decide +kernel
  have hfile : Contributes s (Config.projectFile ⟨"/"⟩) file := by decide +kernel
  have hdir : s.isDirectory ⟨"/"⟩ = true := by decide +kernel
  obtain ⟨-, -, -, hcommand⟩ := settings_decided_by_last_layer
  have hrequest := (hcommand s .brief request scan rfl).1 own file ⟨hown, hfile⟩ hdir
  have htree : (executeRequest s .brief request).2 = (request.carryOut s .brief ⟨"/"⟩ config).2 := by
    rw [hrequest]
    rfl
  exact ⟨⟨hown, hfile⟩, hdir, htree, by decide +kernel⟩

end Command

end ArgumentSchemes

import ArgumentSchemes.Proofs.FatalRuns
import ArgumentSchemes.Proofs.Rendering

/-!
# The headers of a listing and of a run

`list` and `generate` look for headers in the same way: they start from the files below the root
with a matching name, and leave out those that are outputs (`Site.exists_discover_all`). What they
report of the headers that remain depends on these headers alone (`scan_eq_ok`). But a listing is
asked nothing about outputs, and leaves out those of a run in the root, while a run leaves out its
own, wherever they are.

Main statement: a listing and a dry run that succeed report what is in the headers that each of them
leaves, and the same headers are left when no candidate is an output of only one of them
(`listing_and_dry_run_report`).
-/

namespace ArgumentSchemes

open Files (Discovery Path Site)
open Report (Event Told)

/-! ### What is told behind the notes -/

namespace Report.Told

variable {ε δ α β : Type}

/-- The computation succeeds. The last that it tells are `events`, and before them it tells nothing
but notes. -/
structure SucceedsAfter (x : Told ε α) (events : List Event) (a : α) : Prop where
  result : x.result = .ok a
  told : ∃ notes, (∀ e ∈ notes, e.isNote = true) ∧ x.events = notes ++ events

/-- What is told last comes behind the notes of the steps before. -/
theorem SucceedsAfter.of_bind {x : Told ε α} {f : α → Told ε β} {a : α} {b : β}
    {events : List Event} (hx : x.OnlyNotes) (ha : x.result = .ok a)
    (h : (f a).SucceedsAfter events b) : (x >>= f).SucceedsAfter events b := by
  obtain ⟨hresult, notes, hnotes, htold⟩ := h
  rcases x with ⟨told, fault | a'⟩
  · cases ha
  · obtain rfl := Except.ok.inj ha
    refine ⟨hresult, told ++ notes, fun e he => ?_, ?_⟩
    · exact (List.mem_append.mp he).elim (hx e) (hnotes e)
    · simp [htold]

theorem succeedsAfter_self {x : Told ε α} {a : α} (h : x.result = .ok a) :
    x.SucceedsAfter x.events a :=
  ⟨h, [], by simp, rfl⟩

theorem onlyNotes_tellAll {events : List Event} (h : ∀ e ∈ events, e.isNote = true) :
    (tellAll events : Told ε Unit).OnlyNotes := h

end Report.Told

/-! ### Candidates -/

namespace Files.Site

variable {s : Site} {root : Path} {pattern : String}

/-- Whether a path leads to one of the outputs. -/
def isAmong (s : Site) (outputs : List Path) (p : Path) : Bool :=
  (outputs.map s.normalize).any fun e => e.sameSteps (s.normalize p)

/-- **The headers** are those that are found when nothing is excluded, without the excluded ones. -/
theorem exists_discover_all {exclude : List Path} {found : Discovery}
    (h : s.discover root pattern exclude = .ok found) :
    ∃ all, s.discover root pattern [] = .ok all ∧
      found.headers = all.headers.filter fun p => !s.isAmong exclude p := by
  obtain ⟨compiled, files, hcompiled, hfiles, hheaders⟩ := discover_eq_ok h
  obtain ⟨all, hall⟩ : ∃ all, s.discover root pattern [] = .ok all :=
    exists_discover hcompiled hfiles
  obtain ⟨compiled', files', hcompiled', hfiles', hheaders'⟩ := discover_eq_ok hall
  obtain rfl := Except.ok.inj (hcompiled.symm.trans hcompiled')
  obtain rfl := Except.ok.inj (hfiles.symm.trans hfiles')
  have hcandidates : all.headers =
      (files.filter fun p => compiled.accepts (matchedName p)).mergeSort pathLe := by
    rw [hheaders']
    exact List.filter_eq_self.mpr fun _ _ => rfl
  exact ⟨all, hall, hcandidates ▸ hheaders⟩

end Files.Site

/-- Two choices leave the same elements exactly when they agree on each. -/
theorem filter_eq_filter_iff {α : Type} {p q : α → Bool} {l : List α} :
    l.filter p = l.filter q ↔ ∀ x ∈ l, p x = q x := by
  constructor
  · intro h x hx
    have hmem : x ∈ l.filter p ↔ x ∈ l.filter q := by rw [h]
    rw [Bool.eq_iff_iff]
    simpa [List.mem_filter, hx] using hmem
  · exact List.filter_congr

namespace Run

open Config (Layer)
open Header (Checker Item)

/-! ### What headers come to -/

/-- The items of the header at a path. What cannot be read has none. -/
def itemsAt (s : Site) (checker : Checker) (p : Path) : List Item :=
  match s.readLossy p with
  | .ok text => checker.parse text
  | .error _ => []

theorem mem_itemsAt_iff {s : Site} {checker : Checker} {p : Path} {item : Item} :
    item ∈ itemsAt s checker p ↔
      ∃ text, s.readLossy p = .ok text ∧ item ∈ checker.parse text := by
  cases h : s.readLossy p with
  | ok text => simp [itemsAt, h]
  | error fault => simp [itemsAt, h]

/-- What the headers at the given paths come to: the schemes with entries and the rejections of each
of them, in order. -/
def Collection.ofHeaders (s : Site) (checker : Checker) (paths : List Path) : Collection where
  schemes := paths.flatMap fun p => (itemsAt s checker p).filterMap (kept? p)
  rejections := paths.flatMap fun p => (itemsAt s checker p).filterMap (rejection? p)
  filesScanned := paths.length

/-- A header that does not end a scan adds all of its items. -/
theorem Collection.result_told_add {c c' : Collection} {checker : Checker} {path : Path}
    {text : String} (h : (c.add checker path text).told.result = .ok c') :
    c' = { c with filesScanned := c.filesScanned + 1 }.withItems path (checker.parse text) := by
  obtain ⟨items, hitems, hparse | ⟨name, line, hparse⟩⟩ := checker.exists_items_of_parse text
  · obtain ⟨hfatal, hcollection⟩ := c.add_of_parse_eq path hitems hparse
    rw [Addition.told, hfatal] at h
    rw [← Except.ok.inj h, hcollection, hparse]
  · rw [Addition.told, (c.add_of_parse_eq_concat path hitems hparse).1] at h
    cases h

/-- What headers that are read one after the other add. -/
theorem scanInto_eq_ok {s : Site} {checker : Checker} {c c' : Collection} {paths : List Path}
    (h : (scanInto s checker c paths).result = .ok c') :
    c' = { schemes := c.schemes ++ (Collection.ofHeaders s checker paths).schemes
           rejections := c.rejections ++ (Collection.ofHeaders s checker paths).rejections
           filesScanned := c.filesScanned + paths.length } := by
  induction paths generalizing c with
  | nil =>
    rw [← Except.ok.inj h]
    simp [Collection.ofHeaders]
  | cons path paths ih =>
    rw [scanInto] at h
    obtain ⟨_, -, h⟩ := Told.result_bind_eq_ok_iff.mp h
    obtain ⟨text, htext, h⟩ := Told.result_bind_eq_ok_iff.mp h
    obtain ⟨added, hadded, h⟩ := Told.result_bind_eq_ok_iff.mp h
    have hitems : itemsAt s checker path = checker.parse text := by
      rw [itemsAt, Told.result_lift_eq_ok_iff.mp htext]
    rw [ih h, Collection.result_told_add hadded]
    simp only [Collection.ofHeaders, Collection.withItems, List.flatMap_cons, hitems,
      List.append_assoc, List.length_cons, Collection.mk.injEq, true_and]
    omega

/-- **A scan that succeeds** gives what its headers come to. -/
theorem scan_eq_ok {s : Site} {checker : Checker} {c : Collection} {paths : List Path}
    (h : (scan s checker paths).result = .ok c) : c = Collection.ofHeaders s checker paths := by
  rw [scanInto_eq_ok h]
  simp [Collection.ofHeaders]

theorem exists_of_result_findHeaders {s : Site} {root : Path} {pattern : String}
    {exclude headers : List Path} (h : (findHeaders s root pattern exclude).result = .ok headers) :
    ∃ found, s.discover root pattern exclude = .ok found ∧ headers = found.headers := by
  rw [findHeaders] at h
  obtain ⟨found, hfound, h⟩ := Told.result_bind_eq_ok_iff.mp h
  exact ⟨found, Told.result_lift_eq_ok_iff.mp hfound, (Except.ok.inj h).symm⟩

/-- The generation reports the headers of the collection, its schemes and its rejections. -/
structure Generation.Reports (g : Generation) (c : Collection) : Prop where
  filesScanned : g.filesScanned = c.filesScanned
  generated : g.generated = c.accepted.map (·.name)
  rejections : g.rejections = c.rejections

/-! ### A run tells notes only -/

theorem onlyNotes_render (s : Site) (o : Options) : (render s o).OnlyNotes := by
  refine (onlyNotes_findHeaders s _ _ _).bind fun headers => ?_
  refine (Told.onlyNotes_note _ _).bind fun _ => (onlyNotes_scanInto s _ _ _).bind fun c => ?_
  refine (Told.onlyNotes_lift _ _).bind fun license => (Told.onlyNotes_lift _ _).bind fun a => ?_
  refine (Told.onlyNotes_note _ _).bind fun _ => (Told.onlyNotes_tellAll ?_).bind fun _ =>
    Told.onlyNotes_pure _
  intro e he
  obtain ⟨scheme, -, rfl⟩ := List.mem_map.mp he
  rfl

theorem onlyNotes_predictOutputs (outputs : List (Path × String × Bool)) :
    (predictOutputs outputs).OnlyNotes := by
  intro e he
  obtain ⟨output, -, rfl⟩ := List.mem_map.mp he
  rfl

/-- A dry run tells nothing but notes until its outcome is told. -/
theorem onlyNotes_generate {s : Site} {o : Options} (h : o.mode = .dryRun) :
    (generate s o).1.OnlyNotes := by
  have hrendered : Told.OnlyNotes (do
      let rendered ← render s o
      let outputs ← Told.lift id (compareOutputs s (o.outputs rendered.1))
      return (rendered.2, outputs)) :=
    (onlyNotes_render s o).bind fun _ => (Told.onlyNotes_lift _ _).bind fun _ =>
      Told.onlyNotes_pure _
  rw [generate]
  split
  · exact hrendered
  · simp only [h]
    exact (Told.onlyNotes_tellAll hrendered).bind fun _ =>
      (onlyNotes_predictOutputs _).bind fun _ => Told.onlyNotes_pure _

end Run

namespace Command

open Config (Layer)
open Run (Collection Failure Generation Options)

/-! ### The two commands -/

/-- Tells a collection as a listing does. -/
def tellListing (s : Site) (json : Bool) (c : Collection) : Told Failure Unit :=
  if json then Told.tell (.printed (listingJson s c).pretty) else reportCollection s c

theorem result_tellListing (s : Site) (json : Bool) (c : Collection) :
    (tellListing s json c).result = .ok () := by
  cases json <;> rfl

/-- The outputs of a run with the given settings, seen from a directory. -/
def outputsIn (layer : Layer) (dir : Path) : List Path :=
  Options.outputPaths { root := dir, outDir := dir, config := layer }

/-- A listing that succeeds has found and read headers, and tells what they come to. -/
theorem succeedsAfter_executeList {s : Site} {a : ScanArguments} {json : Bool} {root : Path}
    {layer : Layer} (hprepared : (scanSettings s a).result = .ok (root, layer))
    (h : (executeList s a json).result = .ok ()) :
    ∃ found, s.discover root layer.settings.pattern (outputsIn layer root) = .ok found ∧
      (executeList s a json).SucceedsAfter
        (tellListing s json
          (Collection.ofHeaders s layer.settings.checker found.headers)).events () := by
  rw [executeList] at h ⊢
  obtain ⟨prepared, hprepared', h⟩ := Told.result_bind_eq_ok_iff.mp h
  obtain rfl := Except.ok.inj (hprepared.symm.trans hprepared')
  obtain ⟨headers, hheaders, h⟩ := Told.result_bind_eq_ok_iff.mp h
  obtain ⟨c, hc, -⟩ := Told.result_bind_eq_ok_iff.mp h
  obtain ⟨found, hfound, rfl⟩ := Run.exists_of_result_findHeaders hheaders
  refine ⟨found, hfound, .of_bind (onlyNotes_scanSettings s a) hprepared ?_⟩
  refine .of_bind (Run.onlyNotes_findHeaders s _ _ _) hheaders ?_
  refine .of_bind (Run.onlyNotes_scanInto s _ _ _) hc ?_
  rw [← Run.scan_eq_ok hc]
  exact Told.succeedsAfter_self (result_tellListing s json c)

/-- A dry run that succeeds has found and read headers, and tells what they come to. -/
theorem succeedsAfter_executeGenerate {s : Site} {a : ScanArguments} {outDir license : Option Path}
    {scope : Option String} {root : Path} {layer : Layer}
    (hprepared : (scanSettings s a).result = .ok (root, layer))
    (h : (executeGenerate s a outDir { license, scope } .dryRun).1.result = .ok ()) :
    ∃ found g, s.discover root layer.settings.pattern
        (outputsIn layer (outDir.getD root)) = .ok found ∧
      g.Reports (Collection.ofHeaders s layer.settings.checker found.headers) ∧
      (executeGenerate s a outDir { license, scope } .dryRun).1.SucceedsAfter
        (reportGeneration s .dryRun g).events () := by
  obtain ⟨o, g, ho, hg, -⟩ := executeGenerate_eq_ok_iff.mp h
  rw [generateOptions, hprepared] at ho
  obtain rfl := (Except.ok.inj ho).symm
  obtain ⟨artifacts, g₀, outputs, hrender, -, -, hg₀⟩ := Run.generate_eq_ok_iff.mp hg
  obtain ⟨found, c, _, hfound, hc, -, -, rfl⟩ := Run.render_eq_ok_iff.mp hrender
  have hc' : c = Collection.ofHeaders s layer.settings.checker found.headers := Run.scan_eq_ok hc
  have hreports : g.Reports c := by
    rw [hg₀]
    exact ⟨rfl, rfl, rfl⟩
  refine ⟨found, g, hfound, hc' ▸ hreports, ?_⟩
  let o : Options :=
    { root, outDir := outDir.getD root, config := layer.merge { license, scope }, mode := .dryRun }
  have hexecute : (executeGenerate s a outDir { license, scope } .dryRun).1 = (do
      Told.tellAll (scanSettings s a).events
      reportGeneration { s with tree := (Run.generate s o).2 } .dryRun
        (← (Run.generate s o).1)) := by
    rw [executeGenerate, hprepared]
  rw [hexecute, Run.tree_of_ne_write (by simp)]
  refine .of_bind (Told.onlyNotes_tellAll (onlyNotes_scanSettings s a)) rfl ?_
  refine .of_bind (Run.onlyNotes_generate rfl) hg ?_
  exact Told.succeedsAfter_self (reportGeneration_eq_ok_iff.mpr (by simp))

/-- **What a listing and a dry run report.** Both start from the candidates, the headers that are
found when nothing is excluded. The listing tells what those come to that are no outputs of a run in
the root, and the run reports what those come to that are not its own outputs. So they report the
same when no candidate is an output of only one of them, and then alone they see the same headers;
in particular when the output directory is the root. -/
theorem listing_and_dry_run_report {s : Site} {a : ScanArguments} {json : Bool}
    {outDir license : Option Path} {scope : Option String}
    (hlist : (executeList s a json).result = .ok ())
    (hgenerate : (executeGenerate s a outDir { license, scope } .dryRun).1.result = .ok ()) :
    ∃ (root : Path) (layer : Layer) (candidates : Discovery) (g : Generation),
      (scanSettings s a).result = .ok (root, layer) ∧
      s.discover root layer.settings.pattern [] = .ok candidates ∧
      let excluded (dir p : Path) : Bool := s.isAmong (outputsIn layer dir) p
      let headers (dir : Path) : List Path := candidates.headers.filter (!excluded dir ·)
      let collected (dir : Path) : Collection :=
        Collection.ofHeaders s layer.settings.checker (headers dir)
      let dir := outDir.getD root
      (executeList s a json).SucceedsAfter (tellListing s json (collected root)).events () ∧
      (executeGenerate s a outDir { license, scope } .dryRun).1.SucceedsAfter
        (reportGeneration s .dryRun g).events () ∧
      g.Reports (collected dir) ∧
      (headers root = headers dir ↔ ∀ p ∈ candidates.headers, excluded root p = excluded dir p) ∧
      (headers root = headers dir → g.Reports (collected root)) ∧
      (dir = root → g.Reports (collected root)) := by
  obtain ⟨⟨root, layer⟩, hprepared, -⟩ :=
    Told.result_bind_eq_ok_iff.mp (show (scanSettings s a >>= _).result = _ from hlist)
  obtain ⟨found, hfound, hlisting⟩ := succeedsAfter_executeList hprepared hlist
  obtain ⟨found', g, hfound', hreports, hrun⟩ := succeedsAfter_executeGenerate hprepared hgenerate
  obtain ⟨candidates, hcandidates, hheaders⟩ := Site.exists_discover_all hfound
  obtain ⟨candidates', hcandidates', hheaders'⟩ := Site.exists_discover_all hfound'
  obtain rfl := Except.ok.inj (hcandidates.symm.trans hcandidates')
  rw [hheaders] at hlisting
  rw [hheaders'] at hreports
  refine ⟨root, layer, candidates, g, hprepared, hcandidates, ?_⟩
  intro excluded headers collected dir
  refine ⟨hlisting, hrun, hreports, ?_, fun hsame => ?_, ?_⟩
  · rw [filter_eq_filter_iff]
    simp
  · simp only [collected]
    rw [hsame]
    exact hreports
  · intro hroot
    rw [← hroot]
    exact hreports

/-- A site with one header, and outputs that are to go below another directory. -/
theorem listing_and_dry_run_report_elsewhere :
    let f := "/// Input arguments of f [fIn]\nenum fIn \x7b\n/// the x [x]\nF_X,\n\x7d;\n"
    let s : Site :=
      { tree := ⟨[(["f.hpp"], .file (Text.encode f)), (["misc"], .directory),
          (["misc", "license_header.txt"], .file (Text.encode "// L\n"))]⟩
        cwd := [] }
    let c := Collection.ofHeaders s {} [⟨"/f.hpp"⟩]
    (executeList s {} false).SucceedsAfter (tellListing s false c).events () ∧
      ∃ g, g.Reports c ∧ (executeGenerate s {} (some ⟨"out"⟩) {} .dryRun).1.SucceedsAfter
        (reportGeneration s .dryRun g).events () := by
  intro f s c
  have hlist : (executeList s {} false).result = .ok () := by decide +kernel
  have hgenerate : (executeGenerate s {} (some ⟨"out"⟩) {} .dryRun).1.result = .ok () := by
    decide +kernel
  obtain ⟨root, layer, candidates, g, hprepared, hcandidates, hlisting, hrun, -, hsame, hreports,
    -⟩ := listing_and_dry_run_report hlist hgenerate
  have hsettings : (scanSettings s {}).result = .ok (⟨"/"⟩, {}) := by decide +kernel
  obtain ⟨rfl, rfl⟩ := Prod.mk.inj (Except.ok.inj (hsettings.symm.trans hprepared))
  have hfound : s.discover ⟨"/"⟩ "*.hpp" [] = .ok { headers := [⟨"/f.hpp"⟩] } := by decide +kernel
  obtain rfl := Except.ok.inj (hfound.symm.trans hcandidates)
  have hkept : ([⟨"/f.hpp"⟩] : List Path).filter
      (fun p => !s.isAmong (outputsIn {} ⟨"/"⟩) p) = [⟨"/f.hpp"⟩] := by
    decide +kernel
  have hagree : ∀ p ∈ ([⟨"/f.hpp"⟩] : List Path),
      s.isAmong (outputsIn {} ⟨"/"⟩) p = s.isAmong (outputsIn {} ⟨"out"⟩) p := by
    decide +kernel
  have hreports' := hreports (hsame.mpr hagree)
  simp only [hkept] at hlisting hreports'
  exact ⟨hlisting, g, hreports', hrun⟩

/-- **A listing can overlook a header of a run**: one that stands where a run in the root would
write its native header. -/
theorem listing_overlooks_header :
    let f := "/// Input arguments of f [fIn]\nenum fIn \x7b\n/// the x [x]\nF_X,\n\x7d;\n"
    let s : Site :=
      { tree := ⟨[(["casadi"], .directory),
          (["casadi", "autogenerated.hpp"], .file (Text.encode f)), (["misc"], .directory),
          (["misc", "license_header.txt"], .file (Text.encode "// L\n"))]⟩
        cwd := [] }
    let listing := run s ["list"]
    let dryRun := run s ["generate", "--dry-run", "--out-dir", "out"]
    listing.exitCode = 0 ∧ dryRun.exitCode = 0 ∧
      listing.output = "0 scheme(s), 0 rejected, in 0 header(s)\n" ∧
      dryRun.output = "[dry-run] Would write out/casadi/autogenerated.hpp\n" ++
        "[dry-run] Would write out/swig/autogenerated.i\n" ++
        "Generated 1 scheme(s) from 1 header(s)\n" := by
  decide +kernel

end Command

end ArgumentSchemes

import ArgumentSchemes.Proofs.Accounting
import ArgumentSchemes.Proofs.DiagnosticText
import ArgumentSchemes.Proofs.Modes

/-!
# Runs that end at an open scheme

A header that leaves a scheme open is where a scan ends, and the fault takes along what had been
rejected in this header and in those before it (`scanInto_append_cons`). Up to there a run tells
nothing but notes, and nothing is written; so what stands behind the notes is what the fault says
(`Told.FailsAfter`). This goes through the stages one by one: the scan, the rendering, the run, the
command, and at last the process, which shows the rejections and then the fault. What it writes to
the error stream are lines: one for a note, and for a fault those of its diagnostic
(`SchemeFault.linesAt`).

Main statement: `generate` in any mode and `list` end with 1 at the first such header, leave the
tree as it is, and show one diagnostic for each scheme rejected up to there and one for the scheme
that is open (`fatal_run_reports`).
-/

namespace ArgumentSchemes

/-! ### Notes -/

namespace Report

/-- Whether an event is a note in the log. -/
def Event.isNote : Event → Bool
  | .note .. => true
  | _ => false

theorem Event.outputText_of_isNote {e : Event} (h : e.isNote = true) : e.outputText = "" := by
  cases e with
  | note level text => rfl
  | shown d => cases h
  | failed message => cases h
  | printed line => cases h

/-- The line of a note in the log: its level, in five places, and its text. Notes for debugging have
none unless `verbose`. -/
def Event.logLine? (verbose coloured : Bool) : Event → Option String
  | .note level text =>
    if level = .debug ∧ ¬ verbose then none
    else
      some (paint (Text.padLeft 5 level.name) level.colour coloured ++ " " ++
        String.join (text.toList.map logged))
  | _ => none

/-- On the error stream a note is its line. -/
theorem Event.errorText_of_isNote {e : Event} (h : e.isNote = true) (verbose coloured : Bool) :
    e.errorText verbose coloured = Text.unlines (e.logLine? verbose coloured).toList := by
  cases e with
  | note level text =>
    rw [errorText, logLine?]
    split
    · rfl
    · simp [Text.unlines, toString]
  | shown d => cases h
  | failed message => cases h
  | printed line => cases h

/-- The notes of a run are the lines of its log. -/
theorem Event.join_errorText_of_isNote {notes : List Event} (h : ∀ e ∈ notes, e.isNote = true)
    (verbose coloured : Bool) :
    String.join (notes.map (errorText verbose coloured)) =
      Text.unlines (notes.filterMap (logLine? verbose coloured)) := by
  rw [List.filterMap_eq_flatMap_toList, Text.unlines_flatMap]
  exact congrArg String.join (List.map_congr_left fun e he =>
    errorText_of_isNote (h e he) verbose coloured)

namespace Told

variable {ε δ α β : Type}

/-- The computation tells nothing but notes, whether it succeeds or fails. -/
def OnlyNotes (x : Told ε α) : Prop := ∀ e ∈ x.events, e.isNote = true

theorem onlyNotes_pure (a : α) : (pure a : Told ε α).OnlyNotes := by
  simp [OnlyNotes]

theorem onlyNotes_fail (fault : ε) : (fail fault : Told ε α).OnlyNotes := by
  simp [OnlyNotes, fail]

theorem onlyNotes_lift (wrap : δ → ε) (x : Except δ α) : (lift wrap x).OnlyNotes := by
  simp [OnlyNotes, lift]

theorem onlyNotes_note (level : Level) (text : String) :
    (note level text : Told ε Unit).OnlyNotes := by
  simp [OnlyNotes, note, tell, Event.isNote]

theorem OnlyNotes.mapFault {x : Told δ α} (h : x.OnlyNotes) (wrap : δ → ε) :
    (mapFault wrap x).OnlyNotes := h

theorem OnlyNotes.bind {x : Told ε α} {f : α → Told ε β} (hx : x.OnlyNotes)
    (hf : ∀ a, (f a).OnlyNotes) : (x >>= f).OnlyNotes := by
  rcases x with ⟨events, fault | a⟩
  · exact hx
  · intro e he
    exact (List.mem_append.mp he).elim (hx e) (hf a e)

/-- The computation fails with `fault`. The last that it tells are `events`, and before them it
tells nothing but notes. -/
structure FailsAfter (x : Told ε α) (events : List Event) (fault : ε) : Prop where
  result : x.result = .error fault
  told : ∃ notes, (∀ e ∈ notes, e.isNote = true) ∧ x.events = notes ++ events

variable {events : List Event} {fault : ε}

/-- What follows a failure is not carried out. -/
theorem FailsAfter.bind {x : Told ε α} (h : x.FailsAfter events fault) (f : α → Told ε β) :
    (x >>= f).FailsAfter events fault := by
  obtain ⟨hresult, htold⟩ := h
  rcases x with ⟨told, fault' | a⟩
  · obtain rfl := Except.error.inj hresult
    exact ⟨rfl, htold⟩
  · cases hresult

/-- A failure comes behind the notes of a step that succeeds. -/
theorem FailsAfter.of_bind {x : Told ε α} {f : α → Told ε β} {a : α} (hx : x.OnlyNotes)
    (ha : x.result = .ok a) (h : (f a).FailsAfter events fault) :
    (x >>= f).FailsAfter events fault := by
  obtain ⟨hresult, notes, hnotes, htold⟩ := h
  rcases x with ⟨told, fault' | a'⟩
  · cases ha
  · obtain rfl := Except.ok.inj ha
    refine ⟨hresult, told ++ notes, fun e he => ?_, ?_⟩
    · exact (List.mem_append.mp he).elim (hx e) (hnotes e)
    · simp [htold]

end Told

end Report

/-! ### What is only noted -/

open Files (Path Site)
open Report (Event Told)

namespace Config

theorem onlyNotes_loadIfPresent (s : Site) (p : Path) : (loadIfPresent s p).OnlyNotes := by
  rw [loadIfPresent]
  split
  · exact (Told.onlyNotes_note _ _).bind fun _ => Told.onlyNotes_lift _ _
  · exact Told.onlyNotes_pure _

theorem onlyNotes_loadMerged (s : Site) (own : Option Path) (project : Path) :
    (loadMerged s own project).OnlyNotes := by
  have hstrong : ∀ weak : Layer, Told.OnlyNotes (do
      let strong ← loadIfPresent s project
      return weak.merge strong) :=
    fun weak => (onlyNotes_loadIfPresent s project).bind fun strong => Told.onlyNotes_pure _
  cases own with
  | none => exact (Told.onlyNotes_pure _).bind hstrong
  | some p => exact (onlyNotes_loadIfPresent s p).bind hstrong

end Config

theorem Command.onlyNotes_scanSettings (s : Site) (a : ScanArguments) :
    (scanSettings s a).OnlyNotes := by
  rw [scanSettings]
  have hmerged : ∀ project, (Told.mapFault Run.Failure.config
      (Config.loadMerged s (Config.ownFile s) project)).OnlyNotes :=
    fun project => (Config.onlyNotes_loadMerged s _ project).mapFault _
  split
  · split
    · exact (hmerged _).bind fun weak => (Told.onlyNotes_lift _ _).bind fun strong =>
        (Told.onlyNotes_pure _).bind fun layer => Told.onlyNotes_pure _
    · exact (hmerged _).bind fun layer => Told.onlyNotes_pure _
  · exact Told.onlyNotes_fail _

namespace Run

open Header (Checker Item)

theorem onlyNotes_findHeaders (s : Site) (root : Path) (pattern : String) (exclude : List Path) :
    (findHeaders s root pattern exclude).OnlyNotes := by
  refine (Told.onlyNotes_lift _ _).bind fun found => Told.OnlyNotes.bind ?_ fun _ =>
    Told.onlyNotes_pure _
  intro e he
  obtain ⟨p, -, rfl⟩ := List.mem_map.mp he
  rfl

/-- What is told of a header are notes on its items. -/
theorem Collection.isNote_of_mem_addItems (c : Collection) (path : Path) (items : List Item) :
    ∀ e ∈ (c.addItems path items).events, e.isNote = true := by
  have hitem : ∀ (c : Collection) (item : Item),
      ∀ e ∈ (c.addItem path item).events, e.isNote = true := by
    intro c item
    rcases item with fault | scheme
    · cases hfatal : fault.isFatal <;> simp [addItem, hfatal, Event.isNote]
    · cases hempty : scheme.entries.isEmpty <;> simp [addItem, hempty, Event.isNote]
  induction items generalizing c with
  | nil => simp [addItems]
  | cons item items ih =>
    intro e he
    rw [addItems] at he
    split at he
    · exact hitem c item e he
    · exact (List.mem_append.mp he).elim (hitem c item e) (ih _ e)

theorem onlyNotes_scanInto (s : Site) (checker : Checker) (c : Collection) (paths : List Path) :
    (scanInto s checker c paths).OnlyNotes := by
  induction paths generalizing c with
  | nil => exact Told.onlyNotes_pure c
  | cons path paths ih =>
    refine (Told.onlyNotes_note _ _).bind fun _ => (Told.onlyNotes_lift _ _).bind fun text => ?_
    refine Told.OnlyNotes.bind ?_ ih
    rw [Addition.told]
    split
    · exact Collection.isNote_of_mem_addItems _ path _
    · exact Collection.isNote_of_mem_addItems _ path _

/-! ### The scan -/

/-- The rejections of headers, each given by its path and its text: those of every header in the
order of its schemes. -/
def rejectionsIn (checker : Checker) (headers : List (Path × String)) : List Rejection :=
  headers.flatMap fun header => (checker.parse header.2).filterMap (rejection? header.1)

section Headers

variable {s : Site} {checker : Checker} {path : Path} {text name : String} {line : Nat}

/-- A header that leaves no scheme open adds its rejections to the others. -/
theorem Collection.add_of_closed (c : Collection) (path : Path)
    (h : ∀ name line, (checker.parse text).getLast? ≠ some (.error (.unterminated name line))) :
    (c.add checker path text).fatal = none ∧
      (c.add checker path text).collection.rejections =
        c.rejections ++ rejectionsIn checker [(path, text)] := by
  obtain ⟨items, hitems, hparse | ⟨name, line, hparse⟩⟩ := checker.exists_items_of_parse text
  · obtain ⟨hfatal, hcollection⟩ := c.add_of_parse_eq path hitems hparse
    refine ⟨hfatal, ?_⟩
    rw [hcollection, rejectionsIn, List.flatMap_singleton, hparse]
    rfl
  · exact absurd (by simp [hparse]) (h name line)

/-- A header that leaves a scheme open ends in a fault that takes all rejections with it. -/
theorem Collection.add_of_open (c : Collection) (path : Path)
    (h : (checker.parse text).getLast? = some (.error (.unterminated name line))) :
    (c.add checker path text).fatal = some ⟨path, .unterminated name line,
      c.rejections ++ rejectionsIn checker [(path, text)]⟩ := by
  obtain ⟨items, hitems, hparse | ⟨name', line', hparse⟩⟩ := checker.exists_items_of_parse text
  · rw [hparse] at h
    cases hitems _ (List.mem_of_getLast? h)
  · obtain ⟨rfl, rfl⟩ : name' = name ∧ line' = line := by simpa [hparse] using h
    rw [(c.add_of_parse_eq_concat path hitems hparse).1, rejectionsIn, List.flatMap_singleton,
      hparse]
    simp [rejection?, SchemeFault.isFatal]

/-- What a scan tells of one header, which it can read. -/
theorem scanInto_cons_of_readLossy (c : Collection) (hread : s.readLossy path = .ok text)
    (paths : List Path) :
    scanInto s checker c (path :: paths) =
      ⟨[.note .debug s!"scanning {path.text}"], .ok ()⟩ >>= fun _ =>
        (c.add checker path text).told >>= fun c' => scanInto s checker c' paths := by
  rw [scanInto, hread]
  rfl

/-- **A scan ends at the first header that leaves a scheme open**, with all rejections up to there.
The headers behind it do not count. -/
theorem scanInto_append_cons (c : Collection) {before : List (Path × String)}
    (hbefore : ∀ header ∈ before, s.readLossy header.1 = .ok header.2 ∧ ∀ name line,
      (checker.parse header.2).getLast? ≠ some (.error (.unterminated name line)))
    (hread : s.readLossy path = .ok text)
    (hopen : (checker.parse text).getLast? = some (.error (.unterminated name line)))
    (after : List Path) :
    scanInto s checker c (before.map (·.1) ++ path :: after) =
      ⟨(scanInto s checker c (before.map (·.1) ++ [path])).events,
        .error (.fatal ⟨path, .unterminated name line,
          c.rejections ++ rejectionsIn checker (before ++ [(path, text)])⟩)⟩ := by
  induction before generalizing c with
  | nil =>
    have hfatal := c.add_of_open path hopen
    rw [List.map_nil, List.nil_append, List.nil_append, scanInto_cons_of_readLossy c hread,
      scanInto_cons_of_readLossy c hread, Addition.told, hfatal]
    rfl
  | cons header before ih =>
    obtain ⟨path', text'⟩ := header
    obtain ⟨hread', hclosed⟩ := hbefore (path', text') List.mem_cons_self
    obtain ⟨hnone, hrejections⟩ := c.add_of_closed path' hclosed
    have hrest := ih (c.add checker path' text').collection fun header hheader =>
      hbefore header (List.mem_cons_of_mem _ hheader)
    rw [hrejections, List.append_assoc, rejectionsIn, rejectionsIn, ← List.flatMap_append] at hrest
    rw [List.map_cons, List.cons_append, List.cons_append, scanInto_cons_of_readLossy c hread',
      scanInto_cons_of_readLossy c hread', Addition.told, hnone]
    simp only [Told.ok_bind, hrest]
    rfl

theorem failsAfter_scan {before : List (Path × String)}
    (hbefore : ∀ header ∈ before, s.readLossy header.1 = .ok header.2 ∧ ∀ name line,
      (checker.parse header.2).getLast? ≠ some (.error (.unterminated name line)))
    (hread : s.readLossy path = .ok text)
    (hopen : (checker.parse text).getLast? = some (.error (.unterminated name line)))
    (after : List Path) :
    (scan s checker (before.map (·.1) ++ path :: after)).FailsAfter
      (scan s checker (before.map (·.1) ++ [path])).events
      (.fatal ⟨path, .unterminated name line,
        rejectionsIn checker (before ++ [(path, text)])⟩) := by
  rw [scan, scanInto_append_cons {} hbefore hread hopen after]
  exact ⟨rfl, [], by simp, rfl⟩

end Headers

/-! ### From the scan to the end of the run -/

theorem result_findHeaders {s : Site} {root : Path} {pattern : String} {exclude : List Path}
    {found : Files.Discovery} (h : s.discover root pattern exclude = .ok found) :
    (findHeaders s root pattern exclude).result = .ok found.headers := by
  rw [findHeaders, h]
  rfl

section Stages

variable {s : Site} {o : Options} {found : Files.Discovery} {events : List Event}
  {failure : Failure}

theorem failsAfter_render
    (hfound : s.discover o.root o.config.settings.pattern o.outputPaths = .ok found)
    (hscan : (scan s o.config.settings.checker found.headers).FailsAfter events failure) :
    (render s o).FailsAfter events failure := by
  refine .of_bind (onlyNotes_findHeaders _ _ _ _) (result_findHeaders hfound) ?_
  exact .of_bind (Told.onlyNotes_note _ _) rfl (hscan.bind _)

/-- A run that fails before its outputs are compared leaves the tree as it is. -/
theorem failsAfter_generate (h : (render s o).FailsAfter events failure) :
    (generate s o).1.FailsAfter events failure ∧ (generate s o).2 = s.tree := by
  obtain ⟨hresult, htold⟩ := h
  rcases hrender : render s o with ⟨told, failure' | rendered⟩
  · rw [hrender] at hresult htold
    obtain rfl := Except.error.inj hresult
    simp only [generate, hrender, Told.error_bind]
    exact ⟨⟨rfl, htold⟩, trivial⟩
  · rw [hrender] at hresult
    cases hresult

end Stages

end Run

namespace Command

open Run (FatalFault Failure Options Rejection rejectionsIn)

/-- The options of the run that a request asks for, if it scans headers and its settings can be
loaded. The outputs that a listing leaves out are those of a run in the root. -/
def Request.scanOptions? (s : Site) : Request → Option Options
  | .generate scan outDir license scope mode =>
    (generateOptions s scan outDir { license, scope } mode).toOption
  | .list scan _ =>
    (scanSettings s scan).result.toOption.map fun (root, layer) =>
      { root, outDir := root, config := layer }
  | .completions _ => none

/-- A scan that fails ends its request, of which nothing is seen but what the scan has told. -/
theorem failsAfter_executeRequest {s : Site} {texts : LibraryTexts} {request : Request}
    {o : Options} {found : Files.Discovery} {events : List Event} {failure : Failure}
    (ho : request.scanOptions? s = some o)
    (hfound : s.discover o.root o.config.settings.pattern o.outputPaths = .ok found)
    (hscan : (Run.scan s o.config.settings.checker found.headers).FailsAfter events failure) :
    (executeRequest s texts request).1.FailsAfter events failure ∧
      (executeRequest s texts request).2 = s.tree := by
  cases request with
  | completions shell => cases ho
  | generate scan outDir license scope mode =>
    have hnotes := onlyNotes_scanSettings s scan
    rw [executeRequest, executeGenerate]
    rw [Request.scanOptions?, generateOptions] at ho
    rcases hprepared : (scanSettings s scan).result with failure | ⟨root, layer⟩
    · simp [hprepared, Except.map, Except.toOption] at ho
    · obtain rfl := by simpa [hprepared, Except.map, Except.toOption] using ho
      obtain ⟨hrun, htree⟩ := Run.failsAfter_generate (Run.failsAfter_render hfound hscan)
      exact ⟨.of_bind hnotes rfl (hrun.bind _), htree⟩
  | list scan json =>
    refine ⟨?_, rfl⟩
    rw [Request.scanOptions?] at ho
    rcases hprepared : (scanSettings s scan).result with failure | ⟨root, layer⟩
    · simp [hprepared, Except.toOption] at ho
    · obtain rfl := by simpa [hprepared, Except.toOption] using ho
      refine .of_bind (onlyNotes_scanSettings s scan) hprepared ?_
      exact .of_bind (Run.onlyNotes_findHeaders _ _ _ _) (Run.result_findHeaders hfound)
        (hscan.bind _)

/-! ### What the process shows -/

theorem join_outputText_eq_empty {events : List Event} (h : ∀ e ∈ events, e.outputText = "") :
    String.join (events.map Event.outputText) = "" := by
  induction events with
  | nil => rfl
  | cons e events ih =>
    rw [List.map_cons, String.join_cons, h e List.mem_cons_self,
      ih fun e' he' => h e' (List.mem_cons_of_mem e he')]
    rfl

/-- A fatal fault is shown behind the rejections that it carries. -/
theorem failureEvents_fatal (fault : FatalFault) :
    failureEvents (.fatal fault) =
      (fault.rejections.map Rejection.diagnostic ++ [fault.diagnostic]).map Event.shown := by
  simp [failureEvents]

/-- A fatal fault is shown as the lines of the rejections that it carries, and then its own. -/
theorem join_format_fatal (fault : FatalFault) (coloured : Bool) :
    String.join ((fault.rejections.map Rejection.diagnostic ++ [fault.diagnostic]).map
        (·.format coloured)) =
      Text.unlines ((fault.rejections.flatMap fun r => r.fault.linesAt r.path coloured) ++
        fault.fault.linesAt fault.path coloured) := by
  rw [Text.unlines_append, Text.unlines_flatMap, List.map_append, String.join_append, List.map_map,
    List.map_singleton, FatalFault.diagnostic, ← SchemeFault.format_diagnosticAt]
  congr 1
  exact congrArg String.join (List.map_congr_left fun r _ => r.fault.format_diagnosticAt _ _)

/-- What a process leaves behind whose request ends in a fatal fault. -/
theorem run_of_failsAfter {s : Site} {texts : LibraryTexts} {arguments : List String}
    {invocation : Invocation} {events : List Event} {fault : FatalFault}
    (hinvocation : Invocation.ofArguments arguments = .ok invocation)
    (h : (executeRequest s texts invocation.request).1.FailsAfter events (.fatal fault))
    (hevents : ∀ e ∈ events, e.isNote = true) :
    (run s arguments texts).exitCode = 1 ∧
      (run s arguments texts).tree = (executeRequest s texts invocation.request).2 ∧
      (run s arguments texts).output = "" ∧
      ∃ notes : List Event, (∀ e ∈ notes, e.isNote = true) ∧ events <:+ notes ∧
        (run s arguments texts).errors = Text.unlines
          (notes.filterMap (Event.logLine? invocation.verbose invocation.coloured) ++
            (fault.rejections.flatMap fun r => r.fault.linesAt r.path invocation.coloured) ++
            fault.fault.linesAt fault.path invocation.coloured) := by
  obtain ⟨hresult, before, hbefore, htold⟩ := h
  have hnotes : ∀ e ∈ before ++ events, e.isNote = true := fun e he =>
    (List.mem_append.mp he).elim (hbefore e) (hevents e)
  rw [run, hinvocation]
  simp only [hresult, htold, failureEvents_fatal]
  refine ⟨trivial, trivial, join_outputText_eq_empty fun e he => ?_, before ++ events, hnotes,
    ⟨before, rfl⟩, ?_⟩
  · rcases List.mem_append.mp he with he | he
    · exact Event.outputText_of_isNote (hnotes e he)
    · obtain ⟨d, -, rfl⟩ := List.mem_map.mp he
      rfl
  · rw [List.append_assoc _ _ (fault.fault.linesAt _ _), Text.unlines_append,
      ← Event.join_errorText_of_isNote hnotes, ← join_format_fatal, List.map_append,
      String.join_append, List.map_map]
    rfl

/-- **A run that ends at an open scheme reports what it found up to there, and writes nothing.** Let
a command that scans headers get to its scan, and let the first of its headers that cannot be read
or leaves a scheme open be one that leaves a scheme open. Then the command ends with 1, the tree is
as it was, and nothing is printed. On the error stream there are the lines of notes, the last of
which are those of a scan that has no headers behind this one; then those of one diagnostic for each
scheme that is rejected in this header or in one before it, in the order of the headers and their
schemes; and last those for the scheme that is open. Nothing is asked of what a run needs later, so
neither a license banner that is missing nor a header further on can come in between. -/
theorem fatal_run_reports {s : Site} {texts : LibraryTexts} {arguments : List String}
    {invocation : Invocation} {o : Options} {found : Files.Discovery}
    {before : List (Path × String)} {path : Path} {text name : String} {line : Nat}
    {after : List Path}
    (hinvocation : Invocation.ofArguments arguments = .ok invocation)
    (ho : invocation.request.scanOptions? s = some o)
    (hfound : s.discover o.root o.config.settings.pattern o.outputPaths = .ok found)
    (hheaders : found.headers = before.map (·.1) ++ path :: after)
    (hbefore : ∀ header ∈ before, s.readLossy header.1 = .ok header.2 ∧ ∀ name line,
      (o.config.settings.checker.parse header.2).getLast? ≠
        some (.error (.unterminated name line)))
    (hread : s.readLossy path = .ok text)
    (hopen : (o.config.settings.checker.parse text).getLast? =
      some (.error (.unterminated name line))) :
    (run s arguments texts).exitCode = 1 ∧ (run s arguments texts).tree = s.tree ∧
      (run s arguments texts).output = "" ∧
      ∃ notes : List Event, (∀ e ∈ notes, e.isNote = true) ∧
        (Run.scan s o.config.settings.checker (before.map (·.1) ++ [path])).events <:+ notes ∧
        (run s arguments texts).errors = Text.unlines
          (notes.filterMap (Event.logLine? invocation.verbose invocation.coloured) ++
            ((rejectionsIn o.config.settings.checker (before ++ [(path, text)])).flatMap fun r =>
              r.fault.linesAt r.path invocation.coloured) ++
            (SchemeFault.unterminated name line).linesAt path invocation.coloured) := by
  have hscan := Run.failsAfter_scan hbefore hread hopen after
  rw [← hheaders] at hscan
  obtain ⟨hrequest, htree⟩ := failsAfter_executeRequest ho hfound hscan
  obtain ⟨hcode, hkept, houtput, notes, hnotes, hscanned, herrors⟩ :=
    run_of_failsAfter hinvocation hrequest (Run.onlyNotes_scanInto s _ {} _)
  exact ⟨hcode, hkept.trans htree, houtput, notes, hnotes, hscanned, herrors⟩

/-- A site without a license banner, where the second of three headers leaves a scheme open behind
one that is rejected. -/
theorem fatal_run_reports_without_license :
    let a := "/// Input arguments of f [fIn]\nenum fOutput \x7b\n/// x [x]\nF_X,\n\x7d;\n"
    let b := "/// Input arguments of g [gIn]\n/// x [x]\n\x7d;\n/// Output arguments of h [hOut]\n"
    let s : Site :=
      { tree := ⟨[(["a.hpp"], .file (Text.encode a)), (["b.hpp"], .file (Text.encode b)),
          (["c.hpp"], .file (Text.encode a))]⟩
        cwd := [] }
    let shown : List String :=
      ["warning: enum group `fOutput` of scheme `fIn` does not match role Input",
        "  --> /a.hpp", "  = `fOutput` does not end in an Input suffix",
        "  = failing field: enum group", "  = scheme: `fIn`", "", "help: consider:",
        "  1. Name the enum so that it ends in `Input` or `In`",
        "warning: entry #1 of scheme `gIn` has no enum constant",
        "  --> /b.hpp", "  = entry: `x`", "  = failing field: enum constant",
        "  = scheme: `gIn`", "", "help: consider:",
        "  1. Follow the entry's `/// doc [name]` line with an `ENUM_CONSTANT,` line",
        "error: scheme `hOut` opened on line 4 is never terminated",
        "  --> /b.hpp", "  = scheme starts on line 4", "  = scheme: `hOut`", "", "help: consider:",
        "  1. Add the closing `\x7d;` of the scheme's enum"]
    (run s ["generate", "--no-color"]).exitCode = 1 ∧
      (run s ["generate", "--no-color"]).tree = s.tree ∧
      (run s ["generate", "--no-color"]).output = "" ∧
      ∃ notes : List Event, (∀ e ∈ notes, e.isNote = true) ∧
        (run s ["generate", "--no-color"]).errors = Text.unlines
          (notes.filterMap (Event.logLine? false false) ++ shown) := by
  intro a b s shown
  let o : Options := { root := ⟨"/"⟩, outDir := ⟨"/"⟩ }
  let rejections : List Rejection :=
    [⟨⟨"/a.hpp"⟩, .malformedGroup "fIn" "fOutput" .input
        "`fOutput` does not end in an Input suffix"⟩,
      ⟨⟨"/b.hpp"⟩, .incompleteEntry "gIn" 1 (some "x") .constant⟩]
  have hinvocation : Invocation.ofArguments ["generate", "--no-color"] =
      .ok { coloured := false, request := .generate {} none none none .write } := by
    decide +kernel
  have ho : (Request.generate {} none none none .write).scanOptions? s = some o := by
    have hsettings : (scanSettings s {}).result = .ok (⟨"/"⟩, {}) := by decide +kernel
    rw [Request.scanOptions?, generateOptions, hsettings]
    rfl
  have hfound : s.discover o.root o.config.settings.pattern o.outputPaths =
      .ok { headers := [⟨"/a.hpp"⟩, ⟨"/b.hpp"⟩, ⟨"/c.hpp"⟩] } := by
    let pattern : Files.Pattern := ⟨[.anyRun, .char '.', .char 'h', .char 'p', .char 'p']⟩
    let files : List Path := [⟨"/a.hpp"⟩, ⟨"/b.hpp"⟩, ⟨"/c.hpp"⟩]
    have hpattern : Files.Pattern.parse o.config.settings.pattern = .ok pattern := by
      decide +kernel
    have hfiles : s.walk o.root = .ok files := by decide +kernel
    -- the files are met in the order of their paths
    have hsorted : (files.filter fun p => pattern.accepts (Site.matchedName p)).Pairwise
        (Site.pathLe · ·) := by
      decide +kernel
    simp only [Site.discover, hpattern, hfiles, List.mergeSort_of_pairwise hsorted]
    decide +kernel
  have hread : s.readLossy ⟨"/a.hpp"⟩ = .ok a ∧ s.readLossy ⟨"/b.hpp"⟩ = .ok b := by
    decide +kernel
  have hparse : o.config.settings.checker.parse a = [.error (.malformedGroup "fIn" "fOutput" .input
        "`fOutput` does not end in an Input suffix")] ∧
      o.config.settings.checker.parse b = [.error (.incompleteEntry "gIn" 1 (some "x") .constant),
        .error (.unterminated "hOut" 4)] := by
    decide +kernel
  have hrejections : rejectionsIn o.config.settings.checker
      ([(⟨"/a.hpp"⟩, a)] ++ [(⟨"/b.hpp"⟩, b)]) = rejections := by
    rw [rejectionsIn, List.flatMap_append, List.flatMap_singleton, List.flatMap_singleton, hparse.1,
      hparse.2]
    rfl
  have hshown : (rejections.flatMap fun r => r.fault.linesAt r.path false) ++
      (SchemeFault.unterminated "hOut" 4).linesAt ⟨"/b.hpp"⟩ false = shown := by
    decide +kernel
  have hbefore : ∀ header ∈ [((⟨"/a.hpp"⟩ : Path), a)], s.readLossy header.1 = .ok header.2 ∧
      ∀ name line, (o.config.settings.checker.parse header.2).getLast? ≠
        some (.error (.unterminated name line)) := by
    rintro header hheader
    obtain rfl := List.mem_singleton.mp hheader
    exact ⟨hread.1, fun name line => by simp [hparse.1]⟩
  have hopen : (o.config.settings.checker.parse b).getLast? =
      some (.error (.unterminated "hOut" 4)) := by
    rw [hparse.2]
    rfl
  obtain ⟨hcode, htree, houtput, notes, hnotes, -, herrors⟩ :=
    fatal_run_reports hinvocation ho hfound rfl hbefore hread.2 hopen
  rw [hrejections, List.append_assoc, hshown] at herrors
  exact ⟨hcode, htree, houtput, notes, hnotes, herrors⟩

end Command

end ArgumentSchemes

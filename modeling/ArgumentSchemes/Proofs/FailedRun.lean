import ArgumentSchemes.Proofs.Stages

/-!
# What a failed run leaves behind

A run compares both outputs before it writes, so whatever fails up to then leaves the tree as it is.
But the outputs are written one after the other, and the native header is in its place already when
the writing of the binding interface fails. `ReplacesNative` says that a run gets that far with a
header of another content.

Main statement: a run that fails keeps its outputs exactly when it does not get that far
(`failed_run_keeps_outputs_iff`); then nothing but directories is new in the tree.
-/

namespace ArgumentSchemes

namespace Run

open Files (Location Path Site Tree)
open Report (Told)

/-! ### How a run fails -/

/-- Writing fails at the first output, or it fails at a later one, when the first is in place. -/
theorem writeOutputs_cons_eq_error {s : Site} {p : Path} {content : String} {current : Bool}
    {rest : List (Path × String × Bool)} {failure : Failure}
    (h : (writeOutputs s ((p, content, current) :: rest)).1.result = .error failure) :
    (current = false ∧ ∃ fault, s.writeAtomic p (Text.encode content) =
        (.error fault, (writeOutputs s ((p, content, current) :: rest)).2)) ∨
      ∃ t, Placed s p content current t ∧
        (writeOutputs (s.withTree t) rest).1.result = .error failure ∧
        (writeOutputs s ((p, content, current) :: rest)).2 =
          (writeOutputs (s.withTree t) rest).2 := by
  have hlater : ∀ (status : Status) (x : Told Failure (List (Path × Status))),
      (do Told.tell (statusNote p status); return (p, status) :: (← x)).result = .error failure →
        x.result = .error failure := by
    intro status x hx
    rcases Told.result_bind_eq_error_iff.mp hx with hnone | ⟨_, -, hx⟩
    · cases hnone
    · rcases Told.result_bind_eq_error_iff.mp hx with hfail | ⟨_, -, hnone⟩
      · exact hfail
      · cases hnone
  cases current with
  | true => exact .inr ⟨s.tree, .inl ⟨rfl, rfl⟩, hlater .unchanged _ h, rfl⟩
  | false =>
    rw [writeOutputs] at h ⊢
    rcases hwrite : s.writeAtomic p (Text.encode content) with ⟨fault | _, t⟩
    · exact .inl ⟨rfl, fault, rfl⟩
    · rw [hwrite] at h
      exact .inr ⟨t, .inr ⟨rfl, hwrite⟩, hlater .written _ h, rfl⟩

/-- A run that fails does so before anything is written, or while its outputs are written. -/
theorem generate_eq_error {s : Site} {o : Options} {failure : Failure} (hmode : o.mode = .write)
    (h : (generate s o).1.result = .error failure) :
    ((generate s o).2 = s.tree ∧
        ∀ artifacts generation, (render s o).result = .ok (artifacts, generation) →
          ∃ fault, compareOutputs s (o.outputs artifacts) = .error fault) ∨
      ∃ artifacts generation outputs, (render s o).result = .ok (artifacts, generation) ∧
        compareOutputs s (o.outputs artifacts) = .ok outputs ∧
        (writeOutputs s outputs).1.result = .error failure ∧
        (generate s o).2 = (writeOutputs s outputs).2 := by
  rcases compared_or_not s o with ⟨artifacts, generation, outputs, hrender, hcompare⟩ | hnot
  · obtain ⟨hresult, htree⟩ := generate_of_compared hrender hcompare
    rw [hmode] at hresult htree
    refine .inr ⟨artifacts, generation, outputs, hrender, hcompare, ?_, htree⟩
    rcases hsettle : (settle s .write outputs).1.result with fault | statuses
    · rw [hsettle, h] at hresult
      obtain rfl := Except.error.inj hresult
      exact hsettle
    · rw [hsettle, h] at hresult
      cases hresult
  · exact .inl ⟨(generate_of_not_compared hnot).2, hnot⟩

/-! ### Runs that fail -/

/-- What the outputs of a run hold in the tree `t` is what they held before. -/
structure OutputsKept (s : Site) (o : Options) (t : Tree) : Prop where
  /-- The destinations have the same content, or still no file stands there. -/
  content : ∀ p ∈ o.outputPaths, ∀ l, s.destination? p = some l →
    t.content? l = s.tree.content? l
  /-- What was read at an output path is read there still. -/
  read : ∀ p ∈ o.outputPaths, ∀ content, s.readBytes p = .ok content →
    (s.withTree t).readBytes p = .ok content
  /-- A file that an output path leads to is none that the run has written. -/
  old : ∀ p ∈ o.outputPaths, ∀ l content, (s.withTree t).lookup p = .ok (l, .file content) →
    s.tree.get? l = some (.file content)

/-- The run gets as far as to put a native header with this content in its place, where no file with
the same content stood. -/
def ReplacesNative (s : Site) (o : Options) (content : List UInt8) : Prop :=
  ∃ artifacts generation current t,
    (render s o).result = .ok (artifacts, generation) ∧
    content = Text.encode artifacts.native ∧
    compareOutputs s (o.outputs artifacts) =
      .ok [(o.nativePath, artifacts.native, false), (o.bindingPath, artifacts.binding, current)] ∧
    s.writeAtomic o.nativePath content = (.ok (), t) ∧
    ∀ l, s.destination? o.nativePath = some l → s.tree.content? l ≠ some content

/-- Only one content can be put in the place of the native header. -/
theorem ReplacesNative.unique {s : Site} {o : Options} {content content' : List UInt8}
    (h : ReplacesNative s o content) (h' : ReplacesNative s o content') : content = content' := by
  obtain ⟨_, _, _, _, hrender, rfl, -⟩ := h
  obtain ⟨_, _, _, _, hrender', rfl, -⟩ := h'
  rw [hrender] at hrender'
  rw [(Prod.mk.inj (Except.ok.inj hrender')).1]

theorem OutputsKept.of_grows {s : Site} {o : Options} {t : Tree} (h : s.tree.Grows t) :
    OutputsKept s o t where
  content := fun _ _ l _ => h.content?_eq l
  read := fun _ _ _ hread => Site.readBytes_of_grows h hread
  old := fun _ _ _ _ hfound =>
    h.get?_eq_some_of_ne (Site.lookup_eq_ok_iff.mp hfound).2 (by simp)

/-- Where the native header is replaced the outputs are not kept. -/
theorem not_outputsKept_of_replaces {s : Site} {o : Options} {t : Tree} {l : Location}
    {content : List UInt8} (hl : s.destination? o.nativePath = some l)
    (h : s.tree.Replaces t l content) : ¬ OutputsKept s o t := by
  intro hkept
  have hsame := hkept.content o.nativePath (by simp [Options.outputPaths]) l hl
  exact h.differs (hsame ▸ h.new)

/-- **What a failed run leaves behind**: a tree that has only gained directories, or one in which
the native header is replaced. -/
theorem outcome_of_failed_run {s : Site} {o : Options} {failure : Failure}
    (hmode : o.mode = .write) (h : (generate s o).1.result = .error failure) :
    (s.tree.Grows (generate s o).2 ∧ ∀ content, ¬ ReplacesNative s o content) ∨
      ∃ content l, ReplacesNative s o content ∧ s.destination? o.nativePath = some l ∧
        s.tree.Replaces (generate s o).2 l content := by
  rcases generate_eq_error hmode h with
    ⟨htree, hearly⟩ | ⟨artifacts, generation, outputs, hrender, hcompare, hwrite, htree⟩
  · -- nothing was written
    refine .inl ⟨htree ▸ .refl _, ?_⟩
    rintro content ⟨artifacts, generation, current, t, hrender, -, hcompare, -⟩
    obtain ⟨fault, hfault⟩ := hearly artifacts generation hrender
    rw [hcompare] at hfault
    cases hfault
  obtain ⟨current, current', rfl⟩ := compareOutputs_outputs_eq_ok hcompare
  -- what a replaced native header would say about this run
  have hreplaces : ∀ content, ReplacesNative s o content →
      content = Text.encode artifacts.native ∧ current = false ∧
        (∃ t, s.writeAtomic o.nativePath content = (.ok (), t)) ∧
        ∀ l, s.destination? o.nativePath = some l → s.tree.content? l ≠ some content := by
    rintro content ⟨artifacts', _, _, t, hrender', rfl, hcompare', hwritten, hdiffers⟩
    rw [hrender] at hrender'
    obtain ⟨rfl, rfl⟩ := Prod.mk.inj (Except.ok.inj hrender')
    rw [hcompare] at hcompare'
    simp only [Except.ok.injEq, List.cons.injEq, Prod.mk.injEq, true_and] at hcompare'
    exact ⟨rfl, hcompare'.1, ⟨t, hwritten⟩, hdiffers⟩
  rw [htree]
  rcases writeOutputs_cons_eq_error hwrite with ⟨-, fault, hfault⟩ | ⟨t, hplaced, hrest, htree'⟩
  · -- the native header could not be written
    refine .inl ⟨Site.grows_of_writeAtomic_eq_error hfault, fun content hcontent => ?_⟩
    obtain ⟨rfl, -, ⟨t, hwritten⟩, -⟩ := hreplaces content hcontent
    rw [hfault] at hwritten
    cases (Prod.mk.inj hwritten).1
  · rw [htree']
    rcases writeOutputs_cons_eq_error hrest with ⟨-, fault, hfault⟩ | ⟨t', -, hnone, -⟩
    · have hgrows : t.Grows _ := Site.grows_of_writeAtomic_eq_error hfault
      rcases hplaced with ⟨hcurrent, rfl⟩ | ⟨hcurrent, hwritten⟩
      · -- the native header was current, so only the binding interface was to be written
        refine .inl ⟨hgrows, fun content hcontent => ?_⟩
        obtain ⟨-, hstale, -⟩ := hreplaces content hcontent
        rw [hcurrent] at hstale
        cases hstale
      · obtain ⟨l, hl, hne, rfl⟩ := Site.exists_of_writeAtomic_eq_ok hwritten
        rcases Tree.grows_or_replaces_set (s.grows_prepared o.nativePath) hne
          (Text.encode artifacts.native) with ⟨hsame, hset⟩ | hset
        · -- the same content stood at the destination, although the path did not lead there
          refine .inl ⟨hset.trans hgrows, fun content hcontent => ?_⟩
          obtain ⟨rfl, -, -, hdiffers⟩ := hreplaces content hcontent
          exact hdiffers l hl hsame
        · refine .inr ⟨_, l, ⟨artifacts, generation, current', _, hrender, rfl, ?_, hwritten, ?_⟩,
            hl, hset.trans_grows hgrows⟩
          · rw [hcompare, hcurrent]
          · rintro l' hl'
            obtain rfl := Option.some.inj (hl.symm.trans hl')
            exact hset.differs
    · cases hnone

/-- **A run that fails keeps its outputs exactly when it does not replace the native header**, and
then it leaves nothing but directories behind. Else the native header is at its destination, and
everywhere else nothing but directories is new. -/
theorem failed_run_keeps_outputs_iff {s : Site} {o : Options} {failure : Failure}
    (hmode : o.mode = .write) (h : (generate s o).1.result = .error failure) :
    (OutputsKept s o (generate s o).2 ↔ ∀ content, ¬ ReplacesNative s o content) ∧
    ((∀ content, ¬ ReplacesNative s o content) → s.tree.Grows (generate s o).2) ∧
    ∀ content, ReplacesNative s o content → ∃ l, s.destination? o.nativePath = some l ∧
      s.tree.Replaces (generate s o).2 l content := by
  rcases outcome_of_failed_run hmode h with ⟨hgrows, hnone⟩ | ⟨content, l, hcontent, hl, hset⟩
  · refine ⟨⟨fun _ => hnone, fun _ => .of_grows hgrows⟩, fun _ => hgrows, ?_⟩
    intro content hcontent
    exact absurd hcontent (hnone content)
  · refine ⟨⟨fun hkept => ?_, fun hnone => ?_⟩, fun hnone => ?_, fun content' hcontent' => ?_⟩
    · exact absurd hkept (not_outputsKept_of_replaces hl hset)
    · exact absurd hcontent (hnone content)
    · exact absurd hcontent (hnone content)
    · obtain rfl := hcontent.unique hcontent'
      exact ⟨l, hl, hset⟩

/-- A run without a license banner fails, and its outputs are kept. -/
theorem failed_run_keeps_outputs_iff_no_license :
    let s : Site := { tree := ⟨[(["a.hpp"], .file []), (["swig"], .file [])]⟩, cwd := [] }
    let o : Options := { root := ⟨"."⟩, outDir := ⟨"."⟩ }
    (generate s o).1.result = .error (.noLicense ⟨"./misc/license_header.txt"⟩ .notFound) ∧
      OutputsKept s o (generate s o).2 := by
  intro s o
  have hfail : (generate s o).1.result =
      .error (.noLicense ⟨"./misc/license_header.txt"⟩ .notFound) := by decide +kernel
  have hrender : (render s o).result =
      .error (.noLicense ⟨"./misc/license_header.txt"⟩ .notFound) := by decide +kernel
  refine ⟨hfail, (failed_run_keeps_outputs_iff rfl hfail).1.mpr ?_⟩
  rintro content ⟨artifacts, generation, current, t, hok, -⟩
  rw [hrender] at hok
  cases hok

/-- With a file in the place of the directory of the binding interface, a run fails after it has
replaced the native header. -/
theorem failed_run_loses_native_header :
    let s : Site :=
      { tree := ⟨[(["misc"], .directory),
          (["misc", "license_header.txt"], .file (Text.encode "// L\n")),
          (["casadi"], .directory),
          (["casadi", "autogenerated.hpp"], .file (Text.encode "old\n")),
          (["swig"], .file (Text.encode "in the way\n"))]⟩
        cwd := [] }
    let o : Options := { root := ⟨"."⟩, outDir := ⟨"."⟩, mode := .write }
    (generate s o).1.result = .error (.notWritten (.noTemporary ⟨"./swig"⟩ .notDirectory)) ∧
      s.readText o.nativePath = .ok "old\n" ∧
      (s.withTree (generate s o).2).readText o.nativePath ≠ .ok "old\n" := by
  decide +kernel

end Run

end ArgumentSchemes

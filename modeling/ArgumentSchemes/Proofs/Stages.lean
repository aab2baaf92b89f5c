import ArgumentSchemes.Proofs.TreeGrowth
import ArgumentSchemes.Run.Generate
import Mathlib.Control.Monad.Basic

/-!
# The stages of a run

A run renders its artifacts, compares them with what stands at the output paths, and then settles
the outputs: they are written, or it is only told how they stand. The first two stages read the site
and do not depend on the mode. Settling is told by the outcome of the comparison alone, as far as it
succeeds (`settle_eq_ok`).

Main statement: a run succeeds exactly when its three stages do (`generate_eq_ok_iff`).
-/

namespace ArgumentSchemes

namespace Report.Told

variable {ε α β : Type}

/-- A computation fails at its first step or at what follows. -/
theorem result_bind_eq_error_iff {x : Told ε α} {f : α → Told ε β} {fault : ε} :
    (x >>= f).result = .error fault ↔
      x.result = .error fault ∨ ∃ a, x.result = .ok a ∧ (f a).result = .error fault := by
  rcases x with ⟨events, fault' | a⟩ <;> simp

/-- A computation succeeds when its first step and what follows do. -/
theorem result_bind_eq_ok_iff {x : Told ε α} {f : α → Told ε β} {b : β} :
    (x >>= f).result = .ok b ↔ ∃ a, x.result = .ok a ∧ (f a).result = .ok b := by
  rcases x with ⟨events, fault | a⟩ <;> simp

end Report.Told

namespace Run

open Files (Path Site Tree)
open Report (Told)

/-! ### Comparing -/

/-- The paths of both outputs. -/
def Options.outputPaths (o : Options) : List Path := [o.nativePath, o.bindingPath]

theorem compareOutputs_cons_eq_ok {s : Site} {p : Path} {content : String}
    {rest : List (Path × String)} {outputs : List (Path × String × Bool)}
    (h : compareOutputs s ((p, content) :: rest) = .ok outputs) :
    ∃ current others, isCurrent s p content = .ok current ∧ compareOutputs s rest = .ok others ∧
      outputs = (p, content, current) :: others := by
  rw [compareOutputs] at h
  split at h
  · cases h
  · next current hcurrent =>
    split at h
    · cases h
    · next others hothers => exact ⟨current, others, hcurrent, hothers, (Except.ok.inj h).symm⟩

/-- Both outputs are compared, in their order. -/
theorem compareOutputs_outputs_eq_ok {s : Site} {o : Options} {artifacts : Emit.Artifacts}
    {outputs : List (Path × String × Bool)}
    (h : compareOutputs s (o.outputs artifacts) = .ok outputs) :
    ∃ current current', outputs =
      [(o.nativePath, artifacts.native, current),
        (o.bindingPath, artifacts.binding, current')] := by
  obtain ⟨current, others, -, hothers, rfl⟩ := compareOutputs_cons_eq_ok h
  obtain ⟨current', others, -, hnil, rfl⟩ := compareOutputs_cons_eq_ok hothers
  obtain rfl := Except.ok.inj hnil
  exact ⟨current, current', rfl⟩

theorem isCurrent_eq_ok_true_iff {s : Site} {p : Path} {content : String} :
    isCurrent s p content = .ok true ↔ s.readText p = .ok content := by
  rw [isCurrent]
  constructor
  · intro h
    split at h
    · split at h
      · cases h
      · next text htext =>
        obtain rfl : text = content := by simpa using h
        exact htext
    · cases h
  · intro h
    obtain ⟨bytes, hread, -⟩ := Site.readText_eq_ok_iff.mp h
    obtain ⟨l, hl⟩ := Site.readBytes_eq_ok_iff.mp hread
    have hexists : s.pathExists p = true := by
      rw [Site.pathExists, hl]
      rfl
    rw [if_pos hexists, h]
    simp

/-- What was found current is what its path holds. -/
theorem readText_of_compareOutputs {s : Site} {outputs : List (Path × String)}
    {compared : List (Path × String × Bool)} (h : compareOutputs s outputs = .ok compared) :
    ∀ output ∈ compared, output.2.2 = true → s.readText output.1 = .ok output.2.1 := by
  induction outputs generalizing compared with
  | nil =>
    obtain rfl := Except.ok.inj h
    simp
  | cons output rest ih =>
    obtain ⟨p, content⟩ := output
    obtain ⟨current, others, hcurrent, hothers, rfl⟩ := compareOutputs_cons_eq_ok h
    intro output' hmem htrue
    rcases List.mem_cons.mp hmem with rfl | hmem
    · obtain rfl : current = true := htrue
      exact isCurrent_eq_ok_true_iff.mp hcurrent
    · exact ih hothers output' hmem htrue

/-- Outputs that their paths hold are found current. -/
theorem compareOutputs_of_readText {s : Site} {outputs : List (Path × String)}
    (h : ∀ output ∈ outputs, s.readText output.1 = .ok output.2) :
    compareOutputs s outputs = .ok (outputs.map fun (p, content) => (p, content, true)) := by
  induction outputs with
  | nil => rfl
  | cons output rest ih =>
    obtain ⟨p, content⟩ := output
    have hcurrent : isCurrent s p content = .ok true :=
      isCurrent_eq_ok_true_iff.mpr (h (p, content) List.mem_cons_self)
    rw [compareOutputs, hcurrent]
    simp only [ih fun output' hmem => h output' (List.mem_cons_of_mem _ hmem)]
    rfl

/-! ### Settling -/

/-- What is done with the outputs once they are compared. -/
def settle (s : Site) (mode : Mode) (outputs : List (Path × String × Bool)) :
    Told Failure (List (Path × Status)) × Tree :=
  match mode with
  | .write => writeOutputs s outputs
  | .check | .dryRun => (predictOutputs outputs, s.tree)

theorem settle_write (s : Site) (outputs : List (Path × String × Bool)) :
    settle s .write outputs = writeOutputs s outputs := rfl

/-- How an output stands once it is settled, when it is known whether it was current. -/
def Mode.statusOf (mode : Mode) (current : Bool) : Status :=
  if current then .unchanged else if mode = .write then .written else .stale

/-- How the outputs stand once they are settled. -/
def Mode.statuses (mode : Mode) (outputs : List (Path × String × Bool)) : List (Path × Status) :=
  outputs.map fun (p, _, current) => (p, mode.statusOf current)

/-- The tree once an output is in place: the one before when the output was current. -/
def Placed (s : Site) (p : Path) (content : String) (current : Bool) (t : Tree) : Prop :=
  current = true ∧ t = s.tree ∨
    current = false ∧ s.writeAtomic p (Text.encode content) = (.ok (), t)

/-- Writing that succeeds puts the first output in place, and then writes the others. -/
theorem writeOutputs_cons_eq_ok {s : Site} {p : Path} {content : String} {current : Bool}
    {rest : List (Path × String × Bool)} {statuses : List (Path × Status)}
    (h : (writeOutputs s ((p, content, current) :: rest)).1.result = .ok statuses) :
    ∃ t others, Placed s p content current t ∧
      (writeOutputs (s.withTree t) rest).1.result = .ok others ∧
      statuses = (p, Mode.write.statusOf current) :: others ∧
      (writeOutputs s ((p, content, current) :: rest)).2 =
        (writeOutputs (s.withTree t) rest).2 := by
  have hlater : ∀ (status : Status) (x : Told Failure (List (Path × Status))),
      (do Told.tell (statusNote p status); return (p, status) :: (← x)).result = .ok statuses →
        ∃ others, x.result = .ok others ∧ statuses = (p, status) :: others := by
    intro status x hx
    obtain ⟨_, -, hx⟩ := Told.result_bind_eq_ok_iff.mp hx
    obtain ⟨others, hothers, hstatuses⟩ := Told.result_bind_eq_ok_iff.mp hx
    exact ⟨others, hothers, (Except.ok.inj hstatuses).symm⟩
  cases current with
  | true =>
    obtain ⟨others, hothers, hstatuses⟩ := hlater .unchanged _ h
    exact ⟨s.tree, others, .inl ⟨rfl, rfl⟩, hothers, hstatuses, rfl⟩
  | false =>
    rw [writeOutputs] at h ⊢
    rcases hwrite : s.writeAtomic p (Text.encode content) with ⟨fault | _, t⟩
    · rw [hwrite] at h
      cases h
    · rw [hwrite] at h
      obtain ⟨others, hothers, hstatuses⟩ := hlater .written _ h
      exact ⟨t, others, .inr ⟨rfl, hwrite⟩, hothers, hstatuses, rfl⟩

theorem writeOutputs_eq_ok {s : Site} {outputs : List (Path × String × Bool)}
    {statuses : List (Path × Status)} (h : (writeOutputs s outputs).1.result = .ok statuses) :
    statuses = Mode.write.statuses outputs := by
  induction outputs generalizing s statuses with
  | nil => exact (Except.ok.inj h).symm
  | cons output rest ih =>
    obtain ⟨p, content, current⟩ := output
    obtain ⟨t, others, -, hothers, rfl, -⟩ := writeOutputs_cons_eq_ok h
    rw [ih hothers]
    rfl

/-- Where every output is current there is nothing to write. -/
theorem writeOutputs_of_current {s : Site} {outputs : List (Path × String × Bool)}
    (h : ∀ output ∈ outputs, output.2.2 = true) :
    (writeOutputs s outputs).1.result = .ok (Mode.write.statuses outputs) ∧
      (writeOutputs s outputs).2 = s.tree := by
  induction outputs with
  | nil => exact ⟨rfl, rfl⟩
  | cons output rest ih =>
    obtain ⟨p, content, current⟩ := output
    obtain rfl : current = true := h (p, content, current) (by simp)
    obtain ⟨hresult, htree⟩ := ih fun output houtput => h output (by simp [houtput])
    refine ⟨?_, htree⟩
    rw [writeOutputs]
    refine Told.result_bind_eq_ok_iff.mpr ⟨(), rfl, ?_⟩
    exact Told.result_bind_eq_ok_iff.mpr ⟨_, hresult, rfl⟩

/-- Settling that succeeds tells what the comparison told. -/
theorem settle_eq_ok {s : Site} {mode : Mode} {outputs : List (Path × String × Bool)}
    {statuses : List (Path × Status)} (h : (settle s mode outputs).1.result = .ok statuses) :
    statuses = mode.statuses outputs := by
  cases mode with
  | write => exact writeOutputs_eq_ok h
  | check => exact (Except.ok.inj h).symm
  | dryRun => exact (Except.ok.inj h).symm

/-- Without writing, settling succeeds and leaves the tree as it is. -/
theorem settle_of_ne_write {s : Site} {mode : Mode} {outputs : List (Path × String × Bool)}
    (h : mode ≠ .write) :
    (settle s mode outputs).1.result = .ok (mode.statuses outputs) ∧
      (settle s mode outputs).2 = s.tree := by
  cases mode with
  | write => exact absurd rfl h
  | check => exact ⟨rfl, rfl⟩
  | dryRun => exact ⟨rfl, rfl⟩

/-- Where every output is current, settling in any mode says so and leaves the tree as it is. -/
theorem settle_of_current {s : Site} {mode : Mode} {outputs : List (Path × String × Bool)}
    (h : ∀ output ∈ outputs, output.2.2 = true) :
    (settle s mode outputs).1.result = .ok (mode.statuses outputs) ∧
      (settle s mode outputs).2 = s.tree := by
  by_cases hmode : mode = .write
  · subst hmode
    exact writeOutputs_of_current h
  · exact settle_of_ne_write hmode

/-! ### All stages -/

/-- A run whose outputs could be compared ends as their settling does. -/
theorem generate_of_compared {s : Site} {o : Options} {artifacts : Emit.Artifacts}
    {g : Generation} {outputs : List (Path × String × Bool)}
    (hrender : (render s o).result = .ok (artifacts, g))
    (hcompare : compareOutputs s (o.outputs artifacts) = .ok outputs) :
    (generate s o).1.result =
        (settle s o.mode outputs).1.result.map (fun statuses => { g with outputs := statuses }) ∧
      (generate s o).2 = (settle s o.mode outputs).2 := by
  rcases hevents : render s o with ⟨events, rendered⟩
  rw [hevents] at hrender
  obtain rfl : rendered = .ok (artifacts, g) := hrender
  simp only [generate, hevents, hcompare, Told.lift, Told.ok_bind, Except.mapError]
  refine ⟨?_, rfl⟩
  change ((settle s o.mode outputs).1 >>= fun statuses =>
    (pure { g with outputs := statuses } : Told Failure Generation)).result = _
  rcases (settle s o.mode outputs).1 with ⟨events, fault | statuses⟩ <;> rfl

/-- A run whose outputs hold what is rendered finds them unchanged, in any mode. -/
theorem generate_of_readText {s : Site} {o : Options} {artifacts : Emit.Artifacts}
    {g : Generation} (hrender : (render s o).result = .ok (artifacts, g))
    (hcurrent : ∀ output ∈ o.outputs artifacts, s.readText output.1 = .ok output.2) :
    (generate s o).1.result = .ok { g with outputs := o.outputPaths.map (·, .unchanged) } ∧
      (generate s o).2 = s.tree := by
  have hcompare : compareOutputs s (o.outputs artifacts) =
      .ok [(o.nativePath, artifacts.native, true), (o.bindingPath, artifacts.binding, true)] :=
    compareOutputs_of_readText hcurrent
  obtain ⟨hresult, htree⟩ := generate_of_compared hrender hcompare
  obtain ⟨hstatuses, hkept⟩ := @settle_of_current s o.mode
    [(o.nativePath, artifacts.native, true), (o.bindingPath, artifacts.binding, true)] (by simp)
  rw [hresult, hstatuses, htree, hkept]
  exact ⟨rfl, rfl⟩

/-- A run that could not compare its outputs fails and leaves the tree as it is. -/
theorem generate_of_not_compared {s : Site} {o : Options}
    (h : ∀ artifacts g, (render s o).result = .ok (artifacts, g) →
      ∃ failure, compareOutputs s (o.outputs artifacts) = .error failure) :
    (∃ failure, (generate s o).1.result = .error failure) ∧ (generate s o).2 = s.tree := by
  rcases hrender : render s o with ⟨events, failure | ⟨artifacts, g⟩⟩
  · simp [generate, hrender]
  · obtain ⟨failure, hcompare⟩ := h artifacts g (by rw [hrender])
    simp [generate, hrender, hcompare, Told.lift, Except.mapError]

/-- A run either compares its outputs or leaves the tree as it is. -/
theorem compared_or_not (s : Site) (o : Options) :
    (∃ artifacts g outputs, (render s o).result = .ok (artifacts, g) ∧
      compareOutputs s (o.outputs artifacts) = .ok outputs) ∨
      ∀ artifacts g, (render s o).result = .ok (artifacts, g) →
        ∃ failure, compareOutputs s (o.outputs artifacts) = .error failure := by
  rcases hrender : (render s o).result with failure | ⟨artifacts, g⟩
  · exact .inr fun _ _ h => by cases h
  · rcases hcompare : compareOutputs s (o.outputs artifacts) with failure | outputs
    · refine .inr fun artifacts' g' h => ⟨failure, ?_⟩
      obtain ⟨rfl, rfl⟩ := Prod.mk.inj (Except.ok.inj h)
      exact hcompare
    · exact .inl ⟨artifacts, g, outputs, rfl, hcompare⟩

/-- **A run succeeds exactly when its three stages do.** -/
theorem generate_eq_ok_iff {s : Site} {o : Options} {g : Generation} :
    (generate s o).1.result = .ok g ↔
      ∃ artifacts g₀ outputs, (render s o).result = .ok (artifacts, g₀) ∧
        compareOutputs s (o.outputs artifacts) = .ok outputs ∧
        (settle s o.mode outputs).1.result = .ok (o.mode.statuses outputs) ∧
        g = { g₀ with outputs := o.mode.statuses outputs } := by
  constructor
  · intro h
    rcases compared_or_not s o with ⟨artifacts, g₀, outputs, hrender, hcompare⟩ | hnot
    · rw [(generate_of_compared hrender hcompare).1] at h
      rcases hsettle : (settle s o.mode outputs).1.result with failure | statuses
      · rw [hsettle] at h
        cases h
      · obtain rfl := settle_eq_ok hsettle
        rw [hsettle] at h
        exact ⟨artifacts, g₀, outputs, hrender, hcompare, hsettle, (Except.ok.inj h).symm⟩
    · obtain ⟨⟨failure, hfail⟩, -⟩ := generate_of_not_compared hnot
      rw [hfail] at h
      cases h
  · rintro ⟨artifacts, g₀, outputs, hrender, hcompare, hsettle, rfl⟩
    rw [(generate_of_compared hrender hcompare).1, hsettle]
    rfl

end Run

end ArgumentSchemes

import ArgumentSchemes.Config.Settings
import ArgumentSchemes.Proofs.PathSteps

/-!
# The default include path

The binding interface includes the native header by the path that it is written to, unless another
one is given. What it includes is made of the components of that path, with slashes put between
their texts.

Read as a path, the result takes the same steps: a component other than the root is the segment that
its text is, and the root is a slash, behind which the slash that separates it from the next
component is idle (`components_includePath`). So the include path tells two native headers apart
exactly when their components do. Read as a text, it is the path itself when that is in normal form
and relative; behind the root the separating slash is one too many (`includePath_of_isNormal`).

Main statement: a path in normal form is included as it is written unless steps follow the root, and
then with a second slash in front (`default_include_is_output_iff`).
-/

namespace ArgumentSchemes

namespace Files

namespace Path

/-! ### Components written with slashes between them -/

section Written

variable {steps : List Component}

/-- Behind the root, the slash that separates it from the first step is a second one. -/
theorem intercalate_text_root (hne : steps ≠ []) :
    "/".intercalate ((Component.root :: steps).map Component.text) =
      "/" ++ ("/" ++ "/".intercalate (steps.map Component.text)) := by
  rw [List.map_cons, String.intercalate_cons_of_ne_nil (by simpa using hne)]
  rfl

variable (h : ∀ c ∈ steps, c.IsSegment)

include h

theorem isAbsolute_intercalate_text :
    isAbsolute ⟨"/".intercalate (steps.map Component.text)⟩ = false := by
  rw [← Bool.not_eq_true, isAbsolute_iff]
  intro hhead
  obtain ⟨cs, hcs⟩ := List.head?_eq_some_iff.mp hhead
  rcases steps with _ | ⟨c, steps⟩
  · cases hcs
  -- the first component would be written as the empty segment in front of the slash
  have hsegments := segments_intercalate_text h (List.cons_ne_nil c steps)
  have hfirst : segments ("/".intercalate ((c :: steps).map Component.text)).toList =
      [] :: segments cs := congrArg segments hcs
  have hempty : c.text.toList = [] := (List.cons.inj (hsegments.symm.trans hfirst)).1
  have hreads := (h c List.mem_cons_self).reads
  rw [hempty] at hreads
  cases hreads

theorem intercalate_text_ne_empty (hne : steps ≠ []) :
    "/".intercalate (steps.map Component.text) ≠ "" := by
  intro hempty
  have hsteps := filterMap_segments_intercalate_text h
  rw [hempty] at hsteps
  exact hne hsteps.symm

/-- Segments with slashes between them are the steps of their path. -/
theorem rawSteps_intercalate_text :
    rawSteps ⟨"/".intercalate (steps.map Component.text)⟩ = steps := by
  rw [rawSteps_of_not_isAbsolute (isAbsolute_intercalate_text h),
    filterMap_segments_intercalate_text h]

/-- The root and segments with slashes between them: the slash behind the root is idle. -/
theorem rawSteps_intercalate_text_root :
    rawSteps ⟨"/".intercalate ((Component.root :: steps).map Component.text)⟩ = .root :: steps := by
  by_cases hne : steps = []
  · subst hne
    decide
  rw [intercalate_text_root hne, rawSteps_slash_append, segments_toList_slash_append]
  exact congrArg _ (filterMap_segments_intercalate_text h)

/-- Segments with slashes between them, none of them a `.`, are the components of their path. -/
theorem components_intercalate_text (hhere : .here ∉ steps) :
    components ⟨"/".intercalate (steps.map Component.text)⟩ = steps := by
  rw [components_eq_tidy, rawSteps_intercalate_text h, Component.tidy_eq_self hhere]

theorem components_slash_intercalate_text (hhere : .here ∉ steps) :
    components ⟨"/" ++ "/".intercalate (steps.map Component.text)⟩ = .root :: steps := by
  rw [components_eq_tidy, rawSteps_slash_append, filterMap_segments_intercalate_text h,
    Component.tidy_eq_self (by simpa using hhere)]

end Written

/-- The components of a path are segments, behind the root if the path starts from it. -/
theorem exists_components_eq (p : Path) : ∃ steps : List Component, (∀ c ∈ steps, c.IsSegment) ∧
    (p.components = steps ∨ p.components = .root :: steps) := by
  have hsegment : ∀ c ∈ (segments p.text.toList).filterMap stepOfSegment?, c.IsSegment :=
    fun c hc => isSegment_of_mem_filterMap_segments hc
  rw [components_eq_tidy]
  cases habsolute : p.isAbsolute with
  | true =>
    rw [rawSteps_of_isAbsolute habsolute, Component.tidy_of_head?_ne (by simp),
      List.filter_cons_of_pos (by simp)]
    exact ⟨_, fun c hc => hsegment c (List.mem_of_mem_filter hc), .inr rfl⟩
  | false =>
    rw [rawSteps_of_not_isAbsolute habsolute]
    exact ⟨_, fun c hc => hsegment c ((Component.tidy_sublist _).subset hc), .inl rfl⟩

/-- The components of a path, with slashes between their texts, make up a path that takes the same
steps. -/
theorem rawSteps_intercalate_components (p : Path) :
    rawSteps ⟨"/".intercalate (p.components.map Component.text)⟩ = p.components := by
  obtain ⟨steps, hsteps, hcomponents | hcomponents⟩ := p.exists_components_eq
  · rw [hcomponents, rawSteps_intercalate_text hsteps]
  · rw [hcomponents, rawSteps_intercalate_text_root hsteps]

end Path

/-! ### Normal form -/

/-- What a path in normal form has between its slashes: a name, or `..`. -/
@[mk_iff]
structure IsProper (segment : List Char) : Prop where
  ne_nil : segment ≠ []
  ne_here : segment ≠ ['.']
  slash_not_mem : '/' ∉ segment

instance (segment : List Char) : Decidable (IsProper segment) :=
  decidable_of_iff _ (isProper_iff segment).symm

/-- A path in **normal form**: single slashes separate its segments, none of them is a `.`, and no
slash stands behind the last one. -/
inductive Path.IsNormal : Path → Prop
  | relative (parts : List (List Char)) : parts ≠ [] → (∀ part ∈ parts, IsProper part) →
      IsNormal ⟨String.ofList (['/'].intercalate parts)⟩
  /-- The root alone is in normal form too. -/
  | absolute (parts : List (List Char)) : (∀ part ∈ parts, IsProper part) →
      IsNormal ⟨"/" ++ String.ofList (['/'].intercalate parts)⟩

/-- Proper segments are the texts of components. -/
theorem exists_components_of_isProper {parts : List (List Char)}
    (h : ∀ part ∈ parts, IsProper part) :
    ∃ steps : List Component, (∀ c ∈ steps, c.IsSegment) ∧ .here ∉ steps ∧
      String.ofList (['/'].intercalate parts) = "/".intercalate (steps.map Component.text) := by
  refine ⟨parts.filterMap stepOfSegment?, fun c hc => ?_, fun hhere => ?_, ?_⟩
  · obtain ⟨part, hpart, hstep⟩ := List.mem_filterMap.mp hc
    exact isSegment_of_stepOfSegment? hstep (h part hpart).slash_not_mem
  · obtain ⟨part, hpart, hstep⟩ := List.mem_filterMap.mp hhere
    exact (h part hpart).ne_here (stepOfSegment?_eq_here_iff.mp hstep)
  · have hpart : ∀ part ∈ parts,
        (stepOfSegment? part).map (String.toList ∘ Component.text) = some part := by
      intro part hpart
      rcases hstep : stepOfSegment? part with _ | c
      · exact absurd (stepOfSegment?_eq_none_iff.mp hstep) (h part hpart).ne_nil
      · exact congrArg some (toList_text_of_stepOfSegment? hstep)
    have htexts :=
      calc (parts.filterMap stepOfSegment?).map (String.toList ∘ Component.text)
          = parts.filterMap fun part =>
              (stepOfSegment? part).map (String.toList ∘ Component.text) := List.map_filterMap ..
        _ = parts.filterMap some := List.filterMap_congr hpart
        _ = parts := List.filterMap_some
    rw [← String.toList_inj, String.toList_ofList, String.toList_intercalate, List.map_map, htexts]
    rfl

end Files

namespace Config

open Files (Component Path)

namespace Layer

/-- **The include path takes the steps of the output path**, whatever text that has. -/
theorem components_includePath (p : Path) :
    (Files.Path.mk (includePath p)).components = p.components := by
  rw [Path.components_eq_tidy, includePath, Path.rawSteps_intercalate_components,
    Path.components_eq_tidy, Component.tidy_tidy]

theorem includePath_eq_iff {p q : Path} :
    includePath p = includePath q ↔ p.components = q.components := by
  refine ⟨fun h => ?_, fun h => by rw [includePath, includePath, h]⟩
  rw [← components_includePath p, ← components_includePath q, h]

/-- The include path of a path in normal form: its text, with a slash more if steps follow the
root. -/
theorem includePath_of_isNormal {p : Path} (h : p.IsNormal) :
    includePath p = if p.isAbsolute ∧ p.text ≠ "/" then "/" ++ p.text else p.text := by
  cases h with
  | relative parts hne hparts =>
    obtain ⟨steps, hsteps, hhere, htext⟩ := Files.exists_components_of_isProper hparts
    rw [htext, includePath, Path.components_intercalate_text hsteps hhere,
      Path.isAbsolute_intercalate_text hsteps]
    simp
  | absolute parts hparts =>
    obtain ⟨steps, hsteps, hhere, htext⟩ := Files.exists_components_of_isProper hparts
    rw [htext, includePath, Path.components_slash_intercalate_text hsteps hhere]
    by_cases hne : steps = []
    · subst hne
      decide
    · have hlong : "/" ++ "/".intercalate (steps.map Component.text) ≠ "/" := by
        simpa using Path.intercalate_text_ne_empty hsteps hne
      rw [Path.intercalate_text_root hne, if_pos ⟨Path.isAbsolute_slash_append _, hlong⟩]

theorem includePath_eq_text_iff {p : Path} (h : p.IsNormal) :
    includePath p = p.text ↔ p.isAbsolute = false ∨ p.text = "/" := by
  rw [includePath_of_isNormal h]
  split_ifs with hbelow
  · have hlonger : "/" ++ p.text ≠ p.text := fun heq =>
      List.cons_ne_self '/' p.text.toList (by simpa using congrArg String.toList heq)
    exact iff_of_false hlonger (by simpa using hbelow)
  · exact iff_of_true rfl (by simpa [imp_iff_not_or] using hbelow)

end Layer

/-- **The default include path is the output path** when that is in normal form and relative, or the
root; steps behind the root are included with a second slash in front of them. The include path
always takes the steps of the output path, and two output paths are included alike exactly when they
have the same components. -/
theorem default_include_is_output_iff {l : Layer} (hl : l.nativeInclude = none) :
    let output := l.settings.nativeOutput
    let included := l.settings.nativeInclude
    (output.IsNormal →
      (included = output.text ↔ output.isAbsolute = false ∨ output.text = "/") ∧
      (output.isAbsolute = true → output.text ≠ "/" → included = "/" ++ output.text)) ∧
    (Files.Path.mk included).components = output.components ∧
    ∀ m : Layer, m.nativeInclude = none →
      (m.settings.nativeInclude = included ↔
        m.settings.nativeOutput.components = output.components) := by
  intro output included
  have hincluded (m : Layer) (hm : m.nativeInclude = none) :
      m.settings.nativeInclude = Layer.includePath m.settings.nativeOutput := by
    rw [Layer.settings, hm, Option.getD_none]
  rw [show included = Layer.includePath output from hincluded l hl]
  refine ⟨fun hnormal => ⟨Layer.includePath_eq_text_iff hnormal, fun habsolute hroot => ?_⟩,
    Layer.components_includePath output, fun m hm => ?_⟩
  · rw [Layer.includePath_of_isNormal hnormal, if_pos ⟨habsolute, hroot⟩]
  · rw [hincluded m hm, Layer.includePath_eq_iff]

/-- A header beside the output directory, the same one written with idle segments, and one behind
the root. -/
theorem default_include_is_output_iff_beside :
    let l : Layer := { nativeOutput := some ⟨"../include/é.hpp"⟩ }
    let m : Layer := { nativeOutput := some ⟨"..//include/./é.hpp/"⟩ }
    let n : Layer := { nativeOutput := some ⟨"/include/é.hpp"⟩ }
    l.nativeInclude = none ∧ m.nativeInclude = none ∧ n.nativeInclude = none ∧
      l.settings.nativeOutput.IsNormal ∧ n.settings.nativeOutput.IsNormal ∧
      l.settings.nativeInclude = "../include/é.hpp" ∧
      m.settings.nativeInclude = "../include/é.hpp" ∧
      n.settings.nativeInclude = "//include/é.hpp" := by
  intro l m n
  have hl : l.nativeInclude = none := rfl
  have hm : m.nativeInclude = none := rfl
  have hn : n.nativeInclude = none := rfl
  have hnormal : l.settings.nativeOutput.IsNormal :=
    .relative ["..".toList, "include".toList, "é.hpp".toList] (by decide) (by decide)
  have hroot : n.settings.nativeOutput.IsNormal :=
    .absolute ["include".toList, "é.hpp".toList] (by decide)
  obtain ⟨hwritten, -, halike⟩ := default_include_is_output_iff hl
  obtain ⟨hbelow, -⟩ := default_include_is_output_iff hn
  have hincluded : l.settings.nativeInclude = "../include/é.hpp" :=
    (hwritten hnormal).1.mpr (.inl (by decide))
  exact ⟨hl, hm, hn, hnormal, hroot, hincluded, ((halike m hm).mpr (by decide)).trans hincluded,
    (hbelow hroot).2 (by decide) (by decide)⟩

/-- **Steps behind the root are included with two slashes** in front of them. -/
theorem absolute_output_included_otherwise :
    let l : Layer := { nativeOutput := some ⟨"/abs/b.hpp"⟩ }
    l.nativeInclude = none ∧ l.settings.nativeOutput.IsNormal ∧
      l.settings.nativeInclude = "//abs/b.hpp" ∧
      l.settings.nativeInclude ≠ l.settings.nativeOutput.text :=
  ⟨rfl, .absolute ["abs".toList, "b.hpp".toList] (by decide), by decide, by decide⟩

end Config

end ArgumentSchemes

import ArgumentSchemes.Emit.Artifact
import ArgumentSchemes.Files.Path
import ArgumentSchemes.Header.Checker

/-!
# Settings

The settings of a run come from several sources. A `Layer` is what one source says, where every
field may be left open. Layers are merged from the weakest to the strongest, field by field, and
`Layer.settings` fills what is still open with the defaults.

Main statements: merging is associative and the empty layer changes nothing on either side
(`Layer.merge_assoc`, `Layer.empty_merge`, `Layer.merge_empty`).
-/

namespace ArgumentSchemes.Config

open Files (Component)

/-- What one source of settings says. -/
structure Layer where
  /-- Which file names are those of headers. -/
  pattern : Option String := none
  /-- The namespace of the library. -/
  scope : Option String := none
  /-- The types that helpers are instantiated for; no types leave the field open. -/
  valueTypes : List String := []
  /-- The path of the native header, seen from the output directory. -/
  nativeOutput : Option Files.Path := none
  /-- The path of the binding interface, seen from the output directory. -/
  bindingOutput : Option Files.Path := none
  /-- The path under which the binding interface includes the native header. -/
  nativeInclude : Option String := none
  /-- The path of the license banner, seen from the scanned root. -/
  license : Option Files.Path := none
  /-- The marker that documented constants must not hold. -/
  reservedMarker : Option String := none
  /-- The tool that the outputs name. -/
  generator : Option String := none
deriving DecidableEq, Repr, Inhabited

/-- Complete settings. -/
structure Settings where
  pattern : String
  scope : String
  valueTypes : List String
  nativeOutput : Files.Path
  bindingOutput : Files.Path
  nativeInclude : String
  license : Files.Path
  reservedMarker : String
  generator : String
deriving DecidableEq, Repr

namespace Layer

/-- The value types of the stronger list, unless it is empty. -/
def mergeTypes (weak strong : List String) : List String := if strong.isEmpty then weak else strong

/-- Puts a stronger layer on top of a weaker one. -/
def merge (weak strong : Layer) : Layer where
  pattern := strong.pattern <|> weak.pattern
  scope := strong.scope <|> weak.scope
  valueTypes := mergeTypes weak.valueTypes strong.valueTypes
  nativeOutput := strong.nativeOutput <|> weak.nativeOutput
  bindingOutput := strong.bindingOutput <|> weak.bindingOutput
  nativeInclude := strong.nativeInclude <|> weak.nativeInclude
  license := strong.license <|> weak.license
  reservedMarker := strong.reservedMarker <|> weak.reservedMarker
  generator := strong.generator <|> weak.generator

theorem mergeTypes_assoc (a b c : List String) :
    mergeTypes (mergeTypes a b) c = mergeTypes a (mergeTypes b c) := by
  cases c <;> simp [mergeTypes]

@[simp] theorem empty_merge (l : Layer) : merge {} l = l := by
  cases l with
  | mk _ _ types => cases types <;> simp [merge, mergeTypes]

@[simp] theorem merge_empty (l : Layer) : merge l {} = l := by
  cases l; rfl

private theorem orElse_assoc' {α : Type} (a b c : Option α) :
    (c <|> b <|> a) = ((c <|> b) <|> a) := by
  cases c <;> rfl

theorem merge_assoc (a b c : Layer) : (a.merge b).merge c = a.merge (b.merge c) := by
  simp only [merge, mergeTypes_assoc, orElse_assoc']

/-- The path of the native header when no source gives one. -/
def defaultNativeOutput : Files.Path := ⟨"casadi/autogenerated.hpp"⟩

/-- The path of the binding interface when no source gives one. -/
def defaultBindingOutput : Files.Path := ⟨"swig/autogenerated.i"⟩

/-- The path of the license banner when no source gives one. -/
def defaultLicense : Files.Path := ⟨"misc/license_header.txt"⟩

/-- The text of a path with its components separated by slashes. -/
def includePath (p : Files.Path) : String := "/".intercalate (p.components.map Component.text)

/-- The settings that a layer amounts to. The native header is included by its own path unless
another one is given. -/
def settings (l : Layer) : Settings where
  pattern := l.pattern.getD "*.hpp"
  scope := l.scope.getD "CasADi"
  valueTypes := mergeTypes ["SXMatrix", "MX"] l.valueTypes
  nativeOutput := l.nativeOutput.getD defaultNativeOutput
  bindingOutput := l.bindingOutput.getD defaultBindingOutput
  nativeInclude := l.nativeInclude.getD (includePath (l.nativeOutput.getD defaultNativeOutput))
  license := l.license.getD defaultLicense
  reservedMarker := l.reservedMarker.getD "_NUM_"
  generator := l.generator.getD "schemegen"

end Layer

namespace Settings

/-- What drafts are checked against. -/
def checker (s : Settings) : Header.Checker := { reservedMarker := s.reservedMarker }

/-- How helpers are instantiated. -/
def binding (s : Settings) : Emit.BindingSettings where
  scope := s.scope
  valueTypes := s.valueTypes

/-- The text around the schemes, for a given license banner. The include guard is made from the
name of the native header. -/
def artifactOptions (s : Settings) (license : String) : Emit.ArtifactOptions where
  license
  generator := s.generator
  scope := s.scope
  nativeInclude := s.nativeInclude
  includeGuard := Emit.includeGuard (s.nativeOutput.fileName?.getD Emit.defaultHeaderName)

end Settings

end ArgumentSchemes.Config

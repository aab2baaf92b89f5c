import ArgumentSchemes.Emit.Target

/-!
# The binding instantiations

For the binding interface a scheme becomes one instantiation of its helper per value type, inside
the namespace of the library.
-/

namespace ArgumentSchemes.Emit

/-- How helpers are instantiated. -/
structure BindingSettings where
  /-- The namespace of the helpers. -/
  scope : String := "CasADi"
  /-- The types that every helper is instantiated for. -/
  valueTypes : List String := ["SXMatrix", "MX"]
deriving DecidableEq, Repr

/-- The instantiations of the helper of a scheme. -/
def BindingSettings.binding (b : BindingSettings) (s : Scheme) : Except SchemeFault String :=
  linesFor s <|
    [s!"namespace {b.scope} \x7b"]
      ++ b.valueTypes.map (fun type => s!"%template({s.name}) {s.name}<{type}>;") ++ ["\x7d"]

end ArgumentSchemes.Emit

import ArgumentSchemes.Emit.Target
import ArgumentSchemes.Text.CharClass

/-!
# The native helper

For the native header a scheme becomes a documented function template that takes one matrix per
argument, each with a default, and returns them as a vector in the order of their declaration.
-/

namespace ArgumentSchemes.Emit

open Text

/-- A line of documentation, without blanks at its end. -/
def docLine (text : String) : String := String.ofList (trimEnd ("/// " ++ text).toList)

/-- The documentation above the helper. -/
def nativeDoc (s : Scheme) : List String :=
  [s!"/// Helper function for '{s.group}'"] ++ (s.title :: s.summaryLines).map docLine
    ++ ["///", s!"/// \\copydoc scheme_{s.group}"]

/-- The helper itself. -/
def nativeBody (s : Scheme) : List String :=
  let params := joinWith "," (s.argNames.map fun name => s!"const M& {name}=M()")
  let args := joinWith "," s.argNames
  ["template<class M>",
    s!"std::vector<M> {s.name}({params})\x7b",
    s!"  M ret[{s.arity}] = \x7b{args}\x7d;",
    s!"  return std::vector<M>(ret,ret+{s.arity});",
    "\x7d"]

/-- The helper of a scheme in the native header. -/
def native (s : Scheme) : Except SchemeFault String := linesFor s (nativeDoc s ++ nativeBody s)

end ArgumentSchemes.Emit

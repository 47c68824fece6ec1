import StaticLiteral.Text

/-!
# Ranges of code points

A property of code points is stored as the increasing list of the closed ranges that have it.
-/

namespace StaticLiteral

/-- Closed ranges of code points, in increasing order. -/
abbrev Ranges := List (CodePoint × CodePoint)

/-- Whether one of the ranges holds `c`. -/
def Ranges.holds (rs : Ranges) (c : CodePoint) : Bool := rs.any fun r => r.1 ≤ c && c ≤ r.2

end StaticLiteral

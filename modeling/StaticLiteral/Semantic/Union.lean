/-!
# Unions

A union is given by its constituents. Joining members takes the constituents of each in turn and
drops those that are the same as an earlier one; joining nothing leaves the empty union, which has
a constituent of its own.
-/

namespace StaticLiteral.Union

variable {α : Type}

/-- The elements that are not the same as one of `seen` or an earlier element. -/
def distinctFrom (same : α → α → Bool) (seen : List α) : List α → List α
  | [] => []
  | x :: xs =>
    if seen.any (same · x) then distinctFrom same seen xs
    else x :: distinctFrom same (x :: seen) xs

/-- The elements without those that are the same as an earlier one. -/
def distinct (same : α → α → Bool) (xs : List α) : List α := distinctFrom same [] xs

/-- The constituents of the union of members, each given by its own constituents. -/
def join (same : α → α → Bool) (never : α) (members : List (List α)) : List α :=
  match distinct same members.flatten with
  | [] => [never]
  | xs => xs

end StaticLiteral.Union

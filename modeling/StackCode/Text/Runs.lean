/-!
# Sets of characters as runs

A set of characters is kept as the lengths of its runs in the order of the code points: how many are
left out, how many of the next ones belong to it, and so on. Behind the last run nothing belongs to
it.
-/

namespace StackCode

/-- Whether the number at a distance from here is in one of the runs. -/
def inRuns : List Nat → Nat → Bool
  | skipped :: taken :: rest, n =>
    if n < skipped then false
    else if n < skipped + taken then true
    else inRuns rest (n - (skipped + taken))
  | _, _ => false

end StackCode

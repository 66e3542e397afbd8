/-! # Character ranges

Membership of a character in a table of ascending closed ranges of code
points. The search halves the table, so a table of any size is consulted in a
few steps.
-/

namespace Settings.Text

/-- Search for `n` among the ranges from `lo` up to `hi`, in at most `fuel` halvings. -/
def searchRanges (table : Array (Nat × Nat)) (n : Nat) : Nat → Nat → Nat → Bool
  | 0, _, _ => false
  | fuel + 1, lo, hi =>
    if lo < hi then
      let mid := (lo + hi) / 2
      let (first, last) := table.getD mid (0, 0)
      if n < first then searchRanges table n fuel lo mid
      else if last < n then searchRanges table n fuel (mid + 1) hi
      else true
    else false

/-- The character lies in one of the ascending closed ranges of the table. -/
def inRanges (table : Array (Nat × Nat)) (c : Char) : Bool :=
  searchRanges table c.toNat (table.size + 1) 0 table.size

end Settings.Text

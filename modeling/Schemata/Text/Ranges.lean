/-!
# Tables of code points

A property of characters is kept as an ascending array of ranges. Membership halves the array
until one range is left.
-/

namespace Schemata.Text

/-- The last index in `[low, high)` whose entry starts at or before `c`, found by halving. -/
def lastStart {α : Type} (start : α → Nat) (table : Array α) (c : Nat) : Nat → Nat → Nat → Option α
  | 0, low, _ => table[low]?
  | fuel + 1, low, high =>
    if high ≤ low + 1 then table[low]?
    else
      let middle := (low + high) / 2
      match table[middle]? with
      | some entry =>
        if start entry ≤ c then lastStart start table c fuel middle high
        else lastStart start table c fuel low middle
      | none => table[low]?

/-- The entry of an ascending table that could hold `c`. -/
def entryFor {α : Type} (start : α → Nat) (table : Array α) (c : Nat) : Option α :=
  lastStart start table c 32 0 table.size

/-- Whether `c` lies in one of the ranges. -/
def inRanges (table : Array (Nat × Nat)) (c : Nat) : Bool :=
  match entryFor (·.1) table c with
  | some (low, high) => low ≤ c && c ≤ high
  | none => false

/-- Whether `c` lies in one of the stepped ranges. -/
def inRuns (table : Array (Nat × Nat × Nat)) (c : Nat) : Bool :=
  match entryFor (·.1) table c with
  | some (low, high, step) => low ≤ c && c ≤ high && (c - low) % step == 0
  | none => false

/-- The image of `c` under a table of stepped ranges with a distance each. -/
def mapRuns (table : Array (Nat × Nat × Nat × Int)) (c : Nat) : Option Nat :=
  match entryFor (·.1) table c with
  | some (low, high, step, distance) =>
    if low ≤ c && c ≤ high && (c - low) % step == 0 then some ((c : Int) + distance).toNat else none
  | none => none

end Schemata.Text

/-!
# Evaluation/Batch — cutting a list into batches
-/

namespace Datalog

/-- **The list in batches of `size`**, the last one possibly smaller; a size of 0 counts as 1. -/
def batches (size : Nat) (xs : List α) : List (List α) :=
  let size := max size 1
  (List.range ((xs.length + size - 1) / size)).map fun i => (xs.drop (i * size)).take size

end Datalog

/-!
# Json — values to export

The values an export is made of.  The fields of an object are in the order in which they were
written.
-/

namespace Datalog

/-- **A value to export.**  There are no fractions and no nulls, because nothing that is exported
has any. -/
inductive Json where
  | bool (b : Bool)
  | int (n : Int)
  | str (s : String)
  | arr (items : List Json)
  | obj (fields : List (String × Json))

end Datalog

import RecordQuery.Function.Numeric
import RecordQuery.Function.Object
import RecordQuery.Function.Reduction
import RecordQuery.Function.Sequence
import RecordQuery.Function.String

/-!
The functions that every query may call.
-/

namespace RecordQuery

def Library.standard : Library :=
  Function.reductions ++ Function.numerics ++ Function.sequences ++ Function.objects
    ++ Function.strings

end RecordQuery

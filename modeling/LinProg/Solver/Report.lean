import LinProg.Json.Value
import LinProg.Solver.Solution

/-!
# Solutions as JSON
-/

namespace LinProg

variable {K : Type} [Scalar K]

def Table.toJson (t : Table) : Json K :=
  .object
    [("headers", .ofList .string t.headers), ("rows", .ofList (.ofList .string) t.rows)]

def Solution.toJson (s : Solution K) : Json K :=
  .object
    [("isValid", .bool s.isValid), ("status", .string s.status.name),
      ("method", s.method.elim .null fun m => .string m.name),
      ("coordinates", .ofList .ofNumber s.coordinates), ("value", .ofNumber s.value),
      ("tableData", s.table.toJson)]

end LinProg

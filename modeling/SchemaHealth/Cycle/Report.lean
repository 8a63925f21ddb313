import SchemaHealth.Cycle.Search
import SchemaHealth.Graph.Components
import SchemaHealth.Graph.References
import SchemaHealth.Json.Value

/-!
# The cycle report

`CycleReport.ofGraph` puts together the cycles found in a graph, their statistics and the groups of
mutually reachable names. Of the longest and of the shortest cycles the first one is shown.
-/

namespace SchemaHealth

/-- Statistics of some cycles. -/
structure CycleSummary where
  total : Nat
  byLength : Dictionary Nat Nat
  /-- How often each name occurs in the paths; so the name at both ends of a path counts twice. -/
  involvement : Dictionary String Nat
  longest : Option Cycle
  shortest : Option Cycle

/-- The first cycle that no later one beats. -/
def Cycle.best (better : Nat → Nat → Bool) : List Cycle → Option Cycle
  | [] => none
  | c :: rest => some (rest.foldl (fun best c => if better c.length best.length then c else best) c)

/-- The statistics of some cycles. -/
def CycleSummary.ofCycles (cycles : List Cycle) : CycleSummary where
  total := cycles.length
  byLength := cycles.foldl (fun counts c => counts.increment c.length) .empty
  involvement := (cycles.flatMap (·.path)).foldl (fun counts name => counts.increment name) .empty
  longest := Cycle.best (fun a b => b < a) cycles
  shortest := Cycle.best (fun a b => a < b) cycles

/-- All about the cycles of a graph. -/
structure CycleReport where
  cycles : List Cycle
  summary : CycleSummary
  groups : List (List String)

/-- The report on a graph. -/
def CycleReport.ofGraph (g : Graph) : CycleReport :=
  ⟨g.cycles, .ofCycles g.cycles, g.components⟩

/-- The report on the references between the object types of a schema. -/
def Document.cycleReport (d : Document) : CycleReport := .ofGraph d.references

/-! ## As JSON -/

/-- A cycle as JSON. -/
def Cycle.toJson (c : Cycle) : Json :=
  .object [("path", .list .string c.path), ("length", .nat c.length),
    ("types", .list .string c.types)]

/-- The statistics as JSON. -/
def CycleSummary.toJson (s : CycleSummary) : Json :=
  .object [("totalCycles", .nat s.total),
    ("cyclesByLength", .object (s.byLength.toList.map fun entry =>
      (toString entry.1, .nat entry.2))),
    ("typeInvolvementCount", .dictionary .nat s.involvement),
    ("longestCycle", .option Cycle.toJson s.longest),
    ("shortestCycle", .option Cycle.toJson s.shortest)]

/-- The report as JSON. -/
def CycleReport.toJson (r : CycleReport) : Json :=
  .object [("totalCycles", .nat r.cycles.length), ("cycles", .list Cycle.toJson r.cycles),
    ("summary", r.summary.toJson), ("stronglyConnected", .list (.list .string) r.groups)]

end SchemaHealth

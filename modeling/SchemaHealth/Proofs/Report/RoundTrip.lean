import SchemaHealth.Report.Encoding
import SchemaHealth.Proofs.Json.Record

/-!
# Reports survive being written and read

Every part of a report is read back from what is written for it: a location whatever parts it
lacks (`Location.ofJson?_toJson`), findings as the list or the count that they were
(`Findings.ofJson?_toJson`), and the results of the rules. Scores have to be finite, since another
score is written `null`. A report that was read has finite scores (`Report.isFinite_of_ofJson?`),
so it survives being written and read again. `Report.round_trip` says both.
-/

namespace SchemaHealth

theorem Location.ofJson?_toJson (l : Location) : ofJson? l.toJson = some l := by
  unfold toJson ofJson?
  generalize members : (_ ++ _ : List (String × Json)) = fields
  have line : Json.optional? fields "line" Json.word? = some l.line :=
    Json.optional?_word (by simp [← members])
  have column : Json.optional? fields "column" Json.word? = some l.column :=
    Json.optional?_word (by simp [← members])
  have field : Json.optional? fields "field" Json.string? = some l.field :=
    Json.optional?_string (by simp [← members])
  have type : Json.optional? fields "type" Json.string? = some l.type :=
    Json.optional?_string (by simp [← members])
  have coordinate : Json.optional? fields "coordinate" Json.string? = some l.coordinate :=
    Json.optional?_string (by simp [← members])
  simp [Json.record?, line, column, field, type, coordinate]

theorem Violation.ofJson?_toJson (v : Violation) : ofJson? v.toJson = some v := by
  unfold toJson ofJson?
  generalize members : (_ :: _ : List (String × Json)) = fields
  have message : Json.required? fields "message" Json.string? = some v.message :=
    Json.required?_string (by simp [← members])
  have location : Json.required? fields "location" Location.ofJson? = some v.location :=
    Json.required?_eq (by simp [← members]) v.location.ofJson?_toJson
  simp [Json.record?, message, location]

/-- Itemised findings are written as an array, also when there are none, and a count as a number,
so each is read as what it was. -/
theorem Findings.ofJson?_toJson (f : Findings) : ofJson? f.toJson = some f := by
  cases f with
  | items violations =>
    exact congrArg (Option.map items) (Json.list?_list Violation.ofJson?_toJson violations)
  | count n => exact congrArg (Option.map count) (Json.word?_word n)

theorem RuleResult.ofJson?_toJson (r : RuleResult) : ofJson? r.toJson = some r := by
  unfold toJson ofJson?
  generalize members : (_ ++ _ : List (String × Json)) = fields
  have rule : Json.required? fields "rule" Json.string? = some r.rule :=
    Json.required?_string (by simp [← members])
  have findings : Json.required? fields "violations" Findings.ofJson? = some r.findings :=
    Json.required?_eq (by simp [← members]) r.findings.ofJson?_toJson
  have message : Json.required? fields "message" Json.string? = some r.message :=
    Json.required?_string (by simp [← members])
  have error : Json.optional? fields "error" Json.string? = some r.error :=
    Json.optional?_string (by simp [← members])
  simp [Json.record?, rule, findings, message, error]

namespace Report

/-- A report with finite figures survives writing and reading. -/
theorem ofJson?_toJson (r : Report) (scoreFinite : r.score.isFinite)
    (weightedFinite : r.weightedViolations.isFinite) : ofJson? r.toJson = some r := by
  unfold toJson ofJson?
  generalize members : (_ ++ _ : List (String × Json)) = fields
  have timestamp : Json.required? fields "timestamp" Json.string? = some r.timestamp :=
    Json.required?_string (by simp [← members])
  have subgraph : Json.optional? fields "subgraphName" Json.string? = some r.subgraph :=
    Json.optional?_string (by simp [← members])
  have score : Json.required? fields "score" Json.double? = some r.score :=
    Json.required?_eq (by simp [← members]) (Json.double?_real scoreFinite)
  have totalFields : Json.required? fields "totalFields" Json.word? = some r.totalFields :=
    Json.required?_eq (by simp [← members]) (Json.word?_word r.totalFields)
  have weighted : Json.required? fields "totalWeightedViolations" Json.double?
      = some r.weightedViolations :=
    Json.required?_eq (by simp [← members]) (Json.double?_real weightedFinite)
  have results : Json.required? fields "ruleResults" (Json.list? RuleResult.ofJson?)
      = some r.results :=
    Json.required?_eq (by simp [← members]) (Json.list?_list RuleResult.ofJson?_toJson r.results)
  have metadata : Json.optional? fields "metadata" Json.dictionary? = some r.metadata :=
    Json.optional?_eq (by simp [← members]) Json.dictionary?_dictionary nofun
  simp [Json.record?, timestamp, subgraph, score, totalFields, weighted, results, metadata]

/-- The scores of a report that was read are finite. -/
theorem isFinite_of_ofJson? {value : Json} {r : Report} (formed : value.WellFormed)
    (read : ofJson? value = some r) : r.score.isFinite ∧ r.weightedViolations.isFinite := by
  simp only [ofJson?, Option.bind_eq_bind, Option.bind_eq_some_iff] at read
  obtain ⟨fields, fieldsOf, _, _, _, _, score, scoreRead, _, _, weighted, weightedRead, _, _, _, _,
    made⟩ := read
  cases made
  have each := formed.of_record? fieldsOf
  exact ⟨Json.isFinite_of_required? each scoreRead, Json.isFinite_of_required? each weightedRead⟩

/-- A report that was read from a text is the one that is read again after it was written. -/
theorem ofJson?_toJson_of_parse? {text : String} {value : Json} {r : Report}
    (parsed : Json.parse? text = some value) (read : ofJson? value = some r) :
    ofJson? r.toJson = some r := by
  have finite := isFinite_of_ofJson? (Json.wellFormed_of_parse? parsed) read
  exact r.ofJson?_toJson finite.1 finite.2

/-- What is written for a report with finite scores is read as that report. So a report that was
read from a value is the one that is read again after it was written. -/
theorem round_trip :
    (∀ r : Report, r.score.isFinite → r.weightedViolations.isFinite →
      ofJson? r.toJson = some r) ∧
    (∀ (value : Json) (r : Report), value.WellFormed → ofJson? value = some r →
      ofJson? r.toJson = some r) := by
  constructor
  · exact ofJson?_toJson
  · intro value r formed read
    have finite := isFinite_of_ofJson? formed read
    exact r.ofJson?_toJson finite.1 finite.2

end Report

/-- A report with an empty list of findings, a bare count, and locations that lack parts. -/
def audit : Report where
  timestamp := "2025-01-01T00:00:00.000Z"
  subgraph := none
  score := 87.5
  totalFields := 12
  weightedViolations := 1.5
  results := [
    .ofViolations "naming" [] "No findings",
    .ofViolations "cycles" [⟨"A cycle", .ofCoordinate "Loan.book"⟩, ⟨"Elsewhere", .unknown⟩]
      "Found",
    .failed "deprecation" "no access"]
  metadata := some (.ofList [("owner", .array [.null, .number (.int (-3))])])

/-- A report as an array of its leading fields, with a whole number as score. -/
def audited : Json :=
  .array [.string "today", .null, .number (.int 90), .number (.int 4), .number (.real 0.5),
    .array [.object [("message", .string "ok"), ("rule", .string "naming"),
      ("violations", .number (.int 0))]]]

theorem audited_wellFormed : audited.WellFormed := by
  have whole : ∀ n : Int, 0 ≤ n → n ≤ 90 → (Json.number (.int n)).WellFormed := by
    intro n least most
    apply Json.WellFormed.number
    simp only [Decimal.Number.Fits, Decimal.signLimit, Decimal.largestWord]
    omega
  have half : (Json.number (.real 0.5)).WellFormed := .number (by decide : (0.5 : Float).isFinite)
  have result : (Json.object [("message", .string "ok"), ("rule", .string "naming"),
      ("violations", .number (.int 0))]).WellFormed :=
    .object (by simp [Json.WellFormed.string, whole])
  exact .array (by
    simp [Json.WellFormed.null, Json.WellFormed.string, Json.WellFormed.array, whole, half, result])

theorem round_trip_audit :
    Report.ofJson? audit.toJson = some audit ∧
    ∃ r, Report.ofJson? audited = some r ∧ Report.ofJson? r.toJson = some r := by
  constructor
  · exact Report.round_trip.1 audit (by decide) (by decide)
  · have read : Report.ofJson? audited
        = some ⟨"today", none, 90, 4, 0.5, [⟨"naming", .count 0, "ok", none⟩], none⟩ := by
      simp [audited, Report.ofJson?, Report.fieldNames, Json.record?, Json.required?,
        Json.optional?]
      rfl
    exact ⟨_, read, Report.round_trip.2 audited _ audited_wellFormed read⟩

end SchemaHealth

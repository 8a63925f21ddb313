import SchemaHealth.Proofs.CommandLine.Quiet
import SchemaHealth.Proofs.Schema.DocumentText
import SchemaHealth.Proofs.Settings.Accepted
import SchemaHealth.Proofs.Workspace.Written

/-!
# Scoring is all or nothing

Something can be wrong with what `score` is given in six ways (`ScoreFault`); otherwise it is ready
to score (`ReadyToScore`). All that can go wrong in these ways is a part of the quiet steps that
`score` begins with (`prepare`), and these succeed exactly when it is ready. Only then comes a step
that writes or prints: the report is put out, and the exit code tells afterwards whether the score
is high enough (`score_allOrNothing`).
-/

namespace SchemaHealth.CommandLine

variable {w : Workspace} {file : Option String} {o : ScoreOptions} {base s : Settings}
  {format : Format} {d : Document}

/-! ## Scores that are no numbers -/

/-- What is no number is neither below nor above anything. -/
theorem not_le_of_isNaN {x y : Float} (nan : x.isNaN ∨ y.isNaN) : ¬ x ≤ y := by
  have unordered {u v : Float.Model.UnpackedFloat} (nan : u.isNaN ∨ v.isNaN) : u.le v = false := by
    rcases nan with nan | nan
    · cases u with
      | notANumber => rfl
      | _ => cases nan
    · cases v with
      | notANumber => cases u <;> rfl
      | _ => cases nan
  intro le
  have le : x.toModel.unpack.le y.toModel.unpack = true := of_decide_eq_true le
  rw [unordered nan] at le
  cases le

/-! ## What can be wrong -/

/-- The settings without the rules that are skipped. -/
def ScoreOptions.inEffect (o : ScoreOptions) (base : Settings) : Settings :=
  o.skippedRules.foldl Settings.disable base

/-- Something is wrong with what a schema is scored with. -/
inductive ScoreFault (w : Workspace) (file : Option String) (o : ScoreOptions) : Prop
  | settingsFile {e : CommandError} : settings w file = .error e → ScoreFault w file o
  | format {base : Settings} {e : CommandError} : settings w file = .ok base →
    outputFormat o.format (o.inEffect base) = .error e → ScoreFault w file o
  | collector {base : Settings} {c : Collector} {e : SettingsError} :
    settings w file = .ok base → o.collector? (o.inEffect base) = some c →
    c.validate = .error e → ScoreFault w file o
  | settings {base : Settings} {e : SettingsError} : settings w file = .ok base →
    (o.inEffect base).validate = .error e → ScoreFault w file o
  | unreadable {e : CommandError} : readSchema w o.schema = .error e → ScoreFault w file o
  | malformed {text : String} {fault : Schema.Fault} : readSchema w o.schema = .ok text →
    Document.parse text = .error fault → ScoreFault w file o

/-- All that a schema is scored with is there: settings, a format and the schema. -/
structure ReadyToScore (w : Workspace) (file : Option String) (o : ScoreOptions) (s : Settings)
    (format : Format) (d : Document) : Prop where
  loads : ∃ base, settings w file = .ok base ∧ o.inEffect base = s
  format : outputFormat o.format s = .ok format
  collector : ∀ c, o.collector? s = some c → c.validate = .ok ()
  valid : s.validate = .ok ()
  schema : ∃ text, readSchema w o.schema = .ok text ∧ Document.parse text = .ok d

/-- There is no third case. -/
theorem scoreFault_or_ready (w : Workspace) (file : Option String) (o : ScoreOptions) :
    ScoreFault w file o ∨ ∃ s format d, ReadyToScore w file o s format d := by
  cases loaded : settings w file with
  | error e => exact .inl (.settingsFile loaded)
  | ok base =>
  cases chosen : outputFormat o.format (o.inEffect base) with
  | error e => exact .inl (.format loaded chosen)
  | ok format =>
  by_cases sends : ∃ c e, o.collector? (o.inEffect base) = some c ∧ c.validate = .error e
  · obtain ⟨c, e, sends, invalid⟩ := sends
    exact .inl (.collector loaded sends invalid)
  cases valid : (o.inEffect base).validate with
  | error e => exact .inl (.settings loaded valid)
  | ok _ =>
  cases content : readSchema w o.schema with
  | error e => exact .inl (.unreadable content)
  | ok text =>
  cases parsed : Document.parse text with
  | error fault => exact .inl (.malformed content parsed)
  | ok d =>
    refine .inr ⟨_, format, d, ⟨base, loaded, rfl⟩, chosen, fun c isCollector => ?_, valid, text,
      content, parsed⟩
    cases checked : c.validate with
    | error e => exact absurd ⟨c, e, isCollector, checked⟩ sends
    | ok _ => rfl

/-- The two cases exclude each other. -/
theorem ReadyToScore.not_scoreFault (ready : ReadyToScore w file o s format d) :
    ¬ ScoreFault w file o := by
  obtain ⟨⟨base, loaded, rfl⟩, chosen, collector, valid, text, content, parsed⟩ := ready
  intro fault
  cases fault with
  | settingsFile failed => cases loaded.symm.trans failed
  | format loaded' failed =>
      cases loaded.symm.trans loaded'
      cases chosen.symm.trans failed
  | collector loaded' sends failed =>
      cases loaded.symm.trans loaded'
      cases (collector _ sends).symm.trans failed
  | settings loaded' failed =>
      cases loaded.symm.trans loaded'
      cases valid.symm.trans failed
  | unreadable failed => cases content.symm.trans failed
  | malformed content' failed =>
      cases content.symm.trans content'
      cases parsed.symm.trans failed

/-! ## Before the report is put out -/

/-- Giving errors another name does not change what succeeds. -/
theorem mapError_eq_ok_iff {ε ε' α : Type} {x : Except ε α} {a : α} {name : ε → ε'} :
    x.mapError name = .ok a ↔ x = .ok a := by
  cases x with
  | error e => exact ⟨nofun, nofun⟩
  | ok b =>
      change Except.ok b = .ok a ↔ Except.ok b = .ok a
      rw [Except.ok.injEq, Except.ok.injEq]

theorem exists_parse_of_assess {network : Network} {rules : List Rule}
    {collector : Option Collector} {details : ReportDetails} {text : String}
    {assessment : Assessment}
    (assessed : assess network rules collector details text = .ok assessment) :
    ∃ d, Document.parse text = .ok d := by
  cases parsed : Document.parse text with
  | error fault =>
      rw [assess, parsed] at assessed
      cases assessed
  | ok d => exact ⟨d, rfl⟩

variable {network : Network} {timestamp : String} {session session' : Session}

/-- The check of the collector passes if there is none, or a valid one. -/
theorem checkCollector_eq_ok_iff {collector : Option Collector} :
    checkCollector collector = .ok () ↔ ∀ c, collector = some c → c.validate = .ok () := by
  cases collector with
  | none => exact ⟨fun _ => nofun, fun _ => rfl⟩
  | some c =>
    rw [checkCollector, check, mapError_eq_ok_iff]
    refine ⟨fun valid c' same => ?_, fun all => all c rfl⟩
    cases same
    exact valid

/-- What `score` does before it puts the report out. -/
def prepare (network : Network) (timestamp : String) (file : Option String) (o : ScoreOptions) :
    Action (Assessment × Format) := do
  assessSchema network timestamp (← loadSettings file) o

/-- Nothing is printed or written before the report is put out. -/
theorem isQuiet_prepare (network : Network) (timestamp : String) (file : Option String)
    (o : ScoreOptions) : IsQuiet (prepare network timestamp file o) :=
  (isQuiet_loadSettings file).bind fun base => isQuiet_assessSchema network timestamp base o

/-- The report on a schema under settings in effect. -/
def ScoreOptions.report (o : ScoreOptions) (s : Settings) (timestamp : String) (d : Document) :
    Report :=
  d.report s.activeRules (o.details s timestamp)

/-- The delivery of a report to the collector in effect. -/
def ScoreOptions.delivery (o : ScoreOptions) (s : Settings) (network : Network) (report : Report) :
    Option Delivery :=
  (o.collector? s).map fun c => c.deliver network report

/-- When all is ready the report is computed, whatever becomes of its delivery. -/
theorem ReadyToScore.prepare_eq (ready : ReadyToScore session.workspace file o s format d)
    (network : Network) (timestamp : String) :
    let report := o.report s timestamp d
    prepare network timestamp file o session
      = .ok (⟨report, o.delivery s network report⟩, format) session := by
  intro report
  obtain ⟨⟨base, loaded, rfl⟩, chosen, collector, valid, text, content, parsed⟩ := ready
  have isLoaded : loadSettings file session = .ok base session :=
    loadSettings_eq_ok_iff.2 ⟨loaded, rfl⟩
  have assessed : assess network (o.inEffect base).activeRules (o.collector? (o.inEffect base))
      (o.details (o.inEffect base) timestamp) text
      = .ok ⟨report, o.delivery (o.inEffect base) network report⟩ := by
    rw [assess, parsed]
    rfl
  refine (bind_of_eq_ok isLoaded).trans ?_
  refine (bind_of_eq_ok (lift_of_eq_ok chosen)).trans ?_
  refine (bind_of_eq_ok (lift_of_eq_ok (checkCollector_eq_ok_iff.2 collector))).trans ?_
  refine (bind_of_eq_ok (lift_of_eq_ok (mapError_eq_ok_iff.2 valid))).trans ?_
  refine (bind_of_eq_ok workspace_eq).trans ?_
  refine (bind_of_eq_ok (lift_of_eq_ok content)).trans ?_
  exact bind_of_eq_ok (lift_of_eq_ok (mapError_eq_ok_iff.2 assessed))

/-- The report is computed only when all is ready. -/
theorem exists_ready_of_prepare {result : Assessment × Format}
    (ran : prepare network timestamp file o session = .ok result session') :
    ∃ s format d, ReadyToScore session.workspace file o s format d := by
  obtain ⟨base, _, isLoaded, ran⟩ := exists_of_bind_eq_ok ran
  obtain ⟨loaded, rfl⟩ := loadSettings_eq_ok_iff.1 isLoaded
  obtain ⟨format, chosen, ran⟩ := exists_of_lift_bind_eq_ok ran
  obtain ⟨_, checked, ran⟩ := exists_of_lift_bind_eq_ok ran
  obtain ⟨_, valid, ran⟩ := exists_of_lift_bind_eq_ok ran
  rw [bind_of_eq_ok workspace_eq] at ran
  obtain ⟨text, content, ran⟩ := exists_of_lift_bind_eq_ok ran
  obtain ⟨assessment, assessed, -⟩ := exists_of_lift_bind_eq_ok ran
  obtain ⟨d, parsed⟩ := exists_parse_of_assess (mapError_eq_ok_iff.1 assessed)
  exact ⟨_, format, d, ⟨base, loaded, rfl⟩, chosen, checkCollector_eq_ok_iff.1 checked,
    mapError_eq_ok_iff.1 valid, text, content, parsed⟩

/-- When something is wrong, one of the quiet steps fails. -/
theorem ScoreFault.exists_prepare_eq (fault : ScoreFault session.workspace file o)
    (network : Network) (timestamp : String) :
    ∃ e, prepare network timestamp file o session = .error e session := by
  rcases (isQuiet_prepare network timestamp file o).ok_or_error session with ⟨result, ran⟩ | failed
  · obtain ⟨s, format, d, ready⟩ := exists_ready_of_prepare ran
    exact absurd fault ready.not_scoreFault
  · exact failed

/-! ## Putting the report out -/

/-- A score is asked for that is not reached. -/
def ScoreOptions.Misses (o : ScoreOptions) (score : Float) : Prop :=
  ∃ threshold, o.failUnder = some threshold ∧ ¬ threshold ≤ score

/-- The gate does no more than to say something, and it fails just the scores that miss the one that
is asked for. -/
theorem ScoreOptions.exists_gate_eq (o : ScoreOptions) (score : Float) (session : Session) :
    ∃ isFailing notices, o.gate score session = .ok isFailing { session with notices } ∧
      (isFailing = true ↔ o.Misses score) := by
  unfold gate Misses
  cases o.failUnder with
  | none => exact ⟨false, session.notices, rfl, by simp⟩
  | some threshold =>
    by_cases reached : threshold ≤ score
    · simp only [reached, if_true]
      exact ⟨false, session.notices, rfl, by simpa using reached⟩
    · simp only [reached, if_false]
      exact ⟨true, _, rfl, by simpa using reached⟩

theorem putOut_none (text : String) (session : Session) :
    putOut none text session = .ok () { session with output := session.output ++ text ++ "\n" } :=
  rfl

/-- A report that can be written is written, and nothing is printed on the standard output. -/
theorem putOut_of_write {written : Workspace} {path text : String}
    (wrote : session.workspace.write path text = .ok written) :
    putOut (some path) text session = .ok () { session with
      workspace := written
      notices := session.notices ++ ["Report written to: " ++ path] } := by
  have isWritten : Action.write path text (.unwritableReport path) session
      = .ok () { session with workspace := written } := by
    refine (bind_of_eq_ok workspace_eq).trans ?_
    exact bind_of_eq_ok (lift_of_eq_ok (mapError_eq_ok_iff.2 wrote))
  rw [putOut, bind_of_eq_ok isWritten]
  rfl

/-- A report that cannot be written leaves the session as it is. -/
theorem putOut_of_write_error {path text : String} {e : FileError}
    (refused : session.workspace.write path text = .error e) :
    putOut (some path) text session = .error (.unwritableReport path e) session := by
  have isRefused : Action.write path text (.unwritableReport path) session
      = .error (.unwritableReport path e) session := by
    rw [Action.write, bind_of_eq_ok workspace_eq, refused]
    rfl
  rw [putOut, bind_of_eq_error isRefused]

/-! ## Runs -/

variable {surroundings : Surroundings} {i : Invocation}

/-- What becomes of an invocation. -/
def Invocation.outcome (i : Invocation) (surroundings : Surroundings) : Outcome :=
  .of surroundings.workspace (i.run surroundings)

theorem Invocation.outcome_changes (i : Invocation) (surroundings : Surroundings) :
    (i.outcome surroundings).changes
      = (i.outcome surroundings).workspace.changes surroundings.workspace := rfl

section Run

variable (isScore : i.command = .score o)

include isScore

/-- The steps of `score`: the quiet ones, then the one that puts the report out, then the gate. -/
theorem run_eq (surroundings : Surroundings) : i.run surroundings
    = (prepare surroundings.network surroundings.timestamp i.settingsFile o >>= fun result => do
        putOut o.output (result.1.report.render result.2)
        o.gate result.1.report.score) (.start surroundings.workspace) := by
  rw [prepare, bind_assoc, Invocation.run, Invocation.action, isScore]
  rfl

/-- A fault makes the run fail in the session that it started with. -/
theorem ScoreFault.exists_outcome_eq
    (fault : ScoreFault surroundings.workspace i.settingsFile o) :
    ∃ e, i.outcome surroundings = .of surroundings.workspace
      (.error e (.start surroundings.workspace)) := by
  obtain ⟨e, failed⟩ : ∃ e, prepare surroundings.network surroundings.timestamp i.settingsFile o
      (.start surroundings.workspace) = .error e (.start surroundings.workspace) :=
    fault.exists_prepare_eq _ _
  exact ⟨e, by rw [Invocation.outcome, run_eq isScore, bind_of_eq_error failed]⟩

/-- When all is ready the report is put out first, and only the exit code and the notices depend on
the score. -/
theorem ReadyToScore.exists_outcome_of_putOut
    (ready : ReadyToScore surroundings.workspace i.settingsFile o s format d)
    (done : putOut o.output ((o.report s surroundings.timestamp d).render format)
      (.start surroundings.workspace) = .ok () session) :
    ∃ isFailing notices, i.outcome surroundings
        = .of surroundings.workspace (.ok isFailing { session with notices }) ∧
      (isFailing = true ↔ o.Misses (o.report s surroundings.timestamp d).score) := by
  obtain ⟨isFailing, notices, gated, isFailing_iff⟩ :=
    o.exists_gate_eq (o.report s surroundings.timestamp d).score session
  refine ⟨isFailing, notices, ?_, isFailing_iff⟩
  rw [Invocation.outcome, run_eq isScore, bind_of_eq_ok (ready.prepare_eq _ _), bind_of_eq_ok done,
    gated]

theorem ReadyToScore.outcome_of_putOut_error {e : CommandError}
    (ready : ReadyToScore surroundings.workspace i.settingsFile o s format d)
    (failed : putOut o.output ((o.report s surroundings.timestamp d).render format)
      (.start surroundings.workspace) = .error e session) :
    i.outcome surroundings = .of surroundings.workspace (.error e session) := by
  rw [Invocation.outcome, run_eq isScore, bind_of_eq_ok (ready.prepare_eq _ _),
    bind_of_eq_error failed]

/-- What is printed and written is what putting the report out prints and writes. -/
theorem ReadyToScore.puts
    (ready : ReadyToScore surroundings.workspace i.settingsFile o s format d) :
    let put := Ending.session (putOut o.output
      ((o.report s surroundings.timestamp d).render format) (.start surroundings.workspace))
    (i.outcome surroundings).output = put.output ∧
      (i.outcome surroundings).workspace = put.workspace := by
  cases done : putOut o.output ((o.report s surroundings.timestamp d).render format)
      (.start surroundings.workspace) with
  | ok _ session =>
      obtain ⟨isFailing, notices, isOutcome, -⟩ := ready.exists_outcome_of_putOut isScore done
      rw [isOutcome]
      exact ⟨rfl, rfl⟩
  | error e session =>
      rw [ready.outcome_of_putOut_error isScore done]
      exact ⟨rfl, rfl⟩

/-- The exit code tells whether the score that is asked for is missed. -/
theorem ReadyToScore.exitCode_eq
    (ready : ReadyToScore surroundings.workspace i.settingsFile o s format d)
    (writable : ∀ path, o.output = some path → ∃ written, surroundings.workspace.write path
      ((o.report s surroundings.timestamp d).render format) = .ok written) :
    let score := (o.report s surroundings.timestamp d).score
    (o.Misses score → (i.outcome surroundings).exitCode = 1) ∧
      (¬ o.Misses score → (i.outcome surroundings).exitCode = 0) := by
  intro score
  have done : ∃ session, putOut o.output ((o.report s surroundings.timestamp d).render format)
      (.start surroundings.workspace) = .ok () session := by
    cases output : o.output with
    | none => exact ⟨_, rfl⟩
    | some path =>
        obtain ⟨written, wrote⟩ := writable path output
        exact ⟨_, putOut_of_write wrote⟩
  obtain ⟨session, done⟩ := done
  obtain ⟨isFailing, notices, isOutcome, isFailing_iff⟩ :=
    ready.exists_outcome_of_putOut isScore done
  rw [isOutcome, ← isFailing_iff]
  exact ⟨fun fails => if_pos fails, fun passes => if_neg passes⟩

end Run

/-- Neither the network nor the score that is asked for matters for what can be wrong. -/
theorem ReadyToScore.of_gate (failUnder : Option Float)
    (ready : ReadyToScore w file o s format d) :
    ReadyToScore w file { o with failUnder } s format d :=
  ⟨ready.loads, ready.format, ready.collector, ready.valid, ready.schema⟩

theorem ScoreFault.of_gate (failUnder : Option Float) (fault : ScoreFault w file o) :
    ScoreFault w file { o with failUnder } := by
  refine (scoreFault_or_ready w file { o with failUnder }).resolve_right ?_
  rintro ⟨s, format, d, ready⟩
  exact absurd fault (ready.of_gate o.failUnder).not_scoreFault

/-- What is put out depends neither on the delivery nor on the score that is asked for. -/
theorem outcome_of_gate (isScore : i.command = .score o) (surroundings : Surroundings)
    (network : Network) (failUnder : Option Float) :
    let other := Invocation.outcome { i with command := .score { o with failUnder } }
      { surroundings with network }
    other.output = (i.outcome surroundings).output ∧
      other.workspace = (i.outcome surroundings).workspace := by
  intro other
  rcases scoreFault_or_ready surroundings.workspace i.settingsFile o with fault | ready
  · obtain ⟨e, isFailed⟩ := fault.exists_outcome_eq isScore
    obtain ⟨e', isFailed'⟩ : ∃ e, other = .of surroundings.workspace
        (.error e (.start surroundings.workspace)) :=
      (fault.of_gate failUnder).exists_outcome_eq rfl
    rw [isFailed, isFailed']
    exact ⟨rfl, rfl⟩
  · obtain ⟨s, format, d, ready⟩ := ready
    obtain ⟨output, workspace⟩ := ready.puts isScore
    -- Both put the same report out.
    obtain ⟨output', workspace'⟩ : _ ∧ other.workspace = _ := (ready.of_gate failUnder).puts rfl
    exact ⟨output'.trans output.symm, workspace'.trans workspace.symm⟩

/-- Scoring is all or nothing. Something is wrong with what a schema is scored with, and then
nothing but a failure comes of it: the steps before the one that fails have printed nothing and
changed no file. Or all is ready, and then the report is put out as it is, on the standard output or
in the file that is asked for, before the exit code tells whether the score that is asked for is
missed. Where one of the two is no number it is. What is put out depends neither on that score nor
on the network. -/
theorem score_allOrNothing (isScore : i.command = .score o) (surroundings : Surroundings) :
    let w := surroundings.workspace
    let outcome := i.outcome surroundings
    (ScoreFault w i.settingsFile o ∨
      ∃ s format d, ReadyToScore w i.settingsFile o s format d) ∧
    (ScoreFault w i.settingsFile o →
      outcome.exitCode = 1 ∧ outcome.output = "" ∧ outcome.workspace = w ∧ outcome.changes = []) ∧
    (∀ s format d, ReadyToScore w i.settingsFile o s format d →
      let report := o.report s surroundings.timestamp d
      let text := report.render format
      (o.output = none →
        outcome.output = text ++ "\n" ∧ outcome.workspace = w ∧ outcome.changes = []) ∧
      (∀ path written, o.output = some path → w.write path text = .ok written →
        outcome.output = "" ∧ outcome.workspace = written ∧ w.ChangesOnly written path ∧
        (¬ w.Discards path → written.read path = .ok text)) ∧
      ((∀ path, o.output = some path → ∃ written, w.write path text = .ok written) →
        (o.Misses report.score → outcome.exitCode = 1) ∧
        (¬ o.Misses report.score → outcome.exitCode = 0)) ∧
      (∀ path e, o.output = some path → w.write path text = .error e →
        outcome.exitCode = 1 ∧ outcome.output = "" ∧ outcome.workspace = w ∧
        outcome.changes = [])) ∧
    (∀ threshold score, o.failUnder = some threshold → (score.isNaN ∨ threshold.isNaN) →
      o.Misses score) ∧
    ∀ (network : Network) (failUnder : Option Float),
      let other := Invocation.outcome { i with command := .score { o with failUnder } }
        { surroundings with network }
      other.output = outcome.output ∧ other.workspace = outcome.workspace := by
  intro w outcome
  refine ⟨scoreFault_or_ready w i.settingsFile o, fun fault => ?fault,
    fun s format d ready => ?ready,
    fun threshold score asked nan => ⟨threshold, asked, not_le_of_isNaN nan.symm⟩,
    outcome_of_gate isScore surroundings⟩
  case fault =>
    obtain ⟨e, isFailed⟩ := fault.exists_outcome_eq isScore
    have isFailed : outcome = _ := isFailed
    rw [isFailed]
    exact ⟨rfl, rfl, rfl, w.changes_self⟩
  case ready =>
    obtain ⟨puts, leaves⟩ : outcome.output = _ ∧ outcome.workspace = _ := ready.puts isScore
    refine ⟨fun output => ?_, fun path written output wrote => ?_, ready.exitCode_eq isScore,
      fun path e output refused => ?_⟩
    · rw [output, putOut_none] at puts leaves
      dsimp only [Ending.session, Session.start] at puts leaves
      rw [String.empty_append] at puts
      refine ⟨puts, leaves, ?_⟩
      rw [i.outcome_changes, leaves, w.changes_self]
    · have put : putOut (some path) ((o.report s surroundings.timestamp d).render format)
          (.start w) = _ := putOut_of_write wrote
      rw [output, put] at puts leaves
      dsimp only [Ending.session] at puts leaves
      exact ⟨puts, leaves, Workspace.changesOnly_of_write wrote, Workspace.read_of_write wrote⟩
    · have isFailed : outcome = _ := ready.outcome_of_putOut_error isScore
        ((congrArg (putOut · _ _) output).trans (putOut_of_write_error refused))
      rw [isFailed]
      exact ⟨rfl, rfl, rfl, w.changes_self⟩

/-- A schema with one field. -/
def doorSchema : Document where
  types :=
    [ { name := ⟨"Door", by decide⟩
        body := .object [⟨⟨"lock", by decide⟩, .named ⟨"Lock", by decide⟩, [], .start⟩]
        isExtension := false
        directives := []
        position := .start } ]

/-- An empty folder with that schema on the standard input, out of reach of the network. -/
def doorSurroundings : Surroundings where
  workspace := .ofFiles "/work" [] doorSchema.text
  network _ _ := .error (.request "no route to host")
  timestamp := "2025-01-01T00:00:00.000Z"

/-- A report is asked for in a file, is to be sent, and is to reach no number. -/
def doorOptions (reportUrl : String) : ScoreOptions where
  schema := "-"
  format := some .json
  output := some "report.json"
  subgraph := none
  reportUrl
  headers := []
  reportTimeout := none
  metadata := []
  failUnder := some (0 / 0)
  skippedRules := ["PII"]

theorem exists_parse_door :
    ∃ d, Document.parse doorSchema.text = .ok d ∧ d.unplaced = doorSchema.unplaced := by
  refine Document.parse_text (List.cons_ne_nil _ _) (List.forall_mem_singleton.2 ⟨rfl, ?_, nofun⟩)
  simp [TypeDefinition.fields, TypeRef.SingleMarks]

theorem resolveNew_door :
    doorSurroundings.workspace.resolveNew "report.json" = .ok ["report.json".toList] := by
  decide

theorem not_discards_door : ¬ doorSurroundings.workspace.Discards "report.json" := by
  rintro ⟨parts, new, device⟩
  cases resolveNew_door.symm.trans new
  exact absurd device (by decide)

theorem exists_write_door (text : String) :
    ∃ written, doorSurroundings.workspace.write "report.json" text = .ok written := by
  have noFolder : doorSurroundings.workspace.isFolder ["report.json".toList] = false := by decide
  exact Workspace.exists_write_of_resolveNew resolveNew_door noFolder text

theorem collector?_door (reportUrl : String) (s : Settings) :
    (doorOptions reportUrl).collector? s = some (.atEndpoint reportUrl) := rfl

theorem validate_door : (Collector.atEndpoint "http://localhost/reports").validate = .ok () := by
  have isWeb : Collector.isWebAddress "http://localhost/reports" = true := by decide
  rw [Collector.validate, Collector.atEndpoint, isWeb]
  rfl

theorem validate_bareHost :
    (Collector.atEndpoint "localhost").validate = .error (.badEndpoint "localhost") := by
  have isNoWeb : Collector.isWebAddress "localhost" = false := by decide
  rw [Collector.validate, Collector.atEndpoint, isNoWeb]
  rfl

theorem ready_door (valid : base.validate = .ok ())
    (loaded : settings doorSurroundings.workspace none = .ok base)
    (parsed : Document.parse doorSchema.text = .ok d) :
    let o := doorOptions "http://localhost/reports"
    ReadyToScore doorSurroundings.workspace none o (o.inEffect base) .json d where
  loads := ⟨base, loaded, rfl⟩
  format := rfl
  collector c same := by
    rw [collector?_door "http://localhost/reports"] at same
    rw [← Option.some.inj same]
    exact validate_door
  valid := (Settings.validate_foldl_disable base _).trans valid
  schema := ⟨_, rfl, parsed⟩

theorem score_allOrNothing_door :
    let w := doorSurroundings.workspace
    let invocation (reportUrl : String) : Invocation :=
      ⟨none, .info, false, .score (doorOptions reportUrl)⟩
    (let o := doorOptions "http://localhost/reports"
      let done := (invocation "http://localhost/reports").outcome doorSurroundings
      done.exitCode = 1 ∧ done.output = "" ∧ ∃ base d, settings w none = .ok base ∧
        d.unplaced = doorSchema.unplaced ∧ done.workspace.read "report.json"
          = .ok ((o.report (o.inEffect base) doorSurroundings.timestamp d).render .json)) ∧
    let failed := (invocation "localhost").outcome doorSurroundings
    failed.exitCode = 1 ∧ failed.output = "" ∧ failed.workspace = w ∧ failed.changes = [] := by
  intro w invocation
  obtain ⟨base, loaded, valid⟩ : ∃ base, settings w none = .ok base ∧ base.validate = .ok () :=
    ⟨_, rfl, (Settings.isOfProject_ofProject _).validate_eq⟩
  obtain ⟨d, parsed, same⟩ := exists_parse_door
  refine ⟨?_, ?_⟩
  · intro o done
    have isScore : (invocation "http://localhost/reports").command = .score o := rfl
    obtain ⟨-, -, scored, noNumber, -⟩ := score_allOrNothing isScore doorSurroundings
    obtain ⟨-, written, exits, -⟩ := scored _ _ _ (ready_door valid loaded parsed)
    obtain ⟨changed, wrote⟩ := exists_write_door
      ((o.report (o.inEffect base) doorSurroundings.timestamp d).render .json)
    obtain ⟨output, workspace, -, content⟩ := written "report.json" changed rfl wrote
    have writable : ∀ path, o.output = some path → ∃ written, w.write path
        ((o.report (o.inEffect base) doorSurroundings.timestamp d).render .json)
          = .ok written := fun path same => by
      have same : some "report.json" = some path := same
      rw [← Option.some.inj same]
      exact ⟨changed, wrote⟩
    refine ⟨(exits writable).1 (noNumber _ _ rfl (.inr (by decide))), output, base, d, loaded,
      same, ?_⟩
    exact (congrArg (·.read "report.json") workspace).trans (content not_discards_door)
  · intro failed
    have isScore : (invocation "localhost").command = .score (doorOptions "localhost") := rfl
    obtain ⟨-, nothing, -⟩ := score_allOrNothing isScore doorSurroundings
    exact nothing (.collector loaded (collector?_door "localhost" _) validate_bareHost)

end SchemaHealth.CommandLine

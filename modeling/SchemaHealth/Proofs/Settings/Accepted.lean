import SchemaHealth.Proofs.Rule.Isolation
import SchemaHealth.Proofs.Rule.Places
import SchemaHealth.Proofs.Settings.SwitchedOff
import SchemaHealth.Settings.File

/-!
# Settings that are accepted

Settings are accepted when they pass their own checks. The checks include those of the policy for
blast radii, the only thing over which a rule can fail, so a report under accepted settings has no
failed results. A project always has accepted settings: those of the first of its files that loads,
or else the standard ones (`Settings.isOfProject_ofProject`), and switching rules off leaves alone
what is checked (`Settings.validate_foldl_disable`).
-/

namespace SchemaHealth

namespace Settings

variable {read : String → Except FileError String} {path : String} {s : Settings}

/-- A file gives settings: it can be read, its text holds them, and they are valid. -/
structure Loads (read : String → Except FileError String) (path : String) (s : Settings) :
    Prop where
  parsed : ∃ text, read path = .ok text ∧ parse? (.ofPath path) text = some s
  valid : s.validate = .ok ()

/-- The settings of a project are those of its first file that gives any, or else the standard
ones. -/
inductive IsOfProject (read : String → Except FileError String) : Settings → Prop
  | first {s : Settings} : Loads read projectFile s → IsOfProject read s
  | second {s : Settings} : (∀ other, ¬ Loads read projectFile other) →
    Loads read jsonProjectFile s → IsOfProject read s
  | neither : (∀ other, ¬ Loads read projectFile other) →
    (∀ other, ¬ Loads read jsonProjectFile other) → IsOfProject read standard

/-! ## Loading -/

/-- A file that cannot be read is reported as unreadable. -/
theorem load_of_unreadable {e : FileError} (content : read path = .error e) :
    load read path = .error (.unreadable path e) := by
  rw [load, content]
  rfl

/-- A file that cannot be understood is reported as malformed. -/
theorem load_of_malformed {text : String} (content : read path = .ok text)
    (parsed : parse? (.ofPath path) text = none) :
    load read path = .error (.malformed path) := by
  simp only [load, content, Except.mapError, bind, Except.bind, parsed]

/-- A file that holds settings gives them unless something is wrong with them. -/
theorem load_of_parsed {text : String} (content : read path = .ok text)
    (parsed : parse? (.ofPath path) text = some s) :
    load read path = s.validate.map fun _ => s := by
  simp only [load, content, Except.mapError, bind, Except.bind, parsed]
  cases s.validate <;> rfl

theorem Loads.load_eq (loads : Loads read path s) : load read path = .ok s := by
  obtain ⟨text, content, parsed⟩ := loads.parsed
  rw [load_of_parsed content parsed, loads.valid]
  rfl

/-- A file loads just when it gives settings: it is read, understood and valid. -/
theorem load_eq_ok_iff : load read path = .ok s ↔ Loads read path s := by
  refine ⟨fun loaded => ?_, Loads.load_eq⟩
  -- Of the ways in which a file can fail each gives an error, so none of them was taken.
  cases content : read path with
  | error e =>
      rw [load_of_unreadable content] at loaded
      cases loaded
  | ok text =>
      cases parsed : parse? (.ofPath path) text with
      | none =>
          rw [load_of_malformed content parsed] at loaded
          cases loaded
      | some settings =>
          rw [load_of_parsed content parsed] at loaded
          cases valid : settings.validate with
          | error e =>
              rw [valid] at loaded
              cases loaded
          | ok _ =>
              rw [valid] at loaded
              cases loaded
              exact ⟨⟨text, content, parsed⟩, valid⟩

/-- A file that fails to load gives no settings at all. -/
theorem not_loads_of_load_eq_error {e : SettingsError} (failed : load read path = .error e)
    (s : Settings) : ¬ Loads read path s := fun loads => by
  rw [loads.load_eq] at failed
  cases failed

/-- A project has the settings of the first of its files that loads, or else the standard ones. -/
theorem isOfProject_ofProject (read : String → Except FileError String) :
    IsOfProject read (ofProject read) := by
  rw [ofProject]
  cases first : load read projectFile with
  | ok s => exact .first (load_eq_ok_iff.1 first)
  | error e =>
      have noFirst := not_loads_of_load_eq_error first
      cases second : load read jsonProjectFile with
      | ok s => exact .second noFirst (load_eq_ok_iff.1 second)
      | error e => exact .neither noFirst (not_loads_of_load_eq_error second)

/-! ## Checks -/

/-- Whichever file the settings of a project come from, they are valid. -/
theorem IsOfProject.validate_eq (isOfProject : IsOfProject read s) : s.validate = .ok () := by
  cases isOfProject with
  | first loads => exact loads.valid
  | second _ loads => exact loads.valid
  | neither => rfl

/-- Switching rules off leaves alone what is checked. -/
theorem validate_foldl_disable (s : Settings) (names : List String) :
    (names.foldl disable s).validate = s.validate := by
  rw [foldl_disable_eq]
  rfl

/-- Valid settings have a valid policy. -/
theorem validate_blast (valid : s.validate = .ok ()) : s.blast.validate = .ok () := by
  rw [validate] at valid
  cases policy : s.blast.validate with
  | ok _ => rfl
  | error e =>
      rw [policy] at valid
      cases valid

/-- No rule fails under accepted settings. Switching rules off leaves settings accepted, and a
project has accepted settings whatever is in its files: those of the first of them that loads, or
else the standard ones. -/
theorem reports_of_accepted :
    (∀ s : Settings, s.validate = .ok () → ∀ (d : Document) (details : ReportDetails),
      ∀ result ∈ (d.report s.activeRules details).results, result.isFailure = false) ∧
    (∀ (s : Settings) (names : List String), (names.foldl disable s).validate = s.validate) ∧
    ∀ read : String → Except FileError String, IsOfProject read (ofProject read) ∧
      ∀ names : List String, (names.foldl disable (ofProject read)).validate = .ok () := by
  refine ⟨fun s valid d details result mem => ?_, validate_foldl_disable, fun read => ?_⟩
  · rw [Document.results_report] at mem
    obtain ⟨rule, active, rfl⟩ := List.mem_map.1 mem
    exact Rule.isFailure_run (List.mem_filter.1 active).1 (validate_blast valid) d
  · have own := isOfProject_ofProject read
    exact ⟨own, fun names => (validate_foldl_disable _ names).trans own.validate_eq⟩

end Settings

/-- A project whose first file has a threshold of zero, while the second one asks for a format. -/
def halfConfigured (path : String) : Except FileError String :=
  if path = Settings.projectFile then .ok "[blast_radius]\nmax_blast_radius = 0\n"
  else if path = Settings.jsonProjectFile then .ok "\x7b\"defaults\": [\"json\"]\x7d"
  else .error .noSuchFile

theorem reports_of_accepted_halfConfigured :
    let project := Settings.ofProject halfConfigured
    let s := ["PIIRule", "null_blast_radius"].foldl Settings.disable project
    Settings.load halfConfigured Settings.projectFile = .error .zeroThreshold ∧
      project.format = some "json" ∧ Settings.IsOfProject halfConfigured project ∧
      s.validate = .ok () ∧
      ∀ details, ∀ result ∈ (shop.report s.activeRules details).results,
        result.isFailure = false := by
  intro project s
  have content : halfConfigured Settings.projectFile
      = .ok "[blast_radius]\nmax_blast_radius = 0\n" := rfl
  have content' : halfConfigured Settings.jsonProjectFile
      = .ok "\x7b\"defaults\": [\"json\"]\x7d" := rfl
  have isToml : Settings.FileFormat.ofPath Settings.projectFile = .toml := by decide
  have isJson : Settings.FileFormat.ofPath Settings.jsonProjectFile = .json := by decide
  have faulty : Settings.parse? .toml "[blast_radius]\nmax_blast_radius = 0\n"
      = some { Settings.standard with blast := { BlastPolicy.standard with maxRadius := 0 } } := by
    decide +kernel
  have fine : Settings.parse? .json "\x7b\"defaults\": [\"json\"]\x7d"
      = some { Settings.standard with format := some "json" } := by decide +kernel
  rw [← isToml] at faulty
  rw [← isJson] at fine
  have first : Settings.load halfConfigured Settings.projectFile = .error .zeroThreshold := by
    rw [Settings.load_of_parsed content faulty]
    rfl
  have second : Settings.load halfConfigured Settings.jsonProjectFile
      = .ok { Settings.standard with format := some "json" } := by
    rw [Settings.load_of_parsed content' fine]
    rfl
  have chosen : project = { Settings.standard with format := some "json" } := by
    simp only [project, Settings.ofProject, first, second]
  obtain ⟨sound, _, ofProject⟩ := Settings.reports_of_accepted
  obtain ⟨own, accepted⟩ := ofProject halfConfigured
  have valid : s.validate = .ok () := accepted _
  exact ⟨first, by rw [chosen], own, valid, fun details => sound s valid shop details⟩

end SchemaHealth

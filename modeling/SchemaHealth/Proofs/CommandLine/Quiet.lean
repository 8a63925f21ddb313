import SchemaHealth.CommandLine.Run

/-!
# Steps that leave the session as it is

An action is quiet when it prints nothing and writes nothing, whether it succeeds or fails
(`IsQuiet`). Quiet actions one after the other are quiet, so a command that has taken only quiet
steps by the time one of them fails has done nothing.
-/

namespace SchemaHealth.CommandLine

/-- The action leaves the session as it is, also when it fails. -/
def IsQuiet (x : Action α) : Prop := ∀ session, Ending.session (x session) = session

variable {α β : Type} {x : Action α} {f : α → Action β} {session session' final : Session} {a : α}
  {b : β} {e : CommandError}

/-! ## One action after the other -/

/-- After an action that succeeds the next one goes on with its result and its session. -/
theorem bind_of_eq_ok (ran : x session = .ok a session') : (x >>= f) session = f a session' := by
  change EStateM.bind x f session = _
  rw [EStateM.bind, ran]

/-- An action that fails keeps the actions after it from being run. -/
theorem bind_of_eq_error (failed : x session = .error e session') :
    (x >>= f) session = .error e session' := by
  change EStateM.bind x f session = _
  rw [EStateM.bind, failed]

/-- Actions succeed together only when each of them does. -/
theorem exists_of_bind_eq_ok (ran : (x >>= f) session = .ok b final) :
    ∃ a session', x session = .ok a session' ∧ f a session' = .ok b final := by
  cases first : x session with
  | ok a session' => exact ⟨a, session', rfl, (bind_of_eq_ok first).symm.trans ran⟩
  | error e session' => cases (bind_of_eq_error first).symm.trans ran

/-- What only computes succeeds with its result, in the session that it was started in. -/
theorem lift_eq_ok_iff {result : Except CommandError α} :
    (liftM result : Action α) session = .ok a session' ↔ result = .ok a ∧ session = session' := by
  cases result with
  | error e => exact ⟨nofun, nofun⟩
  | ok a' =>
    refine ⟨fun ran => ?_, ?_⟩
    · cases ran
      exact ⟨rfl, rfl⟩
    · rintro ⟨same, rfl⟩
      cases same
      rfl

theorem lift_of_eq_ok {result : Except CommandError α} (computed : result = .ok a) :
    (liftM result : Action α) session = .ok a session :=
  lift_eq_ok_iff.2 ⟨computed, rfl⟩

theorem exists_of_lift_bind_eq_ok {result : Except CommandError α}
    (ran : ((liftM result : Action α) >>= f) session = .ok b final) :
    ∃ a, result = .ok a ∧ f a session = .ok b final := by
  obtain ⟨a, _, computed, ran⟩ := exists_of_bind_eq_ok ran
  obtain ⟨isResult, rfl⟩ := lift_eq_ok_iff.1 computed
  exact ⟨a, isResult, ran⟩

theorem workspace_eq : Action.workspace session = .ok session.workspace session := rfl

/-- The settings are those of the workspace as it is when they are loaded. -/
theorem loadSettings_eq_ok_iff {file : Option String} {s : Settings} :
    loadSettings file session = .ok s session' ↔
      settings session.workspace file = .ok s ∧ session = session' := by
  rw [loadSettings, bind_of_eq_ok workspace_eq, lift_eq_ok_iff]

/-! ## Quiet actions -/

/-- What only computes is quiet. -/
theorem isQuiet_lift (result : Except CommandError α) : IsQuiet (liftM result : Action α) := by
  intro session
  cases result with
  | error e => rfl
  | ok a => rfl

theorem isQuiet_pure (a : α) : IsQuiet (pure a : Action α) := fun _ => rfl

/-- To look at the workspace is quiet. -/
theorem isQuiet_workspace : IsQuiet Action.workspace := fun _ => rfl

/-- A quiet action succeeds or fails in the session that it was started in. -/
theorem IsQuiet.ok_or_error (quiet : IsQuiet x) (session : Session) :
    (∃ a, x session = .ok a session) ∨ ∃ e, x session = .error e session := by
  have same := quiet session
  cases ran : x session with
  | ok a session' =>
    rw [ran] at same
    exact .inl ⟨a, congrArg _ same⟩
  | error e session' =>
    rw [ran] at same
    exact .inr ⟨e, congrArg _ same⟩

/-- Quiet actions one after the other are quiet. -/
theorem IsQuiet.bind (quiet : IsQuiet x) (rest : ∀ a, IsQuiet (f a)) : IsQuiet (x >>= f) := by
  intro session
  rcases quiet.ok_or_error session with ⟨a, ran⟩ | ⟨e, failed⟩
  · rw [bind_of_eq_ok ran]
    exact rest a session
  · rw [bind_of_eq_error failed]
    rfl

/-! ## The quiet part of scoring -/

/-- To load the settings is quiet. -/
theorem isQuiet_loadSettings (file : Option String) : IsQuiet (loadSettings file) :=
  isQuiet_workspace.bind fun _ => isQuiet_lift _

/-- Nothing is printed or written while the assessment is made. -/
theorem isQuiet_assessSchema (network : Network) (timestamp : String) (s : Settings)
    (o : ScoreOptions) : IsQuiet (assessSchema network timestamp s o) := by
  refine (isQuiet_lift _).bind fun format => ?_
  refine (isQuiet_lift (checkCollector _)).bind fun _ => ?_
  refine (isQuiet_lift (check _)).bind fun _ => ?_
  refine isQuiet_workspace.bind fun w => (isQuiet_lift (readSchema w _)).bind fun text => ?_
  exact (isQuiet_lift _).bind fun assessment => isQuiet_pure (assessment, format)

end SchemaHealth.CommandLine

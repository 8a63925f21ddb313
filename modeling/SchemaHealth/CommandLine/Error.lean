import SchemaHealth.Schema.Reader
import SchemaHealth.Settings.Error

/-!
# What can stop a command

`CommandError.chain` explains an error from the outside in: what was being done, then what went
wrong with it.
-/

namespace SchemaHealth.CommandLine

/-- What a schema is read for. -/
inductive Purpose where
  | scoring
  | inspection
deriving DecidableEq, Repr

/-- Why a command was not carried out. -/
inductive CommandError where
  /-- The settings that are in effect are not valid. -/
  | settings (error : SettingsError)
  /-- The settings file named on the command line does not load. -/
  | settingsFile (path : String) (error : SettingsError)
  | unknownFormat (name : String)
  | unreadableInput (reason : FileError)
  | unreadableSchema (path : String) (reason : FileError)
  | badSchema (purpose : Purpose) (path : String) (fault : Schema.Fault)
  | unwritableReport (path : String) (reason : FileError)
  | starterFileExists (path : String)
  | unwritableStarterFile (path : String) (reason : FileError)
deriving DecidableEq, Repr

/-- One step of an explanation. -/
inductive Cause where
  | text (message : String)
  | fault (fault : Schema.Fault)
deriving DecidableEq, Repr

/-- The step in words. -/
def Cause.message : Cause → String
  | text message => message
  | fault f => f.message

/-- What was being done with a schema. -/
def Purpose.text : Purpose → String
  | scoring => "Failed to score "
  | inspection => "Failed to parse "

/-- The explanation of an error. -/
def CommandError.chain : CommandError → List Cause
  | settings e => [.text e.message]
  | settingsFile path e => [.text ("Failed to load config " ++ path), .text e.message]
  | unknownFormat name => [.text (SettingsError.unknownFormatMessage name)]
  | unreadableInput reason =>
    [.text "Failed to read schema from stdin", .text reason.message]
  | unreadableSchema path reason =>
    [.text ("Failed to read schema: " ++ path), .text reason.message]
  | badSchema purpose path f => [.text (purpose.text ++ path), .fault f]
  | unwritableReport path reason =>
    [.text ("Failed to write report: " ++ path), .text reason.message]
  | starterFileExists path =>
    [.text (path ++ " already exists; remove it first to regenerate")]
  | unwritableStarterFile path reason =>
    [.text ("Failed to write " ++ path), .text reason.message]

end SchemaHealth.CommandLine

import SchemaHealth.Workspace.FileError

/-!
# What can be wrong with settings

Settings come from a file, from the command line or from a caller. `SettingsError.message` is the
wording of what is wrong with them.
-/

namespace SchemaHealth

/-- What is wrong with settings. -/
inductive SettingsError where
  | zeroThreshold
  | warningAboveMax (warning max : Nat)
  | badEndpoint (endpoint : String)
  | zeroTimeout
  | unknownFormat (format : String)
  /-- A file cannot be read. -/
  | unreadable (path : String) (reason : FileError)
  /-- A file does not follow its format or holds values of the wrong types. -/
  | malformed (path : String)
deriving DecidableEq, Repr

namespace SettingsError

/-- The complaint about a format that is none. -/
def unknownFormatMessage (format : String) : String :=
  "Unknown format '" ++ format ++ "'. Valid formats: text, json"

/-- What is wrong, in words. -/
def reason : SettingsError → String
  | zeroThreshold => "blast radius thresholds must be at least 1"
  | warningAboveMax warning max =>
    "warning_threshold (" ++ toString warning ++ ") must not exceed max_blast_radius (" ++
      toString max ++ ")"
  | badEndpoint endpoint => "reporter endpoint must be an http(s) URL, got '" ++ endpoint ++ "'"
  | zeroTimeout => "reporter timeout_secs must be at least 1"
  | unknownFormat format => unknownFormatMessage format
  | unreadable path reason => "cannot read " ++ path ++ ": " ++ reason.message
  | malformed path => path ++ ": <invalid>"

/-- The message shown to a user. -/
def message (e : SettingsError) : String := "configuration error: " ++ e.reason

end SettingsError

end SchemaHealth

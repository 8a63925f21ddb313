import SchemaHealth.Dictionary
import SchemaHealth.Settings.Error

/-!
# Where reports are sent

A collector takes reports over HTTP. `DeliveryError.message` is the wording of a delivery that went
wrong.
-/

namespace SchemaHealth

/-- A place that reports are sent to. -/
structure Collector where
  endpoint : String
  headers : Dictionary String String
  /-- How long a delivery may take, in seconds. -/
  timeout : UInt64
deriving DecidableEq

namespace Collector

/-- The time that a delivery may take when nothing else is said. -/
def standardTimeout : UInt64 := 10

/-- A collector without headers of its own. -/
def atEndpoint (endpoint : String) : Collector := ⟨endpoint, .empty, standardTimeout⟩

/-- Whether a text is an address of the web. -/
def isWebAddress (text : String) : Bool :=
  "http://".toList.isPrefixOf text.toList || "https://".toList.isPrefixOf text.toList

/-- The endpoint is an address of the web and there is time for a delivery. -/
def validate (c : Collector) : Except SettingsError Unit :=
  if !isWebAddress c.endpoint then .error (.badEndpoint c.endpoint)
  else if c.timeout = 0 then .error .zeroTimeout
  else .ok ()

end Collector

/-- Why a report was not delivered. -/
inductive DeliveryError where
  | request (reason : String)
  | status (code : UInt64) (reason : String)
deriving DecidableEq, Repr

/-- The delivery that went wrong, in words. -/
def DeliveryError.message : DeliveryError → String
  | request reason => "failed to send report: " ++ reason
  | status code reason => "failed to send report: " ++ toString code.toNat ++ " " ++ reason

end SchemaHealth

import ImageTrust.Files.Tree
import ImageTrust.Url.Host
import ImageTrust.X509.Bundle

/-!
Why a configuration cannot be used, with the wording of each reason.
-/

namespace ImageTrust.Config

/-- What is wrong with the content of a configuration. -/
inductive Objection where
  | fileTooLarge
  | notUtf8
  | pathTooLong
  | componentTooLong
  | fieldEmpty (field : String)
  | fieldTooLong (field : String)
  | fieldComponentTooLong (field : String)
  | noDirectory (field : String)
  | noFile (field : String)
  | url (field : String) (fault : Url.Fault)
  | scheme (field name : String)
  | notBetween (field : String) (limit : Nat)
  | sinkWithoutPath
  | sectionMissing (name : String)
  | lifetimeTooLarge
  | variableUnset (name : String)
  | authorities (field : String) (fault : Bundle.Fault)
  deriving DecidableEq, Repr

def Objection.message : Objection → String
  | .fileTooLarge => "config file exceeds size limit"
  | .notUtf8 => "config file must be utf-8"
  | .pathTooLong => "config path exceeds max length"
  | .componentTooLong => "config path component too long"
  | .fieldEmpty field => s!"{field} must be non-empty"
  | .fieldTooLong field => s!"{field} exceeds max length"
  | .fieldComponentTooLong field => s!"{field} path component too long"
  | .noDirectory field => s!"{field} must be an existing directory"
  | .noFile field => s!"{field} must be an existing file"
  | .url field fault => s!"{field} is invalid: {fault.message}"
  | .scheme field name => s!"{field} scheme {name} is not allowed"
  | .notBetween field limit => s!"{field} must be between 1 and {limit}"
  | .sinkWithoutPath => "audit.path is required for the file sink"
  | .sectionMissing name => s!"[{name}] section is required"
  | .lifetimeTooLarge => "key_release.cache_ttl_seconds is too large"
  | .variableUnset name => s!"environment variable {name} is not set"
  | .authorities field fault => s!"{field} is unusable: {fault.message}"

/-- Why a configuration cannot be used. -/
inductive Fault where
  | io (cause : IoFault)
  | parse
  | invalid (objection : Objection)
  deriving DecidableEq, Repr

/-- The wording of a fault. Nothing is said about a text that is no configuration. -/
def Fault.message : Fault → String
  | .io cause => s!"config io error: {cause.message}"
  | .parse => "config parse error"
  | .invalid objection => s!"invalid config: {objection.message}"

end ImageTrust.Config

import FederatedQuery.Error.Breach
import FederatedQuery.Error.Fault

/-!
What can go wrong between a plan and its rows, with one code and one text for each cause.
-/
namespace FederatedQuery

/-- What can be wrong with a configuration. -/
inductive ConfigError where
  | unreadable
  | malformed
  | unknownDialect (name base : String)
  | invalidValue (key value : String)
deriving DecidableEq

inductive Error where
  | contract (breach : Breach)
  | unsupportedConversion (source target : String)
  /-- A target that cannot express a construct, and why. -/
  | unsupported (target construct reason : String)
  | unboundParameter (index : Nat)
  | eval (fault : Fault)
  | tableNotFound (name : String)
  /-- A failure of the store behind an adapter. -/
  | backend (adapter message : String)
  | config (cause : ConfigError)

namespace ConfigError

def code : ConfigError → String
  | unreadable => "ConfigRead"
  | malformed => "ConfigParse"
  | unknownDialect .. => "UnknownDialect"
  | invalidValue .. => "InvalidValue"

def message : ConfigError → String
  | unreadable => "failed to read compiler config"
  | malformed => "failed to parse compiler config"
  | unknownDialect name base => s!"dialect '{name}' is based on unknown preset '{base}'"
  | invalidValue key value => s!"invalid value '{value}' for {key}"

end ConfigError

namespace Error

def code : Error → String
  | contract _ => "ContractViolation"
  | unsupportedConversion .. => "UnsupportedConversion"
  | unsupported .. => "Unsupported"
  | unboundParameter _ => "UnboundParameter"
  | eval _ => "Eval"
  | tableNotFound _ => "TableNotFound"
  | backend .. => "Backend"
  | config _ => "Config"

def message : Error → String
  | contract breach => "contract violation: " ++ breach.message
  | unsupportedConversion source target =>
    s!"unsupported conversion from {source} to {target}"
  | unsupported _ _ reason => reason
  | unboundParameter i => s!"no value bound for dynamic parameter ?{i}"
  | eval fault => "evaluation error: " ++ fault.message
  | tableNotFound name => s!"table '{name}' not found"
  | backend adapter message => s!"backend error on {adapter}: {message}"
  | config cause => cause.message

def coded (e : Error) : String := s!"[{e.code}] {e.message}"

def isContract : Error → Bool
  | contract _ => true
  | _ => false

end Error

end FederatedQuery

import ImageTrust.Policy.Rule

/-!
Trust reports: the result of every rule for one instance. A report is trusted when it has results and
each of them is.
-/

namespace ImageTrust

open Json (Decoder Member)

/-- The outcome of one rule for one flavor. -/
structure RuleResult where
  rule : Rule
  flavorId : String
  faults : List RuleFault
  trusted : Bool
  deriving DecidableEq, Repr

/-- The outcome of all rules for one instance. -/
structure TrustReport where
  manifest : Manifest
  policyName : String
  results : List RuleResult
  trusted : Bool
  deriving DecidableEq, Repr

namespace RuleResult

/-- The result of a rule of a flavor. -/
def ofOutcome (rule : Rule) (flavorId : String) (o : RuleOutcome) : RuleResult :=
  ⟨rule, flavorId, o.faults, o.trusted⟩

def ruleMember : Member Rule := .required "rule" Rule.decoder
def flavorIdMember : Member String := .required "flavor_id" Json.text
def faultsMember : Member (List RuleFault) := .default "faults" (Json.list RuleFault.decoder) []
def trustedMember : Member Bool := .required "trusted" Json.boolean

def decoder : Decoder RuleResult :=
  Json.record "RuleResult"
    [ruleMember.check, flavorIdMember.check, faultsMember.check, trustedMember.check]
    fun p given => do
    let rule ← ruleMember.get p given
    let flavorId ← flavorIdMember.get p given
    let faults ← faultsMember.get p given
    let trusted ← trustedMember.get p given
    return ⟨rule, flavorId, faults, trusted⟩

/-- The faults, left out when there are none. -/
def faultsJson (faults : List RuleFault) : List (String × Json) :=
  if faults.isEmpty then [] else [("faults", .arr (faults.map RuleFault.toJson))]

def toJson (r : RuleResult) : Json :=
  .obj (("rule", r.rule.toJson) :: ("flavor_id", .str r.flavorId)
    :: (faultsJson r.faults ++ [("trusted", .bool r.trusted)]))

end RuleResult

/-- No result means no trust. -/
def aggregateTrust (results : List RuleResult) : Bool :=
  !results.isEmpty && results.all (·.trusted)

/-- The name of the policy for a kind of image. -/
def FlavorPart.policyName : FlavorPart → String
  | .image => "Intel VM Policy"
  | .containerImage => "Intel Container Policy"

namespace TrustReport

def ofResults (manifest : Manifest) (policyName : String) (results : List RuleResult) : TrustReport :=
  ⟨manifest, policyName, results, aggregateTrust results⟩

/-- All faults in order. -/
def faults (r : TrustReport) : List RuleFault :=
  r.results.flatMap (·.faults)

def manifestMember : Member Manifest := .required "instance_manifest" Manifest.decoder
def policyNameMember : Member String := .required "policy_name" Json.text
def resultsMember : Member (List RuleResult) := .required "results" (Json.list RuleResult.decoder)
def trustedMember : Member Bool := .required "trusted" Json.boolean

def decoder : Decoder TrustReport :=
  Json.record "InstanceTrustReport"
    [manifestMember.check, policyNameMember.check, resultsMember.check, trustedMember.check]
    fun p given => do
    let manifest ← manifestMember.get p given
    let policyName ← policyNameMember.get p given
    let results ← resultsMember.get p given
    let trusted ← trustedMember.get p given
    return ⟨manifest, policyName, results, trusted⟩

def toJson (r : TrustReport) : Json :=
  .obj [("instance_manifest", r.manifest.toJson), ("policy_name", .str r.policyName),
    ("results", .arr (r.results.map RuleResult.toJson)), ("trusted", .bool r.trusted)]

end TrustReport

end ImageTrust

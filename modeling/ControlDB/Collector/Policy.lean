import ControlDB.Python.Yaml

/-!
# The policy engine

`PolicyEngine` of `policy/engine.py` on policies from YAML files.  Forwarding to Open Policy Agent is
left out.  `canonicalHash` is the hash of `canonical_json`, or the exception it raises, and `text` is
`str` on a value that is not a text.
-/

namespace ControlDB
namespace Collector

open Library Python

/-- The result mapping of a rule. -/
abbrev RuleResult := List (Scalar × Yaml)

structure PolicyDecision where
  allowed : Bool
  requiresApproval : Bool
  reason : String
  policyId : Yaml
  policyVersion : Yaml
  policyHash : Yaml
  raw : RuleResult

/-- `self._policies`: the policies under their `policy_id`. -/
structure PolicyEngine where
  policies : List (YamlScalar × List (Scalar × Yaml)) := []

namespace PolicyEngine

/-- `self._policies.get(policy_id)`; among equal keys the last file counts. -/
def get (engine : PolicyEngine) (policyId : String) : Option (List (Scalar × Yaml)) :=
  (engine.policies.reverse.find? fun p =>
    match p.1 with
    | .json (.str s) => decide (s = policyId)
    | _ => false).map Prod.snd

/-! ## Loading -/

section Load

variable (canonicalHash : Yaml → Except PyException String)

/-- The body of the loop in `_load`; a list or mapping as `policy_id` is not hashable. -/
def loadFile (engine : PolicyEngine) (data : Yaml) : Except PyException PolicyEngine :=
  match data with
  | .obj members =>
      match Yaml.get members "policy_id" with
      | none => .ok engine
      | some policyId => do
          let policyHash ← canonicalHash data
          let policy := putMember members (.str "_policy_hash") (Yaml.str policyHash)
          match policyId with
          | .leaf key => .ok { policies := engine.policies ++ [(key, policy)] }
          | _ => .error .typeError
  | _ => .ok engine

/-- `_load` on the contents of the files, in the order of their paths. -/
def load (files : List Yaml) : Except PyException PolicyEngine :=
  files.foldlM (loadFile canonicalHash) {}

end Load

/-! ## Matching -/

/-- The operators of a condition and the tests they stand for, in the order they are made. -/
def operators (actual : PyJson) : List (String × (Yaml → Except PyException Bool)) :=
  [("eq", fun v => .ok (pyEq actual v)),
   ("ne", fun v => .ok (!pyEq actual v)),
   ("gt", compareNumber (fun x y => decide (x > y)) actual),
   ("gte", compareNumber (fun x y => decide (x ≥ y)) actual),
   ("lt", compareNumber (fun x y => decide (x < y)) actual),
   ("lte", compareNumber (fun x y => decide (x ≤ y)) actual),
   ("in", pyIn actual),
   ("not_in", fun v => (pyIn actual v).map not)]

/-- Every operator that stands in `expected` holds. -/
def holdsAll (expected : List (Scalar × Yaml)) :
    List (String × (Yaml → Except PyException Bool)) → Except PyException Bool
  | [] => .ok true
  | (name, test) :: rest =>
      match Yaml.get expected name with
      | none => holdsAll expected rest
      | some v => do if ← test v then holdsAll expected rest else .ok false

/-- The loop of `_match` over the items of the condition. -/
def matchItems (input : List (String × PyJson)) :
    List (Scalar × Yaml) → Except PyException Bool
  | [] => .ok true
  | (key, expected) :: rest => do
      let actual :=
        match key with
        | .str k => PyJson.get input k
        | _ => PyJson.none
      let holds ←
        match expected with
        | .obj expected => holdsAll expected (operators actual)
        | _ => .ok (pyEq actual expected)
      if holds then matchItems input rest else .ok false

/-- `_match`; a condition without `items` raises. -/
def matchCondition (condition : Yaml) (input : List (String × PyJson)) : Except PyException Bool :=
  match condition with
  | .obj items => matchItems input items
  | _ => .error .attributeError

/-! ## Evaluating -/

/-- `dict(rule.get("result", {}))`. -/
def ruleResult : Yaml → Except PyException RuleResult
  | .obj members => toDict ((Yaml.get members "result").getD (.obj []))
  | _ => .error .attributeError

/-- `rule["when"]`; the texts and lists that contain `"when"` raise. -/
def ruleWhen : Yaml → Except PyException Yaml
  | .obj members =>
      match Yaml.get members "when" with
      | some condition => .ok condition
      | none => .error .typeError
  | _ => .error .typeError

/-- The loop of `evaluate` over the rules: the result of the first one that applies. -/
def selectRule (input : List (String × PyJson)) :
    List Yaml → Except PyException (Option RuleResult)
  | [] => .ok none
  | rule :: rest => do
      if ← pyIn (PyJson.str "default") rule then
        some <$> ruleResult rule
      else if ← pyIn (PyJson.str "when") rule then
        if ← matchCondition (← ruleWhen rule) input then some <$> ruleResult rule
        else selectRule input rest
      else selectRule input rest

/-- `{"allowed": True, "requires_approval": False, "reason": reason}`. -/
def allowedResult (reason : String) : RuleResult :=
  [(.str "allowed", Yaml.bool true), (.str "requires_approval", Yaml.bool false),
   (.str "reason", Yaml.str reason)]

/-- The result mapping a policy has for an input. -/
def appliedResult (policy : List (Scalar × Yaml)) (input : List (String × PyJson)) :
    Except PyException RuleResult := do
  let rules ← iterate ((Yaml.get policy "rules").getD (.arr []))
  return (← selectRule input rules).getD (allowedResult "no rule matched")

section Evaluate

variable (text : Yaml → String)

/-- `bool(result.get("allowed", True))`. -/
def isAllowed (result : RuleResult) : Bool :=
  ((Yaml.get result "allowed").getD (Yaml.bool true)).truthy

/-- `bool(result.get("requires_approval", False))`. -/
def needsApproval (result : RuleResult) : Bool :=
  ((Yaml.get result "requires_approval").getD (Yaml.bool false)).truthy

/-- `str(value)`. -/
def toStr : Yaml → String
  | .leaf (.json (.str s)) => s
  | value => text value

/-- `_wrap`. -/
def wrap (policy : List (Scalar × Yaml)) (result : RuleResult) : PolicyDecision :=
  { allowed := isAllowed result
    requiresApproval := needsApproval result
    reason := toStr text ((Yaml.get result "reason").getD (Yaml.str ""))
    policyId := (Yaml.get policy "policy_id").getD Yaml.none
    policyVersion := (Yaml.get policy "policy_version").getD (Yaml.str "unversioned")
    policyHash := (Yaml.get policy "_policy_hash").getD Yaml.none
    raw := result }

/-- The decision where no policy has the given id. -/
def noPolicy (policyId : String) : PolicyDecision :=
  { allowed := true
    requiresApproval := false
    reason := "no policy registered"
    policyId := Yaml.str policyId
    policyVersion := Yaml.str "unversioned"
    policyHash := Yaml.str "sha256:0"
    raw := allowedResult "no policy registered" }

/-- `PolicyEngine.evaluate`. -/
def evaluate (engine : PolicyEngine) (policyId : String) (input : List (String × PyJson)) :
    Except PyException PolicyDecision :=
  match engine.get policyId with
  | none => .ok (noPolicy policyId)
  | some policy => (appliedResult policy input).map (wrap text policy)

end Evaluate

end PolicyEngine
end Collector
end ControlDB

import Segmentation.Rule.Reading

/-!
# Reachable rules

The rules that a catalog can lead to: the empty rule or one read from an expression, and whatever
building and editing make of a reachable rule. What holds of all rules that users meet is stated for
these.
-/

namespace Segmentation.Rule

/-- A rule that arises from reading, building and editing over a catalog. -/
inductive Reachable (c : Catalog) : Rule → Prop
  | empty : Reachable c {}
  | ofText {s : String} {r : Rule} : ofText c s = .ok r → Reachable c r
  | build {r : Rule} (config : Config) : Reachable c r → Reachable c (r.build c config)
  | setNegate {r : Rule} (negate : Bool) : Reachable c r → Reachable c (r.setNegate negate)
  | setField {r : Rule} (field : Option String) : Reachable c r → Reachable c (r.setField c field)
  | setOperation {r : Rule} (operation : Option String) :
    Reachable c r → Reachable c (r.setOperation c operation)
  | setArgument {r : Rule} (i : Nat) (raw : String) :
    Reachable c r → Reachable c (r.setArgument c i raw).1

end Segmentation.Rule

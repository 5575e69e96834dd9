import Segmentation.Rule.Text
import Segmentation.Expr.Reader

/-!
# Rules from expressions

A rule is reopened from the text of an expression by building it from the configuration that the
expression stands for.
-/

namespace Segmentation.Rule

/-- The rule of an expression. -/
def ofText (c : Catalog) (s : String) : Except Expr.Error Rule :=
  (Expr.parse s).map fun config => ({} : Rule).build c config

end Segmentation.Rule

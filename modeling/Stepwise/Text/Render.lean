import Stepwise.Text.Quoted

/-!
# Values in reports

The text of a value in a report, and the two forms of a report on something that holds one value:
in one line, and with the value on a line of its own.
-/

namespace Stepwise
set_option autoImplicit false

/-- The types whose values have a text in reports. -/
class Render (α : Type) where
  render : α → String

instance : Render Unit where
  render _ := "()"

instance : Render Bool where
  render b := if b then "true" else "false"

instance : Render Int32 where
  render n := toString n.toInt

namespace Text

/-- A named holder of one value, in one line. -/
def inline {α : Type} [Render α] (name : String) (a : α) : String :=
  name ++ "(" ++ Render.render a ++ ")"

/-- A named holder of one value, with the value on a line of its own. -/
def spread {α : Type} [Render α] (name : String) (a : α) : String :=
  name ++ "(\n    " ++ Render.render a ++ ",\n)"

end Text

end Stepwise

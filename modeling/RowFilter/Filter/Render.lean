import RowFilter.Filter.Basic

/-!
# Filters as text

A filter is written with as few parentheses as its reading needs: `&` binds tighter than `|`,
and both group to the left, so a left operand is wrapped only if it binds looser, a right
operand also if it binds equally. A parameter is a question mark, unless it is shown with the
value supplied for it.
-/

namespace RowFilter

/-- The sign of a junction. -/
def Junction.symbol : Junction → String
  | .and => "&"
  | .or => "|"

namespace Leaf

/-- The operand as text: a constant by its value, a parameter by its value or a question mark. -/
def renderOperand (valueOf : Leaf → Option Value) (l : Leaf) : String :=
  match l.operand with
  | .constant v => v.render
  | _ =>
    match valueOf l with
    | some v => v.render
    | none => "?"

/-- The comparison as text, its parameter replaced by its value if there is one. -/
def renderWith (valueOf : Leaf → Option Value) (l : Leaf) : String :=
  l.chain.render ++ " " ++ l.shape.op.symbol ++ " " ++ l.renderOperand valueOf

/-- The comparison as text. -/
def render (l : Leaf) : String :=
  l.renderWith fun _ => none

end Leaf

namespace Filter

/-- How tightly the top of the filter binds. -/
def precedence : Filter → Nat
  | junction _ .or _ _ => 1
  | junction _ .and _ _ => 2
  | _ => 3

/-- The text, in parentheses if asked for. -/
def wrap (parenthesize : Bool) (text : String) : String :=
  if parenthesize then "(" ++ text ++ ")" else text

/-- The filter as text, each parameter replaced by its value if there is one. -/
def renderWith (valueOf : Leaf → Option Value) : Filter → String
  | opened _ => "open"
  | closed _ => "closed"
  | compare l => l.renderWith valueOf
  | existence _ c negated sub =>
    (if negated then "!" else "") ++ c.render ++ "(" ++
      (if sub.isOpen then "" else sub.renderWith valueOf) ++ ")"
  | f@(junction _ kind left right) =>
    wrap (left.precedence < f.precedence) (left.renderWith valueOf) ++ " " ++ kind.symbol ++ " " ++
      wrap (right.precedence ≤ f.precedence) (right.renderWith valueOf)

/-- The filter as text. -/
def render (f : Filter) : String :=
  f.renderWith fun _ => none

/-- The filter as text, with the entity it is about. -/
def renderTyped (f : Filter) : String :=
  "Filter<" ++ f.entity ++ ">(" ++ f.render ++ ")"

end Filter

end RowFilter

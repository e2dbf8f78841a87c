import RowFilter.Filter.Render

/-!
# Filters as plans

A plan shows a filter in lines, one for each test and one over each run of a junction, the
operands of a run and the filter of an existence test indented beneath.
-/

namespace RowFilter

/-- The word for a junction in a plan. -/
def Junction.heading : Junction → String
  | .and => "AND"
  | .or => "OR"

/-- A line of a plan, two spaces in for each level. -/
def planLine (level : Nat) (text : String) : String :=
  String.ofList (List.replicate (2 * level) ' ') ++ text ++ "\n"

namespace Filter

/-- The lines of a filter at some level. Inside a run of its own kind a junction has no line. -/
def planLines : (run : Option Junction) → (level : Nat) → Filter → List String
  | _, level, opened _ => [planLine level "OPEN"]
  | _, level, closed _ => [planLine level "CLOSED"]
  | _, level, compare l => [planLine level l.render]
  | _, level, existence _ c negated sub =>
    planLine level ((if negated then "NOT " else "") ++ "EXISTS " ++ c.render) ::
      if sub.isOpen then [] else sub.planLines none (level + 1)
  | run, level, junction _ kind left right =>
    if run = some kind then
      left.planLines (some kind) level ++ right.planLines (some kind) level
    else
      planLine level kind.heading ::
        (left.planLines (some kind) (level + 1) ++ right.planLines (some kind) (level + 1))

/-- The filter as a plan. -/
def explain (f : Filter) : String :=
  String.join (f.planLines none 0)

end Filter

end RowFilter

/-!
# Configuration

Whether parsed filters are remembered, how many clauses a normal form may have, and how deep a
filter may be. Both limits are at least one, and the type says so.
-/

namespace RowFilter

/-- What can be wrong with a configuration. -/
inductive ConfigError where
  /-- The document is not a list of settings of the right types. -/
  | unreadable
  | noClauses
  | noDepth
deriving DecidableEq, Repr

/-- The wording of a configuration error. -/
def ConfigError.message : ConfigError → String
  | .unreadable => "config parse error"
  | .noClauses => "invalid config: max_normal_form_clauses must be at least 1"
  | .noDepth => "invalid config: max_filter_depth must be at least 1"

/-- A valid configuration. -/
structure Config where
  /-- Parsed filters are remembered by entity and token text. -/
  parseCache : Bool := true
  /-- The greatest number of clauses of a normal form. -/
  maxClauses : Nat := 4096
  /-- The greatest depth of a filter, and of the nesting of its text. -/
  maxDepth : Nat := 256
  maxClauses_pos : 0 < maxClauses := by decide
  maxDepth_pos : 0 < maxDepth := by decide
deriving DecidableEq

namespace Config

/-- The configuration without any settings of its own. -/
def standard : Config := {}

instance : Inhabited Config := ⟨standard⟩

/-- The configuration with these settings; the clause limit is checked first. -/
def of (parseCache : Bool) (maxClauses maxDepth : Nat) : Except ConfigError Config :=
  if hc : 0 < maxClauses then
    if hd : 0 < maxDepth then .ok ⟨parseCache, maxClauses, maxDepth, hc, hd⟩
    else .error .noDepth
  else .error .noClauses

end Config

end RowFilter

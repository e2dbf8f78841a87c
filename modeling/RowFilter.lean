import RowFilter.Text.CharacterClass
import RowFilter.Text.Quoted
import RowFilter.Number.Binary64
import RowFilter.Schema.Build
import RowFilter.Value.Coerce
import RowFilter.Config.Document
import RowFilter.Chain.Basic
import RowFilter.Grammar.Scan
import RowFilter.Chain.Resolve
import RowFilter.Filter.Render
import RowFilter.Filter.Bind
import RowFilter.Filter.Complement
import RowFilter.Context
import RowFilter.Builder
import RowFilter.Grammar.Reader
import RowFilter.Building
import RowFilter.Filter.NormalForm
import RowFilter.Filter.Cost
import RowFilter.Filter.Plan
import RowFilter.Filter.Outline
import RowFilter.Wire.Encode
import RowFilter.Wire.Decode
import RowFilter.Wire.Outline
import RowFilter.Pool.Request
import RowFilter.Proofs.Sessions
import RowFilter.Proofs.Declared
import RowFilter.Proofs.Complements
import RowFilter.Proofs.Meaning
import RowFilter.Proofs.Parameters
import RowFilter.Proofs.Scanning
import RowFilter.Proofs.Wording
import RowFilter.Proofs.RoundTrip
import RowFilter.Proofs.Evaluation
import RowFilter.Proofs.Reordering
import RowFilter.Proofs.Outlines
import RowFilter.Proofs.ValueSets
import RowFilter.Proofs.Numbering
import RowFilter.Proofs.Freshness
import RowFilter.Proofs.Conserving
import RowFilter.Proofs.Nesting
import RowFilter.Proofs.Duality
import RowFilter.Proofs.Restoring
import RowFilter.Proofs.Payloads
import RowFilter.Proofs.TextNesting
import RowFilter.Proofs.NormalForms
import RowFilter.Proofs.Ways
import RowFilter.Proofs.Costs
import RowFilter.Proofs.CostOrder
import RowFilter.Proofs.OrderedForms
import RowFilter.Proofs.Occurrences
import RowFilter.Proofs.BindingClauses
import RowFilter.Proofs.Supplying
import RowFilter.Proofs.ReadingValues
import RowFilter.Proofs.Tiling
import RowFilter.Proofs.Resolving
import RowFilter.Proofs.Positions
import RowFilter.Proofs.Blanks
import RowFilter.Proofs.Pointing
import RowFilter.Proofs.Composing
import RowFilter.Proofs.Coercing
import RowFilter.Proofs.ChainTexts
import RowFilter.Proofs.PlanLines
import RowFilter.Proofs.Plans

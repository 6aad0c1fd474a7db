import SearchCriteria.Text.Blank
import SearchCriteria.Text.Digit
import SearchCriteria.Text.Pattern
import SearchCriteria.Text.Printable
import SearchCriteria.Text.Quoted
import SearchCriteria.Number.Binary64
import SearchCriteria.Number.Integral
import SearchCriteria.Number.Numeral
import SearchCriteria.Number.Shortest
import SearchCriteria.Association
import SearchCriteria.Distinct
import SearchCriteria.Value.Basic
import SearchCriteria.Value.Convert
import SearchCriteria.Value.Equal
import SearchCriteria.Value.Hashable
import SearchCriteria.Value.Literal
import SearchCriteria.Value.Mapping
import SearchCriteria.Join.Basic
import SearchCriteria.Join.Mode
import SearchCriteria.Join.Wrapper
import SearchCriteria.Expression.Build
import SearchCriteria.Expression.Fragment
import SearchCriteria.Expression.Lookup
import SearchCriteria.Expression.Render
import SearchCriteria.Expression.Resolution
import SearchCriteria.Criteria.Basic
import SearchCriteria.Criteria.Clauses
import SearchCriteria.Criteria.InPlace
import SearchCriteria.Criteria.Patch
import SearchCriteria.Criteria.Storage
import SearchCriteria.Config
import SearchCriteria.Diagnostic
import SearchCriteria.Fault
import SearchCriteria.Log
import SearchCriteria.Message
import SearchCriteria.Request
import SearchCriteria.Search.Arguments
import SearchCriteria.Search.Basic
import SearchCriteria.Search.Call
import SearchCriteria.Session
import SearchCriteria.Settings.Basic
import SearchCriteria.Settings.CommandLine
import SearchCriteria.Settings.Reading
import SearchCriteria.Proofs.Criteria.Combining
import SearchCriteria.Proofs.Criteria.History
import SearchCriteria.Proofs.Criteria.InPlace
import SearchCriteria.Proofs.Criteria.Merging
import SearchCriteria.Proofs.Criteria.Replaying
import SearchCriteria.Proofs.Criteria.Settled
import SearchCriteria.Proofs.Criteria.Updating
import SearchCriteria.Proofs.Distinct
import SearchCriteria.Proofs.Expression.Building
import SearchCriteria.Proofs.Expression.Judgement
import SearchCriteria.Proofs.Expression.Rendering
import SearchCriteria.Proofs.Expression.Truth
import SearchCriteria.Proofs.Expression.Writing
import SearchCriteria.Proofs.Join
import SearchCriteria.Proofs.Latest
import SearchCriteria.Proofs.Overlay
import SearchCriteria.Proofs.Patch
import SearchCriteria.Proofs.Request.Compiling
import SearchCriteria.Proofs.Request.Evaluation
import SearchCriteria.Proofs.Request.Meaning
import SearchCriteria.Proofs.Request.Sections
import SearchCriteria.Proofs.Session.Guarantees
import SearchCriteria.Proofs.Session.Outcome
import SearchCriteria.Proofs.Value.Equality
import SearchCriteria.Proofs.Value.Named
import SearchCriteria.Proofs.Session.Derivation
import SearchCriteria.Proofs.Expression.Collapsing
import SearchCriteria.Proofs.Search.Calling
import SearchCriteria.Proofs.Session.Readiness
import SearchCriteria.Proofs.Expression.Vacancy
import SearchCriteria.Proofs.Request.Vacancy
import SearchCriteria.Proofs.Session.Vacancy
import SearchCriteria.Proofs.Value.Agreement
import SearchCriteria.Proofs.Expression.Agreement
import SearchCriteria.Proofs.Request.Agreement
import SearchCriteria.Proofs.Session.Agreement
import SearchCriteria.Proofs.Search.Modes
import SearchCriteria.Proofs.Request.Grouping
import SearchCriteria.Proofs.Search.Standing
import SearchCriteria.Proofs.Session.Refinement
import SearchCriteria.Proofs.Value.Texts
import SearchCriteria.Proofs.Expression.Hashing
import SearchCriteria.Proofs.Expression.Members
import SearchCriteria.Proofs.Expression.Spelling
import SearchCriteria.Proofs.Expression.Lookups
import SearchCriteria.Proofs.Expression.Resolving
import SearchCriteria.Proofs.Expression.Constraints
import SearchCriteria.Proofs.Text.Pattern
import SearchCriteria.Proofs.Number.Rounding
import SearchCriteria.Proofs.Number.Reading
import SearchCriteria.Proofs.Join.Grammar
import SearchCriteria.Proofs.Expression.Operators
import SearchCriteria.Proofs.Expression.Marking
import SearchCriteria.Proofs.Expression.Totality
import SearchCriteria.Proofs.Search.Sources
import SearchCriteria.Proofs.Join.Policy
import SearchCriteria.Proofs.Request.Boosting
import SearchCriteria.Proofs.Criteria.Deferring
import SearchCriteria.Proofs.Session.Fallback
import SearchCriteria.Proofs.Expression.Parameters
import SearchCriteria.Proofs.Expression.Congruence
import SearchCriteria.Proofs.Patch.Normalizing
import SearchCriteria.Proofs.Value.Union
import SearchCriteria.Proofs.Session.Scoring
import SearchCriteria.Proofs.Session.Blanks

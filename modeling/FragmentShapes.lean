import FragmentShapes.Text.CharSet
import FragmentShapes.Text.DecimalDigit
import FragmentShapes.Text.Identifier
import FragmentShapes.Text.UpperCase
import FragmentShapes.Text.Blank
import FragmentShapes.Text.Block
import FragmentShapes.Text.Escape
import FragmentShapes.Text.Printable
import FragmentShapes.Text.Quoted
import FragmentShapes.Numeric.Binary64
import FragmentShapes.Numeric.Shortest
import FragmentShapes.Numeric.Overlong
import FragmentShapes.KeyedList
import FragmentShapes.Json
import FragmentShapes.Path
import FragmentShapes.TypeRef
import FragmentShapes.Literal
import FragmentShapes.Token
import FragmentShapes.Token.Lexer
import FragmentShapes.Grammar
import FragmentShapes.Grammar.Predictive
import FragmentShapes.Fragment
import FragmentShapes.Document.Rule
import FragmentShapes.Document.Terms
import FragmentShapes.Document.Selection
import FragmentShapes.Document.Language
import FragmentShapes.Fragment.Document
import FragmentShapes.Schema.Definition
import FragmentShapes.Schema.Document
import FragmentShapes.Schema
import FragmentShapes.Schema.Lookup
import FragmentShapes.Target
import FragmentShapes.UnknownName
import FragmentShapes.Diagnostic
import FragmentShapes.Naming.Registry
import FragmentShapes.Naming.Policy
import FragmentShapes.Config
import FragmentShapes.Config.File
import FragmentShapes.Schema.File
import FragmentShapes.Fragment.Unfold
import FragmentShapes.Selection
import FragmentShapes.Selection.Finding
import FragmentShapes.Selection.Expand
import FragmentShapes.Selection.Resolve
import FragmentShapes.Shape
import FragmentShapes.Shape.Assembly
import FragmentShapes.Generator
import FragmentShapes.Proofs.Document.Names
import FragmentShapes.Proofs.Schema.Names
import FragmentShapes.Proofs.KeyedList
import FragmentShapes.Proofs.Selection.Names
import FragmentShapes.Proofs.TypeRef.Notation
import FragmentShapes.Proofs.Selection.Slots
import FragmentShapes.Proofs.Naming.Registry
import FragmentShapes.Proofs.Shape.Unfolding
import FragmentShapes.Proofs.Assembly.Ensures
import FragmentShapes.Proofs.Assembly.Invariant
import FragmentShapes.Proofs.Assembly.Tree
import FragmentShapes.Proofs.Naming.Policy
import FragmentShapes.Proofs.Naming.PathName
import FragmentShapes.Proofs.Assembly.Collision
import FragmentShapes.Proofs.Selection.Collection
import FragmentShapes.Proofs.Schema.CommonField
import FragmentShapes.Proofs.Selection.Inside
import FragmentShapes.Proofs.Selection.Distinct
import FragmentShapes.Proofs.Assembly.MemberNames
import FragmentShapes.Proofs.Selection.Derivation
import FragmentShapes.Proofs.Selection.Termination
import FragmentShapes.Proofs.Assembly.Numbered
import FragmentShapes.Proofs.Assembly.Objects
import FragmentShapes.Proofs.Assembly.Shared
import FragmentShapes.Proofs.Assembly.Mixed
import FragmentShapes.Proofs.Schema.Search
import FragmentShapes.Proofs.Assembly.Placement
import FragmentShapes.Proofs.Selection.Typename
import FragmentShapes.Proofs.Assembly.Sharing
import FragmentShapes.Proofs.Selection.Trail
import FragmentShapes.Proofs.Selection.Spread
import FragmentShapes.Proofs.Selection.Possible
import FragmentShapes.Proofs.Assembly.Faults
import FragmentShapes.Proofs.Run.Outcomes
import FragmentShapes.Proofs.Run.Accounting
import FragmentShapes.Proofs.Naming.Territory
import FragmentShapes.Proofs.Assembly.Locality
import FragmentShapes.Proofs.Run.Independence
import FragmentShapes.Proofs.Run.Isolation
import FragmentShapes.Proofs.Grammar.Reading
import FragmentShapes.Proofs.Grammar.Derivation
import FragmentShapes.Proofs.Grammar.KindSet
import FragmentShapes.Proofs.Grammar.Preview
import FragmentShapes.Proofs.Grammar.Unambiguous
import FragmentShapes.Proofs.Grammar.Run
import FragmentShapes.Proofs.Document.Productions
import FragmentShapes.Proofs.Document.Unambiguous
import FragmentShapes.Proofs.Document.Phrases
import FragmentShapes.Proofs.Document.Language
import FragmentShapes.Proofs.Fragment.Document
import FragmentShapes.Proofs.Schema.Document
import FragmentShapes.Proofs.Schema.Registration
import FragmentShapes.Proofs.Token.Lexemes
import FragmentShapes.Proofs.Document.Errors
import FragmentShapes.Proofs.Schema.Loading
import FragmentShapes.Proofs.Run.Leftovers
import FragmentShapes.Proofs.Token.Boundary
import FragmentShapes.Proofs.Token.Spelling
import FragmentShapes.Proofs.Token.Layout
import FragmentShapes.Proofs.Grammar.Agreement
import FragmentShapes.Proofs.Document.Lines
import FragmentShapes.Proofs.Document.Layout
import FragmentShapes.Proofs.Document.Annotation
import FragmentShapes.Proofs.Document.Joined
import FragmentShapes.Proofs.TypeRef.Reading
import FragmentShapes.Proofs.Run.Delivery
import FragmentShapes.Proofs.Selection.Plain
import FragmentShapes.Proofs.Assembly.Style
import FragmentShapes.Proofs.Run.Style
import FragmentShapes.Proofs.Assembly.Deprecation
import FragmentShapes.Proofs.Selection.Reports
import FragmentShapes.Proofs.Selection.Walks
import FragmentShapes.Proofs.Selection.Cycles
import FragmentShapes.Proofs.Document.Entries
import FragmentShapes.Proofs.Selection.Coincidence
import FragmentShapes.Proofs.Selection.Inlining
import FragmentShapes.Proofs.Selection.Merging
import FragmentShapes.Proofs.Schema.Listing
import FragmentShapes.Proofs.Run.Validation
import FragmentShapes.Proofs.Assembly.Mirror
import FragmentShapes.Proofs.Naming.Indexes
import FragmentShapes.Proofs.Naming.History
import FragmentShapes.Proofs.Token.Reader
import FragmentShapes.Proofs.Text.Block
import FragmentShapes.Proofs.Target.Levels
import FragmentShapes.Proofs.Assembly.FreeNames
import FragmentShapes.Proofs.Config.Options
import FragmentShapes.Proofs.Config.RoundTrip

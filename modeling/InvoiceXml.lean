import InvoiceXml.Assembly.Placement
import InvoiceXml.Assembly.Plan
import InvoiceXml.Calendar.Date
import InvoiceXml.Calendar.Instant
import InvoiceXml.CodeList
import InvoiceXml.CommandLine.Command
import InvoiceXml.CommandLine.Config
import InvoiceXml.CommandLine.Option
import InvoiceXml.CommandLine.Run
import InvoiceXml.Data.Basic
import InvoiceXml.Data.Compact
import InvoiceXml.Data.Reader
import InvoiceXml.Data.Record
import InvoiceXml.Definition.Basic
import InvoiceXml.Definition.Extension
import InvoiceXml.Definition.Field
import InvoiceXml.Definition.Reader
import InvoiceXml.Dictionary
import InvoiceXml.Document.Basic
import InvoiceXml.Document.Record
import InvoiceXml.Element.Basic
import InvoiceXml.Element.Cursor
import InvoiceXml.Element.Family
import InvoiceXml.Element.Markup
import InvoiceXml.Element.Walk
import InvoiceXml.FieldPath
import InvoiceXml.FileName
import InvoiceXml.Host
import InvoiceXml.Main
import InvoiceXml.Number.Binary64
import InvoiceXml.Number.Layout
import InvoiceXml.Number.Shortest
import InvoiceXml.Path.Basic
import InvoiceXml.Path.Reader
import InvoiceXml.Pattern.Basic
import InvoiceXml.Pattern.Reader
import InvoiceXml.Profile
import InvoiceXml.Proofs.Assembly.Extra
import InvoiceXml.Proofs.Assembly.Families
import InvoiceXml.Proofs.Assembly.Instance
import InvoiceXml.Proofs.Assembly.Locate
import InvoiceXml.Proofs.Assembly.Lockstep
import InvoiceXml.Proofs.Assembly.Offset
import InvoiceXml.Proofs.Assembly.Order
import InvoiceXml.Proofs.Assembly.Placement
import InvoiceXml.Proofs.Assembly.Reading
import InvoiceXml.Proofs.Assembly.Scope
import InvoiceXml.Proofs.Assembly.Sharing
import InvoiceXml.Proofs.Assembly.Silence
import InvoiceXml.Proofs.Assembly.Visit
import InvoiceXml.Proofs.Assembly.WriteList
import InvoiceXml.Proofs.Calendar.Date
import InvoiceXml.Proofs.Calendar.Instant
import InvoiceXml.Proofs.Calendar.Reader
import InvoiceXml.Proofs.Check
import InvoiceXml.Proofs.Conformance
import InvoiceXml.Proofs.Data.Reader
import InvoiceXml.Proofs.Decimal
import InvoiceXml.Proofs.Definition
import InvoiceXml.Proofs.Definition.Attribute
import InvoiceXml.Proofs.Definition.Tree
import InvoiceXml.Proofs.Document
import InvoiceXml.Proofs.Element.Address
import InvoiceXml.Proofs.Element.Bracket
import InvoiceXml.Proofs.Element.Cursor
import InvoiceXml.Proofs.Element.Markup
import InvoiceXml.Proofs.Element.Member
import InvoiceXml.Proofs.Element.Order
import InvoiceXml.Proofs.Element.Walk
import InvoiceXml.Proofs.FirstError
import InvoiceXml.Proofs.Idempotence
import InvoiceXml.Proofs.Likeness
import InvoiceXml.Proofs.Path.Grammar
import InvoiceXml.Proofs.Path.Reader
import InvoiceXml.Proofs.Path.Rendering
import InvoiceXml.Proofs.Profile
import InvoiceXml.Proofs.Ranking
import InvoiceXml.Proofs.Rendering
import InvoiceXml.Proofs.Restriction
import InvoiceXml.Proofs.Schema.Absorption
import InvoiceXml.Proofs.Schema.Associativity
import InvoiceXml.Proofs.Schema.Chain
import InvoiceXml.Proofs.Schema.Composition
import InvoiceXml.Proofs.Schema.Entry
import InvoiceXml.Proofs.Schema.Extension
import InvoiceXml.Proofs.Schema.Group
import InvoiceXml.Proofs.Schema.Lookup
import InvoiceXml.Proofs.Schema.Members
import InvoiceXml.Proofs.Schema.Merge
import InvoiceXml.Proofs.Schema.Names
import InvoiceXml.Proofs.Schema.Overlay
import InvoiceXml.Proofs.Schema.Registration
import InvoiceXml.Proofs.Schema.Resolution
import InvoiceXml.Proofs.Schema.Terms
import InvoiceXml.Proofs.Schema.WellFormed
import InvoiceXml.Proofs.Standard.Acceptance
import InvoiceXml.Proofs.Standard.Charge
import InvoiceXml.Proofs.Standard.Declaration
import InvoiceXml.Proofs.Standard.Invoice
import InvoiceXml.Proofs.Standard.Kind
import InvoiceXml.Proofs.Standard.Markup
import InvoiceXml.Proofs.Standard.Order
import InvoiceXml.Proofs.Standard.Parting
import InvoiceXml.Proofs.Standard.Place
import InvoiceXml.Proofs.Standard.Provenance
import InvoiceXml.Proofs.Standard.Ranking
import InvoiceXml.Proofs.Standard.Rendering
import InvoiceXml.Proofs.Standard.WellFormed
import InvoiceXml.Proofs.Text.Ascii
import InvoiceXml.Proofs.Text.Code
import InvoiceXml.Proofs.Text.Numeral
import InvoiceXml.Proofs.Text.Split
import InvoiceXml.Proofs.Validation
import InvoiceXml.Proofs.Validator
import InvoiceXml.Proofs.Xml.Assembly
import InvoiceXml.Proofs.Xml.Data
import InvoiceXml.Proofs.Xml.Grammar
import InvoiceXml.Proofs.Xml.Markup
import InvoiceXml.Rendering.Basic
import InvoiceXml.Rendering.Check
import InvoiceXml.Rendering.Hooks
import InvoiceXml.Schema.Basic
import InvoiceXml.Schema.Error
import InvoiceXml.Schema.Group
import InvoiceXml.Schema.Merge
import InvoiceXml.Schema.Terms
import InvoiceXml.Standard.Agreement
import InvoiceXml.Standard.Charge
import InvoiceXml.Standard.Delivery
import InvoiceXml.Standard.Header
import InvoiceXml.Standard.Level
import InvoiceXml.Standard.Line
import InvoiceXml.Standard.Settlement
import InvoiceXml.Standard.Skeleton
import InvoiceXml.Text.Alphabetic
import InvoiceXml.Text.Blank
import InvoiceXml.Text.Digit
import InvoiceXml.Text.Numeral
import InvoiceXml.Text.Printable
import InvoiceXml.Text.Quoted
import InvoiceXml.Text.Range
import InvoiceXml.Text.Split
import InvoiceXml.Text.Utf8
import InvoiceXml.Validation
import InvoiceXml.Validator.Basic
import InvoiceXml.Validator.Standard
import InvoiceXml.Yaml.Node
import InvoiceXml.Yaml.Reader
import InvoiceXml.Yaml.Scalar
import InvoiceXml.Yaml.Text

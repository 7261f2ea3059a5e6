import ApiDoc.Assembly.Document
import ApiDoc.Assembly.Documented
import ApiDoc.Assembly.Operation
import ApiDoc.Binary64.Basic
import ApiDoc.Binary64.Numeral
import ApiDoc.Binary64.Shortest
import ApiDoc.Builder
import ApiDoc.CommandLine.Options
import ApiDoc.CommandLine.Run
import ApiDoc.Component.Catalog
import ApiDoc.Component.Model
import ApiDoc.Component.SchemaClass
import ApiDoc.DataFile
import ApiDoc.Datum
import ApiDoc.Dict
import ApiDoc.DocComment.Block
import ApiDoc.DocComment.TagBody
import ApiDoc.Document.Basic
import ApiDoc.Document.Codec
import ApiDoc.Entity
import ApiDoc.Error
import ApiDoc.FileTree
import ApiDoc.Handler
import ApiDoc.Json.Basic
import ApiDoc.Json.Dotted
import ApiDoc.Json.Numeral
import ApiDoc.Json.Printer
import ApiDoc.Json.Reader
import ApiDoc.Json.Shape
import ApiDoc.Main
import ApiDoc.Manifest
import ApiDoc.Pagination
import ApiDoc.PathChange
import ApiDoc.Proofs.Assembly.Distinct
import ApiDoc.Proofs.Assembly.Draft
import ApiDoc.Proofs.Assembly.Filled
import ApiDoc.Proofs.Assembly.Operation
import ApiDoc.Proofs.Assembly.Overlay
import ApiDoc.Proofs.Assembly.Parameters
import ApiDoc.Proofs.Assembly.PathAgreement
import ApiDoc.Proofs.Assembly.PathKeys
import ApiDoc.Proofs.Assembly.Permutation
import ApiDoc.Proofs.Assembly.Responses
import ApiDoc.Proofs.Assembly.Security
import ApiDoc.Proofs.Assembly.Selection
import ApiDoc.Proofs.Assembly.Table
import ApiDoc.Proofs.Assembly.Tidy
import ApiDoc.Proofs.Binary64.Numeral
import ApiDoc.Proofs.Binary64.Rounding
import ApiDoc.Proofs.Builder
import ApiDoc.Proofs.CommandLine.Tidy
import ApiDoc.Proofs.Component.Catalog
import ApiDoc.Proofs.Component.Elements
import ApiDoc.Proofs.Component.FieldShape
import ApiDoc.Proofs.Component.Model
import ApiDoc.Proofs.Component.Properties
import ApiDoc.Proofs.Component.Required
import ApiDoc.Proofs.Component.Tidy
import ApiDoc.Proofs.Datum
import ApiDoc.Proofs.Dict
import ApiDoc.Proofs.DocComment.Entries
import ApiDoc.Proofs.DocComment.LineEnds
import ApiDoc.Proofs.DocComment.Literal
import ApiDoc.Proofs.DocComment.PlainValues
import ApiDoc.Proofs.DocComment.Rendering
import ApiDoc.Proofs.DocComment.Values
import ApiDoc.Proofs.Document.Exact
import ApiDoc.Proofs.Document.Fields
import ApiDoc.Proofs.Document.Keeps
import ApiDoc.Proofs.Document.Overlay
import ApiDoc.Proofs.Document.Read
import ApiDoc.Proofs.Document.RoundTrip
import ApiDoc.Proofs.Document.Tidy
import ApiDoc.Proofs.Except
import ApiDoc.Proofs.FileTree
import ApiDoc.Proofs.Handler
import ApiDoc.Proofs.Json.Distinct
import ApiDoc.Proofs.Json.Field
import ApiDoc.Proofs.Json.Keeps
import ApiDoc.Proofs.Json.Members
import ApiDoc.Proofs.Json.Place
import ApiDoc.Proofs.Json.Same
import ApiDoc.Proofs.Json.Shape
import ApiDoc.Proofs.Json.Strings
import ApiDoc.Proofs.PathChange.Agreement
import ApiDoc.Proofs.PathChange.Alike
import ApiDoc.Proofs.PathChange.Basic
import ApiDoc.Proofs.PathChange.Register
import ApiDoc.Proofs.PathChange.Simultaneous
import ApiDoc.Proofs.PathChange.Tidy
import ApiDoc.Proofs.Reference
import ApiDoc.Proofs.Request.BracketName
import ApiDoc.Proofs.Request.Contents
import ApiDoc.Proofs.Request.Draft
import ApiDoc.Proofs.Request.Elements
import ApiDoc.Proofs.Request.Finish
import ApiDoc.Proofs.Request.Limits
import ApiDoc.Proofs.Request.Mark
import ApiDoc.Proofs.Request.MediaType
import ApiDoc.Proofs.Request.Owners
import ApiDoc.Proofs.Request.Permutation
import ApiDoc.Proofs.Request.PrefixFree
import ApiDoc.Proofs.Request.Query
import ApiDoc.Proofs.Request.Refined
import ApiDoc.Proofs.Request.Samples
import ApiDoc.Proofs.Request.Shape
import ApiDoc.Proofs.Request.Slots
import ApiDoc.Proofs.Request.Standing
import ApiDoc.Proofs.Request.Tidy
import ApiDoc.Proofs.Request.Visit
import ApiDoc.Proofs.Route
import ApiDoc.Proofs.Rule.Bound
import ApiDoc.Proofs.Rule.Reader
import ApiDoc.Proofs.Scalar
import ApiDoc.Proofs.Scalar.Coerce
import ApiDoc.Proofs.Scalar.Integer
import ApiDoc.Proofs.Scalar.Numeral
import ApiDoc.Proofs.Schema.Collapse
import ApiDoc.Proofs.Schema.Exact
import ApiDoc.Proofs.Schema.Fields
import ApiDoc.Proofs.Schema.Keeps
import ApiDoc.Proofs.Schema.Path
import ApiDoc.Proofs.Schema.Read
import ApiDoc.Proofs.Schema.RoundTrip
import ApiDoc.Proofs.Schema.Tidy
import ApiDoc.Proofs.Source.FieldNames
import ApiDoc.Proofs.Source.Marks
import ApiDoc.Proofs.Source.Scan
import ApiDoc.Proofs.Source.TextLiteral
import ApiDoc.Proofs.Template
import ApiDoc.Proofs.Text
import ApiDoc.Proofs.Text.CutPoint
import ApiDoc.Proofs.Text.Edited
import ApiDoc.Proofs.Text.Nesting
import ApiDoc.Proofs.Text.Parentheses
import ApiDoc.Proofs.Text.Spacing
import ApiDoc.Proofs.TypeName.Native
import ApiDoc.Proofs.TypeName.Recognized
import ApiDoc.Proofs.TypeName.Wrapped
import ApiDoc.Proofs.Yaml.Values
import ApiDoc.Record
import ApiDoc.Reference
import ApiDoc.Request.Body
import ApiDoc.Request.Query
import ApiDoc.Request.RuleSchema
import ApiDoc.Request.Template
import ApiDoc.Route
import ApiDoc.Rule.Basic
import ApiDoc.Rule.Reader
import ApiDoc.Scalar
import ApiDoc.Schema.Basic
import ApiDoc.Schema.Codec
import ApiDoc.Schema.Collapse
import ApiDoc.Security
import ApiDoc.Settings
import ApiDoc.Settings.Reader
import ApiDoc.Source.Entities
import ApiDoc.Source.FieldMarks
import ApiDoc.Source.File
import ApiDoc.Source.Grammar.Basic
import ApiDoc.Source.Grammar.Expressions
import ApiDoc.Source.Grammar.Items
import ApiDoc.Source.Grammar.Patterns
import ApiDoc.Source.Grammar.Statements
import ApiDoc.Source.Grammar.Types
import ApiDoc.Source.Item
import ApiDoc.Source.Lexeme
import ApiDoc.Source.Literal
import ApiDoc.Source.Nesting
import ApiDoc.Source.Parse
import ApiDoc.Source.Scan
import ApiDoc.Source.Tree
import ApiDoc.Source.TypeText
import ApiDoc.Text.Alphabet
import ApiDoc.Text.Basic
import ApiDoc.Text.Casing
import ApiDoc.Text.Digits
import ApiDoc.Text.Nesting
import ApiDoc.TypeName
import ApiDoc.Yaml.Alphabet
import ApiDoc.Yaml.Lexeme
import ApiDoc.Yaml.Plain
import ApiDoc.Yaml.Printer
import ApiDoc.Yaml.Reader
import ApiDoc.Yaml.Token

import PageMarkup.Token.Cursor
import PageMarkup.Json.Reader
import PageMarkup.Document.Draft
import PageMarkup.Document.Arena
import PageMarkup.Document.Lookup
import PageMarkup.Entity.Table
import PageMarkup.Schema.Bundled
import PageMarkup.Schema.Language
import PageMarkup.Text.Position
import PageMarkup.Path.Tree
import PageMarkup.Hover
import PageMarkup.Completion.Suggest
import PageMarkup.Diagnostic.Check
import PageMarkup.Session.Wire
import PageMarkup.Settings
import PageMarkup.Workspace
import PageMarkup.Session.Server
import PageMarkup.CommandLine.Run
import PageMarkup.Main
import PageMarkup.Session.Shape
import PageMarkup.Proofs.CaseLaws
import PageMarkup.Proofs.OffsetLaws
import PageMarkup.Proofs.TokenOrder
import PageMarkup.Proofs.TokenShapes
import PageMarkup.Proofs.Neighbours
import PageMarkup.Proofs.CursorLaws
import PageMarkup.Proofs.Reading
import PageMarkup.Proofs.DraftLaws
import PageMarkup.Proofs.Ranges
import PageMarkup.Proofs.Rescan
import PageMarkup.Proofs.Markup
import PageMarkup.Proofs.Lexemes
import PageMarkup.Proofs.RoundTrip
import PageMarkup.Proofs.Extents
import PageMarkup.Proofs.Chains
import PageMarkup.Proofs.Sites
import PageMarkup.Proofs.TagCursor
import PageMarkup.Proofs.CaseFolding
import PageMarkup.Proofs.CaseInsensitive
import PageMarkup.Proofs.Boundaries
import PageMarkup.Proofs.SiteBoundaries
import PageMarkup.Proofs.Answers
import PageMarkup.Proofs.Sessions
import PageMarkup.Proofs.Histories
import PageMarkup.Proofs.Chunks
import PageMarkup.Proofs.EndTags
import PageMarkup.Proofs.Arena
import PageMarkup.Proofs.CleanDocuments
import PageMarkup.Proofs.CompletionItems
import PageMarkup.Proofs.DecidingToken
import PageMarkup.Proofs.AttributeChecks
import PageMarkup.Proofs.Offers
import PageMarkup.Proofs.Labels
import PageMarkup.Proofs.Positions
import PageMarkup.Proofs.AnswerRanges
import PageMarkup.Proofs.JsonText
import PageMarkup.Proofs.SchemaCodec
import PageMarkup.Proofs.SchemaText
import PageMarkup.Proofs.DocumentOrder
import PageMarkup.Proofs.Lookups
import PageMarkup.Proofs.WrittenAttributes
import PageMarkup.Proofs.TextRuns
import PageMarkup.Proofs.Contents
import PageMarkup.Proofs.RawBodies
import PageMarkup.Proofs.EmptyElements
import PageMarkup.Proofs.Messages
import PageMarkup.Proofs.Problems
import PageMarkup.Proofs.PositionOrder
import PageMarkup.Proofs.PositionBounds
import PageMarkup.Proofs.LineIndex
import PageMarkup.Proofs.CompletionKinds
import PageMarkup.Proofs.Continuations
import PageMarkup.Proofs.ValueEdits
import PageMarkup.Proofs.ClosingEdits
import PageMarkup.Proofs.OpeningEdits
import PageMarkup.Proofs.PresentAttributes
import PageMarkup.Proofs.AttributeReading
import PageMarkup.Proofs.AttributeEdits
import PageMarkup.Proofs.LongerTexts
import PageMarkup.Proofs.ClosingSlash
import PageMarkup.Proofs.SchemaLookups
import PageMarkup.Proofs.Paths
import PageMarkup.Proofs.Handlers
import PageMarkup.Proofs.TagNames
import PageMarkup.Proofs.Hovers
import PageMarkup.Proofs.Utf8Laws
import PageMarkup.Proofs.PercentEscapes
import PageMarkup.Proofs.RepeatedAttributes

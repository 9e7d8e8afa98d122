import TemplateFill.Text.Blank
import TemplateFill.Text.Cut
import TemplateFill.Text.Utf8
import TemplateFill.Text.Utf16
import TemplateFill.Markup.Node
import TemplateFill.Markup.Reference
import TemplateFill.Markup.Lexeme
import TemplateFill.Markup.Encoding
import TemplateFill.Markup.Writer
import TemplateFill.Bookmark.Substitute
import TemplateFill.Store.Copy
import TemplateFill.Package.Chunk
import TemplateFill.Package.Detector
import TemplateFill.Package.Archived
import TemplateFill.Fill
import TemplateFill.Main
import TemplateFill.Proofs.Markup.Tree
import TemplateFill.Proofs.Markup.Place
import TemplateFill.Proofs.Markup.Outline
import TemplateFill.Proofs.Bookmark.Group
import TemplateFill.Proofs.Bookmark.FlatForm
import TemplateFill.Proofs.Bookmark.RoundTrip
import TemplateFill.Proofs.Bookmark.Landing
import TemplateFill.Proofs.Bookmark.Lifted
import TemplateFill.Proofs.Bookmark.Site
import TemplateFill.Proofs.Bookmark.Refill
import TemplateFill.Proofs.Bookmark.Filling
import TemplateFill.Proofs.Bookmark.Erasure
import TemplateFill.Proofs.Bookmark.SiteEdges
import TemplateFill.Proofs.Bookmark.Splicing
import TemplateFill.Proofs.Bookmark.Reflow
import TemplateFill.Proofs.Bookmark.Renewal
import TemplateFill.Proofs.Bookmark.ReadBack
import TemplateFill.Proofs.Bookmark.FlatPlace
import TemplateFill.Proofs.Bookmark.Refusal
import TemplateFill.Proofs.Bookmark.Parent
import TemplateFill.Proofs.Markup.Gap
import TemplateFill.Proofs.Bookmark.Steady
import TemplateFill.Proofs.Bookmark.StrayRuns
import TemplateFill.Proofs.Bookmark.Independence
import TemplateFill.Proofs.Text.Utf8
import TemplateFill.Proofs.Markup.Escape
import TemplateFill.Proofs.Markup.Legal
import TemplateFill.Proofs.Markup.TagBack
import TemplateFill.Proofs.Markup.Scope
import TemplateFill.Proofs.Markup.Reread
import TemplateFill.Proofs.Markup.Canonical
import TemplateFill.Proofs.Markup.Reading
import TemplateFill.Proofs.Markup.Declared
import TemplateFill.Proofs.Archive.ReadBack
import TemplateFill.Proofs.Bookmark.Texts
import TemplateFill.Proofs.Bookmark.Storable
import TemplateFill.Proofs.Package.Storing
import TemplateFill.Proofs.Files.Writing
import TemplateFill.Proofs.Fill.TextPass
import TemplateFill.Proofs.Bookmark.NormalForm
import TemplateFill.Proofs.Bookmark.Nesting
import TemplateFill.Proofs.Markup.Joining
import TemplateFill.Proofs.Markup.LegalText
import TemplateFill.Proofs.Markup.EmptyText
import TemplateFill.Proofs.Markup.ReadTexts
import TemplateFill.Proofs.Markup.Listing
import TemplateFill.Proofs.Markup.Spelling
import TemplateFill.Proofs.Text.Cut
import TemplateFill.Proofs.Package.Growth
import TemplateFill.Proofs.Package.PartName
import TemplateFill.Proofs.Package.Host
import TemplateFill.Proofs.Package.Entries
import TemplateFill.Proofs.Package.Edits
import TemplateFill.Proofs.Package.Embedding
import TemplateFill.Proofs.Package.EmbedRun
import TemplateFill.Proofs.Fill.Names
import TemplateFill.Proofs.Bookmark.Starts
import TemplateFill.Proofs.Bookmark.Swallowed
import TemplateFill.Proofs.Bookmark.Lasting
import TemplateFill.Proofs.Markup.Respelled
import TemplateFill.Proofs.Bookmark.Restored
import TemplateFill.Proofs.Fill.Remaining
import TemplateFill.Proofs.Markup.InScope
import TemplateFill.Proofs.Bookmark.KeptScopes
import TemplateFill.Proofs.Files.Target
import TemplateFill.Proofs.Fill.WorkingCopy
import TemplateFill.Proofs.CommandLine.Inputs
import TemplateFill.Proofs.Package.Adding
import TemplateFill.Proofs.Package.Target
import TemplateFill.Proofs.Package.Override
import TemplateFill.Proofs.Package.Relating
import TemplateFill.Proofs.Markup.Lineage
import TemplateFill.Proofs.Text.Utf16
import TemplateFill.Proofs.Markup.Encoding
import TemplateFill.Store.Pass
import TemplateFill.Store.Reader
import TemplateFill.Store.Marker
import TemplateFill.Store.Substitute
import TemplateFill.Store.Operation
import TemplateFill.Proofs.Store.Links
import TemplateFill.Proofs.Store.Branch
import TemplateFill.Proofs.Store.Adding
import TemplateFill.Proofs.Store.Pass
import TemplateFill.Proofs.Store.Documents
import TemplateFill.Proofs.Store.Opened
import TemplateFill.Proofs.Store.Reading
import TemplateFill.Proofs.Store.Replacement
import TemplateFill.Proofs.Store.Position
import TemplateFill.Proofs.Store.Located
import TemplateFill.Proofs.Store.Replaced
import TemplateFill.Proofs.Store.Substitution
import TemplateFill.Proofs.Store.Run
import TemplateFill.Proofs.Store.Traversal
import TemplateFill.Proofs.Store.Copies
import TemplateFill.Proofs.Fill.Values
import TemplateFill.Proofs.Bookmark.Slices
import TemplateFill.Proofs.Store.Siblings
import TemplateFill.Proofs.Package.PartList

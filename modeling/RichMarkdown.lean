import RichMarkdown.Markdown.Parse
import RichMarkdown.Proofs.Directive.Nesting
import RichMarkdown.Proofs.Document.Anchors
import RichMarkdown.Proofs.Highlight.Scan
import RichMarkdown.Proofs.Html.Comments
import RichMarkdown.Proofs.Html.Nesting
import RichMarkdown.Proofs.Layout.Sinks
import RichMarkdown.Proofs.Markdown.Events
import RichMarkdown.Proofs.Text.Bytes
import RichMarkdown.Render.PlainText
import RichMarkdown.Render.Trace
import RichMarkdown.Settings.Load
import RichMarkdown.Proofs.Highlight.Sharing
import RichMarkdown.Proofs.Walk.Sharing
import RichMarkdown.Proofs.Document.Shown
import RichMarkdown.Proofs.Html.Reading
import RichMarkdown.Proofs.Walk.Shown
import RichMarkdown.Proofs.Html.CodeBlocks
import RichMarkdown.Proofs.Highlight.Covered
import RichMarkdown.Proofs.Html.Shown
import RichMarkdown.Proofs.Html.Spans
import RichMarkdown.Proofs.Html.Highlights
import RichMarkdown.Proofs.Styled.Colors
import RichMarkdown.Proofs.Walk.Calls
import RichMarkdown.Proofs.Walk.Places
import RichMarkdown.Proofs.Document.Headings
import RichMarkdown.Proofs.Html.Headings
import RichMarkdown.Proofs.Walk.Formats
import RichMarkdown.Proofs.Html.Contents
import RichMarkdown.Proofs.Html.Composition
import RichMarkdown.Proofs.Layout.Steady
import RichMarkdown.Proofs.Layout.Quotes
import RichMarkdown.Proofs.Markdown.Levels
import RichMarkdown.Proofs.Markdown.Placement
import RichMarkdown.Proofs.Directive.Apart
import RichMarkdown.Proofs.Markdown.Placeholders
import RichMarkdown.Proofs.Settings.Loading
import RichMarkdown.Proofs.Layout.Gaps
import RichMarkdown.Proofs.Layout.Verbatim
import RichMarkdown.Proofs.Styled.Ancestors
import RichMarkdown.Proofs.Layout.Markers
import RichMarkdown.Proofs.Highlight.Iteration
import RichMarkdown.Proofs.Highlight.Faults
import RichMarkdown.Proofs.Highlight.Lexemes
import RichMarkdown.Proofs.Highlight.Strays
import RichMarkdown.Proofs.Highlight.LineEnds
import RichMarkdown.Proofs.Highlight.Operators
import RichMarkdown.Proofs.Directive.Matches
import RichMarkdown.Proofs.Directive.Expansion
import RichMarkdown.Proofs.Directive.Replacement
import RichMarkdown.Proofs.Command.Sections
import RichMarkdown.Proofs.Directive.Heads
import RichMarkdown.Proofs.Html.Seams
import RichMarkdown.Proofs.Directive.Lines
import RichMarkdown.Proofs.Markdown.Fences
import RichMarkdown.Proofs.Document.Footnotes
import RichMarkdown.Proofs.Styled.Runs
import RichMarkdown.Proofs.Document.Slugs
import RichMarkdown.Proofs.Html.Escaping
import RichMarkdown.Proofs.Theme.Spelling
import RichMarkdown.Proofs.Theme.Sections
import RichMarkdown.Proofs.Directive.Delimiters
import RichMarkdown.Proofs.Walk.Slots
import RichMarkdown.Proofs.Html.Labels

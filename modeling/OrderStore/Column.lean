/-!
# Columns of text

Text is aligned by its number of characters; a text wider than its column is
left as it is.
-/

namespace OrderStore

/-- `text` at the left of a column of `width` characters. -/
def alignLeft (width : Nat) (text : String) : String :=
  String.ofList (text.toList.rightpad width ' ')

/-- `text` at the right of a column of `width` characters. -/
def alignRight (width : Nat) (text : String) : String :=
  String.ofList (text.toList.leftpad width ' ')

end OrderStore

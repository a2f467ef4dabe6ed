/-!
# Parts of a text

Finding one text inside another, and shortening a text to a number of characters.
-/

namespace TopicView.Text

/-! ## Finding -/

/-- Whether `term` stands somewhere in `text`. -/
def occursIn (term : List Char) : List Char → Bool
  | [] => term.isEmpty
  | c :: cs => term.isPrefixOf (c :: cs) || occursIn term cs

def contains (text term : String) : Bool := occursIn term.toList text.toList

def startsWith (text term : String) : Bool := term.toList.isPrefixOf text.toList

/-! ## Shortening -/

/-- A text longer than `width` characters keeps all but the last of them free for an ellipsis. -/
def shorten (width : Nat) (text : String) : String :=
  if text.length ≤ width then text
  else String.ofList (text.toList.take (width - 1) ++ ['…'])

end TopicView.Text

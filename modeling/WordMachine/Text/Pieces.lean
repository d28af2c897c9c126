/-! # Pieces of a text

A text is cut at every character of a class.  There is one piece more than there are cuts,
so two cuts in a row have an empty piece between them. -/

namespace WordMachine.Text

/-- The pieces of a character list between the characters of a class. -/
def pieces (cut : Char → Bool) : List Char → List (List Char)
  | [] => [[]]
  | c :: cs =>
    if cut c then [] :: pieces cut cs
    else match pieces cut cs with
      | [] => [[c]]
      | w :: ws => (c :: w) :: ws

end WordMachine.Text

/-!
# Cutting text

Lines of a file and names of a path are both what lies between separators.
-/

namespace CircuitCalls

/-- The pieces of a text between the occurrences of `separator`; there is always at least one. -/
def pieces (separator : Char) : List Char → List (List Char)
  | [] => [[]]
  | c :: rest =>
    if c = separator then [] :: pieces separator rest
    else
      match pieces separator rest with
      | [] => [[c]]
      | piece :: more => (c :: piece) :: more

/-- A text without the characters at its end that satisfy `p`. -/
def dropEnd (p : Char → Bool) (text : List Char) : List Char := (text.reverse.dropWhile p).reverse

end CircuitCalls

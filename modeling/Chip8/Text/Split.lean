/-!
# Split — a text cut at a character

A text is cut at the first place where the character stands; later ones are part of what follows.
-/
namespace Chip8.Text

/-- What stands before the first `sep` and what stands after it, if there is one. -/
def splitFirst? (sep : Char) (s : List Char) : Option (List Char × List Char) :=
  match s.dropWhile (· != sep) with
  | [] => none
  | _ :: after => some (s.takeWhile (· != sep), after)

end Chip8.Text

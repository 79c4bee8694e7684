/-!
# Layout of printed lines

Texts filled up to a width, and texts that keep their indentation over several lines.
-/

namespace Wiring.Text

/-- A text with blanks on its left up to a width. -/
def padLeft (width : Nat) (s : String) : String :=
  String.ofList (List.replicate (width - s.length) ' ') ++ s

/-- A text whose lines after the first are indented. -/
def hanging (indent : Nat) (s : String) : String :=
  String.ofList
    (s.toList.flatMap fun c =>
      if c = '\n' then '\n' :: List.replicate indent ' ' else [c])

end Wiring.Text

import Wiring.Yaml.Character

/-!
# Block scalars

A block scalar stands in the lines below its mark, all indented alike.  After a
vertical bar its lines are kept as they are.  After a greater-than sign the end of a
line makes a blank, unless an empty line follows or one of the two lines begins with
a blank.

The mark may be followed by a digit, which gives the indentation, and by a sign that
says what becomes of the line ends behind the last line: a hyphen drops them, a plus
keeps them all, and without a sign the first one is kept.
-/

namespace Wiring.Yaml

/-- What becomes of the line ends behind the last line. -/
inductive Chomping where
  | strip
  | clip
  | keep
deriving DecidableEq, Repr

/-- A line of a block scalar: its contents, and its line end with those of the empty
lines that follow. -/
structure BlockLine where
  text : List Char
  breaks : List Char
deriving DecidableEq, Repr

/-! ## The header -/

/-- The sign at the front of a text, if there is one. -/
def takeChomping : List Char → Chomping × List Char
  | '+' :: rest => (.keep, rest)
  | '-' :: rest => (.strip, rest)
  | cs => (.clip, cs)

/-- The digit at the front of a text, if there is one; it may not be zero. -/
def takeIncrement : List Char → Option (Option Nat × List Char)
  | [] => some (none, [])
  | c :: rest =>
    if c = '0' then none
    else if c.isDigit then some (some (c.toNat - '0'.toNat), rest)
    else some (none, c :: rest)

/-- Read what follows the mark of a block scalar, up to the begin of the next line. -/
def readHeader (cs : List Char) : Option (Chomping × Option Nat × List Char) :=
  let (sign, cs) := takeChomping cs
  match takeIncrement cs with
  | none => none
  | some (increment?, cs) =>
    let (chomping, cs) := if sign = .clip then takeChomping cs else (sign, cs)
    (idleEnd cs).map fun rest => (chomping, increment?, rest.drop 1)

/-! ## The lines -/

/-- The greatest column that is reached by the indentation of the first line that is
not empty or of an empty line before it; nothing when a tab follows it. -/
def indentation (column most : Nat) : List Char → Option Nat
  | [] => some (max most column)
  | c :: rest =>
    if c = ' ' then indentation (column + 1) most rest
    else if c = '\t' then none
    else if isBreak c then indentation 0 (max most column) rest
    else some (max most column)

/-- The line ends of empty lines, the column in which the next line goes on, at most
`indent`, and what stands there; nothing when a tab stands before `indent`. -/
def takeBreaks (indent column : Nat) : List Char → Option (List Char × Nat × List Char)
  | [] => some ([], column, [])
  | c :: rest =>
    if c = ' ' && column < indent then takeBreaks indent (column + 1) rest
    else if c = '\t' && column < indent then none
    else if isBreak c then
      (takeBreaks indent 0 rest).map fun (breaks, column, rest) => (c :: breaks, column, rest)
    else some ([], column, c :: rest)

theorem takeBreaks_length_le {indent column column' : Nat} {cs breaks rest : List Char}
    (h : takeBreaks indent column cs = some (breaks, column', rest)) :
    rest.length ≤ cs.length := by
  induction cs generalizing column column' breaks rest with
  | nil =>
    simp only [takeBreaks, Option.some.injEq, Prod.mk.injEq] at h
    simp [← h.2.2]
  | cons c cs ih =>
    unfold takeBreaks at h
    split at h
    · exact Nat.le_succ_of_le (ih h)
    · split at h
      · simp at h
      · split at h
        · simp only [Option.map_eq_some_iff, Prod.mk.injEq, Prod.exists] at h
          obtain ⟨breaks', column'', rest', htake, -, rfl, rfl⟩ := h
          exact Nat.le_succ_of_le (ih htake)
        · simp only [Option.some.injEq, Prod.mk.injEq] at h
          simp [← h.2.2]

/-- The lines of a block scalar that go on in the column `indent`, and what follows
them. -/
def readLines (indent column : Nat) (cs : List Char) : Option (List BlockLine × List Char) :=
  if column ≠ indent || cs = [] then some ([], cs)
  else
    let text := cs.takeWhile fun c => !isBreak c
    match _hafter : cs.dropWhile fun c => !isBreak c with
    | [] => some ([⟨text, []⟩], [])
    | c :: after =>
      match _htake : takeBreaks indent 0 after with
      | none => none
      | some (breaks, column, rest) =>
        (readLines indent column rest).map fun (lines, rest) =>
          (⟨text, c :: breaks⟩ :: lines, rest)
termination_by cs.length
decreasing_by
  have htake := takeBreaks_length_le _htake
  have hle := (List.dropWhile_sublist (fun c => !isBreak c) (l := cs)).length_le
  rw [_hafter] at hle
  simp only [List.length_cons] at hle
  omega

/-! ## The text -/

/-- Whether a line begins with a blank. -/
def BlockLine.isIndented (line : BlockLine) : Bool := line.text.head?.any isInlineBlank

/-- What the line ends between two lines come to in a folded scalar. -/
def foldedBreaks (before after : BlockLine) : List Char :=
  match before.breaks with
  | '\n' :: further =>
    if before.isIndented || after.isIndented then '\n' :: further
    else if further = [] then [' ']
    else further
  | breaks => breaks

/-- The line ends behind the last line that are kept. -/
def Chomping.apply (chomping : Chomping) (breaks : List Char) : List Char :=
  match chomping with
  | .strip => []
  | .clip => breaks.take 1
  | .keep => breaks

/-- The text of the lines of a block scalar. -/
def joinLines (isFolded : Bool) (chomping : Chomping) : List BlockLine → List Char
  | [] => []
  | [line] => line.text ++ chomping.apply line.breaks
  | line :: next :: rest =>
    line.text ++ (if isFolded then foldedBreaks line next else line.breaks) ++
      joinLines isFolded chomping (next :: rest)

/-- The text of a block scalar behind its mark, and what follows it.  The contents
stand in the column `margin` or behind it. -/
def readBlock (isFolded : Bool) (margin : Nat) (cs : List Char) :
    Option (List Char × List Char) := do
  let (chomping, increment?, cs) ← readHeader cs
  let indent ←
    match increment? with
    | some increment => some (margin - 1 + increment)
    | none => (indentation 0 0 cs).map fun column => max column (max margin 1)
  let (breaks, column, cs) ← takeBreaks indent 0 cs
  let (lines, rest) ← readLines indent column cs
  if lines = [] then return (if chomping = .keep then breaks else [], rest)
  return (breaks ++ joinLines isFolded chomping lines, rest)

end Wiring.Yaml

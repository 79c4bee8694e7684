import Wiring.Json.Token

/-!
# From a text to JSON tokens

`tokens?` splits a text into tokens.  Blanks between tokens do not count; anything
else that begins no token is a fault.  Whether the tokens make a value is not
looked at here.

A string literal is first read as pieces: characters, and 16-bit units given by
escapes.  Two units that are the halves of a surrogate pair make one character, a
unit that is no half makes one by itself, and a literal with any other half stands
for no text.
-/

namespace Wiring.Json

open Wiring.Text (hexValue?)

/-- The blanks between tokens. -/
def isSpace (c : Char) : Bool := c = ' ' || c = '\n' || c = '\t' || c = '\r'

/-! ## Numbers -/

/-- The digits at the front of a text, if there are any, and what follows. -/
def readDigits (cs : List Char) : Option (List Char × List Char) :=
  match cs.takeWhile Char.isDigit with
  | [] => none
  | digit :: others => some (digit :: others, cs.dropWhile Char.isDigit)

/-- The whole part of a number: no digit follows a leading zero. -/
def readWhole : List Char → Option (List Char × List Char)
  | '0' :: rest => some (['0'], rest)
  | cs => readDigits cs

/-- The fraction at the front of a text; without one its digits are none. -/
def readFraction : List Char → Option (List Char × List Char)
  | '.' :: rest => readDigits rest
  | cs => some ([], cs)

/-- The exponent behind its letter. -/
def readExponentValue : List Char → Option (Int × List Char)
  | '-' :: rest => (readDigits rest).map fun (ds, rest) => (-(Nat.ofDigitChars 10 ds 0 : Int), rest)
  | '+' :: rest => (readDigits rest).map fun (ds, rest) => ((Nat.ofDigitChars 10 ds 0 : Int), rest)
  | cs => (readDigits cs).map fun (ds, rest) => ((Nat.ofDigitChars 10 ds 0 : Int), rest)

/-- The exponent at the front of a text, if there is one. -/
def readExponent : List Char → Option (Option Int × List Char)
  | 'e' :: rest | 'E' :: rest =>
    (readExponentValue rest).map fun (exponent, rest) => (some exponent, rest)
  | cs => some (none, cs)

/-- The value of a digit. -/
def digitValue (c : Char) : Fin 10 := ⟨(c.toNat - '0'.toNat) % 10, Nat.mod_lt _ (by decide)⟩

/-- The number of its parts: the digits of the whole part and of the fraction, and
the exponent. -/
def Number.ofParts (negative : Bool) (whole fraction : List Char) (exponent? : Option Int) :
    Number :=
  match fraction, exponent? with
  | [], none => .whole negative (Nat.ofDigitChars 10 whole 0)
  | _, _ =>
    .decimal negative (Nat.ofDigitChars 10 whole 0) (fraction.map digitValue)
      (exponent?.getD 0)

/-- The number at the front of a text, its sign excepted. -/
def readNumber (negative : Bool) (cs : List Char) : Option (Number × List Char) :=
  match readWhole cs with
  | none => none
  | some (whole, cs) =>
    match readFraction cs with
    | none => none
    | some (fraction, cs) =>
      match readExponent cs with
      | none => none
      | some (exponent?, cs) => some (Number.ofParts negative whole fraction exponent?, cs)

/-! ## String literals -/

/-- A piece of a string literal. -/
inductive Piece where
  /-- A character, as it stands or after a backslash. -/
  | char (c : Char)
  /-- A 16-bit unit given by an escape. -/
  | unit (n : Nat)
deriving DecidableEq, Repr

/-- The unit of four hexadecimal digits. -/
def hexUnit (a b c d : Char) : Option Nat :=
  match hexValue? a, hexValue? b, hexValue? c, hexValue? d with
  | some a, some b, some c, some d => some (((a.val * 16 + b) * 16 + c) * 16 + d)
  | _, _, _, _ => none

/-- The character of a short escape. -/
def shortEscape (c : Char) : Option Char :=
  if c = '"' then some '"'
  else if c = '\\' then some '\\'
  else if c = '/' then some '/'
  else if c = 'b' then some '\x08'
  else if c = 'f' then some '\x0c'
  else if c = 'n' then some '\n'
  else if c = 'r' then some '\r'
  else if c = 't' then some '\t'
  else none

/-- The pieces of a string literal behind its first quote, and what follows the
last one. -/
def readPieces : List Char → Option (List Piece × List Char)
  | [] => none
  | '"' :: rest => some ([], rest)
  | '\\' :: 'u' :: a :: b :: c :: d :: rest =>
    match hexUnit a b c d, readPieces rest with
    | some n, some (pieces, rest) => some (.unit n :: pieces, rest)
    | _, _ => none
  | '\\' :: c :: rest =>
    match shortEscape c, readPieces rest with
    | some e, some (pieces, rest) => some (.char e :: pieces, rest)
    | _, _ => none
  | c :: rest =>
    if c.toNat < 32 then none
    else (readPieces rest).map fun (pieces, rest) => (.char c :: pieces, rest)

/-- Whether a unit is the first half of a surrogate pair. -/
def isFirstHalf (n : Nat) : Bool := 0xd800 ≤ n && n < 0xdc00

/-- Whether a unit is the second half of a surrogate pair. -/
def isSecondHalf (n : Nat) : Bool := 0xdc00 ≤ n && n < 0xe000

/-- The character of a surrogate pair. -/
def pairChar (first second : Nat) : Char :=
  Char.ofNat (0x10000 + (first - 0xd800) * 0x400 + (second - 0xdc00))

/-- The characters that the pieces of a literal make. -/
def assemble : List Piece → Option (List Char)
  | [] => some []
  | .char c :: rest => (assemble rest).map (c :: ·)
  | .unit first :: .unit second :: rest =>
    if isFirstHalf first then
      if isSecondHalf second then (assemble rest).map (pairChar first second :: ·) else none
    else if isSecondHalf first then none
    else (assemble (.unit second :: rest)).map (Char.ofNat first :: ·)
  | .unit n :: rest =>
    if isFirstHalf n || isSecondHalf n then none
    else (assemble rest).map (Char.ofNat n :: ·)

/-! ## Tokens -/

/-- The token at the front of a text that begins with no blank. -/
def nextToken : List Char → Option (Token × List Char)
  | [] => none
  | '[' :: rest => some (.openArray, rest)
  | ']' :: rest => some (.closeArray, rest)
  | '\x7b' :: rest => some (.openObject, rest)
  | '\x7d' :: rest => some (.closeObject, rest)
  | ',' :: rest => some (.comma, rest)
  | ':' :: rest => some (.colon, rest)
  | 'n' :: 'u' :: 'l' :: 'l' :: rest => some (.null, rest)
  | 't' :: 'r' :: 'u' :: 'e' :: rest => some (.bool true, rest)
  | 'f' :: 'a' :: 'l' :: 's' :: 'e' :: rest => some (.bool false, rest)
  | '"' :: rest =>
    (readPieces rest).map fun (pieces, rest) =>
      (.string ((assemble pieces).map String.ofList), rest)
  | '-' :: rest => (readNumber true rest).map fun (n, rest) => (.number n, rest)
  | cs => (readNumber false cs).map fun (n, rest) => (.number n, rest)

theorem length_dropWhile_lt {p : Char → Bool} {cs : List Char} (h : cs.takeWhile p ≠ []) :
    (cs.dropWhile p).length < cs.length := by
  have hsum := congrArg List.length (List.takeWhile_append_dropWhile (p := p) (l := cs))
  have hpos := List.length_pos_iff.2 h
  simp only [List.length_append] at hsum
  omega

theorem readDigits_length_lt {cs ds rest : List Char} (h : readDigits cs = some (ds, rest)) :
    rest.length < cs.length := by
  unfold readDigits at h
  split at h
  · simp at h
  · rename_i hdigits
    simp only [Option.some.injEq, Prod.mk.injEq] at h
    exact h.2 ▸ length_dropWhile_lt (by rw [hdigits]; simp)

theorem readWhole_length_lt {cs ds rest : List Char} (h : readWhole cs = some (ds, rest)) :
    rest.length < cs.length := by
  unfold readWhole at h
  split at h
  · simp only [Option.some.injEq, Prod.mk.injEq] at h
    simp [← h.2]
  · exact readDigits_length_lt h

theorem readFraction_length_le {cs ds rest : List Char}
    (h : readFraction cs = some (ds, rest)) : rest.length ≤ cs.length := by
  unfold readFraction at h
  split at h
  · have := readDigits_length_lt h
    simp only [List.length_cons]
    omega
  · simp only [Option.some.injEq, Prod.mk.injEq] at h
    simp [h.2]

theorem readExponentValue_length_lt {cs rest : List Char} {n : Int}
    (h : readExponentValue cs = some (n, rest)) : rest.length < cs.length := by
  unfold readExponentValue at h
  split at h <;> simp only [Option.map_eq_some_iff, Prod.mk.injEq, Prod.exists] at h <;>
    obtain ⟨ds, rest', hdigits, -, rfl⟩ := h
  · exact Nat.lt_succ_of_lt (readDigits_length_lt hdigits)
  · exact Nat.lt_succ_of_lt (readDigits_length_lt hdigits)
  · exact readDigits_length_lt hdigits

theorem readExponent_length_le {cs rest : List Char} {n : Option Int}
    (h : readExponent cs = some (n, rest)) : rest.length ≤ cs.length := by
  unfold readExponent at h
  split at h
  · simp only [Option.map_eq_some_iff, Prod.mk.injEq, Prod.exists] at h
    obtain ⟨n', rest', hvalue, -, rfl⟩ := h
    have := readExponentValue_length_lt hvalue
    simp only [List.length_cons]
    omega
  · simp only [Option.map_eq_some_iff, Prod.mk.injEq, Prod.exists] at h
    obtain ⟨n', rest', hvalue, -, rfl⟩ := h
    have := readExponentValue_length_lt hvalue
    simp only [List.length_cons]
    omega
  · simp only [Option.some.injEq, Prod.mk.injEq] at h
    simp [h.2]

theorem readNumber_length_lt {negative : Bool} {cs rest : List Char} {number : Number}
    (h : readNumber negative cs = some (number, rest)) : rest.length < cs.length := by
  unfold readNumber at h
  split at h
  · simp at h
  · rename_i hwhole
    split at h
    · simp at h
    · rename_i hfraction
      split at h
      · simp at h
      · rename_i hexponent
        simp only [Option.some.injEq, Prod.mk.injEq] at h
        have h₁ := readWhole_length_lt hwhole
        have h₂ := readFraction_length_le hfraction
        have h₃ := readExponent_length_le hexponent
        rw [← h.2]
        omega

theorem readPieces_length_lt {cs rest : List Char} {pieces : List Piece}
    (h : readPieces cs = some (pieces, rest)) : rest.length < cs.length := by
  fun_induction readPieces cs generalizing pieces rest with
  | case1 => simp at h
  | case2 => simp_all
  | case3 =>
    rename_i ih
    simp only [Option.some.injEq, Prod.mk.injEq] at h
    have := ih ‹_›
    simp only [List.length_cons]
    grind
  | case4 => simp at h
  | case5 =>
    rename_i ih
    simp only [Option.some.injEq, Prod.mk.injEq] at h
    have := ih ‹_›
    simp only [List.length_cons]
    grind
  | case6 => simp at h
  | case7 => simp at h
  | case8 =>
    rename_i ih
    simp only [Option.map_eq_some_iff, Prod.mk.injEq, Prod.exists] at h
    obtain ⟨ps, rest', hrest, -, rfl⟩ := h
    have := ih hrest
    simp only [List.length_cons]
    omega

theorem nextToken_length_lt {cs rest : List Char} {token : Token}
    (h : nextToken cs = some (token, rest)) : rest.length < cs.length := by
  unfold nextToken at h
  split at h
  case h_1 => simp at h
  case h_11 =>
    simp only [Option.map_eq_some_iff, Prod.mk.injEq, Prod.exists] at h
    obtain ⟨pieces, rest', hpieces, -, rfl⟩ := h
    have := readPieces_length_lt hpieces
    simp only [List.length_cons]
    omega
  case h_12 =>
    simp only [Option.map_eq_some_iff, Prod.mk.injEq, Prod.exists] at h
    obtain ⟨number, rest', hnumber, -, rfl⟩ := h
    have := readNumber_length_lt hnumber
    simp only [List.length_cons]
    omega
  case h_13 =>
    simp only [Option.map_eq_some_iff, Prod.mk.injEq, Prod.exists] at h
    obtain ⟨number, rest', hnumber, -, rfl⟩ := h
    exact readNumber_length_lt hnumber
  all_goals
    simp only [Option.some.injEq, Prod.mk.injEq] at h
    rw [← h.2]
    simp only [List.length_cons]
    omega

/-- The tokens of a text; nothing when some part of it begins no token. -/
def tokens? (cs : List Char) : Option (List Token) :=
  match _hrest : cs.dropWhile isSpace with
  | [] => some []
  | c :: rest =>
    match _hnext : nextToken (c :: rest) with
    | none => none
    | some (token, rest) => (tokens? rest).map (token :: ·)
termination_by cs.length
decreasing_by
  have hnext := nextToken_length_lt _hnext
  have hle := (List.dropWhile_sublist isSpace (l := cs)).length_le
  rw [_hrest] at hle
  simp only [List.length_cons] at hnext hle
  omega

end Wiring.Json

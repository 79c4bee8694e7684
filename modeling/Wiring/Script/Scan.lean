import Wiring.Failure

/-!
# From a line to its tokens

Between two tokens stand spaces, tabs and comments.  A comment runs from two
slashes to the end of the line; where a carriage return that ends no line stops
it, it is no comment, and its slashes begin a word.  Each step of the scan
returns a shorter rest, so the scan of a line ends by the length of the line.
-/

namespace Wiring.Script

/-- What follows the body of a comment: the end of the text, or the line end
that stops it.  A carriage return without a line feed makes it no comment. -/
def afterComment : List Char → Option (List Char)
  | [] => some []
  | '\n' :: rest => some ('\n' :: rest)
  | '\r' :: '\n' :: rest => some ('\r' :: '\n' :: rest)
  | '\r' :: _ => none
  | _ :: rest => afterComment rest

/-- Drop blanks and comments at the beginning. -/
def skipTrivia : List Char → List Char
  | ' ' :: rest => skipTrivia rest
  | '\t' :: rest => skipTrivia rest
  | '/' :: '/' :: rest => (afterComment rest).getD ('/' :: '/' :: rest)
  | cs => cs

/-- Read a string literal from behind its opening quote: its value and what
follows the closing quote.  A backslash before a character that needs none
stands for itself. -/
def readLiteral : List Char → Option (List Char × List Char)
  | [] => none
  | '"' :: rest => some ([], rest)
  | ['\\'] => none
  | '\\' :: 'n' :: rest => (readLiteral rest).map fun (value, rest) => ('\n' :: value, rest)
  | '\\' :: 't' :: rest => (readLiteral rest).map fun (value, rest) => ('\t' :: value, rest)
  | '\\' :: '\\' :: rest => (readLiteral rest).map fun (value, rest) => ('\\' :: value, rest)
  | '\\' :: '"' :: rest => (readLiteral rest).map fun (value, rest) => ('"' :: value, rest)
  | '\\' :: c :: rest => (readLiteral rest).map fun (value, rest) => ('\\' :: c :: value, rest)
  | c :: rest => (readLiteral rest).map fun (value, rest) => (c :: value, rest)

/-- The token at the beginning of a text without leading trivia, and what
follows it; nothing at the end of the text. -/
def readToken : List Char → Except ScriptFault (Option (Token × List Char))
  | [] => .ok none
  | c :: rest =>
    if c = '"' then
      match readLiteral rest with
      | none => .error (.unclosed rest)
      | some (value, after) => .ok (some (.literal (String.ofList value), after))
    else if c = ':' then .ok (some (.colon, rest))
    else if c = '=' then .ok (some (.equals, rest))
    else if isWordChar c then
      .ok (some (Token.ofWord (String.ofList (c :: rest.takeWhile isWordChar)),
        rest.dropWhile isWordChar))
    else .error (.stray (c :: rest))

/-- The next token of a text and what follows it. -/
def nextToken (cs : List Char) : Except ScriptFault (Option (Token × List Char)) :=
  readToken (skipTrivia cs)

/-! ## The rests get shorter -/

theorem afterComment_length_le {cs rest : List Char} (h : afterComment cs = some rest) :
    rest.length ≤ cs.length := by
  fun_induction afterComment cs with
  | case1 => simp_all
  | case2 => simp_all
  | case3 => simp_all
  | case4 => simp_all
  | case5 _ _ _ _ _ ih =>
    have := ih h
    simp only [List.length_cons]
    omega

theorem skipTrivia_length_le (cs : List Char) : (skipTrivia cs).length ≤ cs.length := by
  fun_induction skipTrivia cs with
  | case1 rest ih => simp only [List.length_cons]; omega
  | case2 rest ih => simp only [List.length_cons]; omega
  | case3 rest =>
    cases h : afterComment rest with
    | none => simp
    | some after =>
      have := afterComment_length_le h
      simp only [Option.getD_some, List.length_cons]
      omega
  | case4 cs => exact Nat.le_refl _

theorem readLiteral_length_lt {cs value rest : List Char}
    (h : readLiteral cs = some (value, rest)) : rest.length < cs.length := by
  fun_induction readLiteral cs generalizing value rest with
  | case1 => simp at h
  | case2 => simp_all
  | case3 => simp at h
  | _ =>
    rename_i ih
    simp only [Option.map_eq_some_iff, Prod.mk.injEq, Prod.exists] at h
    obtain ⟨value', rest', hrest, -, rfl⟩ := h
    have := ih hrest
    simp only [List.length_cons]
    omega

theorem dropWhile_length_le (p : Char → Bool) (cs : List Char) :
    (cs.dropWhile p).length ≤ cs.length :=
  (List.dropWhile_suffix p).length_le

theorem readToken_length_lt {cs rest : List Char} {token : Token}
    (h : readToken cs = .ok (some (token, rest))) : rest.length < cs.length := by
  cases cs with
  | nil => simp [readToken] at h
  | cons c cs =>
    simp only [readToken] at h
    split at h
    · split at h
      · simp at h
      · rename_i value after hread
        simp only [Except.ok.injEq, Option.some.injEq, Prod.mk.injEq] at h
        have := readLiteral_length_lt hread
        simp only [List.length_cons, ← h.2]
        omega
    · split at h
      · simp_all
      · split at h
        · simp_all
        · split at h
          · simp only [Except.ok.injEq, Option.some.injEq, Prod.mk.injEq] at h
            have := dropWhile_length_le isWordChar cs
            simp only [List.length_cons, ← h.2]
            omega
          · simp at h

theorem nextToken_length_lt {cs rest : List Char} {token : Token}
    (h : nextToken cs = .ok (some (token, rest))) : rest.length < cs.length :=
  Nat.lt_of_lt_of_le (readToken_length_lt h) (skipTrivia_length_le cs)

/-! ## All tokens -/

/-- The tokens of a line, up to the first fault. -/
def tokens (cs : List Char) : Except ScriptFault (List Token) :=
  match _hnext : nextToken cs with
  | .error fault => .error fault
  | .ok none => .ok []
  | .ok (some (token, rest)) =>
    match tokens rest with
    | .error fault => .error fault
    | .ok others => .ok (token :: others)
termination_by cs.length
decreasing_by exact nextToken_length_lt _hnext

end Wiring.Script

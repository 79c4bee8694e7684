import Wiring.Json.Pretty
import Wiring.Proofs.Json.Reading
import Wiring.Proofs.Json.Scanning

/-!
# Reading what is written

In the tokens of a value each number is followed by a mark, `isChain_tokens`, and the form
for people differs from the tokens only by blanks, `spaced_prettyValue`.  So every value is
read back from both of its written forms, `read_compact` and `read_pretty`.
-/

namespace Wiring.Json

/-! ## The order of the tokens -/

theorem isChain_append_cons {ts us : List Token} {mark : Token} (hts : ts.IsChain MayFollow)
    (hus : (mark :: us).IsChain MayFollow) (hmark : EndsNumber mark.text) :
    (ts ++ mark :: us).IsChain MayFollow := by
  refine List.isChain_append.2 ⟨hts, hus, ?_⟩
  rintro t - next hnext n -
  rw [← Option.some.inj hnext]
  exact hmark

theorem isChain_cons {t : Token} {ts : List Token} (ht : ∀ n, t ≠ .number n)
    (hts : ts.IsChain MayFollow) : (t :: ts).IsChain MayFollow :=
  List.isChain_cons.2 ⟨fun _ _ n hn => absurd hn (ht n), hts⟩

mutual

/-- In the tokens of a value a mark ends each number. -/
theorem isChain_tokens (value : Json) : value.tokens.IsChain MayFollow := by
  match value with
  | .null | .bool _ | .number _ | .string _ => exact List.isChain_singleton _
  | .array items =>
    exact isChain_cons nofun
      (isChain_append_cons (isChain_itemTokens items) (List.isChain_singleton _)
        (by simp [EndsNumber, Token.text]))
  | .object members =>
    exact isChain_cons nofun
      (isChain_append_cons (isChain_memberTokens members) (List.isChain_singleton _)
        (by simp [EndsNumber, Token.text]))
termination_by sizeOf value

theorem isChain_itemTokens (items : List Json) : (itemTokens items).IsChain MayFollow := by
  match items with
  | [] => exact List.isChain_nil
  | [value] => exact isChain_tokens value
  | value :: next :: rest =>
    exact isChain_append_cons (isChain_tokens value)
      (isChain_cons nofun (isChain_itemTokens (next :: rest))) (by simp [EndsNumber, Token.text])
termination_by sizeOf items

theorem isChain_memberTokens (members : List (Option String × Json)) :
    (memberTokens members).IsChain MayFollow := by
  match members with
  | [] => exact List.isChain_nil
  | [(key, value)] => exact isChain_cons nofun (isChain_cons nofun (isChain_tokens value))
  | (key, value) :: next :: rest =>
    exact isChain_cons nofun (isChain_cons nofun (isChain_append_cons (isChain_tokens value)
      (isChain_cons nofun (isChain_memberTokens (next :: rest)))
      (by simp [EndsNumber, Token.text])))
termination_by sizeOf members

end

/-! ## The written forms -/

theorem spaced_flatMap_text (ts : List Token) : Spaced (ts.flatMap Token.text) ts := by
  induction ts with
  | nil => exact .nil
  | cons t ts ih => exact .token t ih

theorem spaced_text (t : Token) : Spaced t.text [t] := by
  have h := Spaced.token t .nil
  rwa [List.append_nil] at h

theorem spaced_newline (depth : Nat) : Spaced (newline depth) [] := by
  refine .blank rfl ?_
  induction 2 * depth with
  | zero => exact .nil
  | succ n ih => exact .blank rfl ih

theorem Spaced.newline_append (depth : Nat) {cs : List Char} {ts : List Token}
    (h : Spaced cs ts) : Spaced (newline depth ++ cs) ts :=
  (spaced_newline depth).append h

theorem Spaced.member (depth : Nat) (key : Option String) {cs : List Char} {ts : List Token}
    (h : Spaced cs ts) :
    Spaced (newline depth ++ literal key ++ ':' :: ' ' :: cs) (.string key :: .colon :: ts) := by
  rw [List.append_assoc]
  exact (Spaced.token (.string key) (.token .colon (.blank rfl h))).newline_append depth

/-- What stands between the two ends of a container, the second on its own line. -/
theorem Spaced.enclosed (first last : Token) (depth : Nat) {cs : List Char} {ts : List Token}
    (h : Spaced cs ts) :
    Spaced (first.text ++ cs ++ newline depth ++ last.text) (first :: (ts ++ [last])) := by
  rw [List.append_assoc, List.append_assoc]
  exact .token first (h.append ((spaced_text last).newline_append depth))

mutual

/-- The form for people has the tokens of the value with blanks between them. -/
theorem spaced_prettyValue (depth : Nat) (value : Json) :
    Spaced (prettyValue depth value) value.tokens := by
  match value with
  | .null | .bool _ | .number _ | .string _ =>
    rw [prettyValue, tokens]
    exact spaced_text _
  | .array [] => exact .token .openArray (spaced_text .closeArray)
  | .object [] => exact .token .openObject (spaced_text .closeObject)
  | .array (item :: rest) =>
    rw [prettyValue, tokens]
    exact (spaced_prettyItems (depth + 1) (item :: rest)).enclosed .openArray .closeArray depth
  | .object (member :: rest) =>
    rw [prettyValue, tokens]
    exact (spaced_prettyMembers (depth + 1) (member :: rest)).enclosed .openObject .closeObject
      depth
termination_by sizeOf value

theorem spaced_prettyItems (depth : Nat) (items : List Json) :
    Spaced (prettyItems depth items) (itemTokens items) := by
  match items with
  | [] => exact .nil
  | [value] =>
    rw [prettyItems, itemTokens]
    exact (spaced_prettyValue depth value).newline_append depth
  | value :: next :: rest =>
    rw [prettyItems, itemTokens]
    exact ((spaced_prettyValue depth value).newline_append depth).append
      (.token .comma (spaced_prettyItems depth (next :: rest)))
termination_by sizeOf items

theorem spaced_prettyMembers (depth : Nat) (members : List (Option String × Json)) :
    Spaced (prettyMembers depth members) (memberTokens members) := by
  match members with
  | [] => exact .nil
  | [(key, value)] =>
    rw [prettyMembers, memberTokens]
    exact (spaced_prettyValue depth value).member depth key
  | (key, value) :: next :: rest =>
    rw [prettyMembers, memberTokens]
    exact ((spaced_prettyValue depth value).member depth key).append
      (.token .comma (spaced_prettyMembers depth (next :: rest)))
termination_by sizeOf members

end

/-- Every value is read back from its text without blanks. -/
theorem read_compact (value : Json) : read value.compact = some value := by
  rw [read, compact, String.toList_ofList,
    tokens?_of_spaced (spaced_flatMap_text value.tokens) (isChain_tokens value)]
  exact ofTokens?_tokens value

/-- Every value is read back from its form for people. -/
theorem read_pretty (value : Json) : read value.pretty = some value := by
  rw [read, pretty, String.toList_ofList,
    tokens?_of_spaced (spaced_prettyValue 0 value) (isChain_tokens value)]
  exact ofTokens?_tokens value

end Wiring.Json

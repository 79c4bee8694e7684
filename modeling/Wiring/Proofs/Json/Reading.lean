import Wiring.Json.Read

/-!
# Reading the tokens of a value

Reading takes one token after another and keeps the open containers on a stack.  Where a
value is due, all of its tokens together lead to the state in which the value is complete
and the stack is as before, `run_due_tokens`.  So the tokens of a value read as the value.
-/

namespace Wiring.Json

namespace Reading

theorem run_cons_of_step {reading next : Reading} {token : Token}
    (h : reading.step token = some next) (rest : List Token) :
    reading.run (token :: rest) = next.run rest := by
  rw [run, h]

/-- No value begins with the end of a list, so a first item is read as any other. -/
theorem run_firstItem (value : Json) (frames : List Frame) (rest : List Token) :
    run (.firstItem frames) (value.tokens ++ rest) =
      run (.due (.array [] :: frames)) (value.tokens ++ rest) := by
  cases value <;> rfl

theorem run_firstItem_itemTokens (item : Json) (others : List Json) (frames : List Frame)
    (rest : List Token) :
    run (.firstItem frames) (itemTokens (item :: others) ++ rest) =
      run (.due (.array [] :: frames)) (itemTokens (item :: others) ++ rest) := by
  cases others with
  | nil => exact run_firstItem item frames rest
  | cons next others =>
    rw [itemTokens, List.append_assoc]
    exact run_firstItem item frames _

/-- A first key is read as any other. -/
theorem run_firstKey_memberTokens (member : Option String × Json)
    (others : List (Option String × Json)) (frames : List Frame) (rest : List Token) :
    run (.firstKey frames) (memberTokens (member :: others) ++ rest) =
      run (.nextKey [] frames) (memberTokens (member :: others) ++ rest) := by
  cases others <;> rfl

mutual

/-- The tokens of a value that is due make it complete. -/
theorem run_due_tokens (value : Json) (frames : List Frame) (rest : List Token) :
    run (.due frames) (value.tokens ++ rest) = run (.complete value frames) rest := by
  match value with
  | .null | .bool _ | .number _ | .string _ => rfl
  | .array [] | .object [] => rfl
  | .array (item :: others) =>
    rw [tokens, List.cons_append, List.append_assoc, run_cons_of_step rfl,
      run_firstItem_itemTokens]
    exact run_due_itemTokens [] item others frames rest
  | .object (member :: others) =>
    rw [tokens, List.cons_append, List.append_assoc, run_cons_of_step rfl,
      run_firstKey_memberTokens]
    exact run_nextKey_memberTokens [] member others frames rest
termination_by sizeOf value

/-- The tokens of items that are due, and the end of the list, make the list complete. -/
theorem run_due_itemTokens (before : List Json) (item : Json) (others : List Json)
    (frames : List Frame) (rest : List Token) :
    run (.due (.array before :: frames)) (itemTokens (item :: others) ++ .closeArray :: rest) =
      run (.complete (.array (before ++ item :: others)) frames) rest := by
  match others with
  | [] =>
    rw [itemTokens, run_due_tokens item, run_cons_of_step rfl]
  | next :: others =>
    rw [itemTokens, List.append_assoc, run_due_tokens item, List.cons_append,
      run_cons_of_step rfl, run_due_itemTokens (before ++ [item]) next others,
      List.append_assoc, List.singleton_append]
termination_by sizeOf (item :: others)

/-- The tokens of members that are due, and the end of the object, make the object
complete. -/
theorem run_nextKey_memberTokens (before : List (Option String × Json))
    (member : Option String × Json) (others : List (Option String × Json))
    (frames : List Frame) (rest : List Token) :
    run (.nextKey before frames) (memberTokens (member :: others) ++ .closeObject :: rest) =
      run (.complete (.object (before ++ member :: others)) frames) rest := by
  match member, others with
  | (key, value), [] =>
    rw [memberTokens, List.cons_append, List.cons_append, run_cons_of_step rfl,
      run_cons_of_step rfl, run_due_tokens value, run_cons_of_step rfl]
  | (key, value), next :: others =>
    rw [memberTokens, List.cons_append, List.cons_append, run_cons_of_step rfl,
      run_cons_of_step rfl, List.append_assoc, run_due_tokens value, List.cons_append,
      run_cons_of_step rfl, run_nextKey_memberTokens (before ++ [(key, value)]) next others,
      List.append_assoc, List.singleton_append]
termination_by sizeOf (member :: others)

end

end Reading

/-- The tokens of a value read as the value. -/
theorem ofTokens?_tokens (value : Json) : ofTokens? value.tokens = some value := by
  rw [ofTokens?, ← List.append_nil value.tokens, Reading.run_due_tokens]
  rfl

end Wiring.Json

import Wiring.Proofs.Outcomes
import Wiring.Proofs.Script.Scanning
import Wiring.Script.Parse

/-!
# Reading an operation

From which tokens an operation is read: from its own, `Op.tokens`, and from no
others, provided that the dots of its addresses separate fields.  The equivalences
follow the reader function by function, so that each says both when it succeeds and
with what.

The script of several lines is what they hold, one after the other,
`parseLines_eq_ok_iff`, and their failure is that of the first line that cannot be
read, `parseLines_eq_error_iff`.
-/

namespace Wiring

open Wiring.Text

/-- The text of the address can be split at its dot again. -/
structure ComponentPath.IsDotted (path : ComponentPath) : Prop where
  node_ne : path.node ≠ ""
  node_noDot : '.' ∉ path.node.toList
  id_ne : path.id ≠ ""
  id_noDot : '.' ∉ path.id.toList

/-- The tokens of the line of an operation. -/
def Op.tokens : Op → List Script.Token
  | .addComponent path typeName => [.add, .word path.text, .colon, .word typeName]
  | .addChannel channel typeName => [.add, .word channel.name, .colon, .word typeName]
  | .setAttribute path key value => [.set, .word (path.member key), .equals, .literal value]
  | .bind port channel => [.bind, .word port.text, .word channel.name]
  | .remove path => [.remove, .word path.text]

/-- The dots in the line of an operation separate the fields of its addresses. -/
def Op.IsDotted : Op → Prop
  | .addComponent path _ | .remove path => path.IsDotted
  | .addChannel channel _ => '.' ∉ channel.name.toList
  | .setAttribute path key _ => path.IsDotted ∧ key ≠ ""
  | .bind port _ => port.component.IsDotted ∧ port.port ≠ ""

instance (path : ComponentPath) : Decidable path.IsDotted :=
  decidable_of_iff
    ((path.node ≠ "" ∧ '.' ∉ path.node.toList) ∧ path.id ≠ "" ∧ '.' ∉ path.id.toList)
    ⟨fun h => ⟨h.1.1, h.1.2, h.2.1, h.2.2⟩,
      fun h => ⟨⟨h.node_ne, h.node_noDot⟩, h.id_ne, h.id_noDot⟩⟩

instance : (op : Op) → Decidable op.IsDotted
  | .addComponent path _ | .remove path => inferInstanceAs (Decidable path.IsDotted)
  | .addChannel channel _ => inferInstanceAs (Decidable ('.' ∉ channel.name.toList))
  | .setAttribute .. | .bind .. => instDecidableAnd

namespace Script

/-! ## Addresses -/

theorem dot_mem_text (path : ComponentPath) : '.' ∈ path.text.toList := by
  simp [ComponentPath.text]

theorem componentPath_eq_ok_iff {word : String} {path : ComponentPath} :
    componentPath word = .ok path ↔ word = path.text ∧ path.IsDotted := by
  constructor
  · intro h
    unfold componentPath at h
    split at h
    · rename_i node id hcut
      split at h
      · rename_i hfields
        obtain ⟨hword, hnode⟩ := cutFirst_eq_some_iff.1 hcut
        obtain rfl : ComponentPath.mk (String.ofList node) (String.ofList id) = path := by
          simpa using h
        refine ⟨?_, ?_, ?_, ?_, ?_⟩
        · rw [← String.toList_inj, hword]
          simp [ComponentPath.text]
        · simpa using hfields.1
        · simpa using hnode
        · simpa using hfields.2.1
        · simpa using hfields.2.2
      · simp at h
    · simp at h
  · rintro ⟨rfl, hpath⟩
    have hcut : cutFirst '.' path.text.toList = some (path.node.toList, path.id.toList) := by
      rw [cutFirst_eq_some_iff]
      exact ⟨by simp [ComponentPath.text], hpath.node_noDot⟩
    have hfields : path.node.toList ≠ [] ∧ path.id.toList ≠ [] ∧ '.' ∉ path.id.toList :=
      ⟨by simpa using hpath.node_ne, by simpa using hpath.id_ne, hpath.id_noDot⟩
    rw [componentPath, hcut]
    simp only [if_pos hfields, String.ofList_toList]

theorem memberPath_eq_ok_iff {word member : String} {path : ComponentPath} :
    memberPath word = .ok (path, member) ↔
      word = path.member member ∧ path.IsDotted ∧ member ≠ "" := by
  constructor
  · intro h
    unfold memberPath at h
    split at h
    · simp at h
    · rename_i node rest hcut
      split at h
      · simp at h
      · rename_i id name hcut'
        split at h
        · rename_i hfields
          obtain ⟨hword, hnode⟩ := cutFirst_eq_some_iff.1 hcut
          obtain ⟨hrest, hid⟩ := cutFirst_eq_some_iff.1 hcut'
          obtain ⟨rfl, rfl⟩ :
              ComponentPath.mk (String.ofList node) (String.ofList id) = path ∧
                String.ofList name = member := by
            simpa using h
          refine ⟨?_, ⟨?_, ?_, ?_, ?_⟩, ?_⟩
          · rw [← String.toList_inj, hword, hrest]
            simp [ComponentPath.member, ComponentPath.text]
          · simpa using hfields.1
          · simpa using hnode
          · simpa using hfields.2.1
          · simpa using hid
          · simpa using hfields.2.2
        · simp at h
  · rintro ⟨rfl, hpath, hmember⟩
    have hcut : cutFirst '.' (path.member member).toList =
        some (path.node.toList, path.id.toList ++ '.' :: member.toList) := by
      rw [cutFirst_eq_some_iff]
      exact ⟨by simp [ComponentPath.member, ComponentPath.text], hpath.node_noDot⟩
    -- The second cut is at the first dot behind the id, whatever dots the member has.
    have hcut' : cutFirst '.' (path.id.toList ++ '.' :: member.toList) =
        some (path.id.toList, member.toList) :=
      cutFirst_append hpath.id_noDot
    have hfields : path.node.toList ≠ [] ∧ path.id.toList ≠ [] ∧ member.toList ≠ [] :=
      ⟨by simpa using hpath.node_ne, by simpa using hpath.id_ne, by simpa using hmember⟩
    rw [memberPath, hcut]
    simp only [hcut', if_pos hfields, String.ofList_toList]

/-! ## Operations from tokens -/

theorem takeName_eq_ok_iff {ts rest : List Token} {name : String} :
    takeName ts = .ok (name, rest) ↔ ts = .word name :: rest := by
  cases ts with
  | nil => simp [takeName]
  | cons token ts => cases token <;> simp [takeName]

theorem takeLiteral_eq_ok_iff {ts rest : List Token} {value : String} :
    takeLiteral ts = .ok (value, rest) ↔ ts = .literal value :: rest := by
  cases ts with
  | nil => simp [takeLiteral]
  | cons token ts => cases token <;> simp [takeLiteral]

theorem takeToken_eq_ok_iff {wanted : Token} {ts rest : List Token} :
    takeToken wanted ts = .ok rest ↔ ts = wanted :: rest := by
  cases ts with
  | nil => simp [takeToken]
  | cons token ts =>
    by_cases heq : token = wanted
    · simp [takeToken, heq]
    · simp [takeToken, heq]

theorem parseAdd_eq_ok_iff {ts rest : List Token} {op : Op} :
    parseAdd ts = .ok (op, rest) ↔
      ∃ target typeName, ts = .word target :: .colon :: .word typeName :: rest ∧
        ((∃ path, op = .addComponent path typeName ∧ target = path.text ∧ path.IsDotted) ∨
          (op = .addChannel ⟨target⟩ typeName ∧ '.' ∉ target.toList)) := by
  unfold parseAdd
  simp only [bind_eq_ok_iff, Prod.exists, takeName_eq_ok_iff, takeToken_eq_ok_iff]
  constructor
  · rintro ⟨target, ts₁, rfl, ts₂, rfl, typeName, ts₃, rfl, h⟩
    split at h
    · obtain ⟨path, hpath, heq⟩ := bind_eq_ok_iff.1 h
      obtain ⟨rfl, rfl⟩ : Op.addComponent path typeName = op ∧ ts₃ = rest := by
        simpa [pure, Except.pure] using heq
      exact ⟨target, typeName, rfl, Or.inl ⟨path, rfl, componentPath_eq_ok_iff.1 hpath⟩⟩
    · rename_i hdot
      obtain ⟨rfl, rfl⟩ : Op.addChannel ⟨target⟩ typeName = op ∧ ts₃ = rest := by
        simpa [pure, Except.pure] using h
      exact ⟨target, typeName, rfl, Or.inr ⟨rfl, hdot⟩⟩
  · rintro ⟨target, typeName, rfl, hop⟩
    refine ⟨target, _, rfl, _, rfl, typeName, rest, rfl, ?_⟩
    rcases hop with ⟨path, rfl, rfl, hpath⟩ | ⟨rfl, hdot⟩
    · rw [if_pos (dot_mem_text path), bind_eq_ok_iff]
      exact ⟨path, componentPath_eq_ok_iff.2 ⟨rfl, hpath⟩, rfl⟩
    · rw [if_neg hdot]
      rfl

theorem parseSet_eq_ok_iff {ts rest : List Token} {op : Op} :
    parseSet ts = .ok (op, rest) ↔
      ∃ path key value, ts = .word (path.member key) :: .equals :: .literal value :: rest ∧
        op = .setAttribute path key value ∧ path.IsDotted ∧ key ≠ "" := by
  unfold parseSet
  simp only [bind_eq_ok_iff, Prod.exists, takeName_eq_ok_iff, takeToken_eq_ok_iff,
    takeLiteral_eq_ok_iff, memberPath_eq_ok_iff]
  constructor
  · rintro ⟨target, ts₁, rfl, ts₂, rfl, value, ts₃, rfl, path, key, ⟨rfl, hpath, hkey⟩, heq⟩
    obtain ⟨rfl, rfl⟩ : Op.setAttribute path key value = op ∧ ts₃ = rest := by
      simpa [pure, Except.pure] using heq
    exact ⟨path, key, value, rfl, rfl, hpath, hkey⟩
  · rintro ⟨path, key, value, rfl, rfl, hpath, hkey⟩
    exact ⟨_, _, rfl, _, rfl, value, rest, rfl, path, key, ⟨rfl, hpath, hkey⟩, rfl⟩

theorem parseBind_eq_ok_iff {ts rest : List Token} {op : Op} :
    parseBind ts = .ok (op, rest) ↔
      ∃ port channel, ts = .word port.text :: .word channel.name :: rest ∧
        op = .bind port channel ∧ port.component.IsDotted ∧ port.port ≠ "" := by
  unfold parseBind
  simp only [bind_eq_ok_iff, Prod.exists, takeName_eq_ok_iff, memberPath_eq_ok_iff]
  constructor
  · rintro ⟨target, ts₁, rfl, channel, ts₂, rfl, path, port, ⟨rfl, hpath, hport⟩, heq⟩
    obtain ⟨rfl, rfl⟩ : Op.bind ⟨path, port⟩ ⟨channel⟩ = op ∧ ts₂ = rest := by
      simpa [pure, Except.pure] using heq
    exact ⟨⟨path, port⟩, ⟨channel⟩, rfl, rfl, hpath, hport⟩
  · rintro ⟨⟨path, port⟩, ⟨channel⟩, rfl, rfl, hpath, hport⟩
    exact ⟨_, _, rfl, channel, rest, rfl, path, port, ⟨rfl, hpath, hport⟩, rfl⟩

theorem parseRemove_eq_ok_iff {ts rest : List Token} {op : Op} :
    parseRemove ts = .ok (op, rest) ↔
      ∃ path, ts = .word path.text :: rest ∧ op = .remove path ∧ path.IsDotted := by
  unfold parseRemove
  simp only [bind_eq_ok_iff, Prod.exists, takeName_eq_ok_iff, componentPath_eq_ok_iff]
  constructor
  · rintro ⟨target, ts₁, rfl, path, ⟨rfl, hpath⟩, heq⟩
    obtain ⟨rfl, rfl⟩ : Op.remove path = op ∧ ts₁ = rest := by
      simpa [pure, Except.pure] using heq
    exact ⟨path, rfl, rfl, hpath⟩
  · rintro ⟨path, rfl, rfl, hpath⟩
    exact ⟨_, rest, rfl, path, ⟨rfl, hpath⟩, rfl⟩

/-- An operation is read from its own tokens and from no others. -/
theorem parseOp_eq_ok_iff {ts rest : List Token} {op : Op} :
    parseOp ts = .ok (op, rest) ↔ ts = op.tokens ++ rest ∧ op.IsDotted := by
  constructor
  · intro h
    unfold parseOp at h
    split at h
    · obtain ⟨target, typeName, rfl, ⟨path, rfl, rfl, hpath⟩ | ⟨rfl, hdot⟩⟩ :=
        parseAdd_eq_ok_iff.1 h
      · exact ⟨rfl, hpath⟩
      · exact ⟨rfl, hdot⟩
    · obtain ⟨path, key, value, rfl, rfl, hpath⟩ := parseSet_eq_ok_iff.1 h
      exact ⟨rfl, hpath⟩
    · obtain ⟨port, channel, rfl, rfl, hport⟩ := parseBind_eq_ok_iff.1 h
      exact ⟨rfl, hport⟩
    · obtain ⟨path, rfl, rfl, hpath⟩ := parseRemove_eq_ok_iff.1 h
      exact ⟨rfl, hpath⟩
    · simp at h
  · rintro ⟨rfl, hop⟩
    cases op with
    | addComponent path typeName =>
      exact parseAdd_eq_ok_iff.2 ⟨_, typeName, rfl, Or.inl ⟨path, rfl, rfl, hop⟩⟩
    | addChannel channel typeName =>
      exact parseAdd_eq_ok_iff.2 ⟨_, typeName, rfl, Or.inr ⟨rfl, hop⟩⟩
    | setAttribute path key value =>
      exact parseSet_eq_ok_iff.2 ⟨path, key, value, rfl, rfl, hop⟩
    | bind port channel => exact parseBind_eq_ok_iff.2 ⟨port, channel, rfl, rfl, hop⟩
    | remove path => exact parseRemove_eq_ok_iff.2 ⟨path, rfl, rfl, hop⟩

/-- A line holds no operation when it has no tokens. -/
theorem parseLine_eq_none_iff {line : List Char} :
    parseLine line = .ok none ↔ tokens line = .ok [] := by
  constructor
  · intro h
    unfold parseLine at h
    split at h
    · simp at h
    · rename_i htokens
      exact htokens
    · split at h <;> simp at h
  · intro htokens
    simp only [parseLine, htokens]

/-- A line holds an operation when its tokens are those of the operation. -/
theorem parseLine_eq_some_iff {line : List Char} {op : Op} :
    parseLine line = .ok (some op) ↔ tokens line = .ok op.tokens ∧ op.IsDotted := by
  constructor
  · intro h
    unfold parseLine at h
    split at h
    · simp at h
    · simp at h
    · rename_i token others htokens
      split at h
      · simp at h
      · rename_i op' hparse
        obtain rfl : op' = op := by simpa using h
        rw [parseOp_eq_ok_iff, List.append_nil] at hparse
        exact ⟨hparse.1 ▸ htokens, hparse.2⟩
      · simp at h
  · rintro ⟨htokens, hop⟩
    have hparse : parseOp op.tokens = .ok (op, []) :=
      parseOp_eq_ok_iff.2 ⟨(List.append_nil _).symm, hop⟩
    have hne : op.tokens ≠ [] := by cases op <;> simp [Op.tokens]
    obtain ⟨token, others, hcons⟩ := List.exists_cons_of_ne_nil hne
    rw [hcons] at htokens hparse
    simp only [parseLine, htokens, hparse]

/-! ## Lines in a row -/

variable {line : List Char} {ls ms : List (List Char)} {number : Nat} {s : Script}
  {failure : Failure}

theorem parseLines_cons (number : Nat) (line : List Char) (ls : List (List Char)) :
    parseLines number (line :: ls) = match parseLine line with
      | .error fault => .error (.invalidScript number fault)
      | .ok op => (parseLines (number + 1) ls).map (op.toList ++ ·) := by
  rw [parseLines]
  cases parseLine line with
  | error fault => rfl
  | ok op => cases op <;> cases parseLines (number + 1) ls <;> rfl

/-- The lines behind others are read with the numbers that follow theirs. -/
theorem parseLines_append (number : Nat) (ls ms : List (List Char)) :
    parseLines number (ls ++ ms) =
      parseLines number ls >>= fun s => (parseLines (number + ls.length) ms).map (s ++ ·) := by
  induction ls generalizing number with
  | nil =>
    show parseLines number ms = (parseLines number ms).map fun s => s
    cases parseLines number ms <;> rfl
  | cons line ls ih =>
    have hnumber : number + (line :: ls).length = number + 1 + ls.length := by
      rw [List.length_cons]
      omega
    rw [List.cons_append, parseLines_cons, parseLines_cons, hnumber, ih]
    cases parseLine line with
    | error fault => rfl
    | ok op =>
      cases parseLines (number + 1) ls with
      | error failure => rfl
      | ok s =>
        cases parseLines (number + 1 + ls.length) ms with
        | error failure => rfl
        | ok s' => exact congrArg Except.ok (List.append_assoc ..).symm

/-- Lines are read when each of them is, whatever their numbers. -/
theorem parseLines_eq_ok_iff :
    parseLines number ls = .ok s ↔
      ∃ ops : List (Option Op), ls.map parseLine = ops.map .ok ∧
        s = ops.flatMap Option.toList := by
  induction ls generalizing number s with
  | nil =>
    constructor
    · intro h
      exact ⟨[], rfl, (Except.ok.inj h).symm⟩
    · rintro ⟨ops, hops, rfl⟩
      obtain rfl := List.map_eq_nil_iff.1 hops.symm
      rfl
  | cons line ls ih =>
    rw [parseLines_cons]
    constructor
    · intro h
      split at h
      · simp at h
      · rename_i op hop
        obtain ⟨s', hs', rfl⟩ := map_eq_ok_iff.1 h
        obtain ⟨ops, hops, rfl⟩ := ih.1 hs'
        exact ⟨op :: ops, by simp [hop, hops], rfl⟩
    · rintro ⟨ops, hops, rfl⟩
      cases ops with
      | nil => simp at hops
      | cons op ops =>
        obtain ⟨hop, hops⟩ := List.cons.inj hops
        rw [hop, ih.2 ⟨ops, hops, rfl⟩]
        rfl

theorem exists_of_mem_lines (h : parseLines number ls = .ok s) (hline : line ∈ ls) :
    ∃ op, parseLine line = .ok op := by
  obtain ⟨ops, hops, -⟩ := parseLines_eq_ok_iff.1 h
  have hread : parseLine line ∈ ops.map Except.ok := hops ▸ List.mem_map_of_mem hline
  obtain ⟨op, -, hop⟩ := List.mem_map.1 hread
  exact ⟨op, hop.symm⟩

/-- Every operation stands in a line. -/
theorem exists_of_mem_script {op : Op} (h : parseLines number ls = .ok s) (hop : op ∈ s) :
    ∃ line ∈ ls, parseLine line = .ok (some op) := by
  obtain ⟨ops, hops, rfl⟩ := parseLines_eq_ok_iff.1 h
  obtain ⟨op', hmem, heq⟩ := List.mem_flatMap.1 hop
  obtain rfl : op' = some op := by simpa using heq
  have hread : Except.ok (some op) ∈ ls.map parseLine := hops ▸ List.mem_map_of_mem hmem
  exact List.mem_map.1 hread

/-- Other numbers do not change what lines hold. -/
theorem parseLines_eq_ok_of_number {number' : Nat} (h : parseLines number ls = .ok s) :
    parseLines number' ls = .ok s :=
  parseLines_eq_ok_iff.2 (parseLines_eq_ok_iff.1 h)

theorem parseLines_append_eq_ok_iff :
    parseLines number (ls ++ ms) = .ok s ↔
      ∃ s₁ s₂, parseLines number ls = .ok s₁ ∧ parseLines number ms = .ok s₂ ∧ s₁ ++ s₂ = s := by
  simp only [parseLines_append, bind_eq_ok_iff, map_eq_ok_iff, ← exists_and_left]
  refine exists_congr fun s₁ => exists_congr fun s₂ => and_congr_right fun _ => ?_
  exact and_congr_left fun _ => ⟨parseLines_eq_ok_of_number, parseLines_eq_ok_of_number⟩

theorem parseLines_cons_eq_ok_iff :
    parseLines number (line :: ls) = .ok s ↔
      ∃ op s', parseLine line = .ok op ∧ parseLines number ls = .ok s' ∧ op.toList ++ s' = s := by
  rw [parseLines_cons]
  cases parseLine line with
  | error fault => simp
  | ok op =>
    simp only [map_eq_ok_iff, Except.ok.injEq, exists_and_left, exists_eq_left']
    refine exists_congr fun s' => and_congr_left fun _ => ?_
    exact ⟨parseLines_eq_ok_of_number, parseLines_eq_ok_of_number⟩

/-- Reading fails at the first line that cannot be read. -/
theorem parseLines_eq_error_iff :
    parseLines number ls = .error failure ↔
      ∃ before line after fault, ls = before ++ line :: after ∧
        (∀ earlier ∈ before, ∃ op, parseLine earlier = .ok op) ∧
        parseLine line = .error fault ∧
        failure = .invalidScript (number + before.length) fault := by
  induction ls generalizing number with
  | nil => simp [parseLines]
  | cons line ls ih =>
    have hnumber : ∀ before : List (List Char),
        number + (line :: before).length = number + 1 + before.length := by
      intro before
      rw [List.length_cons]
      omega
    rw [parseLines_cons]
    constructor
    · intro h
      split at h
      · rename_i fault hline
        exact ⟨[], line, ls, fault, rfl, by simp, hline, (Except.error.inj h).symm⟩
      · rename_i op hop
        obtain ⟨before, line', after, fault, rfl, hbefore, hline', rfl⟩ :=
          ih.1 (map_eq_error_iff.1 h)
        refine ⟨line :: before, line', after, fault, rfl, ?_, hline', ?_⟩
        · exact List.forall_mem_cons.2 ⟨⟨op, hop⟩, hbefore⟩
        · rw [hnumber]
    · rintro ⟨before, line', after, fault, heq, hbefore, hline', rfl⟩
      cases before with
      | nil =>
        obtain ⟨rfl, rfl⟩ := List.cons.inj heq
        rw [hline']
        rfl
      | cons first before =>
        obtain ⟨rfl, rfl⟩ := List.cons.inj heq
        obtain ⟨⟨op, hop⟩, hbefore⟩ := List.forall_mem_cons.1 hbefore
        rw [hop]
        refine map_eq_error_iff.2 (ih.2 ⟨before, line', after, fault, rfl, hbefore, hline', ?_⟩)
        rw [hnumber]

/-- Other numbers of the lines change the number in the failure by the same amount. -/
theorem parseLines_eq_error_add {fault : ScriptFault}
    (h : parseLines 1 ls = .error (.invalidScript number fault)) (more : Nat) :
    parseLines (1 + more) ls = .error (.invalidScript (number + more) fault) := by
  obtain ⟨before, line, after, fault', rfl, hbefore, hline, heq⟩ := parseLines_eq_error_iff.1 h
  obtain ⟨rfl, rfl⟩ := Failure.invalidScript.inj heq
  have hnumber : 1 + before.length + more = 1 + more + before.length := by omega
  rw [hnumber]
  exact parseLines_eq_error_iff.2 ⟨before, line, after, fault, rfl, hbefore, hline, rfl⟩

end Script

end Wiring

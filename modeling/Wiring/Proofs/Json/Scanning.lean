import Mathlib.Data.List.Chain
import Mathlib.Tactic.SplitIfs
import Wiring.Json.Scan
import Wiring.Proofs.Text.Numeral

/-!
# Scanning written tokens

The text of a token is scanned as the token where nothing follows that would make a number
longer, `nextToken_text`.  Blanks may stand before every token, `Spaced`, and a sequence of
tokens in which something ends each number is scanned from any text of that kind,
`tokens?_of_spaced`.
-/

namespace Wiring.Json

open Wiring.Text

/-! ## Numbers -/

/-- Whether a text goes on with something that does not belong to a number. -/
def EndsNumber (cs : List Char) : Prop :=
  ∀ c ∈ cs.head?, c.isDigit = false ∧ c ≠ '.' ∧ c ≠ 'e' ∧ c ≠ 'E'

theorem EndsNumber.endsDigits {cs : List Char} (h : EndsNumber cs) : EndsDigits cs :=
  fun c hc => (h c hc).1

theorem readDigits_append {ds rest : List Char} (hds : ∀ c ∈ ds, c.isDigit = true)
    (hne : ds ≠ []) (hrest : EndsDigits rest) : readDigits (ds ++ rest) = some (ds, rest) := by
  rw [readDigits, takeWhile_isDigit_append hds hrest, dropWhile_isDigit_append hds hrest]
  cases ds with
  | nil => exact absurd rfl hne
  | cons d ds => rfl

theorem readDigits_digits (n : Nat) {rest : List Char} (hrest : EndsDigits rest) :
    readDigits (digits n ++ rest) = some (digits n, rest) :=
  readDigits_append (fun _ => isDigit_of_mem_toDigits) Nat.toDigits_ne_nil hrest

theorem readWhole_digits (n : Nat) {rest : List Char} (hrest : EndsDigits rest) :
    readWhole (digits n ++ rest) = some (digits n, rest) := by
  by_cases hzero : n = 0
  · subst hzero
    rfl
  · rw [readWhole, readDigits_digits n hrest]
    -- Only zero would be read by the digit alone.
    intro others hcons
    obtain ⟨d, ds, hdigits, -⟩ := exists_toDigits_eq_cons n
    rw [digits, hdigits, List.cons_append] at hcons
    exact hzero (head?_toDigits.1 (by rw [hdigits, (List.cons.inj hcons).1]; rfl))

/-- The digits of a fraction as they are read. -/
def fractionDigits (fraction : List (Fin 10)) : List Char :=
  fraction.map fun d => Nat.digitChar d.val

theorem isDigit_of_mem_fractionDigits {fraction : List (Fin 10)} {c : Char}
    (h : c ∈ fractionDigits fraction) : c.isDigit = true := by
  have hdigit : ∀ d : Fin 10, (Nat.digitChar d.val).isDigit = true := by decide
  obtain ⟨d, -, rfl⟩ := List.mem_map.1 h
  exact hdigit d

theorem map_digitValue_fractionDigits (fraction : List (Fin 10)) :
    (fractionDigits fraction).map digitValue = fraction := by
  have hdigit : ∀ d : Fin 10, digitValue (Nat.digitChar d.val) = d := by decide
  rw [fractionDigits, List.map_map]
  exact (List.map_congr_left fun d _ => hdigit d).trans (List.map_id fraction)

theorem readFraction_fractionText (fraction : List (Fin 10)) {rest : List Char}
    (hdigit : EndsDigits rest) (hpoint : rest.head? ≠ some '.') :
    readFraction (fractionText fraction ++ rest) = some (fractionDigits fraction, rest) := by
  cases fraction with
  | nil =>
    rw [fractionText, List.nil_append, readFraction]
    · rfl
    · rintro others rfl
      exact hpoint rfl
  | cons d ds =>
    exact readDigits_append (fun _ => isDigit_of_mem_fractionDigits) (List.cons_ne_nil _ _)
      hdigit

theorem readExponentValue_integerText (exponent : Int) {rest : List Char}
    (hrest : EndsDigits rest) :
    readExponentValue (integerText exponent ++ rest) = some (exponent, rest) := by
  cases exponent with
  | ofNat n =>
    rw [integerText, readExponentValue, readDigits_digits n hrest]
    · simp [digits]
    all_goals
      intro others hcons
      obtain ⟨d, ds, hdigits, hdigit⟩ := exists_toDigits_eq_cons n
      rw [digits, hdigits, List.cons_append] at hcons
      rw [(List.cons.inj hcons).1] at hdigit
      exact absurd hdigit (by decide)
  | negSucc n =>
    rw [integerText, List.cons_append, readExponentValue, readDigits_digits _ hrest]
    simp [digits, Int.negSucc_eq]

theorem readExponent_of_endsNumber {rest : List Char} (hrest : EndsNumber rest) :
    readExponent rest = some (none, rest) := by
  rw [readExponent]
  · rintro others rfl
    exact (hrest 'e' rfl).2.2.1 rfl
  · rintro others rfl
    exact (hrest 'E' rfl).2.2.2 rfl

/-- The text of a number without its sign. -/
def numberBody : Number → List Char
  | .whole _ magnitude => digits magnitude
  | .decimal _ whole fraction exponent =>
    digits whole ++ (fractionText fraction ++ 'e' :: integerText exponent)

/-- The sign of a number. -/
def isNegative : Number → Bool
  | .whole negative _ | .decimal negative _ _ _ => negative

theorem numberText_eq (n : Number) : numberText n = signText (isNegative n) ++ numberBody n := by
  cases n <;> simp [numberText, numberBody, isNegative]

theorem readNumber_body (n : Number) {rest : List Char} (hrest : EndsNumber rest) :
    readNumber (isNegative n) (numberBody n ++ rest) = some (n, rest) := by
  cases n with
  | whole negative magnitude =>
    have hpoint : rest.head? ≠ some '.' := fun h => (hrest '.' h).2.1 rfl
    have hfraction := readFraction_fractionText [] hrest.endsDigits hpoint
    rw [fractionText, List.nil_append] at hfraction
    simp only [readNumber, numberBody, readWhole_digits _ hrest.endsDigits, hfraction,
      readExponent_of_endsNumber hrest]
    simp [Number.ofParts, fractionDigits, isNegative, digits]
  | decimal negative whole fraction exponent =>
    have hexponent : EndsDigits ('e' :: (integerText exponent ++ rest)) := endsDigits_cons rfl
    have hwhole : EndsDigits (fractionText fraction ++ 'e' :: (integerText exponent ++ rest)) := by
      cases fraction with
      | nil => exact hexponent
      | cons d ds => exact endsDigits_cons rfl
    simp only [readNumber, numberBody, List.append_assoc, List.cons_append,
      readWhole_digits _ hwhole, readFraction_fractionText fraction hexponent (by simp),
      readExponent, readExponentValue_integerText exponent hrest.endsDigits, Option.map_some]
    simp [Number.ofParts, map_digitValue_fractionDigits, isNegative, digits]

theorem nextToken_of_isDigit {c : Char} (hc : c.isDigit = true) (cs : List Char) :
    nextToken (c :: cs) = (readNumber false (c :: cs)).map fun (n, rest) => (.number n, rest) := by
  rw [nextToken]
  · exact List.cons_ne_nil c cs
  all_goals
    intro others hcons
    rw [(List.cons.inj hcons).1] at hc
    exact absurd hc (by decide)

theorem exists_body_eq_cons (n : Number) :
    ∃ c cs, numberBody n = c :: cs ∧ c.isDigit = true := by
  cases n with
  | whole negative magnitude => exact exists_toDigits_eq_cons magnitude
  | decimal negative whole fraction exponent =>
    obtain ⟨c, cs, hcons, hc⟩ := exists_toDigits_eq_cons whole
    exact ⟨c, cs ++ _, by rw [numberBody, digits, hcons, List.cons_append], hc⟩

theorem nextToken_numberText (n : Number) {rest : List Char} (hrest : EndsNumber rest) :
    nextToken (numberText n ++ rest) = some (.number n, rest) := by
  have hread := readNumber_body n hrest
  rw [numberText_eq]
  cases hsign : isNegative n with
  | true =>
    rw [hsign] at hread
    simp only [signText, if_true, List.cons_append, List.nil_append, nextToken, hread,
      Option.map_some]
  | false =>
    obtain ⟨c, cs, hcons, hc⟩ := exists_body_eq_cons n
    rw [hsign, hcons, List.cons_append] at hread
    simp only [signText, Bool.false_eq_true, if_false, List.nil_append, hcons, List.cons_append,
      nextToken_of_isDigit hc, hread, Option.map_some]

/-! ## String literals -/

/-- What is written for a character: a short escape, the escape of its unit, or the
character itself. -/
theorem escapeChar_cases (c : Char) :
    (∃ e, escapeChar c = ['\\', e] ∧ e ≠ 'u' ∧ shortEscape e = some c) ∨
      (escapeChar c = unitEscape c.toNat ∧ c.toNat < 32) ∨
      (escapeChar c = [c] ∧ c ≠ '"' ∧ c ≠ '\\' ∧ ¬ c.toNat < 32) := by
  unfold escapeChar
  split_ifs with hquote hbackslash hback hform hline hreturn htab hcontrol
  · exact .inl ⟨'"', rfl, by decide, by rw [hquote]; rfl⟩
  · exact .inl ⟨'\\', rfl, by decide, by rw [hbackslash]; rfl⟩
  · exact .inl ⟨'b', rfl, by decide, by rw [hback]; rfl⟩
  · exact .inl ⟨'f', rfl, by decide, by rw [hform]; rfl⟩
  · exact .inl ⟨'n', rfl, by decide, by rw [hline]; rfl⟩
  · exact .inl ⟨'r', rfl, by decide, by rw [hreturn]; rfl⟩
  · exact .inl ⟨'t', rfl, by decide, by rw [htab]; rfl⟩
  · exact .inr (.inl ⟨rfl, hcontrol⟩)
  · exact .inr (.inr ⟨rfl, hquote, hbackslash, hcontrol⟩)

theorem readPieces_shortEscape {e c : Char} (hunit : e ≠ 'u') (he : shortEscape e = some c)
    (rest : List Char) :
    readPieces ('\\' :: e :: rest) =
      (readPieces rest).map fun (pieces, rest) => (.char c :: pieces, rest) := by
  rw [readPieces, he]
  · cases readPieces rest <;> rfl
  · rintro - - - - - heq -
    exact hunit heq

theorem hexUnit_unitEscape {n : Nat} (h : n < 65536) :
    hexUnit (hexDigit (lastHex (n / 4096))) (hexDigit (lastHex (n / 256)))
      (hexDigit (lastHex (n / 16))) (hexDigit (lastHex n)) = some n := by
  simp only [hexUnit, hexValue?_hexDigit, lastHex, Option.some.injEq]
  omega

theorem readPieces_unitEscape {n : Nat} (h : n < 65536) (rest : List Char) :
    readPieces (unitEscape n ++ rest) =
      (readPieces rest).map fun (pieces, rest) => (.unit n :: pieces, rest) := by
  rw [unitEscape]
  simp only [List.cons_append, List.nil_append]
  rw [readPieces, hexUnit_unitEscape h]
  cases readPieces rest <;> rfl

theorem readPieces_plain {c : Char} (hquote : c ≠ '"') (hbackslash : c ≠ '\\')
    (hcontrol : ¬ c.toNat < 32) (rest : List Char) :
    readPieces (c :: rest) =
      (readPieces rest).map fun (pieces, rest) => (.char c :: pieces, rest) := by
  rw [readPieces, if_neg hcontrol]
  · exact hquote
  · rintro _ _ _ _ _ heq -
    exact hbackslash heq
  · rintro _ _ heq -
    exact hbackslash heq

/-- Whether a piece of a literal stands for a character by itself. -/
def Piece.StandsFor (p : Piece) (c : Char) : Prop :=
  p = .char c ∨ c.toNat < 32 ∧ p = .unit c.toNat

/-- What is written for a character is read as a piece that stands for it. -/
theorem exists_readPieces_escapeChar (c : Char) :
    ∃ p : Piece, p.StandsFor c ∧ ∀ rest, readPieces (escapeChar c ++ rest) =
      (readPieces rest).map fun (pieces, rest) => (p :: pieces, rest) := by
  rcases escapeChar_cases c with ⟨e, heq, hunit, he⟩ | ⟨heq, hlt⟩ | ⟨heq, hquote, hbackslash, hle⟩
  · refine ⟨.char c, .inl rfl, fun rest => ?_⟩
    rw [heq]
    exact readPieces_shortEscape hunit he rest
  · refine ⟨.unit c.toNat, .inr ⟨hlt, rfl⟩, fun rest => ?_⟩
    rw [heq, readPieces_unitEscape (by omega)]
  · refine ⟨.char c, .inl rfl, fun rest => ?_⟩
    rw [heq]
    exact readPieces_plain hquote hbackslash hle rest

/-- A piece that stands for a character makes it, whatever follows. -/
theorem assemble_cons {p : Piece} {c : Char} (h : p.StandsFor c) (pieces : List Piece) :
    assemble (p :: pieces) = (assemble pieces).map (c :: ·) := by
  rcases h with rfl | ⟨hlt, rfl⟩
  · rw [assemble]
  · have hfirst : isFirstHalf c.toNat = false := by
      simp only [isFirstHalf, Bool.and_eq_false_iff, decide_eq_false_iff_not]
      omega
    have hsecond : isSecondHalf c.toNat = false := by
      simp only [isSecondHalf, Bool.and_eq_false_iff, decide_eq_false_iff_not]
      omega
    cases pieces with
    | nil => simp [assemble, hfirst, hsecond]
    | cons next others =>
      cases next with
      | char d => simp [assemble, hfirst, hsecond]
      | unit n => simp [assemble, hfirst, hsecond]

/-- The characters of a literal are read back from what is written for them. -/
theorem exists_readPieces_flatMap (cs rest : List Char) :
    ∃ pieces, readPieces (cs.flatMap escapeChar ++ '"' :: rest) = some (pieces, rest) ∧
      assemble pieces = some cs := by
  induction cs with
  | nil => exact ⟨[], by simp [readPieces], rfl⟩
  | cons c cs ih =>
    obtain ⟨pieces, hread, hassemble⟩ := ih
    obtain ⟨p, hp, hstep⟩ := exists_readPieces_escapeChar c
    refine ⟨p :: pieces, ?_, ?_⟩
    · rw [List.flatMap_cons, List.append_assoc, hstep, hread, Option.map_some]
    · rw [assemble_cons hp, hassemble, Option.map_some]

theorem nextToken_literal (text? : Option String) (rest : List Char) :
    nextToken (literal text? ++ rest) = some (.string text?, rest) := by
  cases text? with
  | none =>
    have hread := readPieces_unitEscape (n := 0xd800) (by decide) ('"' :: rest)
    rw [literal]
    simp only [List.cons_append, List.append_assoc, List.nil_append, nextToken, hread,
      readPieces, Option.map_some]
    rfl
  | some s =>
    obtain ⟨pieces, hread, hassemble⟩ := exists_readPieces_flatMap s.toList rest
    rw [literal]
    simp only [List.cons_append, List.append_assoc, List.nil_append, nextToken, hread, hassemble,
      Option.map_some, String.ofList_toList]

/-! ## Tokens -/

/-- The text of a token is scanned as the token, where a number ends after it. -/
theorem nextToken_text (t : Token) {rest : List Char}
    (hrest : ∀ n, t = .number n → EndsNumber rest) :
    nextToken (t.text ++ rest) = some (t, rest) := by
  cases t with
  | number n => exact nextToken_numberText n (hrest n rfl)
  | string text? => exact nextToken_literal text? rest
  | bool value => cases value <;> rfl
  | _ => rfl

/-- Whether a token may follow another one with nothing between them. -/
def MayFollow (t next : Token) : Prop := ∀ n, t = .number n → EndsNumber next.text

/-- Texts of tokens in order, with any blanks before them and at the end. -/
inductive Spaced : List Char → List Token → Prop where
  | nil : Spaced [] []
  | blank {c : Char} {cs : List Char} {ts : List Token} (hc : isSpace c = true)
      (hcs : Spaced cs ts) : Spaced (c :: cs) ts
  | token (t : Token) {cs : List Char} {ts : List Token} (hcs : Spaced cs ts) :
      Spaced (t.text ++ cs) (t :: ts)

theorem Spaced.append {cs cs' : List Char} {ts ts' : List Token} (h : Spaced cs ts)
    (h' : Spaced cs' ts') : Spaced (cs ++ cs') (ts ++ ts') := by
  induction h with
  | nil => exact h'
  | blank hc _ ih => exact .blank hc ih
  | token t _ ih =>
    rw [List.append_assoc]
    exact .token t ih

theorem isSpace_eq_false_of_isDigit {c : Char} (hc : c.isDigit = true) : isSpace c = false := by
  rw [← Bool.not_eq_true]
  intro hspace
  simp only [isSpace, Bool.or_eq_true, decide_eq_true_eq] at hspace
  rcases hspace with ((rfl | rfl) | rfl) | rfl <;> exact absurd hc (by decide)

theorem exists_text_eq_cons (t : Token) : ∃ c cs, t.text = c :: cs ∧ isSpace c = false := by
  cases t with
  | number n =>
    rw [Token.text, numberText_eq]
    cases isNegative n with
    | true => exact ⟨'-', numberBody n, rfl, rfl⟩
    | false =>
      obtain ⟨c, cs, hcons, hc⟩ := exists_body_eq_cons n
      exact ⟨c, cs, hcons, isSpace_eq_false_of_isDigit hc⟩
  | string text? => cases text? <;> exact ⟨'"', _, rfl, rfl⟩
  | bool value => cases value <;> exact ⟨_, _, rfl, rfl⟩
  | _ => exact ⟨_, _, rfl, rfl⟩

theorem endsNumber_of_isSpace {c : Char} {cs : List Char} (hc : isSpace c = true) :
    EndsNumber (c :: cs) := by
  simp only [isSpace, Bool.or_eq_true, decide_eq_true_eq] at hc
  rcases hc with ((rfl | rfl) | rfl) | rfl <;> simp [EndsNumber]

/-- Between tokens that may follow each other nothing makes a number longer. -/
theorem Spaced.endsNumber {cs : List Char} {ts : List Token} (h : Spaced cs ts)
    (hnext : ∀ next ∈ ts.head?, EndsNumber next.text) : EndsNumber cs := by
  cases h with
  | nil => simp [EndsNumber]
  | blank hc _ => exact endsNumber_of_isSpace hc
  | token t _ =>
    obtain ⟨c, cs, hcons, -⟩ := exists_text_eq_cons t
    have ht := hnext t rfl
    rw [hcons] at ht ⊢
    exact ht

theorem tokens?_of_isSpace {c : Char} {cs : List Char} (hc : isSpace c = true) :
    tokens? (c :: cs) = tokens? cs := by
  rw [tokens?, tokens?, List.dropWhile_cons_of_pos hc]

theorem tokens?_of_nextToken {c : Char} {cs rest : List Char} {t : Token}
    (hc : isSpace c = false) (hnext : nextToken (c :: cs) = some (t, rest)) :
    tokens? (c :: cs) = (tokens? rest).map (t :: ·) := by
  rw [tokens?, List.dropWhile_cons_of_neg (by rw [hc]; exact Bool.false_ne_true)]
  dsimp only
  split
  · rename_i hnone
    rw [hnone] at hnext
    cases hnext
  · rename_i token others hsome
    rw [hsome] at hnext
    obtain ⟨rfl, rfl⟩ := Prod.mk.inj (Option.some.inj hnext)
    rfl

/-- Tokens in which something ends each number are scanned from their texts. -/
theorem tokens?_of_spaced {cs : List Char} {ts : List Token} (h : Spaced cs ts)
    (hchain : ts.IsChain MayFollow) : tokens? cs = some ts := by
  induction h with
  | nil => rw [tokens?]; rfl
  | blank hc _ ih => rw [tokens?_of_isSpace hc, ih hchain]
  | @token t cs ts hcs ih =>
    obtain ⟨c, others, hcons, hc⟩ := exists_text_eq_cons t
    have hends : ∀ n, t = .number n → EndsNumber cs := fun n hn =>
      hcs.endsNumber fun next hnext => (List.isChain_cons.1 hchain).1 next hnext n hn
    have hnext := nextToken_text t hends
    rw [hcons, List.cons_append] at hnext ⊢
    rw [tokens?_of_nextToken hc hnext, ih hchain.tail, Option.map_some]

end Wiring.Json

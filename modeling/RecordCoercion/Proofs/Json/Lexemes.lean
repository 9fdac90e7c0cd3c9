import RecordCoercion.Proofs.Json.WrittenTokens

/-!
# Lexemes of a JSON text

A lexeme is a token with the part of the text that it was read from. A text is split into lexemes with
separators between them (`Json.SplitsInto`), and its tokens are those of its lexemes
(`Json.tokens?_eq_some_iff`). Every token takes at least one character and no more than there are, so
nothing of the text is left out or read twice (`Json.length_of_scanToken?`).
-/

set_option autoImplicit false

namespace RecordCoercion.Json

/-! ## How far a number reaches -/

/-- Digits are scanned as far as they reach. -/
theorem of_scanDigits? {text digits rest : List Char} (h : scanDigits? text = some (digits, rest)) :
    text = digits ++ rest ∧ digits ≠ [] := by
  have happend : (splitDigits text).1 ++ (splitDigits text).2 = text :=
    List.takeWhile_append_dropWhile
  unfold scanDigits? at h
  split at h
  · cases h
  · next hne =>
    obtain heq := Option.some.inj h
    rw [heq] at happend
    refine ⟨happend.symm, ?_⟩
    rintro rfl
    exact hne _ heq

/-- The whole part of a number is a run of digits. -/
theorem of_scanWhole? {text digits rest : List Char} (h : scanWhole? text = some (digits, rest)) :
    scanDigits? text = some (digits, rest) := by
  unfold scanWhole? at h
  split at h
  · cases h
  · exact h

/-- A fraction takes something of a text unless there is none. -/
theorem of_scanFraction? {text rest : List Char} {fraction : Option (List Char)}
    (h : scanFraction? text = some (fraction, rest)) :
    fraction = none ∧ rest = text ∨ rest.length < text.length := by
  unfold scanFraction? at h
  split at h
  · next text =>
    obtain ⟨⟨digits, after⟩, hdigits, heq⟩ := Option.map_eq_some_iff.mp h
    cases heq
    obtain ⟨rfl, -⟩ := of_scanDigits? hdigits
    simp only [List.length_cons, List.length_append]
    omega
  · cases h
    exact .inl ⟨rfl, rfl⟩

/-- An exponent takes at least one character. -/
theorem of_scanSignedExponent? {text rest : List Char} {exponent : Option Int}
    (h : scanSignedExponent? text = some (exponent, rest)) : rest.length < text.length := by
  have hsign : (splitSign text).2.length ≤ text.length := by
    unfold splitSign
    split <;> simp
  simp only [scanSignedExponent?, Option.map_eq_some_iff, Prod.exists, Prod.mk.injEq] at h
  obtain ⟨digits, after, hdigits, -, rfl⟩ := h
  obtain ⟨htext, hne⟩ := of_scanDigits? hdigits
  have hlength := congrArg List.length htext
  have hpos := List.length_pos_of_ne_nil hne
  rw [List.length_append] at hlength
  omega

/-- An exponent takes something of a text unless there is none. -/
theorem of_scanExponent? {text rest : List Char} {exponent : Option Int}
    (h : scanExponent? text = some (exponent, rest)) :
    exponent = none ∧ rest = text ∨ rest.length < text.length := by
  unfold scanExponent? at h
  split at h
  · have hlt := of_scanSignedExponent? h
    exact .inr (Nat.lt_succ_of_lt hlt)
  · have hlt := of_scanSignedExponent? h
    exact .inr (Nat.lt_succ_of_lt hlt)
  · cases h
    exact .inl ⟨rfl, rfl⟩

/-- A number takes the digits behind its sign, and more only if it has a fraction or an exponent. -/
theorem exists_of_scanNumber? {text rest : List Char} {parts : NumberParts}
    (h : scanNumber? text = some (parts, rest)) :
    ∃ after, scanDigits? (splitMinus text).2 = some (parts.whole, after) ∧
      parts.negative = (splitMinus text).1 ∧
      (parts.fraction = none ∧ parts.exponent = none ∧ rest = after ∨ rest.length < after.length) := by
  simp only [scanNumber?, Option.bind_eq_bind, Option.bind_eq_some_iff, Option.pure_def,
    Option.some.injEq, Prod.mk.injEq] at h
  obtain ⟨⟨whole, after⟩, hwhole, ⟨fraction, afterFraction⟩, hfraction, ⟨exponent, afterExponent⟩,
    hexponent, rfl, rfl⟩ := h
  refine ⟨after, of_scanWhole? hwhole, rfl, ?_⟩
  rcases of_scanFraction? hfraction with ⟨rfl, rfl⟩ | hlt
  · rcases of_scanExponent? hexponent with ⟨rfl, rfl⟩ | hlt
    · exact .inl ⟨rfl, rfl, rfl⟩
    · exact .inr hlt
  · rcases of_scanExponent? hexponent with ⟨-, rfl⟩ | hlt'
    · exact .inr hlt
    · exact .inr (hlt'.trans hlt)

/-- A number takes at least one character. -/
theorem length_of_scanNumber? {text rest : List Char} {parts : NumberParts}
    (h : scanNumber? text = some (parts, rest)) : rest.length < text.length := by
  obtain ⟨after, hdigits, -, hafter⟩ := exists_of_scanNumber? h
  obtain ⟨htext, hne⟩ := of_scanDigits? hdigits
  have hminus : (splitMinus text).2.length ≤ text.length := by
    unfold splitMinus
    split <;> simp
  have hlength := congrArg List.length htext
  have hpos := List.length_pos_of_ne_nil hne
  rw [List.length_append] at hlength
  rcases hafter with ⟨-, -, rfl⟩ | hlt <;> omega

/-! ## How far a token reaches -/

/-- A string ends within its text. -/
theorem length_of_scanUnits? {text : List Char} {units : List Nat} {length : Nat}
    (h : scanUnits? text = some (units, length)) : length ≤ text.length := by
  fun_induction scanUnits? text generalizing units length with
  | case2 => cases h; simp
  | case4 _ _ _ _ _ _ _ ih | case6 _ _ _ _ _ ih | case8 _ _ _ _ _ _ ih =>
    -- a unit takes its characters, and the others are among the rest
    simp only [Option.map_eq_some_iff, Prod.exists, Prod.mk.injEq] at h
    obtain ⟨others, count, hothers, -, rfl⟩ := h
    have hle := ih hothers
    simp only [List.length_cons]
    omega
  | _ => cases h

/-- A token that is a single character. -/
def Token.IsMark : Token → Prop
  | .scalar _ | .string _ => False
  | _ => True

/-- A text starts with a token that takes so many of its characters: a mark, a string in quotes, one of
the three words, or a number. -/
inductive StartsWith : List Char → Token → Nat → Prop
  | mark {mark : Token} {c : Char} {rest : List Char} (hmark : mark.IsMark)
      (htext : mark.text = [c]) : StartsWith (c :: rest) mark 1
  | string {rest : List Char} {units : List Nat} {length : Nat}
      (h : scanUnits? rest = some (units, length)) :
      StartsWith ('"' :: rest) (.string ((joinPairs? units).map String.ofList)) (length + 1)
  | word {word rest : List Char} {value : Json} (hmem : (word, value) ∈ words) :
      StartsWith (word ++ rest) (.scalar value) word.length
  | number {text rest : List Char} {parts : NumberParts} (h : scanNumber? text = some (parts, rest)) :
      StartsWith text (.scalar (parts.value?.getD .unreadable)) (text.length - rest.length)

/-- A token is read from a text that starts with it. -/
theorem startsWith_of_scanToken? {text : List Char} {token : Token} {length : Nat}
    (h : scanToken? text = some (token, length)) : StartsWith text token length := by
  unfold scanToken? at h
  split at h
  case h_1 => cases h
  case h_8 rest =>
    simp only [Option.map_eq_some_iff, Prod.exists, Prod.mk.injEq] at h
    obtain ⟨units, count, hunits, rfl, rfl⟩ := h
    exact .string hunits
  case h_9 =>
    split at h
    · next word value hfind =>
      cases h
      have hprefix : word <+: text := by simpa using List.find?_some hfind
      obtain ⟨rest, rfl⟩ := hprefix
      exact .word (List.mem_of_find?_eq_some hfind)
    · split at h
      · cases h
      · next parts rest hscan =>
        cases h
        exact .number hscan
  -- the other first characters are marks
  all_goals
    cases h
    exact .mark trivial rfl

/-- A token takes at least one character of a text, and no more than there are. -/
theorem length_of_scanToken? {text : List Char} {token : Token} {length : Nat}
    (h : scanToken? text = some (token, length)) : 0 < length ∧ length ≤ text.length := by
  cases startsWith_of_scanToken? h with
  | mark => simp
  | string hunits =>
    have hle := length_of_scanUnits? hunits
    simp only [List.length_cons]
    omega
  | word hmem =>
    simp only [words, List.mem_cons, List.not_mem_nil, or_false, Prod.mk.injEq] at hmem
    rcases hmem with ⟨rfl, -⟩ | ⟨rfl, -⟩ | ⟨rfl, -⟩ <;> simp
  | number hscan =>
    have hlt := length_of_scanNumber? hscan
    omega

/-! ## Splitting a text -/

/-- A part of a text that is read as one token. -/
structure Lexeme where
  text : List Char
  token : Token

/-- A text consists of lexemes with separators between them: each lexeme is what a token is read from
at its place. -/
inductive SplitsInto : List Char → List Lexeme → Prop
  | done : SplitsInto [] []
  | separator {c : Char} {text : List Char} {lexemes : List Lexeme} (hc : isSeparator c = true)
      (h : SplitsInto text lexemes) : SplitsInto (c :: text) lexemes
  | lexeme {lexeme : Lexeme} {rest : List Char} {lexemes : List Lexeme}
      (hscan : scanToken? (lexeme.text ++ rest) = some (lexeme.token, lexeme.text.length))
      (h : SplitsInto rest lexemes) : SplitsInto (lexeme.text ++ rest) (lexeme :: lexemes)

/-- The tokens of a text are those of its lexemes. -/
theorem SplitsInto.tokens?_eq {text : List Char} {lexemes : List Lexeme}
    (h : SplitsInto text lexemes) : tokens? text = some (lexemes.map Lexeme.token) := by
  induction h with
  | done => rfl
  | @separator c text lexemes hc _ ih =>
    rw [tokens?, tokensAfter?, if_pos hc]
    exact ih
  | @lexeme lexeme rest lexemes hscan _ ih =>
    have hne : lexeme.text ≠ [] := List.ne_nil_of_length_pos (length_of_scanToken? hscan).1
    rw [tokens?] at ih ⊢
    rw [tokensAfter?_append hne hscan, ih, Option.map_some, List.map_cons]

/-- What belongs to an earlier token is passed over. -/
theorem tokensAfter?_eq_drop (skip : Nat) (text : List Char) :
    tokensAfter? skip text = tokens? (text.drop skip) := by
  induction skip generalizing text with
  | zero => rfl
  | succ skip ih =>
    cases text with
    | nil => rfl
    | cons c text =>
      rw [tokensAfter?, ih, List.drop_succ_cons]

/-- A text is split into the lexeme that is read first and the lexemes of the rest. -/
theorem SplitsInto.of_take {text : List Char} {lexeme : Lexeme} {lexemes : List Lexeme}
    (htake : text.take lexeme.text.length = lexeme.text)
    (hscan : scanToken? text = some (lexeme.token, lexeme.text.length))
    (h : SplitsInto (text.drop lexeme.text.length) lexemes) : SplitsInto text (lexeme :: lexemes) := by
  have hsplit : lexeme.text ++ text.drop lexeme.text.length = text := by
    calc lexeme.text ++ text.drop lexeme.text.length
        = text.take lexeme.text.length ++ text.drop lexeme.text.length := by rw [htake]
      _ = text := List.take_append_drop _ _
  rw [← hsplit] at hscan ⊢
  exact .lexeme hscan h

/-- A text that has tokens is split into lexemes. -/
theorem exists_splitsInto {text : List Char} {tokens : List Token} (h : tokens? text = some tokens) :
    ∃ lexemes, SplitsInto text lexemes := by
  -- a token may take any number of characters, so the induction is on the length of the text
  induction hlength : text.length using Nat.strongRecOn generalizing text tokens with
  | ind n ih =>
    cases text with
    | nil => exact ⟨[], .done⟩
    | cons c text =>
      rw [tokens?, tokensAfter?] at h
      by_cases hc : isSeparator c = true
      · rw [if_pos hc] at h
        obtain ⟨lexemes, hlexemes⟩ := ih text.length (by simp [← hlength]) h rfl
        exact ⟨lexemes, .separator hc hlexemes⟩
      · rw [if_neg hc] at h
        split at h
        · next token length hscan =>
          have hpos := (length_of_scanToken? hscan).1
          obtain ⟨others, hothers, -⟩ := Option.map_eq_some_iff.mp h
          obtain ⟨k, rfl⟩ : ∃ k, length = k + 1 := ⟨length - 1, by omega⟩
          rw [Nat.add_sub_cancel, tokensAfter?_eq_drop] at hothers
          have hshort : (text.drop k).length < n := by
            rw [List.length_drop, ← hlength, List.length_cons]
            omega
          obtain ⟨lexemes, hlexemes⟩ := ih _ hshort hothers rfl
          have htake : ((c :: text).take (k + 1)).length = k + 1 :=
            List.length_take_of_le (length_of_scanToken? hscan).2
          refine ⟨⟨(c :: text).take (k + 1), token⟩ :: lexemes, .of_take ?_ ?_ ?_⟩
          · rw [htake]
          · rw [htake, hscan]
          · rw [htake]
            exact hlexemes
        · cases h

/-- A text has tokens exactly if it is split into lexemes, and then they are theirs. -/
theorem tokens?_eq_some_iff {text : List Char} {tokens : List Token} :
    tokens? text = some tokens ↔
      ∃ lexemes, SplitsInto text lexemes ∧ lexemes.map Lexeme.token = tokens := by
  constructor
  · intro h
    obtain ⟨lexemes, hlexemes⟩ := exists_splitsInto h
    rw [hlexemes.tokens?_eq] at h
    exact ⟨lexemes, hlexemes, Option.some.inj h⟩
  · rintro ⟨lexemes, hlexemes, rfl⟩
    exact hlexemes.tokens?_eq

/-- Each lexeme of a text was read at its place. -/
theorem SplitsInto.exists_scanToken? {text : List Char} {lexemes : List Lexeme}
    (h : SplitsInto text lexemes) {lexeme : Lexeme} (hmem : lexeme ∈ lexemes) :
    ∃ rest, scanToken? (lexeme.text ++ rest) = some (lexeme.token, lexeme.text.length) := by
  induction h with
  | done => cases hmem
  | separator _ _ ih => exact ih hmem
  | @lexeme first rest _ hscan _ ih =>
    rcases List.mem_cons.mp hmem with rfl | hmem
    · exact ⟨rest, hscan⟩
    · exact ih hmem

/-- A token that has a value is a scalar. -/
theorem isScalar_of_scanToken? {text : List Char} {value : Json} {length : Nat}
    (h : scanToken? text = some (.scalar value, length)) : value.IsScalar := by
  cases startsWith_of_scanToken? h with
  | mark hmark => cases hmark
  | word hmem =>
    simp only [words, List.mem_cons, List.not_mem_nil, or_false, Prod.mk.injEq] at hmem
    rcases hmem with ⟨-, rfl⟩ | ⟨-, rfl⟩ | ⟨-, rfl⟩ <;> rfl
  | number => exact isScalar_value? _

end RecordCoercion.Json

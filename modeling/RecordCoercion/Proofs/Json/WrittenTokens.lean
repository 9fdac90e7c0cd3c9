import RecordCoercion.Json.Text
import RecordCoercion.Proofs.Json.WrittenNumbers

/-!
# Tokens of a written document

The text of a document is split into tokens again (`Json.tokens?_text`). A string and a word come
back as they were. A number comes back as what its digits stand for, which for a double need not be
the double that was written: `Json.reread` is the document with the numbers that are read.
-/

set_option autoImplicit false

namespace RecordCoercion.Json

/-! ## Strings -/

/-- No character is half a surrogate pair. -/
theorem not_surrogate (c : Char) :
    isHighSurrogate c.toNat = false ∧ isLowSurrogate c.toNat = false := by
  have hvalid : c.toNat < 0xD800 ∨ 0xDFFF < c.toNat ∧ c.toNat < 0x110000 := c.valid
  simp only [isHighSurrogate, isLowSurrogate, Bool.and_eq_false_iff, decide_eq_false_iff_not]
  omega

/-- The codes of characters are joined to the characters. -/
theorem joinPairs?_toNat (chars : List Char) :
    joinPairs? (chars.map Char.toNat) = some chars := by
  induction chars with
  | nil => rfl
  | cons c chars ih =>
    obtain ⟨hhigh, hlow⟩ := not_surrogate c
    cases chars with
    | nil => simp [joinPairs?, hhigh, hlow]
    | cons next chars =>
      rw [List.map_cons] at ih
      simp [joinPairs?, hhigh, hlow, ih]

/-- What a string may hold unescaped. -/
theorem scanUnits?_cons {c : Char} (hquote : c ≠ '"') (hbackslash : c ≠ '\\')
    (hcontrol : ¬ c.toNat < 0x20) (rest : List Char) :
    scanUnits? (c :: rest) =
      (scanUnits? rest).map fun (units, length) => (c.toNat :: units, length + 1) := by
  rw [scanUnits?]
  · rw [if_neg hcontrol]
  · simpa using hquote
  · rintro _ _ _ _ _ rfl
    exact absurd rfl hbackslash
  · rintro _ _ rfl
    exact absurd rfl hbackslash

/-- A short escape stands for its character. -/
theorem scanUnits?_escape {mark c : Char} (hmark : mark ≠ 'u') (hescaped : escaped? mark = some c)
    (rest : List Char) :
    scanUnits? ('\\' :: mark :: rest) =
      (scanUnits? rest).map fun (units, length) => (c.toNat :: units, length + 2) := by
  rw [scanUnits?]
  · rw [hescaped]
  · rintro _ _ _ _ _ rfl
    exact absurd rfl hmark

/-- The four digits of an escaped control character stand for its code. -/
theorem hexUnit?_control {n : Nat} (h : n < 0x20) :
    hexUnit? '0' '0' (hexDigit (n / 16)) (hexDigit n) = some n := by
  revert h
  revert n
  decide

/-- A character is scanned from its written form. -/
theorem scanUnits?_escapeChar (c : Char) (rest : List Char) :
    scanUnits? (escapeChar c ++ rest) =
      (scanUnits? rest).map fun (units, length) =>
        (c.toNat :: units, length + (escapeChar c).length) := by
  unfold escapeChar
  split
  case h_8 hquote hbackslash _ _ _ _ _ =>
    split
    · next hcontrol =>
      simp only [List.cons_append, List.nil_append, scanUnits?, hexUnit?_control hcontrol,
        List.length_cons, List.length_nil]
    · next hcontrol => exact scanUnits?_cons hquote hbackslash hcontrol rest
  all_goals exact scanUnits?_escape (by decide) rfl rest

/-- The escaped characters of a string are read as their codes. -/
theorem scanUnits?_flatMap (chars rest : List Char) :
    scanUnits? (chars.flatMap escapeChar ++ '"' :: rest) =
      some (chars.map Char.toNat, (chars.flatMap escapeChar).length + 1) := by
  induction chars with
  | nil => rfl
  | cons c chars ih =>
    rw [List.flatMap_cons, List.append_assoc, scanUnits?_escapeChar, ih, List.length_append,
      List.map_cons]
    simp only [Option.map_some]
    congr 2
    omega

/-- A string is scanned from its quoted form. -/
theorem scanToken?_quoted (s : String) (rest : List Char) :
    scanToken? (quoted s ++ rest) = some (.string (some s), (quoted s).length) := by
  have hunits := scanUnits?_flatMap s.toList rest
  have htext : quoted s ++ rest = '"' :: (s.toList.flatMap escapeChar ++ '"' :: rest) := by
    simp [quoted]
  rw [htext, scanToken?, hunits]
  simp [joinPairs?_toNat, quoted]

/-! ## Scalars -/

/-- The written form of a number starts with a minus or a digit. -/
theorem exists_text_eq_cons {parts : NumberParts} (h : parts.IsWritten) :
    ∃ c rest, parts.text = c :: rest ∧ (c = '-' ∨ c.isDigit = true) := by
  obtain ⟨digit, digits, hwhole⟩ := List.exists_cons_of_ne_nil h.whole_ne_nil
  unfold NumberParts.text
  split
  · exact ⟨'-', _, rfl, .inl rfl⟩
  · rw [hwhole]
    exact ⟨digit, _, rfl, .inr (h.isDigit_whole digit (by rw [hwhole]; exact List.mem_cons_self))⟩

/-- The text of a number is read as one token, up to where it ends. -/
theorem scanToken?_text {parts : NumberParts} (h : parts.IsWritten) {rest : List Char}
    (hrest : EndsNumber rest) :
    scanToken? (parts.text ++ rest) =
      some (.scalar (parts.value?.getD .unreadable), parts.text.length) := by
  have hscan := scanNumber?_text h hrest
  obtain ⟨c, digits, htext, hc⟩ := exists_text_eq_cons h
  have hlength : digits.length + rest.length + 1 - rest.length = digits.length + 1 := by
    omega
  have hnot : ∀ other : Char, other ≠ '-' → other.isDigit = false → c ≠ other := by
    rintro other hminus hdigit rfl
    rcases hc with hc | hc
    · exact hminus hc
    · rw [hdigit] at hc
      cases hc
  have hn := hnot 'n' (by decide) (by decide)
  have ht := hnot 't' (by decide) (by decide)
  have hf := hnot 'f' (by decide) (by decide)
  rw [htext, List.cons_append] at hscan ⊢
  rw [scanToken?]
  · -- no word starts like a number
    simp [words, List.isPrefixOf, hn.symm, ht.symm, hf.symm, hscan, hlength]
  · exact List.cons_ne_nil _ _
  -- none of the other first characters starts a number
  all_goals
    rintro _ ⟨⟩
    exact absurd rfl (hnot _ (by decide) (by decide))

/-- What a number is read as that is written in a layout. -/
def rereadNumber {f : BinaryFormat} (layout : FloatLayout) (x : Binary f) : Json :=
  if x.isFinite then (floatParts layout x).value?.getD .unreadable else .null

/-- What the written form of a scalar is read as: an integer in range and a word as they were, a
finite number as what its digits stand for. -/
def rereadScalar : Json → Json
  | .integer n => (integerParts n).value?.getD .unreadable
  | .float x => rereadNumber floatLayout x
  | .single x => rereadNumber singleLayout x
  | document => document

/-- A document that is neither a string nor a container. -/
def IsScalar (document : Json) : Prop := document.tokens = [.scalar document]

/-- The text of null is read as one token. -/
theorem scanToken?_null (rest : List Char) :
    scanToken? ("null".toList ++ rest) = some (.scalar .null, "null".toList.length) := rfl

/-- The text of a floating-point number is read as one token, which is null if it is not finite. -/
theorem scanToken?_number {f : BinaryFormat} {layout : FloatLayout}
    (hmark : layout.exponentMark = 'e') (hwhole : layout.wholeMantissa = false) (x : Binary f)
    {rest : List Char} (hrest : EndsNumber rest) :
    scanToken? ((if x.isFinite then layout.text x else "null".toList) ++ rest) =
      some (.scalar (rereadNumber layout x),
        (if x.isFinite then layout.text x else "null".toList).length) := by
  rw [rereadNumber]
  split
  · next hfinite =>
    have hscan := scanToken?_text (isWritten_floatParts layout hfinite) hrest
    rwa [text_floatParts hmark hwhole] at hscan
  · exact scanToken?_null rest

/-- A scalar is scanned from its text as what the text is read as. -/
theorem scanToken?_scalarText {document : Json} (h : document.IsScalar) {rest : List Char}
    (hrest : EndsNumber rest) :
    scanToken? (scalarText document ++ rest) =
      some (.scalar document.rereadScalar, (scalarText document).length) := by
  cases document with
  | null => exact scanToken?_null rest
  | bool b => cases b <;> rfl
  | integer n =>
    have hscan := scanToken?_text (isWritten_integerParts n) hrest
    rwa [text_integerParts] at hscan
  | float x => exact scanToken?_number rfl rfl x hrest
  | single x => exact scanToken?_number rfl rfl x hrest
  | unreadable =>
    have hwritten : (NumberParts.mk false ['1'] none (some 999)).IsWritten :=
      ⟨List.cons_ne_nil _ _, fun _ => @isDigit_of_mem_numeral 1 _, noLeadingZero_numeral 1,
        by rintro _ ⟨⟩⟩
    have hvalue : (NumberParts.mk false ['1'] none (some 999)).value? = none := by
      have hzero : (Binary.ofInt binary64 (1 : Nat)).isZero = false := by decide +kernel
      have hlarge : timesPowerOfTen? (.ofInt binary64 (1 : Nat)) 999 = none := by
        rw [timesPowerOfTen?, hzero]
        rfl
      exact congrArg (Option.map _) hlarge
    have hscan := scanToken?_text hwritten hrest
    rw [hvalue] at hscan
    exact hscan
  | string s => cases h
  | array items => cases h
  | object members => cases h

/-! ## Documents -/

/-- Induction over documents. An array has what holds for all its items to build on, and an object
what holds for the values of all its members. -/
theorem documentInduction {motive : Json → Prop} (null : motive .null)
    (bool : ∀ b, motive (.bool b)) (integer : ∀ n, motive (.integer n))
    (float : ∀ x, motive (.float x)) (single : ∀ x, motive (.single x))
    (string : ∀ s, motive (.string s))
    (array : ∀ items, (∀ item ∈ items, motive item) → motive (.array items))
    (object : ∀ members : List (String × Json), (∀ member ∈ members, motive member.2) →
      motive (.object members))
    (unreadable : motive .unreadable) (document : Json) : motive document := by
  refine @Json.rec motive (fun items => ∀ item ∈ items, motive item)
    (fun members => ∀ member ∈ members, motive member.2) (fun member => motive member.2)
    null bool integer float single string array object unreadable ?_ ?_ ?_ ?_ ?_ document
  · exact List.forall_mem_nil _
  · exact fun _ _ hitem hrest => List.forall_mem_cons.mpr ⟨hitem, hrest⟩
  · exact List.forall_mem_nil _
  · exact fun _ _ hmember hrest => List.forall_mem_cons.mpr ⟨hmember, hrest⟩
  · exact fun _ _ hvalue => hvalue

mutual

/-- What the written form of a document is read as. -/
def reread : Json → Json
  | .array items => .array (rereadItems items)
  | .object members => .object (rereadMembers members)
  | scalar => scalar.rereadScalar

/-- What the written forms of the items of an array are read as. -/
def rereadItems : List Json → List Json
  | [] => []
  | item :: rest => item.reread :: rereadItems rest

/-- What the written forms of the members of an object are read as. -/
def rereadMembers : List (String × Json) → List (String × Json)
  | [] => []
  | (key, value) :: rest => (key, value.reread) :: rereadMembers rest

end

/-- No token starts with a separator. -/
theorem scanToken?_of_isSeparator {c : Char} (h : isSeparator c = true) (text : List Char) :
    scanToken? (c :: text) = none := by
  simp only [isSeparator, Bool.or_eq_true, beq_iff_eq] at h
  rcases h with ((rfl | rfl) | rfl) | rfl <;> rfl

/-- Reading goes on behind the characters that a token takes. -/
theorem tokensAfter?_length_append (word rest : List Char) :
    tokensAfter? word.length (word ++ rest) = tokensAfter? 0 rest := by
  induction word with
  | nil => rfl
  | cons c word ih => exact ih

/-- The tokens of a text that starts with the written form of a token. -/
theorem tokensAfter?_append {word rest : List Char} {token : Token} (hne : word ≠ [])
    (hscan : scanToken? (word ++ rest) = some (token, word.length)) :
    tokensAfter? 0 (word ++ rest) = (tokensAfter? 0 rest).map (token :: ·) := by
  obtain ⟨c, word, rfl⟩ := List.exists_cons_of_ne_nil hne
  rw [List.cons_append] at hscan ⊢
  have hseparator : ¬ isSeparator c = true := by
    intro h
    rw [scanToken?_of_isSeparator h] at hscan
    cases hscan
  rw [tokensAfter?, if_neg hseparator, hscan]
  simp only [List.length_cons, Nat.add_sub_cancel, tokensAfter?_length_append]

/-- The written form of a document is split into the tokens of what it is read as, in front of
whatever does not go on with a number. -/
def SplitsBefore (document : Json) : Prop :=
  ∀ rest, EndsNumber rest → tokensAfter? 0 (document.text ++ rest) =
    (tokensAfter? 0 rest).map (document.reread.tokens ++ ·)

/-- A character that is no digit, point or exponent mark ends a number. -/
theorem endsNumber_cons {c : Char} (hdigit : c.isDigit = false) (hpoint : c ≠ '.') (he : c ≠ 'e')
    (hE : c ≠ 'E') (rest : List Char) : EndsNumber (c :: rest) := by
  rintro _ ⟨⟩
  exact ⟨hdigit, hpoint, he, hE⟩

/-- A comma ends a number. -/
theorem endsNumber_comma (rest : List Char) : EndsNumber (',' :: rest) :=
  endsNumber_cons (by decide) (by decide) (by decide) (by decide) rest

/-- One of the tokens around the parts of a document. -/
theorem tokensAfter?_mark {c : Char} {token : Token} (rest : List Char)
    (hscan : ∀ rest, scanToken? ([c] ++ rest) = some (token, 1)) :
    tokensAfter? 0 (c :: rest) = (tokensAfter? 0 rest).map (token :: ·) :=
  tokensAfter?_append (List.cons_ne_nil c []) (hscan rest)

/-- A comma is a token by itself. -/
theorem tokensAfter?_comma (rest : List Char) :
    tokensAfter? 0 (',' :: rest) = (tokensAfter? 0 rest).map (.comma :: ·) :=
  tokensAfter?_mark rest fun _ => rfl

/-- Written items are split into the tokens of what each is read as. -/
theorem tokensAfter?_items {items : List Json} (h : ∀ item ∈ items, item.SplitsBefore)
    (rest : List Char) :
    tokensAfter? 0 ((itemTokens items).flatMap Token.text ++ rest) =
      (tokensAfter? 0 rest).map (itemTokens (rereadItems items) ++ ·) := by
  induction items with
  | nil => exact tokensAfter?_mark rest fun _ => rfl
  | cons item others ih =>
    obtain ⟨hitem, hothers⟩ := List.forall_mem_cons.mp h
    cases others with
    | nil =>
      have htext : (itemTokens [item]).flatMap Token.text ++ rest = item.text ++ ']' :: rest := by
        rw [itemTokens, List.flatMap_append, List.append_assoc]
        rfl
      have hend : EndsNumber (']' :: rest) :=
        endsNumber_cons (by decide) (by decide) (by decide) (by decide) rest
      rw [htext, hitem _ hend, tokensAfter?_mark rest fun _ => rfl, Option.map_map]
      simp [rereadItems, itemTokens, Function.comp_def]
    | cons second others =>
      have htext : (itemTokens (item :: second :: others)).flatMap Token.text ++ rest =
          item.text ++ ',' :: ((itemTokens (second :: others)).flatMap Token.text ++ rest) := by
        rw [itemTokens, List.flatMap_append, List.append_assoc]
        · rfl
        · exact List.cons_ne_nil _ _
      rw [htext, hitem _ (endsNumber_comma _), tokensAfter?_comma, ih hothers, Option.map_map,
        Option.map_map]
      simp [rereadItems, itemTokens, Function.comp_def]

/-- A written key is split into its string and the colon. -/
theorem tokensAfter?_key (key : String) (rest : List Char) :
    tokensAfter? 0 (quoted key ++ ':' :: rest) =
      (tokensAfter? 0 rest).map (.string (some key) :: .colon :: ·) := by
  rw [tokensAfter?_append (by simp [quoted]) (scanToken?_quoted key _),
    tokensAfter?_mark rest fun _ => rfl,
    Option.map_map]
  rfl

/-- Written members are split into the tokens of what each is read as. -/
theorem tokensAfter?_members {members : List (String × Json)}
    (h : ∀ member ∈ members, member.2.SplitsBefore) (rest : List Char) :
    tokensAfter? 0 ((memberTokens members).flatMap Token.text ++ rest) =
      (tokensAfter? 0 rest).map (memberTokens (rereadMembers members) ++ ·) := by
  induction members with
  | nil => exact tokensAfter?_mark rest fun _ => rfl
  | cons member others ih =>
    obtain ⟨hvalue, hothers⟩ := List.forall_mem_cons.mp h
    obtain ⟨key, value⟩ := member
    cases others with
    | nil =>
      have htext : (memberTokens [(key, value)]).flatMap Token.text ++ rest =
          quoted key ++ ':' :: (value.text ++ '\x7d' :: rest) := by
        rw [memberTokens, List.flatMap_append, List.append_assoc, List.flatMap_cons,
          List.append_assoc]
        rfl
      have hend : EndsNumber ('\x7d' :: rest) :=
        endsNumber_cons (by decide) (by decide) (by decide) (by decide) rest
      rw [htext, tokensAfter?_key, hvalue _ hend, tokensAfter?_mark rest fun _ => rfl, Option.map_map,
        Option.map_map]
      simp [rereadMembers, memberTokens, Function.comp_def]
    | cons second others =>
      have htext : (memberTokens ((key, value) :: second :: others)).flatMap Token.text ++ rest =
          quoted key ++ ':' :: (value.text ++
            ',' :: ((memberTokens (second :: others)).flatMap Token.text ++ rest)) := by
        rw [memberTokens, List.flatMap_append, List.append_assoc, List.flatMap_cons,
          List.append_assoc]
        · rfl
        · exact List.cons_ne_nil _ _
      rw [htext, tokensAfter?_key, hvalue _ (endsNumber_comma _), tokensAfter?_comma, ih hothers,
        Option.map_map, Option.map_map, Option.map_map]
      simp [rereadMembers, memberTokens, Function.comp_def]

/-- The value of a written number is a number. -/
theorem isScalar_value? (parts : NumberParts) : (parts.value?.getD .unreadable).IsScalar := by
  have hinteger : ∀ negative n, (integerOf negative n).IsScalar := by
    intro negative n
    unfold integerOf
    split
    · rfl
    · split <;> rfl
  have hfloat : ∀ negative n e, ((floatOf? negative n e).getD .unreadable).IsScalar := by
    intro negative n e
    unfold floatOf?
    cases timesPowerOfTen? (.ofInt binary64 n) e <;> rfl
  unfold NumberParts.value?
  dsimp only
  split
  · exact hinteger _ _
  · exact hfloat _ _ _

/-- A written number is read as a scalar. -/
theorem isScalar_rereadNumber {f : BinaryFormat} (layout : FloatLayout) (x : Binary f) :
    (rereadNumber layout x).IsScalar := by
  unfold rereadNumber
  split
  · exact isScalar_value? _
  · rfl

/-- A written scalar is read as a scalar. -/
theorem isScalar_rereadScalar {document : Json} (h : document.IsScalar) :
    document.rereadScalar.IsScalar := by
  unfold rereadScalar
  split
  · exact isScalar_value? _
  · exact isScalar_rereadNumber _ _
  · exact isScalar_rereadNumber _ _
  · exact h

/-- A written scalar is one token, in front of whatever does not go on with a number. -/
theorem splitsBefore_of_isScalar {document : Json} (h : document.IsScalar)
    (hreread : document.reread = document.rereadScalar) : document.SplitsBefore := by
  intro rest hrest
  have hscan := scanToken?_scalarText h hrest
  have htext : document.text = scalarText document := by
    rw [text, h]
    exact List.append_nil _
  have hne : scalarText document ≠ [] := by
    intro hnil
    have hempty := @scanToken?_scalarText document h [] (by rintro _ ⟨⟩)
    rw [hnil] at hempty
    cases hempty
  rw [htext, tokensAfter?_append hne hscan, hreread, isScalar_rereadScalar h]
  rfl

/-- Every written document is split into the tokens of what it is read as. -/
theorem splitsBefore (document : Json) : document.SplitsBefore := by
  induction document using documentInduction with
  | null => exact splitsBefore_of_isScalar rfl rfl
  | bool b => exact splitsBefore_of_isScalar rfl rfl
  | integer n => exact splitsBefore_of_isScalar rfl rfl
  | float x => exact splitsBefore_of_isScalar rfl rfl
  | single x => exact splitsBefore_of_isScalar rfl rfl
  | unreadable => exact splitsBefore_of_isScalar rfl rfl
  | string s =>
    intro rest _
    have htext : (string s).text = quoted s := List.append_nil _
    have hne : quoted s ≠ [] := List.cons_ne_nil _ _
    rw [htext, tokensAfter?_append hne (scanToken?_quoted s rest)]
    rfl
  | array items ih =>
    intro rest _
    have htext : (array items).text ++ rest =
        '[' :: ((itemTokens items).flatMap Token.text ++ rest) := rfl
    rw [htext, tokensAfter?_mark _ fun _ => rfl, tokensAfter?_items ih, Option.map_map]
    rfl
  | object members ih =>
    intro rest _
    have htext : (object members).text ++ rest =
        '\x7b' :: ((memberTokens members).flatMap Token.text ++ rest) := rfl
    rw [htext, tokensAfter?_mark _ fun _ => rfl, tokensAfter?_members ih, Option.map_map]
    rfl

/-- The text of a document is split into the tokens of what it is read as. -/
theorem tokens?_text (document : Json) : tokens? document.text = some document.reread.tokens := by
  have hsplit := splitsBefore document [] (by rintro _ ⟨⟩)
  rw [List.append_nil] at hsplit
  rw [tokens?, hsplit, tokensAfter?, Option.map_some, List.append_nil]

end RecordCoercion.Json

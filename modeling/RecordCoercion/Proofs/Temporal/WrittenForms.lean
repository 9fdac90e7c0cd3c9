import RecordCoercion.Proofs.Text.Runs
import RecordCoercion.Temporal.Scan

/-!
# Numbers and offsets as they are written

The readers of numbers and offsets take as much from the front of a text as they can. What they take
is said here without them, as a relation between a text, what it starts with and what is left:
`NumberText` for numbers and `OffsetText` for offsets. Each reader succeeds exactly on the texts of
its relation (`NumericField.scanValue?_eq_some_iff`, `scanOffset?_eq_some_iff`).
-/

set_option autoImplicit false

namespace RecordCoercion

/-! ## Digits -/

/-- Digits in front of a rest are all those that a reader of at most `width` digits takes: they are
as many as it may take, or no digit follows. -/
structure LongestDigits (width : Option Nat) (digits rest : List Char) : Prop where
  isDigit : ∀ c ∈ digits, c.isDigit = true
  length_le : ∀ w ∈ width, digits.length ≤ w
  longest : digits.length ∈ width ∨ ∀ c ∈ rest.head?, c.isDigit = false

/-- A reader of digits takes the longest ones. -/
theorem takeDigits_append {width : Option Nat} {digits rest : List Char}
    (h : LongestDigits width digits rest) : takeDigits width (digits ++ rest) = (digits, rest) := by
  cases width with
  | none =>
    have hrest : ∀ c ∈ rest.head?, c.isDigit = false := by
      rcases h.longest with hfull | hrest
      · cases hfull
      · exact hrest
    obtain ⟨htake, hdrop⟩ := span_append h.isDigit hrest
    rw [takeDigits, splitDigits, htake, hdrop]
  | some width =>
    have hle : digits.length ≤ width := h.length_le width rfl
    have htake : ((digits ++ rest).take width).takeWhile Char.isDigit = digits := by
      rw [List.take_append, List.take_of_length_le hle]
      refine (span_append h.isDigit fun c hc => ?_).1
      rcases h.longest with hfull | hrest
      · have hwidth : width = digits.length := Option.some.inj hfull
        simp [hwidth] at hc
      · cases hroom : width - digits.length with
        | zero => simp [hroom] at hc
        | succ room =>
          cases rest with
          | nil => simp at hc
          | cons d rest => exact hrest c (by simpa [hroom] using hc)
    simp only [takeDigits, htake, List.drop_left]

/-- What a reader of digits takes are the longest ones. -/
theorem longestDigits_of_takeDigits {width : Option Nat} {text digits rest : List Char}
    (h : takeDigits width text = (digits, rest)) :
    text = digits ++ rest ∧ LongestDigits width digits rest := by
  cases width with
  | none =>
    obtain ⟨rfl, rfl⟩ := Prod.mk.inj h
    exact ⟨List.takeWhile_append_dropWhile.symm, fun _ => List.mem_takeWhile_imp, by simp,
      .inr fun _ => head?_dropWhile⟩
  | some width =>
    obtain ⟨rfl, rfl⟩ := Prod.mk.inj h
    generalize hdigits : (text.take width).takeWhile Char.isDigit = digits
    -- the digits end with the room for them, or where the first other character stands
    have hroom : text.take width = digits ++ (text.take width).dropWhile Char.isDigit := by
      rw [← hdigits, List.takeWhile_append_dropWhile]
    have htext : text = digits ++ text.drop digits.length := by
      have hprefix : digits <+: text :=
        List.IsPrefix.trans ⟨_, hroom.symm⟩ (List.take_prefix width text)
      exact (List.prefix_iff_eq_append.mp hprefix).symm
    have hlength : digits.length ≤ width := by
      have := congrArg List.length hroom
      simp only [List.length_take, List.length_append] at this
      omega
    refine ⟨htext, ?_, ?_, ?_⟩
    · rw [← hdigits]
      exact fun _ => List.mem_takeWhile_imp
    · rintro w ⟨⟩
      exact hlength
    · rcases Nat.lt_or_eq_of_le hlength with hlt | heq
      · refine .inr fun c hc => ?_
        have hafter : (text.take width).dropWhile Char.isDigit =
            (text.drop digits.length).take (width - digits.length) := by
          rw [← List.append_right_inj digits]
          rw [← hroom, ← List.take_length_add_append, ← htext, Nat.add_sub_cancel' hlength]
        have hnext : c ∈ ((text.take width).dropWhile Char.isDigit).head? := by
          rw [hafter, List.head?_take, if_neg (by omega)]
          exact hc
        exact head?_dropWhile hnext
      · exact .inl (by simp [heq])

/-- A number is read from exactly the texts that start with the longest run of at least one digit. -/
theorem scanDigits?_eq_some_iff {width : Option Nat} {text rest : List Char} {n : Nat} :
    scanDigits? width text = some (n, rest) ↔
      ∃ digits, digits ≠ [] ∧ text = digits ++ rest ∧ LongestDigits width digits rest ∧
        numeralValue digits = n := by
  constructor
  · intro h
    unfold scanDigits? at h
    split at h
    · cases h
    · next digits after hne hdigits =>
      cases h
      obtain ⟨htext, hlongest⟩ := longestDigits_of_takeDigits hdigits
      exact ⟨digits, hne, htext, hlongest, rfl⟩
  · rintro ⟨digits, hne, rfl, hlongest, rfl⟩
    rw [scanDigits?, takeDigits_append hlongest]
    cases digits with
    | nil => exact absurd rfl hne
    | cons c digits => rfl

/-! ## Numbers -/

/-- A text starts with a number, perhaps after blanks: with its digits, or with a sign and digits if
the number is one that takes a sign. A sign lifts the limit on the digits. -/
inductive NumberText (field : NumericField) : List Char → Int → List Char → Prop
  | unsigned {blanks digits rest : List Char} (hblanks : ∀ c ∈ blanks, isBlank c = true)
      (hne : digits ≠ []) (h : LongestDigits field.width digits rest) :
      NumberText field (blanks ++ (digits ++ rest)) (numeralValue digits) rest
  | plus {blanks digits rest : List Char} (hsigned : field.isSigned = true)
      (hblanks : ∀ c ∈ blanks, isBlank c = true) (hne : digits ≠ [])
      (h : LongestDigits none digits rest) :
      NumberText field (blanks ++ '+' :: (digits ++ rest)) (numeralValue digits) rest
  | minus {blanks digits rest : List Char} (hsigned : field.isSigned = true)
      (hblanks : ∀ c ∈ blanks, isBlank c = true) (hne : digits ≠ [])
      (h : LongestDigits none digits rest) :
      NumberText field (blanks ++ '-' :: (digits ++ rest)) (-(numeralValue digits : Int)) rest

namespace NumericField

/-- Without a sign in front, a number is its digits. -/
theorem scanValue?_of_trimStart {field : NumericField} {text : List Char} {c : Char}
    {after : List Char} (htrim : trimStart text = c :: after) (hplus : c ≠ '+') (hminus : c ≠ '-') :
    field.scanValue? text =
      (scanDigits? field.width (c :: after)).map fun (n, rest) => ((n : Int), rest) := by
  unfold scanValue?
  rw [htrim]
  split <;> simp_all

/-- The text of a number is read as the number. -/
theorem scanValue?_of_numberText {field : NumericField} {text rest : List Char} {n : Int}
    (h : NumberText field text n rest) : field.scanValue? text = some (n, rest) := by
  cases h with
  | @unsigned blanks digits _ hblanks hne h =>
    obtain ⟨c, digits, rfl⟩ := List.exists_cons_of_ne_nil hne
    have hc : c.isDigit = true := h.isDigit c (by simp)
    have htrim : trimStart (blanks ++ (c :: digits ++ rest)) = c :: (digits ++ rest) :=
      trimStart_append hblanks (by simp [isBlank_of_isDigit hc])
    have hdigits : scanDigits? field.width (c :: (digits ++ rest)) =
        some (numeralValue (c :: digits), rest) :=
      scanDigits?_eq_some_iff.mpr ⟨c :: digits, hne, rfl, h, rfl⟩
    rw [scanValue?_of_trimStart htrim (by rintro rfl; simp at hc) (by rintro rfl; simp at hc),
      hdigits, Option.map_some]
  | @plus blanks digits _ hsigned hblanks hne h =>
    have htrim : trimStart (blanks ++ '+' :: (digits ++ rest)) = '+' :: (digits ++ rest) :=
      trimStart_append hblanks (by simp [isBlank])
    have hdigits : scanDigits? none (digits ++ rest) = some (numeralValue digits, rest) :=
      scanDigits?_eq_some_iff.mpr ⟨digits, hne, rfl, h, rfl⟩
    simp only [scanValue?, hsigned, htrim, hdigits, Option.map_some]
  | @minus blanks digits _ hsigned hblanks hne h =>
    have htrim : trimStart (blanks ++ '-' :: (digits ++ rest)) = '-' :: (digits ++ rest) :=
      trimStart_append hblanks (by simp [isBlank])
    have hdigits : scanDigits? none (digits ++ rest) = some (numeralValue digits, rest) :=
      scanDigits?_eq_some_iff.mpr ⟨digits, hne, rfl, h, rfl⟩
    simp only [scanValue?, hsigned, htrim, hdigits, Option.map_some]

/-- The number of a field is read from exactly the texts that start with one. -/
theorem scanValue?_eq_some_iff {field : NumericField} {text rest : List Char} {n : Int} :
    field.scanValue? text = some (n, rest) ↔ NumberText field text n rest := by
  refine ⟨fun h => ?_, scanValue?_of_numberText⟩
  obtain ⟨blanks, htext, hblanks⟩ := exists_blanks text
  unfold scanValue? at h
  split at h <;> rw [Option.map_eq_some_iff] at h <;> obtain ⟨⟨value, after⟩, hdigits, heq⟩ := h <;>
    cases heq <;> obtain ⟨digits, hne, hafter, hlongest, rfl⟩ := scanDigits?_eq_some_iff.mp hdigits
  · next hsigned htrim =>
    rw [htext, htrim, hafter]
    exact .minus hsigned hblanks hne hlongest
  · next hsigned htrim =>
    rw [htext, htrim, hafter]
    exact .plus hsigned hblanks hne hlongest
  · rw [htext, hafter]
    exact .unsigned hblanks hne hlongest

end NumericField

/-! ## Offsets -/

/-- The sign of an offset; the minus may also be the mathematical one. -/
def IsOffsetSign (negative : Bool) (c : Char) : Prop :=
  if negative then c = '-' ∨ c = '\u2212' else c = '+'

/-- Seconds ahead of UTC, or behind it. -/
def signedSeconds (negative : Bool) (seconds : Nat) : Int :=
  if negative then -(seconds : Int) else seconds

/-- A text starts with an offset of so many seconds, perhaps after blanks: a sign, two digits of
hours, colons and blanks, and two digits of minutes below 60. -/
inductive OffsetText : List Char → Int → List Char → Prop
  | intro {blanks separators rest : List Char} {sign h₁ h₂ m₁ m₂ : Char} {negative : Bool}
      (hblanks : ∀ c ∈ blanks, isBlank c = true) (hsign : IsOffsetSign negative sign)
      (hhours : h₁.isDigit = true ∧ h₂.isDigit = true)
      (hseparators : ∀ c ∈ separators, c = ':' ∨ isBlank c = true)
      (hminutes : m₁.isDigit = true ∧ m₂.isDigit = true) (hlt : numeralValue [m₁, m₂] < 60) :
      OffsetText (blanks ++ sign :: h₁ :: h₂ :: (separators ++ m₁ :: m₂ :: rest))
        (signedSeconds negative (numeralValue [h₁, h₂] * 3600 + numeralValue [m₁, m₂] * 60)) rest

/-- The sign of an offset is not blank. -/
theorem isBlank_of_isOffsetSign {negative : Bool} {sign : Char} (h : IsOffsetSign negative sign) :
    isBlank sign = false := by
  cases negative with
  | false =>
    obtain rfl : sign = '+' := h
    decide
  | true =>
    obtain rfl | rfl : sign = '-' ∨ sign = '\u2212' := h <;> decide

/-- Two digits are read as their number. -/
theorem scanTwoDigits?_eq_some_iff {text rest : List Char} {n : Nat} :
    scanTwoDigits? text = some (n, rest) ↔
      ∃ a b, text = a :: b :: rest ∧ a.isDigit = true ∧ b.isDigit = true ∧
        numeralValue [a, b] = n := by
  constructor
  · intro h
    unfold scanTwoDigits? at h
    split at h
    · next a b after hdigits =>
      cases h
      obtain ⟨htext, hlongest⟩ := longestDigits_of_takeDigits hdigits
      exact ⟨a, b, htext, hlongest.isDigit a (by simp), hlongest.isDigit b (by simp), rfl⟩
    · cases h
  · rintro ⟨a, b, rfl, ha, hb, rfl⟩
    have hlongest : LongestDigits (some 2) [a, b] rest :=
      ⟨by simp [ha, hb], by simp, .inl (by simp)⟩
    rw [scanTwoDigits?, show a :: b :: rest = [a, b] ++ rest from rfl, takeDigits_append hlongest]

/-- The sign of an offset is read off the front of a text. -/
theorem scanOffsetSign?_eq_some_iff {text rest : List Char} {negative : Bool} :
    scanOffsetSign? text = some (negative, rest) ↔
      ∃ sign, IsOffsetSign negative sign ∧ text = sign :: rest := by
  unfold scanOffsetSign?
  split <;> cases negative <;> simp_all [IsOffsetSign]

/-- An offset is read from exactly the texts that start with one. -/
theorem scanOffset?_eq_some_iff {text rest : List Char} {seconds : Int} :
    scanSignedOffset? false (trimStart text) = some (seconds, rest) ↔
      OffsetText text seconds rest := by
  constructor
  · intro h
    obtain ⟨blanks, htext, hblanks⟩ := exists_blanks text
    simp only [scanSignedOffset?, Bool.and_false, Bool.false_eq_true, if_false] at h
    split at h
    · cases h
    next negative unsigned hsign =>
    split at h
    · cases h
    next hours afterHours hhours =>
    split at h
    · cases h
    next minutes after hminutes =>
    split at h
    case isFalse => cases h
    next hlt =>
    cases h
    obtain ⟨sign, hs, htrim⟩ := scanOffsetSign?_eq_some_iff.mp hsign
    obtain ⟨h₁, h₂, rfl, hh₁, hh₂, rfl⟩ := scanTwoDigits?_eq_some_iff.mp hhours
    obtain ⟨m₁, m₂, hm, hm₁, hm₂, rfl⟩ := scanTwoDigits?_eq_some_iff.mp hminutes
    have hafter := List.takeWhile_append_dropWhile
      (p := fun c => c == ':' || isBlank c) (l := afterHours)
    rw [hm] at hafter
    rw [htext, htrim, ← hafter]
    refine .intro hblanks hs ⟨hh₁, hh₂⟩ (fun c hc => ?_) ⟨hm₁, hm₂⟩ hlt
    simpa using List.mem_takeWhile_imp hc
  · rintro ⟨hblanks, hsign, ⟨hh₁, hh₂⟩, hseparators, ⟨hm₁, hm₂⟩, hlt⟩
    rename_i blanks separators sign h₁ h₂ m₁ m₂ negative
    have htrim : trimStart (blanks ++ sign :: h₁ :: h₂ :: (separators ++ m₁ :: m₂ :: rest)) =
        sign :: h₁ :: h₂ :: (separators ++ m₁ :: m₂ :: rest) :=
      trimStart_append hblanks (by simp [isBlank_of_isOffsetSign hsign])
    have hs : scanOffsetSign? (sign :: h₁ :: h₂ :: (separators ++ m₁ :: m₂ :: rest)) =
        some (negative, h₁ :: h₂ :: (separators ++ m₁ :: m₂ :: rest)) :=
      scanOffsetSign?_eq_some_iff.mpr ⟨sign, hsign, rfl⟩
    have hhours : scanTwoDigits? (h₁ :: h₂ :: (separators ++ m₁ :: m₂ :: rest)) =
        some (numeralValue [h₁, h₂], separators ++ m₁ :: m₂ :: rest) :=
      scanTwoDigits?_eq_some_iff.mpr ⟨h₁, h₂, rfl, hh₁, hh₂, rfl⟩
    have hdrop : (separators ++ m₁ :: m₂ :: rest).dropWhile (fun c => c == ':' || isBlank c) =
        m₁ :: m₂ :: rest := by
      refine (span_append (fun c hc => by simpa using hseparators c hc) ?_).2
      rintro c ⟨⟩
      have hcolon : m₁ ≠ ':' := by
        rintro rfl
        exact absurd hm₁ (by decide)
      simp [hcolon, isBlank_of_isDigit hm₁]
    have hminutes : scanTwoDigits? (m₁ :: m₂ :: rest) = some (numeralValue [m₁, m₂], rest) :=
      scanTwoDigits?_eq_some_iff.mpr ⟨m₁, m₂, rfl, hm₁, hm₂, rfl⟩
    simp only [scanSignedOffset?, htrim, hs, hhours, hdrop, hminutes, Bool.and_false,
      Bool.false_eq_true, if_false, if_pos hlt, signedSeconds]

end RecordCoercion

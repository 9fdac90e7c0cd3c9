import Mathlib.Algebra.Group.Nat.Defs
import Mathlib.Data.List.TakeWhile
import RecordCoercion.Text.Characters

/-!
# Runs of characters

A run of characters of a class is cut off a text where the next character is of another class. Two
classes matter: blanks, which trimming removes from the ends of a text, and digits, whose runs
denote numbers (`numeralValue_append`, `numeralValue_lt`).
-/

set_option autoImplicit false

namespace RecordCoercion

/-- A run of characters of a class is cut off where the next character is not of the class. -/
theorem span_append {p : Char → Bool} {run rest : List Char} (hrun : ∀ c ∈ run, p c = true)
    (hrest : ∀ c ∈ rest.head?, p c = false) :
    (run ++ rest).takeWhile p = run ∧ (run ++ rest).dropWhile p = rest := by
  rw [List.takeWhile_append_of_pos hrun, List.dropWhile_append_of_pos hrun]
  cases rest with
  | nil => simp
  | cons c rest =>
    have hc : p c = false := hrest c rfl
    simp [hc]

/-- What is left behind a run does not go on with it. -/
theorem head?_dropWhile {p : Char → Bool} {text : List Char} {c : Char}
    (h : c ∈ (text.dropWhile p).head?) : p c = false := by
  have hnot := List.head?_dropWhile_not p text
  rw [Option.mem_def.mp h] at hnot
  exact hnot

/-- The codes of the digits. -/
theorem toNat_of_isDigit {c : Char} (h : c.isDigit = true) : 48 ≤ c.toNat ∧ c.toNat ≤ 57 := by
  simp only [Char.isDigit, Bool.and_eq_true, decide_eq_true_eq, ge_iff_le,
    UInt32.le_iff_toNat_le] at h
  exact h

/-- A digit is not blank. -/
theorem isBlank_of_isDigit {c : Char} (h : c.isDigit = true) : isBlank c = false := by
  have hrange := toNat_of_isDigit h
  simp only [isBlank, Bool.or_eq_false_iff, Bool.and_eq_false_iff, decide_eq_false_iff_not,
    beq_eq_false_iff_ne]
  omega

/-- Blanks in front of a text that does not start with one are what trimming removes. -/
theorem trimStart_append {blanks rest : List Char} (hblanks : ∀ c ∈ blanks, isBlank c = true)
    (hrest : ∀ c ∈ rest.head?, isBlank c = false) : trimStart (blanks ++ rest) = rest :=
  (span_append hblanks hrest).2

/-- What is trimmed off the front of a text is blank. -/
theorem exists_blanks (text : List Char) :
    ∃ blanks, text = blanks ++ trimStart text ∧ ∀ c ∈ blanks, isBlank c = true :=
  ⟨text.takeWhile isBlank, List.takeWhile_append_dropWhile.symm, fun _ => List.mem_takeWhile_imp⟩

/-- Nothing is removed from a text without blanks. -/
theorem trim_eq_self {text : List Char} (h : ∀ c ∈ text, isBlank c = false) : trim text = text := by
  have hdrop : ∀ l : List Char, (∀ c ∈ l, isBlank c = false) → l.dropWhile isBlank = l := by
    intro l hl
    cases l with
    | nil => rfl
    | cons c rest => rw [List.dropWhile_cons_of_neg (by simp [hl c (by simp)])]
  have hreverse : text.reverse.dropWhile isBlank = text.reverse :=
    hdrop _ fun c hc => h c (List.mem_reverse.mp hc)
  rw [trim, trimEnd, trimStart, hdrop text h, hreverse, List.reverse_reverse]

/-- A text is what trimming leaves of it, between blanks. -/
theorem exists_trim (text : List Char) :
    ∃ before after, text = before ++ trim text ++ after ∧ (∀ c ∈ before, isBlank c = true) ∧
      (∀ c ∈ after, isBlank c = true) ∧ ∀ c ∈ (trim text).head?, isBlank c = false := by
  obtain ⟨before, htext, hbefore⟩ := exists_blanks text
  obtain ⟨after, hend, hafter⟩ := exists_blanks (trimStart text).reverse
  have hstart : trimStart text = trim text ++ after.reverse := by
    rw [trim, trimEnd, ← List.reverse_append]
    exact List.reverse_eq_iff.mp hend
  refine ⟨before, after.reverse, ?_, hbefore, fun c hc => hafter c (List.mem_reverse.mp hc), ?_⟩
  · rw [List.append_assoc, ← hstart]
    exact htext
  · intro c hc
    have hhead : c ∈ (trimStart text).head? := by
      rw [hstart, List.head?_append, Option.mem_def.mp hc]
      rfl
    exact head?_dropWhile hhead

/-- A signed numeral is made of digits and a minus sign. -/
theorem isDigit_or_eq_of_mem_signedNumeral {n : Int} {c : Char} (h : c ∈ signedNumeral n) :
    c.isDigit = true ∨ c = '-' := by
  unfold signedNumeral at h
  split at h
  · rcases List.mem_cons.mp h with rfl | hc
    · exact .inr rfl
    · exact .inl (isDigit_of_mem_numeral hc)
  · exact .inl (isDigit_of_mem_numeral h)

/-- A signed numeral holds no blank. -/
theorem isBlank_of_mem_signedNumeral {n : Int} {c : Char} (h : c ∈ signedNumeral n) :
    isBlank c = false := by
  obtain hdigit | rfl := isDigit_or_eq_of_mem_signedNumeral h
  · exact isBlank_of_isDigit hdigit
  · decide

/-! ## Values of digits -/

/-- Digits in front count for as many places as follow them. -/
theorem numeralValue_append (front back : List Char) :
    numeralValue (front ++ back) = 10 ^ back.length * numeralValue front + numeralValue back := by
  unfold numeralValue
  rw [Nat.ofDigitChars_append, Nat.ofDigitChars_eq_ofDigitChars_zero]

/-- The number of some digits has no more digits. -/
theorem numeralValue_lt {digits : List Char} (h : ∀ c ∈ digits, c.isDigit = true) :
    numeralValue digits < 10 ^ digits.length := by
  induction digits with
  | nil => decide
  | cons c digits ih =>
    obtain ⟨hc, hdigits⟩ := List.forall_mem_cons.mp h
    have hfirst : numeralValue [c] ≤ 9 := by
      have hvalue : numeralValue [c] = 10 * 0 + (c.toNat - 48) := rfl
      have hrange := toNat_of_isDigit hc
      omega
    have happend : numeralValue (c :: digits) =
        10 ^ digits.length * numeralValue [c] + numeralValue digits :=
      numeralValue_append [c] digits
    have hfront : 10 ^ digits.length * numeralValue [c] ≤ 10 ^ digits.length * 9 :=
      Nat.mul_le_mul_left _ hfirst
    have hback := ih hdigits
    rw [happend, List.length_cons, Nat.pow_succ]
    omega

/-- Zeros are digits. -/
theorem isDigit_replicate_zero (n : Nat) : ∀ c ∈ List.replicate n '0', c.isDigit = true := by
  intro c hc
  rw [List.eq_of_mem_replicate hc]
  decide

/-- Zeros denote zero. -/
theorem numeralValue_replicate_zero (n : Nat) : numeralValue (List.replicate n '0') = 0 := by
  induction n with
  | zero => rfl
  | succ n ih =>
    have happend := numeralValue_append ['0'] (List.replicate n '0')
    rw [ih] at happend
    exact happend

/-- The last digits of a numeral are what is left of its value below their place. -/
theorem numeralValue_drop {digits : List Char} (h : ∀ c ∈ digits, c.isDigit = true) (n : Nat) :
    numeralValue (digits.drop n) = numeralValue digits % 10 ^ (digits.drop n).length := by
  have hback : numeralValue (digits.drop n) < 10 ^ (digits.drop n).length :=
    numeralValue_lt fun c hc => h c (List.mem_of_mem_drop hc)
  have hvalue := numeralValue_append (digits.take n) (digits.drop n)
  rw [List.take_append_drop] at hvalue
  rw [hvalue, Nat.mul_add_mod, Nat.mod_eq_of_lt hback]

end RecordCoercion

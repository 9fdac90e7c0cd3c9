import RecordCoercion.Numeric.WideInteger
import RecordCoercion.Proofs.Numeric.NearestNumber

/-!
# Rounding the leading bits of an integer

The leading 64 bits of an integer are more than a significand takes, so that the rest of them matters only
if the integer lies just above the midpoint of two neighbours. The last of the leading bits is set then,
unless the search for set bits in the rest has found none (`MissesTie`), and the midpoint itself is rounded
in place of the integer. Everywhere else the leading bits are rounded to the same number as the integer,
which is the nearest one (`Binary.isNearest_ofWideInt_iff`).

No integer of at most 128 bits is missed, and so none at all in single precision.
-/

set_option autoImplicit false

namespace RecordCoercion

/-! ## The search for set bits -/

/-- The search finds nothing if all bits that it looks at are zero. -/
theorem hasLowBits_eq_false_iff {width count n : Nat} :
    hasLowBits width count n = false ↔ ∀ i < count, n / UInt64.size ^ i % 2 ^ width = 0 := by
  induction count generalizing n with
  | zero => simp [hasLowBits]
  | succ count ih =>
    simp only [hasLowBits, Nat.pow_eq, Bool.or_eq_false_iff, bne_eq_false_iff_eq, ih,
      Nat.forall_lt_succ_left, pow_zero, Nat.div_one, Nat.div_div_eq_div_mul, ← pow_succ']

/-- Whether the search finds a set bit in the rest of an integer of more than 64 bits. -/
def seesRest (n : Nat) : Bool := hasLowBits (n.log2 % 64 + 1) (n.log2 / 64) n

section

variable {n : Nat} (hn : UInt64.size ≤ n)

include hn

/-- An integer of more than 64 bits is not zero. -/
theorem ne_zero_of_wide : n ≠ 0 := by
  rintro rfl
  exact absurd hn (by decide)

/-- An integer of more than 64 bits has a bit of weight `2 ^ 64` or more. -/
theorem log2_of_wide : 64 ≤ n.log2 :=
  (Nat.le_log2 (ne_zero_of_wide hn)).mpr hn

/-- What is found is a part of the rest. -/
theorem rest_ne_zero_of_seesRest (h : seesRest n = true) : n % 2 ^ (n.log2 - 63) ≠ 0 := by
  intro hrest
  have hlog := log2_of_wide hn
  refine Bool.eq_false_iff.mp (hasLowBits_eq_false_iff.mpr fun i hi => ?_) h
  -- the bits that are looked at in a digit are no part of the leading ones
  have hpow : UInt64.size ^ i * 2 ^ (n.log2 % 64 + 1) ∣ 2 ^ (n.log2 - 63) := by
    rw [show UInt64.size = 2 ^ 64 from rfl, ← Nat.pow_mul, ← Nat.pow_add]
    exact Nat.pow_dvd_pow 2 (by omega)
  exact Nat.mod_eq_zero_of_dvd
    (Nat.dvd_div_of_mul_dvd (hpow.trans (Nat.dvd_of_mod_eq_zero hrest)))

/-- Of an integer of two digits the whole rest is searched. -/
theorem seesRest_of_log2_lt (hlog : n.log2 < 128) (hrest : n % 2 ^ (n.log2 - 63) ≠ 0) :
    seesRest n = true := by
  have hwide := log2_of_wide hn
  have hcount : n.log2 / 64 = 1 := by omega
  have hwidth : n.log2 % 64 + 1 = n.log2 - 63 := by omega
  rw [seesRest, hcount, hwidth]
  simpa [hasLowBits] using hrest

end

/-! ## The rounding of a cut integer -/

/-- A quotient by an even number is rounded up if the half is exceeded, or is reached by an odd number. -/
theorem roundHalfEven_add {quotient part half place rest : Nat} (hpart : part < 2 * half)
    (hrest : rest < place) :
    roundHalfEven ((quotient * (2 * half) + part) * place + rest) (2 * half * place) =
      if half < part ∨ part = half ∧ (rest ≠ 0 ∨ quotient % 2 = 1) then quotient + 1
      else quotient := by
  have hsmall : part * place + rest < 2 * half * place := by
    calc part * place + rest < part * place + place := Nat.add_lt_add_left hrest _
      _ = (part + 1) * place := (Nat.succ_mul _ _).symm
      _ ≤ 2 * half * place := Nat.mul_le_mul_right _ hpart
  have hnum : (quotient * (2 * half) + part) * place + rest =
      2 * half * place * quotient + (part * place + rest) := by ring
  have hdiv : (2 * half * place * quotient + (part * place + rest)) / (2 * half * place) = quotient := by
    rw [Nat.mul_add_div (by omega), Nat.div_eq_of_lt hsmall, Nat.add_zero]
  have hmod : (2 * half * place * quotient + (part * place + rest)) % (2 * half * place) =
      part * place + rest := by
    rw [Nat.mul_add_mod, Nat.mod_eq_of_lt hsmall]
  have hdouble : 2 * half * place = 2 * (half * place) := Nat.mul_assoc _ _ _
  rw [hnum, roundHalfEven, hdiv, hmod, hdouble]
  rcases Nat.lt_trichotomy part half with hlt | rfl | hgt
  · have hle : (part + 1) * place ≤ half * place := Nat.mul_le_mul_right _ hlt
    rw [Nat.succ_mul] at hle
    rw [if_pos (by omega), if_neg (by omega)]
  · split_ifs <;> omega
  · have hle : (half + 1) * place ≤ part * place := Nat.mul_le_mul_right _ hgt
    rw [Nat.succ_mul] at hle
    rw [if_neg (by omega), if_pos (by omega), if_pos (.inl hgt)]

/-- A number with its last bit set if `jam` says so. -/
def jammed (jam : Bool) (n : Nat) : Nat := if jam && n % 2 == 0 then n + 1 else n

/-- Setting the last bit does not touch the bits in front of it. -/
theorem jammed_add {jam : Bool} {m n : Nat} (hm : m % 2 = 0) : jammed jam (m + n) = m + jammed jam n := by
  have hmod : (m + n) % 2 = n % 2 := by omega
  rw [jammed, jammed, hmod]
  split <;> rfl

/-- The last bit takes the part of the rest in the rounding, unless the rest alone exceeds the half after an
even number and the last bit is not set for it. -/
theorem roundHalfEven_jammed_iff (quotient : Nat) {part half place rest : Nat} {jam : Bool}
    (hpart : part < 2 * half) (heven : half % 2 = 0) (hrest : rest < place)
    (hjam : jam = true → rest ≠ 0) :
    roundHalfEven (jammed jam (quotient * (2 * half) + part) * place) (2 * half * place) =
        roundHalfEven ((quotient * (2 * half) + part) * place + rest) (2 * half * place) ↔
      ¬ (part = half ∧ quotient % 2 = 0 ∧ rest ≠ 0 ∧ jam = false) := by
  have hproduct : quotient * (2 * half) % 2 = 0 := by
    rw [Nat.mul_left_comm, Nat.mul_mod_right]
  have hcases : jammed jam part = part ∧ (jam = true → part % 2 = 1) ∨
      jammed jam part = part + 1 ∧ jam = true ∧ part % 2 = 0 := by
    rw [jammed]
    split <;> simp_all
  have hjammed : jammed jam part < 2 * half := by omega
  have hcut : roundHalfEven ((quotient * (2 * half) + jammed jam part) * place + 0) (2 * half * place) =
      _ := roundHalfEven_add hjammed (Nat.zero_lt_of_lt hrest)
  rw [Nat.add_zero] at hcut
  rw [jammed_add hproduct, hcut, roundHalfEven_add hpart hrest]
  cases jam with
  | false =>
    obtain ⟨hsame, -⟩ | ⟨-, hfalse, -⟩ := hcases
    · rw [hsame]
      simp only [and_true]
      split_ifs <;> omega
    · cases hfalse
  | true =>
    have hrest := hjam rfl
    simp only [Bool.true_eq_false, and_false, not_false_eq_true, iff_true]
    -- the half is even, so that a jammed part differs from it
    obtain ⟨hsame, hodd⟩ | ⟨hsame, -, hpartEven⟩ := hcases
    · have hodd := hodd rfl
      split_ifs <;> omega
    · split_ifs <;> omega

/-- A quotient in other terms is rounded to the same integer. -/
theorem roundHalfEven_mul_mul (num den : Nat) {c : Nat} (hc : 0 < c) :
    roundHalfEven (num * c) (den * c) = roundHalfEven num den := by
  have hlt : ∀ a b : Nat, a * c < b * c ↔ a < b := fun _ _ => Nat.mul_lt_mul_right hc
  simp only [roundHalfEven, Nat.mul_div_mul_right _ _ hc, Nat.mul_mod_mul_right, ← Nat.mul_assoc, hlt]

/-! ## The code of an integer -/

/-- A shift moves the leading bit. -/
theorem log2_mul_two_pow {n : Nat} (hn : n ≠ 0) (k : Nat) : (n * 2 ^ k).log2 = n.log2 + k := by
  have hpos : 0 < 2 ^ k := Nat.two_pow_pos k
  rw [Nat.log2_eq_iff (Nat.mul_ne_zero hn hpos.ne'), Nat.pow_add, Nat.add_right_comm, Nat.pow_add]
  exact ⟨Nat.mul_le_mul_right _ (Nat.log2_self_le hn), Nat.mul_lt_mul_of_pos_right Nat.lt_log2_self hpos⟩

namespace BinaryFormat

variable {f : BinaryFormat} {m n : Nat}

/-- An integer of at least as many bits as a significand is cut to these. -/
theorem nearestCode_mul_one (hn : n ≠ 0) (hprecision : f.precision ≤ n.log2 + 1) :
    f.nearestCode (n * f.one) 1 =
      min f.infinityCode ((f.scale + (n.log2 + 1 - f.precision)) * f.fractionCount +
        roundHalfEven n (2 ^ (n.log2 + 1 - f.precision))) := by
  have hshift : (n * f.one).log2 + 1 - f.precision = f.scale + (n.log2 + 1 - f.precision) := by
    rw [one, Nat.pow_eq, log2_mul_two_pow hn]
    omega
  have hround : roundHalfEven (n * f.one) (2 ^ (f.scale + (n.log2 + 1 - f.precision))) =
      roundHalfEven n (2 ^ (n.log2 + 1 - f.precision)) := by
    rw [Nat.pow_add, Nat.mul_comm (2 ^ f.scale)]
    exact roundHalfEven_mul_mul _ _ f.one_pos
  simp only [nearestCode, Nat.div_one, Nat.one_mul, Nat.pow_eq, hshift, hround]

/-- The significand of an integer is rounded to one of the precision, or to the first one after. -/
theorem roundHalfEven_significand_bounds (hn : n ≠ 0) (hprecision : f.precision ≤ n.log2 + 1) :
    f.fractionCount ≤ roundHalfEven n (2 ^ (n.log2 + 1 - f.precision)) ∧
      roundHalfEven n (2 ^ (n.log2 + 1 - f.precision)) ≤ 2 * f.fractionCount := by
  have hpos : 0 < 2 ^ (n.log2 + 1 - f.precision) := Nat.two_pow_pos _
  have htwo := f.two_le_precision
  have hlo : f.fractionCount ≤ n / 2 ^ (n.log2 + 1 - f.precision) := by
    rw [Nat.le_div_iff_mul_le hpos, fractionCount, Nat.pow_eq, ← Nat.pow_add]
    exact (Nat.pow_le_pow_right (by decide) (by omega)).trans (Nat.log2_self_le hn)
  have hhi : n / 2 ^ (n.log2 + 1 - f.precision) < 2 * f.fractionCount := by
    rw [Nat.div_lt_iff_lt_mul hpos, ← two_pow_precision, ← Nat.pow_add]
    exact Nat.lt_log2_self.trans_le (Nat.pow_le_pow_right (by decide) (by omega))
  rcases roundHalfEven_eq_or_eq n (2 ^ (n.log2 + 1 - f.precision)) with h | h <;> omega

/-- Two integers of the same number of bits have the same code if they are rounded to the same significand,
or if they have too many bits for a finite number. -/
theorem nearestCode_eq_iff (hm : m ≠ 0) (hn : n ≠ 0) (hlog : m.log2 = n.log2)
    (hprecision : f.precision ≤ n.log2 + 1) :
    f.nearestCode (m * f.one) 1 = f.nearestCode (n * f.one) 1 ↔
      (n.log2 < 2 ^ (f.exponentBits - 1) →
        roundHalfEven m (2 ^ (n.log2 + 1 - f.precision)) =
          roundHalfEven n (2 ^ (n.log2 + 1 - f.precision))) := by
  obtain ⟨hlo, hhi⟩ := roundHalfEven_significand_bounds hn hprecision
  obtain ⟨hlo', hhi'⟩ := roundHalfEven_significand_bounds hm (hlog ▸ hprecision)
  rw [nearestCode_mul_one hm (hlog ▸ hprecision), nearestCode_mul_one hn hprecision]
  rw [hlog] at hlo' hhi' ⊢
  have htwo := f.two_le_precision
  have hexponents : 2 ^ f.exponentBits = 2 * 2 ^ (f.exponentBits - 1) := by
    rw [← Nat.pow_succ']
    congr 1
    have := f.two_le_exponentBits
    omega
  have hhalf : 2 ≤ 2 ^ (f.exponentBits - 1) :=
    Nat.pow_le_pow_right (n := 2) (by decide) (show 1 ≤ f.exponentBits - 1 by
      have := f.two_le_exponentBits
      omega)
  have hinfinity : f.infinityCode = (2 ^ f.exponentBits - 3) * f.fractionCount + 2 * f.fractionCount := by
    rw [infinityCode, Nat.pow_eq, ← Nat.add_mul]
    congr 1
    omega
  have hshift : f.scale + (n.log2 + 1 - f.precision) = 2 ^ (f.exponentBits - 1) + n.log2 - 2 := by
    simp only [scale, Nat.pow_eq]
    omega
  rw [hshift, hinfinity]
  by_cases hfinite : n.log2 < 2 ^ (f.exponentBits - 1)
  · have hle : (2 ^ (f.exponentBits - 1) + n.log2 - 2) * f.fractionCount ≤
        (2 ^ f.exponentBits - 3) * f.fractionCount := Nat.mul_le_mul_right _ (by omega)
    omega
  · have hle : (2 ^ f.exponentBits - 3 + 1) * f.fractionCount ≤
        (2 ^ (f.exponentBits - 1) + n.log2 - 2) * f.fractionCount := Nat.mul_le_mul_right _ (by omega)
    rw [Nat.succ_mul] at hle
    omega

end BinaryFormat

/-! ## The integers that are missed -/

/-- An integer lies above the midpoint of two numbers of a format, the smaller of which is even, by a rest
that is not seen: in all digits but the leading one the low bits are zero, as many of them as the leading
digit has. -/
structure MissesTie (f : BinaryFormat) (n : Nat) : Prop where
  wide : UInt64.size ≤ n
  finite : n.log2 < 2 ^ (f.exponentBits - 1)
  /-- Those of the leading bits that the significand does not take are one half of its last place. -/
  half : n / 2 ^ (n.log2 - 63) % 2 ^ (64 - f.precision) = 2 ^ (63 - f.precision)
  /-- The significand is even. -/
  even : n / 2 ^ (n.log2 + 1 - f.precision) % 2 = 0
  rest : n % 2 ^ (n.log2 - 63) ≠ 0
  unseen : ∀ i < n.log2 / 64, n / UInt64.size ^ i % 2 ^ (n.log2 % 64 + 1) = 0

section

variable {n : Nat} (hn : UInt64.size ≤ n)

include hn

/-- The leading bits of an integer of more than 64 bits, the last one set if the search sees the rest. -/
theorem leadingBits_of_wide :
    leadingBits n = jammed (seesRest n) (n / 2 ^ (n.log2 - 63)) * 2 ^ (n.log2 - 63) :=
  if_neg (Nat.not_lt.mpr hn)

/-- There are 64 leading bits. -/
theorem lead_bounds : 2 ^ 63 ≤ n / 2 ^ (n.log2 - 63) ∧ n / 2 ^ (n.log2 - 63) < 2 ^ 64 := by
  have hlog := log2_of_wide hn
  have hpos : 0 < 2 ^ (n.log2 - 63) := Nat.two_pow_pos _
  rw [Nat.le_div_iff_mul_le hpos, Nat.div_lt_iff_lt_mul hpos, ← Nat.pow_add, ← Nat.pow_add]
  constructor
  · rw [show 63 + (n.log2 - 63) = n.log2 by omega]
    exact Nat.log2_self_le (ne_zero_of_wide hn)
  · rw [show 64 + (n.log2 - 63) = n.log2 + 1 by omega]
    exact Nat.lt_log2_self

/-- The leading bits have their place. -/
theorem log2_leadingBits : (leadingBits n).log2 = n.log2 := by
  have hlog := log2_of_wide hn
  obtain ⟨hlo, hhi⟩ := lead_bounds hn
  rw [leadingBits_of_wide hn]
  generalize n / 2 ^ (n.log2 - 63) = lead at hlo hhi ⊢
  have hjammed : 2 ^ 63 ≤ jammed (seesRest n) lead ∧ jammed (seesRest n) lead < 2 ^ 64 := by
    rw [jammed]
    split
    · next h =>
      simp only [Bool.and_eq_true, beq_iff_eq] at h
      omega
    · exact ⟨hlo, hhi⟩
  generalize jammed _ lead = bits at hjammed ⊢
  have hne : bits ≠ 0 := by omega
  rw [log2_mul_two_pow hne, (Nat.log2_eq_iff hne).mpr hjammed]
  omega

/-- The leading bits are rounded to the significand of the integer, unless they miss a tie. -/
theorem roundHalfEven_leadingBits_iff {precision : Nat} (hprecision : precision ≤ 62) :
    roundHalfEven (leadingBits n) (2 ^ (n.log2 + 1 - precision)) =
        roundHalfEven n (2 ^ (n.log2 + 1 - precision)) ↔
      ¬ (n / 2 ^ (n.log2 - 63) % 2 ^ (64 - precision) = 2 ^ (63 - precision) ∧
        n / 2 ^ (n.log2 + 1 - precision) % 2 = 0 ∧ n % 2 ^ (n.log2 - 63) ≠ 0 ∧
        seesRest n = false) := by
  have hlog := log2_of_wide hn
  have hdouble : 2 ^ (64 - precision) = 2 * 2 ^ (63 - precision) := by
    rw [← Nat.pow_succ']
    congr 1
    omega
  have hplace : 2 ^ (n.log2 + 1 - precision) = 2 ^ (n.log2 - 63) * 2 ^ (64 - precision) := by
    rw [← Nat.pow_add]
    congr 1
    omega
  have heven : 2 ^ (63 - precision) % 2 = 0 := by
    rw [show 63 - precision = 62 - precision + 1 by omega, Nat.pow_succ, Nat.mul_mod_left]
  have hpart : n / 2 ^ (n.log2 - 63) % 2 ^ (64 - precision) < 2 * 2 ^ (63 - precision) := by
    rw [← hdouble]
    exact Nat.mod_lt _ (Nat.two_pow_pos _)
  have hlead : n / 2 ^ (n.log2 + 1 - precision) * (2 * 2 ^ (63 - precision)) +
      n / 2 ^ (n.log2 - 63) % 2 ^ (64 - precision) = n / 2 ^ (n.log2 - 63) := by
    rw [hplace, ← Nat.div_div_eq_div_mul, ← hdouble, Nat.div_add_mod']
  have h := roundHalfEven_jammed_iff (n / 2 ^ (n.log2 + 1 - precision)) hpart heven
    (Nat.mod_lt n (Nat.two_pow_pos (n.log2 - 63))) (rest_ne_zero_of_seesRest hn)
  rw [hlead, Nat.div_add_mod', ← hdouble, Nat.mul_comm (2 ^ (64 - precision)), ← hplace,
    ← leadingBits_of_wide hn] at h
  exact h

end

namespace BinaryFormat

variable {f : BinaryFormat}

/-- The leading bits are rounded to the number of the integer, unless they miss a tie. -/
theorem nearestCode_leadingBits_iff (hprecision : f.precision ≤ 62) (n : Nat) :
    f.nearestCode (leadingBits n * f.one) 1 = f.nearestCode (n * f.one) 1 ↔ ¬ MissesTie f n := by
  rcases Nat.lt_or_ge n UInt64.size with hlt | hwide
  · rw [leadingBits_of_lt hlt]
    exact iff_of_true rfl fun h => absurd h.wide (Nat.not_le.mpr hlt)
  have hlog := log2_of_wide hwide
  have hbits := log2_leadingBits hwide
  have hne : leadingBits n ≠ 0 := by
    intro hzero
    rw [hzero, Nat.log2_zero] at hbits
    omega
  rw [nearestCode_eq_iff hne (ne_zero_of_wide hwide) hbits (by omega),
    roundHalfEven_leadingBits_iff hwide hprecision]
  constructor
  · intro h hmisses
    exact h hmisses.finite
      ⟨hmisses.half, hmisses.even, hmisses.rest, hasLowBits_eq_false_iff.mpr hmisses.unseen⟩
  · rintro h hfinite ⟨hhalf, heven, hrest, hunseen⟩
    exact h ⟨hwide, hfinite, hhalf, heven, hrest, hasLowBits_eq_false_iff.mp hunseen⟩

end BinaryFormat

/-- An integer of no more than two digits is not missed. -/
theorem not_missesTie_of_log2_lt {f : BinaryFormat} {n : Nat} (h : n.log2 < 128) : ¬ MissesTie f n := by
  intro hmisses
  have hseen := seesRest_of_log2_lt hmisses.wide h hmisses.rest
  rw [seesRest, hasLowBits_eq_false_iff.mpr hmisses.unseen] at hseen
  cases hseen

/-- Integers of more digits are infinite in single precision. -/
theorem not_missesTie_binary32 (n : Nat) : ¬ MissesTie binary32 n := fun hmisses =>
  not_missesTie_of_log2_lt hmisses.finite hmisses

namespace Binary

open BinaryFormat

variable {f : BinaryFormat}

/-- The number for an integer is negative as the integer is. -/
theorem negative_ofWideInt (f : BinaryFormat) (n : Int) :
    (ofWideInt f n).negative = decide ((n : ℚ) < 0) :=
  decide_eq_decide.mpr Int.cast_lt_zero.symm

/-- The number for an integer is never "not a number". -/
theorem isNaN_ofWideInt (f : BinaryFormat) (n : Int) : (ofWideInt f n).isNaN = false :=
  decide_eq_false (Nat.not_lt.mpr (f.nearestCode_le_infinityCode _ _))

/-- An integer of any width becomes the nearest number, unless its leading bits miss a tie. -/
theorem isNearest_ofWideInt_iff (hprecision : f.precision ≤ 62) (n : Int) :
    (ofWideInt f n).IsNearest n ↔ ¬ MissesTie f n.natAbs := by
  rw [isNearest_iff_of_negative (negative_ofWideInt f n), Rat.num_intCast, Rat.den_intCast,
    ← nearestCode_leadingBits_iff hprecision]
  rfl

/-- A larger integer does not become a smaller number, if both become the nearest one. -/
theorem value_ofWideInt_le {m n : Int} (hm : (ofWideInt f m).IsNearest m)
    (hn : (ofWideInt f n).IsNearest n) (h : m ≤ n) : (ofWideInt f m).value ≤ (ofWideInt f n).value :=
  value_le hm (negative_ofWideInt f m) hn (negative_ofWideInt f n) (Int.cast_le.mpr h)

end Binary

end RecordCoercion

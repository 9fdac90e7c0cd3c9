import RecordCoercion.Proofs.Conversion.Narrowing
import RecordCoercion.Proofs.Conversion.Truncation
import RecordCoercion.Proofs.Numeric.LeadingBits

/-!
# Integers as floating-point numbers

An integer of any kind becomes the nearest number in single precision. In double precision it does so unless
it has more than 128 bits and misses a tie (`convert_integer_nearest`). Apart from such integers a larger
integer does not become a smaller number. An integer of no more bits than a significand is kept, and becomes
the same integer again.
-/

set_option autoImplicit false

namespace RecordCoercion

namespace Binary

open BinaryFormat

variable {f : BinaryFormat}

/-- An integer of no more bits than a significand is a number of the format. -/
theorem quantity_ofWideInt {n : Int} (hprecision : f.precision < 64)
    (hexponents : f.precision < 2 ^ (f.exponentBits - 1)) (hn : n.natAbs ≤ 2 ^ f.precision) :
    (ofWideInt f n).quantity = .exact n := by
  have hone : (f.one : ℚ) ≠ 0 := by exact_mod_cast f.one_pos.ne'
  have hsize : n.natAbs < UInt64.size := hn.trans_lt (Nat.pow_lt_pow_right (by decide) hprecision)
  have hfinite : n.natAbs * f.one < f.magnitude f.infinityCode := by
    calc n.natAbs * f.one ≤ 2 ^ f.precision * f.one := Nat.mul_le_mul_right _ hn
      _ = 2 ^ (f.scale + f.precision) := by rw [one, Nat.pow_eq, ← Nat.pow_add, Nat.add_comm]
      _ < 2 ^ (f.scale + 2 ^ (f.exponentBits - 1)) := Nat.pow_lt_pow_right (by decide) (by omega)
      _ = f.magnitude f.infinityCode := f.magnitude_infinityCode.symm
  rw [two_pow_precision] at hn
  have hunits : (ofInt f n).units = n.natAbs * f.one := units_ofInt hn hfinite.le
  have hcode : (ofInt f n).isFinite = true := by
    refine decide_eq_true (f.strictMono_magnitude.lt_iff_lt.mp ?_)
    rw [← hunits] at hfinite
    exact hfinite
  have hnegative : (ofInt f n).negative = decide ((n : ℚ) < 0) := negative_ofWideInt f n
  have habs : (n.natAbs : ℚ) = |(n : ℚ)| := by rw [Nat.cast_natAbs, Int.cast_abs]
  rw [ofWideInt_eq_ofInt f hsize, quantity_of_isFinite hcode, value, hunits, hnegative, Nat.cast_mul,
    mul_div_cancel_right₀ _ hone, habs, signed_abs]

end Binary

/-- An integer has no fraction to lose. -/
theorem towardZero_intCast (n : Int) : towardZero n = n := by
  rw [towardZero, Int.ceil_intCast, Int.floor_intCast, ite_self]

/-- The integer of a value lies in the range of the kind of the value. -/
theorem NumericKind.contains_of_integer? {kind : NumericKind} {range : IntRange} {v : Value} {n : Int}
    (hrange : kind.range? = some range) (hkind : v.kind? = some kind.kind)
    (h : v.integer? = some n) : range.contains n = true := by
  rw [IntRange.contains_iff]
  cases kind <;> cases hrange <;> cases v <;> cases hkind <;> cases h
  case byte m => exact ⟨m.le_toInt, Int.le_of_lt_add_one m.toInt_lt⟩
  case short m => exact ⟨m.le_toInt, Int.le_of_lt_add_one m.toInt_lt⟩
  case int m => exact ⟨m.le_toInt, Int.le_of_lt_add_one m.toInt_lt⟩
  case long m => exact ⟨m.le_toInt, Int.le_of_lt_add_one m.toInt_lt⟩

section

variable (defaults : FormatDefaults) (field : String) {v : Value} {n : Int} (h : v.integer? = some n)

include h

/-- An integer becomes a single-precision number by way of its leading bits. -/
theorem convert_float_of_integer? :
    convert defaults .float v field = .ok (.float (.ofWideInt binary32 n)) :=
  convert_of_holds defaults field .float (Value.holds_of_integer? h) rfl

/-- An integer becomes a double by way of its leading bits. -/
theorem convert_double_of_integer? :
    convert defaults .double v field = .ok (.double (.ofWideInt binary64 n)) :=
  convert_of_holds defaults field .double (Value.holds_of_integer? h) rfl

/-- What stands for the integer of a value becomes this value in its kind. -/
theorem convert_of_quantity? {w : Value} {kind : NumericKind} (hkind : v.kind? = some kind.kind)
    (hw : w.quantity? = some (.exact n)) : convert defaults kind.type w field = .ok v := by
  have hholds := Value.holds_of_integer? h
  cases hrange : kind.range? with
  | some range =>
    obtain ⟨u, hu, hkind', hinteger⟩ := convert_bounded defaults field hw hrange
    rw [Quantity.cut, towardZero_intCast,
      IntRange.clamp_of_contains (NumericKind.contains_of_integer? hrange hkind h)] at hinteger
    rw [hu, hholds.eq_of_kind? (Value.holds_of_integer? hinteger) (hkind.trans hkind'.symm)]
  | none =>
    cases kind <;> cases hrange <;> cases v <;> cases hkind <;> cases h
    have hbig := (convert_unbounded defaults field hw).2
    rw [Quantity.integer?, towardZero_intCast] at hbig
    exact hbig

end

/-- Only an unbounded integer of more than 128 bits may miss a tie. -/
theorem MissesTie.kind?_eq {f : BinaryFormat} {v : Value} {n : Int} (hmisses : MissesTie f n.natAbs)
    (h : v.integer? = some n) : v.kind? = some .bigInt ∧ 128 ≤ n.natAbs.log2 := by
  refine ⟨?_, Nat.not_lt.mp fun hlog => not_missesTie_of_log2_lt hlog hmisses⟩
  have hwide := hmisses.wide
  cases v <;> cases h
  case bigInt => rfl
  case byte m | short m | int m | long m =>
    have hlo := m.le_toInt
    have hhi := m.toInt_lt
    simp only [UInt64.size] at hwide
    omega

/-- An integer of any kind becomes the number of its sign that is nearest to it, in double precision just if
it does not miss a tie, which only an unbounded integer of more than 128 bits may do. Where no tie is missed,
a larger integer does not become a smaller number. An integer of no more bits than a significand is the same
again when the number is converted back to its kind. -/
theorem convert_integer_nearest (defaults : FormatDefaults) (field : String) {v : Value} {n : Int}
    (h : v.integer? = some n) :
    (∃ x, convert defaults .float v field = .ok (.float x) ∧ x.isNaN = false ∧
      x.negative = decide (n < 0) ∧ x.IsNearest n) ∧
    (∃ x, convert defaults .double v field = .ok (.double x) ∧ x.isNaN = false ∧
      x.negative = decide (n < 0) ∧ (x.IsNearest n ↔ ¬ MissesTie binary64 n.natAbs)) ∧
    (MissesTie binary64 n.natAbs → v.kind? = some .bigInt ∧ 128 ≤ n.natAbs.log2) ∧
    (∀ (w : Value) (m : Int), w.integer? = some m → n ≤ m →
      (∀ x y, convert defaults .float v field = .ok (.float x) →
        convert defaults .float w field = .ok (.float y) → x.value ≤ y.value) ∧
      (¬ MissesTie binary64 n.natAbs → ¬ MissesTie binary64 m.natAbs →
        ∀ x y, convert defaults .double v field = .ok (.double x) →
          convert defaults .double w field = .ok (.double y) → x.value ≤ y.value)) ∧
    ∀ kind : NumericKind, v.kind? = some kind.kind →
      (n.natAbs ≤ 2 ^ 24 → ∀ u, convert defaults .float v field = .ok u →
        convert defaults kind.type u field = .ok v) ∧
      (n.natAbs ≤ 2 ^ 53 → ∀ u, convert defaults .double v field = .ok u →
        convert defaults kind.type u field = .ok v) := by
  have hfloat := convert_float_of_integer? defaults field h
  have hdouble := convert_double_of_integer? defaults field h
  have hnearest : ∀ k : Int, (Binary.ofWideInt binary32 k).IsNearest k := fun k =>
    (Binary.isNearest_ofWideInt_iff (by decide) k).mpr (not_missesTie_binary32 _)
  have hnearest' : ∀ k : Int, (Binary.ofWideInt binary64 k).IsNearest k ↔
      ¬ MissesTie binary64 k.natAbs := Binary.isNearest_ofWideInt_iff (by decide)
  refine ⟨⟨_, hfloat, Binary.isNaN_ofWideInt _ n, rfl, hnearest n⟩,
    ⟨_, hdouble, Binary.isNaN_ofWideInt _ n, rfl, hnearest' n⟩, fun hmisses => hmisses.kind?_eq h,
    fun w m hw hle => ⟨fun x y hx hy => ?_, fun hn hm x y hx hy => ?_⟩,
    fun kind hkind => ⟨fun hn u hu => ?_, fun hn u hu => ?_⟩⟩
  · rw [hfloat] at hx
    rw [convert_float_of_integer? defaults field hw] at hy
    cases hx
    cases hy
    exact Binary.value_ofWideInt_le (hnearest n) (hnearest m) hle
  · rw [hdouble] at hx
    rw [convert_double_of_integer? defaults field hw] at hy
    cases hx
    cases hy
    exact Binary.value_ofWideInt_le ((hnearest' n).mpr hn) ((hnearest' m).mpr hm) hle
  · rw [hfloat] at hu
    cases hu
    exact convert_of_quantity? defaults field h hkind
      (congrArg some (Binary.quantity_ofWideInt (by decide) (by decide) hn))
  · rw [hdouble] at hu
    cases hu
    exact convert_of_quantity? defaults field h hkind
      (congrArg some (Binary.quantity_ofWideInt (by decide) (by decide) hn))

/-- A 64-bit integer of 54 bits lies halfway between two doubles, and becomes the even one. -/
theorem convert_integer_nearest_of_54_bits :
    (Value.long (-9007199254740993)).integer? = some (-9007199254740993) ∧
      convert .empty .double (.long (-9007199254740993)) "n" =
        .ok (.double (.ofBits 0xc340000000000000)) ∧
      (Binary.ofBits 0xc340000000000000 : Binary binary64).IsNearest (-9007199254740993 : Int) := by
  have hdouble : convert .empty .double (.long (-9007199254740993)) "n" =
      .ok (.double (.ofBits 0xc340000000000000)) := by
    rw [convert_double_of_integer? .empty "n" (n := -9007199254740993) rfl]
    exact congrArg (fun x => Except.ok (Value.double x)) (by decide +kernel)
  obtain ⟨-, ⟨x, hx, -, -, hnearest⟩, hmisses, -⟩ :=
    convert_integer_nearest .empty "n" (v := .long (-9007199254740993)) rfl
  rw [hdouble] at hx
  cases hx
  refine ⟨rfl, hdouble, hnearest.mpr fun h => ?_⟩
  exact absurd (hmisses h).1 (by decide)

/-- An integer of 130 bits just above the midpoint of two doubles becomes the smaller one, although an integer
below it becomes the larger one, which is the nearest to both. -/
theorem convert_above_midpoint :
    convert .empty .double (.bigInt (2 ^ 129 + 2 ^ 76 + 4)) "n" =
        .ok (.double (.ofBits 0x4800000000000000)) ∧
      ¬ (Binary.ofBits 0x4800000000000000 : Binary binary64).IsNearest (2 ^ 129 + 2 ^ 76 + 4 : Int) ∧
      (Binary.ofBits 0x4800000000000001 : Binary binary64).IsNearest (2 ^ 129 + 2 ^ 76 + 4 : Int) ∧
      convert .empty .double (.bigInt (2 ^ 129 + 2 ^ 76 + 1)) "n" =
        .ok (.double (.ofBits 0x4800000000000001)) := by
  have hround : ∀ {n : Int} {x : Binary binary64}, Binary.ofWideInt binary64 n = x →
      convert .empty .double (.bigInt n) "n" = .ok (.double x) := by
    rintro n x rfl
    exact convert_double_of_integer? .empty "n" rfl
  have hcode : ∀ x : Binary binary64, x.negative = false →
      (x.IsNearest (2 ^ 129 + 2 ^ 76 + 4 : Int) ↔
        x.code = binary64.nearestCode ((2 ^ 129 + 2 ^ 76 + 4) * binary64.one) 1) := by
    intro x hx
    have hsign : x.negative = decide (((2 ^ 129 + 2 ^ 76 + 4 : Int) : ℚ) < 0) :=
      hx.trans (decide_eq_false (by norm_num)).symm
    have habs : (2 ^ 129 + 2 ^ 76 + 4 : Int).natAbs = 2 ^ 129 + 2 ^ 76 + 4 := by decide
    rw [Binary.isNearest_iff_of_negative hsign, Rat.num_intCast, Rat.den_intCast, habs]
  refine ⟨hround (by decide +kernel), ?_, ?_, hround (by decide +kernel)⟩
  · rw [hcode _ (by decide)]
    decide +kernel
  · rw [hcode _ (by decide)]
    decide +kernel

end RecordCoercion

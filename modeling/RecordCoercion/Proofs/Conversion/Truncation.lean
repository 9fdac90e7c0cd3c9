import Mathlib.Data.Rat.Floor
import RecordCoercion.Proofs.Conversion.NumberKinds
import RecordCoercion.Proofs.Conversion.Scalars
import RecordCoercion.Proofs.Numeric.NearestNumber

/-!
# Floating-point numbers as integers

A floating-point number that becomes an integer is the rational that it stands for, without its fraction
(`towardZero`). The bounded kinds clamp this to their range, and infinities and "not a number" have a place
there too (`Quantity.cut`); the unbounded kind takes it whatever its size, and nothing that is not finite.
Single precision goes by way of double precision, which stands for the same
(`Binary.quantity_convert`).
-/

set_option autoImplicit false

namespace RecordCoercion

/-- The integer of a rational without its fraction. -/
def towardZero (q : ℚ) : Int := if q < 0 then ⌈q⌉ else ⌊q⌋

/-- The fraction is dropped from the magnitude, and the sign is kept. -/
theorem towardZero_signed (negative : Bool) (num den : Nat) :
    towardZero (signed negative (num / den)) =
      if negative then -((num / den : Nat) : Int) else ((num / den : Nat) : Int) := by
  have hfloor : ⌊(num / den : ℚ)⌋ = ((num / den : Nat) : Int) := by
    rw [Rat.floor_natCast_div_natCast]
    rfl
  have hratio : (0 : ℚ) ≤ num / den := div_nonneg num.cast_nonneg den.cast_nonneg
  rw [← hfloor]
  cases negative with
  | false => rw [signed_false, towardZero, if_neg (not_lt.mpr hratio), if_neg Bool.false_ne_true]
  | true =>
    rw [signed_true, towardZero, if_pos rfl]
    rcases hratio.eq_or_lt with hzero | hpos
    · rw [← hzero, neg_zero, if_neg (lt_irrefl _), Int.floor_zero, neg_zero]
    · rw [if_pos (neg_lt_zero.mpr hpos), Int.ceil_neg]

/-- What a floating-point number stands for. -/
inductive Quantity
  | exact (q : ℚ)
  | infinite (negative : Bool)
  | undefined

namespace Quantity

/-- The integer of a range for a quantity. -/
def cut (range : IntRange) : Quantity → Int
  | exact q => range.clamp (towardZero q)
  | infinite negative => if negative then range.lo else range.hi
  | undefined => 0

/-- The integer for a quantity that has one in unbounded width. -/
def integer? : Quantity → Option Int
  | exact q => some (towardZero q)
  | infinite _ | undefined => none

/-- Ranges around zero contain the integers for all quantities. -/
theorem cut_mem (d : Quantity) (range : IntRange) (hlo : range.lo ≤ 0) (hhi : 0 ≤ range.hi) :
    range.lo ≤ d.cut range ∧ d.cut range ≤ range.hi := by
  cases d with
  | exact q =>
    simp only [cut, IntRange.clamp]
    omega
  | infinite negative => cases negative <;> simp only [cut] <;> omega
  | undefined => exact ⟨hlo, hhi⟩

end Quantity

namespace Binary

variable {f g : BinaryFormat}

/-- What a number stands for. -/
def quantity (x : Binary f) : Quantity :=
  if x.isNaN then .undefined else if x.isInfinite then .infinite x.negative else .exact x.value

/-- A finite number stands for its value. -/
theorem quantity_of_isFinite {x : Binary f} (hx : x.isFinite = true) : x.quantity = .exact x.value := by
  rw [quantity, isNaN_of_isFinite hx, isInfinite_of_isFinite hx]
  rfl

/-- An infinity stands for the infinite quantity of its sign. -/
@[simp] theorem quantity_infinity (negative : Bool) :
    (infinity negative : Binary f).quantity = .infinite negative := by
  simp [quantity, infinity, isNaN, isInfinite]

/-- "Not a number" stands for no quantity. -/
theorem quantity_of_isNaN {x : Binary f} (hx : x.isNaN = true) : x.quantity = .undefined :=
  if_pos hx

/-- A number is finite, an infinity, or "not a number". -/
theorem finite_or_infinite_or_nan (x : Binary f) :
    x.isFinite = true ∨ x = infinity x.negative ∨ x.isNaN = true := by
  by_cases hnan : x.isNaN = true
  · exact .inr (.inr hnan)
  by_cases hfinite : x.isFinite = true
  · exact .inl hfinite
  · exact .inr (.inl (eq_infinity (Bool.eq_false_iff.mpr hnan) (Bool.eq_false_iff.mpr hfinite)))

/-- The integer part of a number is that of what it stands for. -/
theorem truncate?_eq (x : Binary f) : x.truncate? = x.quantity.integer? := by
  rcases x.finite_or_infinite_or_nan with hx | hx | hx
  · rw [quantity_of_isFinite hx, truncate?, if_pos hx, Quantity.integer?, value, towardZero_signed]
    rfl
  · rw [hx, quantity_infinity]
    simp [truncate?, isFinite, infinity, Quantity.integer?]
  · rw [quantity_of_isNaN hx, truncate?, if_neg, Quantity.integer?]
    intro hfinite
    rw [isNaN_of_isFinite hfinite] at hx
    cases hx

/-- A number is cut to a range as what it stands for is. -/
theorem saturate_eq (range : IntRange) (x : Binary f) : x.saturate range = x.quantity.cut range := by
  rcases x.finite_or_infinite_or_nan with hx | hx | hx
  · rw [saturate, isNaN_of_isFinite hx, truncate?_eq, quantity_of_isFinite hx]
    rfl
  · rw [hx, saturate, truncate?_eq, quantity_infinity, if_neg (by simp [isNaN, infinity])]
    rfl
  · rw [quantity_of_isNaN hx, saturate, if_pos hx]
    rfl

/-- A number of a wider format stands for the same. -/
theorem quantity_convert (h : f.Le g) (x : Binary f) : (x.convert g).quantity = x.quantity := by
  rcases x.finite_or_infinite_or_nan with hx | hx | hx
  · obtain ⟨hwide, hnegative, hunits⟩ := convert_spec h hx
    have hpow : ((2 ^ (g.scale - f.scale) : Nat) : ℚ) ≠ 0 := by positivity
    rw [quantity_of_isFinite hx, quantity_of_isFinite hwide, value, value, hnegative, hunits, h.one_eq,
      Nat.cast_mul, Nat.cast_mul, mul_comm (x.units : ℚ), mul_div_mul_left _ _ hpow]
  · rw [hx, convert_infinity, quantity_infinity, quantity_infinity]
  · rw [quantity_of_isNaN hx, convert, if_pos hx, quantity_of_isNaN (isNaN_nan _)]

end Binary

namespace Value

/-- What a value stands for that is a floating-point number. -/
def quantity? : Value → Option Quantity
  | float x => some x.quantity
  | double x => some x.quantity
  | _ => none

/-- A value that stands for a quantity is a number read as a double. -/
theorem exists_floating {v : Value} {d : Quantity} (h : v.quantity? = some d) :
    ∃ x : Binary binary64, Number.ofValue? v = some (.floating x) ∧ x.quantity = d := by
  cases v <;> cases h
  case float x => exact ⟨_, rfl, Binary.quantity_convert BinaryFormat.binary32_le_binary64 x⟩
  case double x => exact ⟨x, rfl, rfl⟩

end Value

namespace NumericKind

/-- The range of the integers of a kind, where they are bounded. -/
def range? : NumericKind → Option IntRange
  | byte => some .bits8
  | short => some .bits16
  | int => some .bits32
  | long => some .bits64
  | bigInt | float | double => none

/-- A floating-point number becomes the integer of a bounded kind for what it stands for. -/
theorem ofNumber?_floating {kind : NumericKind} {range : IntRange} (h : kind.range? = some range)
    (x : Binary binary64) :
    ∃ w, kind.ofNumber? (.floating x) = some w ∧ w.kind? = some kind.kind ∧
      w.integer? = some (x.quantity.cut range) := by
  have hmem := x.quantity.cut_mem range
  cases kind <;> cases h <;> refine ⟨_, rfl, rfl, congrArg some ?_⟩ <;>
    obtain ⟨hlo, hhi⟩ := hmem (by decide) (by decide) <;> rw [← Binary.saturate_eq] at hlo hhi ⊢
  case byte => exact Int8.toInt_ofInt_of_le hlo (Int.lt_add_one_of_le hhi)
  case short => exact Int16.toInt_ofInt_of_le hlo (Int.lt_add_one_of_le hhi)
  case int => exact Int32.toInt_ofInt_of_le hlo (Int.lt_add_one_of_le hhi)
  case long => exact Int64.toInt_ofInt_of_le hlo (Int.lt_add_one_of_le hhi)

/-- A value that is a floating-point number is narrowed to every other kind. -/
theorem convert_floating {v : Value} {x : Binary binary64} {kind : NumericKind}
    (h : Number.ofValue? v = some (.floating x)) (hkind : v.kind? ≠ some kind.kind) :
    kind.convert v = match kind.ofNumber? (.floating x) with
      | some w => .ok w
      | none => .error .nonFinite := by
  unfold NumericKind.convert
  rw [if_neg hkind]
  cases v <;> cases h <;> rfl

/-- The unbounded kind accepts and takes what has an integer in unbounded width. -/
theorem bigInt_floating {v : Value} {x : Binary binary64}
    (h : Number.ofValue? v = some (.floating x)) (hkind : v.kind? ≠ some bigInt.kind) :
    bigInt.accepts v = x.quantity.integer?.isSome ∧
      bigInt.convert v = match x.quantity.integer? with
        | some n => .ok (.bigInt n)
        | none => .error .nonFinite := by
  rw [← Binary.truncate?_eq]
  constructor
  · rw [Binary.isSome_truncate?]
    cases v <;> cases h <;> rfl
  · rw [convert_floating h hkind, ofNumber?]
    cases x.truncate? <;> rfl

end NumericKind

/-- A floating-point number becomes the instant of its integer part, clamped to 64 bits. -/
theorem TemporalKind.convert_floating {v : Value} {x : Binary binary64} (kind : TemporalKind)
    (h : Number.ofValue? v = some (.floating x)) (format : Option TemporalFormat) :
    kind.convert format v = .ok (kind.value ⟨.ofInt (x.saturate .bits64)⟩) := by
  cases v <;> cases h <;> rfl

namespace Value

variable {v : Value} {d : Quantity} (h : v.quantity? = some d)

include h

/-- A floating-point number is not null. -/
theorem ne_null_of_quantity? : v ≠ .null := by
  rintro rfl
  cases h

/-- A floating-point number is of none of the other kinds. -/
theorem kind?_ne_of_quantity? {kind : FieldKind} (hfloat : kind ≠ .float) (hdouble : kind ≠ .double) :
    v.kind? ≠ some kind := by
  cases v <;> cases h
  case float x => exact fun heq => hfloat (Option.some.inj heq).symm
  case double x => exact fun heq => hdouble (Option.some.inj heq).symm

end Value

section

variable (defaults : FormatDefaults) (field : String) {v : Value} {d : Quantity}
  (h : v.quantity? = some d)

include h

/-- A floating-point number becomes the integer of the range of a kind that it is cut to. -/
theorem convert_bounded {kind : NumericKind} {range : IntRange} (hrange : kind.range? = some range) :
    ∃ w, convert defaults kind.type v field = .ok w ∧ w.kind? = some kind.kind ∧
      w.integer? = some (d.cut range) := by
  obtain ⟨x, hx, rfl⟩ := Value.exists_floating h
  obtain ⟨w, hw, hkind, hinteger⟩ := NumericKind.ofNumber?_floating hrange x
  have hne : v.kind? ≠ some kind.kind := by
    refine Value.kind?_ne_of_quantity? h ?_ ?_ <;> cases kind <;> cases hrange <;> decide
  refine ⟨w, ?_, hkind, hinteger⟩
  rw [convert_numeric defaults (Value.ne_null_of_quantity? h), NumericKind.convert_floating hx hne, hw]
  rfl

/-- A floating-point number becomes the instant of the milliseconds that it is cut to. -/
theorem convert_instant (kind : TemporalKind) (format : Option TemporalFormat) :
    ∃ r : Int64, convert defaults (kind.type format) v field = .ok (kind.value ⟨r⟩) ∧
      r.toInt = d.cut .bits64 := by
  obtain ⟨x, hx, rfl⟩ := Value.exists_floating h
  refine ⟨.ofInt (x.saturate .bits64), ?_, ?_⟩
  · rw [convert_temporal defaults (Value.ne_null_of_quantity? h), kind.convert_floating hx]
    rfl
  · rw [Binary.saturate_eq]
    obtain ⟨hlo, hhi⟩ := x.quantity.cut_mem .bits64 (by decide) (by decide)
    exact Int64.toInt_ofInt_of_le hlo (Int.lt_add_one_of_le hhi)

/-- An unbounded integer is made of the floating-point numbers that have an integer part, and is this
integer. -/
theorem convert_unbounded :
    accepts defaults .bigInt v = d.integer?.isSome ∧
      convert defaults .bigInt v field = match d.integer? with
        | some n => .ok (.bigInt n)
        | none => .error (.failed ⟨v, .bigInt, field, .nonFinite⟩) := by
  obtain ⟨x, hx, rfl⟩ := Value.exists_floating h
  have hnull := Value.ne_null_of_quantity? h
  obtain ⟨haccepts, hconvert⟩ :=
    NumericKind.bigInt_floating hx (Value.kind?_ne_of_quantity? h (by decide) (by decide))
  have hbig := convert_numeric defaults hnull .bigInt field
  rw [hconvert] at hbig
  refine ⟨(accepts_numeric defaults hnull .bigInt).trans haccepts, hbig.trans ?_⟩
  cases x.quantity.integer? <;> rfl

end

/-- A floating-point number becomes an integer without its fraction. A bounded kind takes this clamped to
its range, where infinities are at the ends and "not a number" is zero, and so does a point in time with the
range of 64 bits. The unbounded kind takes it whatever its size, and refuses what is not finite. -/
theorem convert_floating_cut (defaults : FormatDefaults) (field : String) {v : Value} {d : Quantity}
    (h : v.quantity? = some d) :
    (∀ (kind : NumericKind) (range : IntRange), kind.range? = some range →
      ∃ w, convert defaults kind.type v field = .ok w ∧ w.kind? = some kind.kind ∧
        w.integer? = some (d.cut range)) ∧
    (∀ (kind : TemporalKind) (format : Option TemporalFormat),
      ∃ r : Int64, convert defaults (kind.type format) v field = .ok (kind.value ⟨r⟩) ∧
        r.toInt = d.cut .bits64) ∧
    (∀ q, d = .exact q → convert defaults .bigInt v field = .ok (.bigInt (towardZero q)) ∧
      accepts defaults .bigInt v = true) ∧
    ((∀ q, d ≠ .exact q) →
      convert defaults .bigInt v field = .error (.failed ⟨v, .bigInt, field, .nonFinite⟩) ∧
      accepts defaults .bigInt v = false) := by
  obtain ⟨haccepts, hbig⟩ := convert_unbounded defaults field h
  refine ⟨fun kind range hrange => convert_bounded defaults field h hrange,
    convert_instant defaults field h, fun q hq => ?_, fun hinfinite => ?_⟩
  · rw [hq] at hbig haccepts
    exact ⟨hbig, haccepts⟩
  · have hnone : d.integer? = none := by
      cases d with
      | exact q => exact absurd rfl (hinfinite q)
      | infinite negative => rfl
      | undefined => rfl
    rw [hnone] at hbig haccepts
    exact ⟨hbig, haccepts⟩

/-- In single precision, `-129.5` becomes the least byte, and `-129` in unbounded width. -/
theorem convert_floating_cut_below_bytes :
    (Value.float (.ofBits 0xc3018000)).quantity? = some (.exact (-259 / 2)) ∧
      NumericKind.byte.range? = some .bits8 ∧
      (∃ w, convert .empty .byte (.float (.ofBits 0xc3018000)) "n" = .ok w ∧ w.integer? = some (-128)) ∧
      convert .empty .bigInt (.float (.ofBits 0xc3018000)) "n" = .ok (.bigInt (-129)) := by
  have hquantity : (Value.float (.ofBits 0xc3018000)).quantity? = some (.exact (-259 / 2)) := by
    have hnegative : (Binary.ofBits 0xc3018000 : Binary binary32).negative = true := by decide
    have hunits : (Binary.ofBits 0xc3018000 : Binary binary32).units = 259 * 2 ^ 148 := by decide +kernel
    have hone : binary32.one = 2 * 2 ^ 148 := by decide +kernel
    rw [Value.quantity?, Binary.quantity_of_isFinite (by decide), Binary.value, hnegative, hunits, hone,
      signed_true]
    norm_num
  have hcut : towardZero (-259 / 2) = -129 := by
    rw [towardZero, if_pos (by norm_num), Int.ceil_eq_iff]
    norm_num
  obtain ⟨hbounded, -, hbig, -⟩ := convert_floating_cut .empty "n" hquantity
  obtain ⟨w, hw, -, hinteger⟩ := hbounded .byte .bits8 rfl
  rw [Quantity.cut, hcut] at hinteger
  refine ⟨hquantity, rfl, ⟨w, hw, hinteger⟩, ?_⟩
  rw [← hcut]
  exact (hbig _ rfl).1

end RecordCoercion

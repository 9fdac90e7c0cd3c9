import RecordCoercion.Proofs.Conversion.IntegerRounding
import RecordCoercion.Proofs.Conversion.TextRoundTrip

/-!
# Widening and coming back

The kinds of numbers and of points in time are ordered by how much they hold (`Widens`). A conversion to the
next kind keeps what a value stands for (`convert_widens`), and so does one along any path of such
conversions (`convertAlong_spec`). From the end of the path the first value comes back, bits included,
unless a point in time is to become an integer of less than 64 bits or of unbounded width, for which there is
no conversion (`convert_widened_back`).
-/

set_option autoImplicit false

namespace RecordCoercion

/-- Every value of the one type has a place in the other. The formats of points in time do not matter. -/
inductive Widens : DeclaredType → DeclaredType → Prop
  | byteShort : Widens .byte .short
  | shortInt : Widens .short .int
  | intLong : Widens .int .long
  | longBigInt : Widens .long .bigInt
  | shortFloat : Widens .short .float
  | floatDouble : Widens .float .double
  | intDouble : Widens .int .double
  | temporalLong (kind : TemporalKind) (format : Option TemporalFormat) :
      Widens (kind.type format) .long
  | longTemporal (kind : TemporalKind) (format : Option TemporalFormat) :
      Widens .long (kind.type format)
  | temporal (kind other : TemporalKind) (format format' : Option TemporalFormat) :
      Widens (kind.type format) (other.type format')

/-- A kind is converted back to another. Of the integers only those of 64 bits are made of points in
time. -/
def FieldKind.Returns (last first : FieldKind) : Prop :=
  last.isTemporal = true → first.isTemporal = true ∨ first = .long

/-- The conversion to one type after the other. -/
def convertAlong (defaults : FormatDefaults) (field : String) (path : List DeclaredType) (v : Value) :
    Conversion :=
  path.foldlM (fun v type => convert defaults type v field) v

namespace Value

/-- What a value stands for that is a number or a point in time, which stands for its milliseconds. -/
def amount? (v : Value) : Option Quantity :=
  match v.integer?, v.instant? with
  | some n, _ => some (.exact n)
  | none, some i => some (.exact i.epochMillis.toInt)
  | none, none => v.quantity?

variable {v : Value}

/-- An integer stands for itself. -/
theorem amount?_of_integer? {n : Int} (h : v.integer? = some n) : v.amount? = some (.exact n) := by
  rw [amount?, h]

/-- A point in time stands for its milliseconds. -/
theorem amount?_of_instant? {i : Instant} (h : v.instant? = some i) :
    v.amount? = some (.exact i.epochMillis.toInt) := by
  cases v <;> cases h <;> rfl

/-- An integer is held as an integer, as an instant or as a floating-point number. -/
theorem amount?_eq_exact {n : Int} (h : v.amount? = some (.exact n)) :
    v.integer? = some n ∨ (∃ i, v.instant? = some i ∧ i.epochMillis.toInt = n) ∨
      v.quantity? = some (.exact n) := by
  have hexact : ∀ {m : Int}, some (Quantity.exact m) = some (Quantity.exact n) → m = n := by
    intro m hm
    injection hm with hm
    injection hm with hm
    exact_mod_cast hm
  cases hinteger : v.integer? with
  | some m =>
    rw [amount?_of_integer? hinteger] at h
    exact .inl (congrArg some (hexact h))
  | none =>
    cases hinstant : v.instant? with
    | some i =>
      rw [amount?_of_instant? hinstant] at h
      exact .inr (.inl ⟨i, rfl, hexact h⟩)
    | none =>
      rw [amount?, hinteger, hinstant] at h
      exact .inr (.inr h)

/-- What stands for no amount is "not a number". -/
theorem isNaN_iff_amount? : v.isNaN = true ↔ v.amount? = some .undefined := by
  have hfloat : ∀ {f : BinaryFormat} (x : Binary f), x.isNaN = true ↔ x.quantity = .undefined := by
    intro f x
    rw [Binary.quantity]
    split
    · simp [*]
    · split <;> simp [*]
  cases v with
  | float x | double x => exact (hfloat x).trans (Option.some.injEq _ _).to_iff.symm
  | _ => simp [isNaN, amount?, integer?, instant?, quantity?]

/-- A value of a kind of points in time is an instant of this kind. -/
theorem exists_temporal {kind : TemporalKind} (h : v.kind? = some kind.kind) :
    ∃ i, v = kind.value i := by
  cases kind <;> cases v <;> cases h <;> exact ⟨_, rfl⟩

/-- A value with an instant is one of a kind of points in time. -/
theorem exists_temporal_of_instant? {i : Instant} (h : v.instant? = some i) :
    ∃ kind : TemporalKind, v = kind.value i := by
  cases v <;> cases h
  exacts [⟨.date, rfl⟩, ⟨.time, rfl⟩, ⟨.timestamp, rfl⟩]

end Value

/-- An instant as a value of a kind of points in time is still this instant. -/
@[simp] theorem TemporalKind.instant?_value (kind : TemporalKind) (i : Instant) :
    (kind.value i).instant? = some i := by
  cases kind <;> rfl

/-! ## Integers that are kept -/

section

variable {n : Int} {v : Value}

/-- An integer of a width is one of every larger width. -/
theorem IsCut.self_of_le {width width' : WithTop Nat} (h : IsCut width n n) (hle : width ≤ width') :
    IsCut width' n n := by
  cases width' with
  | top => exact .unbounded n
  | coe width' =>
    cases h with
    | unbounded => exact absurd hle (WithTop.not_top_le_coe _)
    | @bounded width _ _ hlo hhi _ =>
      have hpow : (2 : Int) ^ (width - 1) ≤ 2 ^ (width' - 1) :=
        pow_le_pow_right₀ (by decide) (Nat.sub_le_sub_right (WithTop.coe_le_coe.mp hle) 1)
      exact .bounded (by omega) (by omega) rfl

/-- The integer of a value has the width of its kind. -/
theorem NumericKind.isCut_self {kind : NumericKind} {width : WithTop Nat} (hwidth : kind.width? = some width)
    (hkind : v.kind? = some kind.kind) (h : v.integer? = some n) : IsCut width n n := by
  cases kind <;> cases hwidth <;> cases v <;> cases hkind <;> cases h
  case byte m => exact .bounded m.le_toInt m.toInt_lt rfl
  case short m => exact .bounded m.le_toInt m.toInt_lt rfl
  case int m => exact .bounded m.le_toInt m.toInt_lt rfl
  case long m => exact .bounded m.le_toInt m.toInt_lt rfl
  case bigInt => exact .unbounded _

variable (defaults : FormatDefaults) (field : String)

/-- An integer is kept by a kind that is wide enough for it. -/
theorem convert_of_isCut_self {kind : NumericKind} {width : WithTop Nat}
    (hwidth : kind.width? = some width) (h : v.integer? = some n) (hself : IsCut width n n) :
    ∃ w, convert defaults kind.type v field = .ok w ∧ w.kind? = some kind.kind ∧
      w.integer? = some n := by
  obtain ⟨w, r, hw, hkind, hr, hcut⟩ := convert_isCut defaults field h hwidth
  rw [hcut.unique (NumericKind.width?_pos hwidth) hself]
  exact ⟨w, hw, hkind, hr⟩

/-- An integer is kept by every kind that is not narrower than its own. -/
theorem convert_integer_widened (kind kind' : NumericKind) {width width' : WithTop Nat}
    (hkind : v.kind? = some kind.kind) (hwidth : kind.width? = some width)
    (hwidth' : kind'.width? = some width') (hle : width ≤ width') (h : v.integer? = some n) :
    ∃ w, convert defaults kind'.type v field = .ok w ∧ w.kind? = some kind'.kind ∧
      w.amount? = v.amount? := by
  have hself := (NumericKind.isCut_self hwidth hkind h).self_of_le hle
  obtain ⟨w, hw, hkind', hinteger⟩ := convert_of_isCut_self defaults field hwidth' h hself
  exact ⟨w, hw, hkind',
    (Value.amount?_of_integer? hinteger).trans (Value.amount?_of_integer? h).symm⟩

/-! ## One step and a path -/

/-- A point in time becomes one of another kind at the same instant. -/
theorem convert_temporal_value (kind other : TemporalKind) (format : Option TemporalFormat)
    (i : Instant) :
    convert defaults (other.type format) (kind.value i) field = .ok (other.value i) := by
  rw [convert_temporal defaults (Value.ne_null_of_kind? (kind.kind?_value i))]
  cases kind <;> rfl

/-- A point in time becomes its milliseconds as a long integer. -/
theorem convert_temporal_long (kind : TemporalKind) (i : Instant) :
    convert defaults .long (kind.value i) field = .ok (.long i.epochMillis) := by
  cases kind <;> rfl

/-- A conversion to the next kind keeps what a value stands for. -/
theorem convert_widens {type type' : DeclaredType} (h : Widens type type')
    (hkind : v.kind? = some type.kind) :
    ∃ w, convert defaults type' v field = .ok w ∧ w.kind? = some type'.kind ∧
      w.amount? = v.amount? := by
  cases h with
  | byteShort =>
    cases v <;> cases hkind
    exact convert_integer_widened defaults field .byte .short rfl rfl rfl
      (by decide) rfl
  | shortInt =>
    cases v <;> cases hkind
    exact convert_integer_widened defaults field .short .int rfl rfl rfl
      (by decide) rfl
  | intLong =>
    cases v <;> cases hkind
    exact convert_integer_widened defaults field .int .long rfl rfl rfl
      (by decide) rfl
  | longBigInt =>
    cases v <;> cases hkind
    exact convert_integer_widened defaults field .long .bigInt rfl rfl rfl
      le_top rfl
  | shortFloat =>
    cases v <;> cases hkind
    next m =>
      have hlo := m.le_toInt
      have hhi := m.toInt_lt
      refine ⟨_, convert_float_of_integer? defaults field rfl, rfl, congrArg some ?_⟩
      exact Binary.quantity_ofWideInt (by decide) (by decide) (by simp only [binary32]; omega)
  | intDouble =>
    cases v <;> cases hkind
    next m =>
      have hlo := m.le_toInt
      have hhi := m.toInt_lt
      refine ⟨_, convert_double_of_integer? defaults field rfl, rfl, congrArg some ?_⟩
      exact Binary.quantity_ofWideInt (by decide) (by decide) (by simp only [binary64]; omega)
  | floatDouble =>
    cases v <;> cases hkind
    next x =>
      exact ⟨.double (x.convert binary64), rfl, rfl,
        congrArg some (Binary.quantity_convert BinaryFormat.binary32_le_binary64 x)⟩
  | temporalLong kind format =>
    rw [kind.kind_type] at hkind
    obtain ⟨i, rfl⟩ := Value.exists_temporal hkind
    exact ⟨_, convert_temporal_long defaults field kind i, rfl,
      (Value.amount?_of_instant? (kind.instant?_value i)).symm⟩
  | longTemporal kind format =>
    cases v <;> cases hkind
    next n =>
      refine ⟨kind.value ⟨n⟩, ?_, by simp, Value.amount?_of_instant? (kind.instant?_value ⟨n⟩)⟩
      rw [convert_temporal defaults (by simp)]
      rfl
  | temporal kind other format format' =>
    rw [kind.kind_type] at hkind
    obtain ⟨i, rfl⟩ := Value.exists_temporal hkind
    refine ⟨_, convert_temporal_value defaults field kind other format' i, by simp, ?_⟩
    rw [Value.amount?_of_instant? (other.instant?_value i),
      Value.amount?_of_instant? (kind.instant?_value i)]

/-- So does a conversion along a path. -/
theorem convertAlong_spec {type : DeclaredType} {path : List DeclaredType}
    (hpath : (type :: path).IsChain Widens) (hkind : v.kind? = some type.kind) :
    ∃ w, convertAlong defaults field path v = .ok w ∧ w.kind? = some (path.getLastD type).kind ∧
      w.amount? = v.amount? := by
  induction path generalizing type v with
  | nil => exact ⟨v, rfl, hkind, rfl⟩
  | cons next path ih =>
    rw [List.isChain_cons_cons] at hpath
    obtain ⟨u, hu, hukind, huamount⟩ := convert_widens defaults field hpath.1 hkind
    obtain ⟨w, hw, hwkind, hwamount⟩ := ih hpath.2 hukind
    refine ⟨w, ?_, by rwa [List.getLastD_cons], hwamount.trans huamount⟩
    rw [convertAlong, List.foldlM_cons, hu]
    exact hw

/-! ## Coming back -/

/-- A floating-point number comes back from double precision. -/
theorem convert_float_of_double {x : Binary binary32} :
    ∃ u, convert defaults .float (.double (x.convert binary64)) field = .ok u ∧
      (Value.float x).ComesBackAs u := by
  refine ⟨.float ((x.convert binary64).convert binary32), rfl, ?_⟩
  by_cases hnan : x.isNaN = true
  · have hwide : x.convert binary64 = .nan x.negative := if_pos hnan
    have hback : (.nan x.negative : Binary binary64).convert binary32 = .nan x.negative :=
      if_pos (Binary.isNaN_nan _)
    rw [hwide, hback]
    exact Value.comesBackAs_nan hnan (Binary.isNaN_nan _) rfl
  · rw [Binary.convert_convert BinaryFormat.binary32_le_binary64 (Bool.eq_false_iff.mpr hnan)]
    exact Value.comesBackAs_self (Bool.eq_false_iff.mpr hnan)

/-- An integer comes back from every value that stands for it, unless this is a point in time and the integer
is not one of 64 bits. -/
theorem convert_integer_back {kind : NumericKind} (hkind : v.kind? = some kind.kind)
    (h : v.integer? = some n) {w : Value} (hw : w.amount? = some (.exact n)) :
    convert defaults kind.type w field =
      if w.instant?.isSome ∧ kind ≠ .long then
        .error (.failed ⟨w, kind.kind, field, .incompatible⟩)
      else .ok v := by
  obtain ⟨width, hwidth⟩ : ∃ width, kind.width? = some width := by
    cases kind <;> cases v <;> cases hkind <;> cases h <;> exact ⟨_, rfl⟩
  obtain hinteger | ⟨i, hi, rfl⟩ | hquantity := Value.amount?_eq_exact hw
  · have hself := NumericKind.isCut_self hwidth hkind h
    obtain ⟨u, hu, hukind, huinteger⟩ := convert_of_isCut_self defaults field hwidth hinteger hself
    have hsame := (Value.holds_of_integer? huinteger).eq_of_kind? (Value.holds_of_integer? h)
      (hukind.trans hkind.symm)
    have hnone : w.instant? = none := by
      cases w <;> first | rfl | cases hinteger
    rw [hu, hsame, if_neg (by simp [hnone])]
  · obtain ⟨other, rfl⟩ := Value.exists_temporal_of_instant? hi
    by_cases hlong : kind = .long
    · subst hlong
      cases v <;> cases hkind
      next m =>
        rw [if_neg (by simp), NumericKind.type, convert_temporal_long]
        rw [Int64.toInt_inj.mp (Option.some.inj h)]
    · rw [if_pos ⟨by simp, hlong⟩,
        convert_numeric defaults (Value.ne_null_of_kind? (other.kind?_value i))]
      cases other <;> cases kind <;> first | rfl | exact absurd rfl hlong
  · have hnone : w.instant? = none := by
      cases w <;> first | rfl | cases hquantity
    rw [convert_of_quantity? defaults field h hkind hquantity, if_neg (by simp [hnone])]

/-- An instant comes back from every value that stands for its milliseconds. -/
theorem convert_instant_back (kind : TemporalKind) (format : Option TemporalFormat) {i : Instant}
    {w : Value} (hw : w.amount? = some (.exact i.epochMillis.toInt)) :
    convert defaults (kind.type format) w field = .ok (kind.value i) := by
  obtain hinteger | ⟨j, hj, hmillis⟩ | hquantity := Value.amount?_eq_exact hw
  · have hholds := Value.holds_of_integer? hinteger
    rw [convert_temporal defaults hholds.ne_null, hholds.convert_temporal, Number.toInt64, Number.cast,
      lowBits_eq, Int64.ofInt_toInt]
    rfl
  · obtain ⟨other, rfl⟩ := Value.exists_temporal_of_instant? hj
    have hsame : j = i := congrArg Instant.mk (Int64.toInt_inj.mp hmillis)
    rw [convert_temporal_value, hsame]
  · obtain ⟨r, hr, hcut⟩ := convert_instant defaults field hquantity kind format
    have hrange : IntRange.bits64.contains i.epochMillis.toInt = true :=
      (IntRange.contains_iff _ _).mpr
        ⟨i.epochMillis.le_toInt, Int.le_of_lt_add_one i.epochMillis.toInt_lt⟩
    rw [Quantity.cut, towardZero_intCast, IntRange.clamp_of_contains hrange] at hcut
    rw [hr, Int64.toInt_inj.mp hcut]

/-- Single precision widens to double precision only. -/
theorem Widens.eq_double {type : DeclaredType} (h : Widens .float type) : type = .double := by
  generalize hfloat : DeclaredType.float = single at h
  cases h with
  | floatDouble => rfl
  | temporalLong kind _ | temporal kind _ _ _ => cases kind <;> cases hfloat
  | _ => cases hfloat

/-- What widens is single precision, an integer or a point in time. -/
theorem Widens.cases_left {type type' : DeclaredType} (h : Widens type type') :
    type = .float ∨ (∃ kind : NumericKind, kind.width?.isSome ∧ type = kind.type) ∨
      ∃ (kind : TemporalKind) (format : Option TemporalFormat), type = kind.type format := by
  cases h with
  | floatDouble => exact .inl rfl
  | byteShort => exact .inr (.inl ⟨.byte, rfl, rfl⟩)
  | shortInt | shortFloat => exact .inr (.inl ⟨.short, rfl, rfl⟩)
  | intLong | intDouble => exact .inr (.inl ⟨.int, rfl, rfl⟩)
  | longBigInt | longTemporal => exact .inr (.inl ⟨.long, rfl, rfl⟩)
  | temporalLong kind format | temporal kind _ format _ => exact .inr (.inr ⟨kind, format, rfl⟩)

/-- The doubles have a place in no other type. -/
theorem not_widens_double (type : DeclaredType) : ¬ Widens .double type := by
  intro h
  obtain h | ⟨kind, hwidth, htype⟩ | ⟨kind, format, htype⟩ := h.cases_left
  · cases h
  · cases kind <;> cases htype
    cases hwidth
  · cases kind <;> cases htype

/-- A path from single precision goes to double precision, and ends there. -/
theorem path_of_float {path : List DeclaredType} (hpath : (.float :: path).IsChain Widens)
    (hne : path ≠ []) : path = [.double] := by
  obtain ⟨next, rest, rfl⟩ := List.exists_cons_of_ne_nil hne
  rw [List.isChain_cons_cons] at hpath
  obtain rfl := hpath.1.eq_double
  cases rest with
  | nil => rfl
  | cons last rest => exact absurd (List.isChain_cons_cons.mp hpath.2).1 (not_widens_double last)

/-- Only what is a point in time may have no way back. -/
theorem returns_iff {w : Value} {last : FieldKind} (hlast : w.kind? = some last) (kind : NumericKind) :
    last.Returns kind.kind ↔ ¬ (w.instant?.isSome ∧ kind ≠ .long) := by
  have htemporal : w.instant?.isSome = last.isTemporal := by
    cases w <;> cases hlast <;> rfl
  rw [htemporal, FieldKind.Returns, kind.isComposite_kind.2, not_and, not_ne_iff]
  refine imp_congr_right fun _ => ?_
  cases kind <;> simp [NumericKind.kind]

end

/-- A value that is converted along a path of widenings becomes a value of each kind on the way, and the
value at the end becomes the first one again, bits included; "not a number" stays "not a number". Only from a
point in time there is no conversion to the integers that have not 64 bits. -/
theorem convert_widened_back (defaults : FormatDefaults) (field : String) {type : DeclaredType}
    {path : List DeclaredType} {v : Value} (hkind : v.kind? = some type.kind)
    (hpath : (type :: path).IsChain Widens) (hne : path ≠ []) :
    ∃ w, convertAlong defaults field path v = .ok w ∧ w.kind? = some (path.getLastD type).kind ∧
      w.isNaN = v.isNaN ∧
      ((path.getLastD type).kind.Returns type.kind →
        ∃ u, convert defaults type w field = .ok u ∧ v.ComesBackAs u) ∧
      (¬ (path.getLastD type).kind.Returns type.kind →
        convert defaults type w field = .error (.failed ⟨w, type.kind, field, .incompatible⟩)) := by
  obtain ⟨w, hw, hlast, hamount⟩ := convertAlong_spec defaults field hpath hkind
  have hnan : w.isNaN = v.isNaN := by
    rw [Bool.eq_iff_iff, Value.isNaN_iff_amount?, Value.isNaN_iff_amount?, hamount]
  refine ⟨w, hw, hlast, hnan, ?_⟩
  obtain ⟨next, rest, rfl⟩ := List.exists_cons_of_ne_nil hne
  have hfirst := (List.isChain_cons_cons.mp hpath).1
  obtain rfl | ⟨kind, hwidth, rfl⟩ | ⟨kind, format, rfl⟩ := hfirst.cases_left
  · rw [path_of_float hpath hne] at hw ⊢
    obtain ⟨x, rfl⟩ : ∃ x, v = .float x := by
      cases v <;> cases hkind
      exact ⟨_, rfl⟩
    obtain rfl : Value.double (x.convert binary64) = w := Except.ok.inj hw
    refine ⟨fun _ => convert_float_of_double defaults field, fun hno => absurd ?_ hno⟩
    rintro ⟨⟩
  · rw [kind.kind_type] at hkind ⊢
    obtain ⟨n, hn⟩ : ∃ n, v.integer? = some n := by
      cases kind <;> cases v <;> cases hkind <;> first | exact ⟨_, rfl⟩ | cases hwidth
    have hself : v.ComesBackAs v := Value.comesBackAs_self (by cases v <;> first | rfl | cases hn)
    rw [returns_iff hlast, not_not,
      convert_integer_back defaults field hkind hn (hamount.trans (Value.amount?_of_integer? hn))]
    exact ⟨fun hreturns => ⟨v, if_neg hreturns, hself⟩, fun hno => if_pos hno⟩
  · rw [kind.kind_type] at hkind ⊢
    obtain ⟨i, rfl⟩ := Value.exists_temporal hkind
    have hself : (kind.value i).ComesBackAs (kind.value i) :=
      Value.comesBackAs_self (by cases kind <;> rfl)
    have hmillis := hamount.trans (Value.amount?_of_instant? (kind.instant?_value i))
    refine ⟨fun _ => ⟨_, convert_instant_back defaults field kind format hmillis, hself⟩,
      fun hno => absurd (fun _ => .inl kind.isComposite_kind.2) hno⟩

/-- A negative byte comes back from an integer of unbounded width, also by way of points in time. -/
theorem convert_widened_back_by_way_of_dates :
    (Value.byte (-5)).kind? = some .byte ∧
      [DeclaredType.byte, .short, .int, .long, .date none, .timestamp none, .long, .bigInt].IsChain Widens ∧
      convertAlong .empty "n" [.short, .int, .long, .date none, .timestamp none, .long, .bigInt]
        (.byte (-5)) = .ok (.bigInt (-5)) ∧
      convert .empty .byte (.bigInt (-5)) "n" = .ok (.byte (-5)) := by
  have hpath : [DeclaredType.byte, .short, .int, .long, .date none, .timestamp none, .long,
      .bigInt].IsChain Widens := by
    simp only [List.isChain_cons_cons]
    exact ⟨.byteShort, .shortInt, .intLong, .longTemporal .date none, .temporal .date .timestamp none none,
      .temporalLong .timestamp none, .longBigInt, .singleton _⟩
  have hend : convertAlong .empty "n" [.short, .int, .long, .date none, .timestamp none, .long, .bigInt]
      (.byte (-5)) = .ok (.bigInt (-5)) := by rfl
  obtain ⟨w, hw, -, -, hback, -⟩ := convert_widened_back .empty "n" (v := .byte (-5)) rfl hpath (by simp)
  rw [hend] at hw
  cases hw
  obtain ⟨u, hu, hsame⟩ := hback (by rintro ⟨⟩)
  cases hsame
  exact ⟨rfl, hpath, hend, hu⟩

end RecordCoercion

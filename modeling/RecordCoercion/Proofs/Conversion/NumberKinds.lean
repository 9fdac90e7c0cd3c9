import RecordCoercion.Proofs.Conversion.Leaves
import RecordCoercion.Proofs.Numeric.Widening

/-!
# The kind of a number does not matter

Values of different kinds may hold the same number: an integer in any kind that is wide enough for it, or
a single-precision number and what it is widened to. `Value.Holds` relates a value to its number, 64-bit
integers being taken as integers of any width. All that a conversion reads of a number is what it holds:
the low 64 bits are those of a 64-bit integer (`lowBits_eq`), both ways of rounding agree on such, and a
value of the kind that is converted to is what its own number is narrowed to. So two values that hold one
number are accepted alike and convert alike (`convert_same_number`), except that the two floating-point
kinds are not written with the same digits.
-/

set_option autoImplicit false

namespace RecordCoercion

/-! ## Numbers of one value -/

/-- The low 64 bits are the integer modulo `2 ^ 64`. -/
theorem lowBits_eq (n : Int) : lowBits n = Int64.ofInt n := by
  have hofNat : ∀ k : Nat, (UInt64.ofNat k).toInt64.toBitVec = BitVec.ofInt 64 k := by
    intro k
    rw [BitVec.ofInt_natCast]
    rfl
  have hneg : ∀ k : Nat, (-UInt64.ofNat k).toInt64.toBitVec = -BitVec.ofInt 64 k := by
    intro k
    rw [← hofNat]
    rfl
  apply Int64.toBitVec_inj.mp
  by_cases hsign : n < 0
  · obtain ⟨k, rfl⟩ : ∃ k : Nat, n = -(k : Int) := ⟨n.natAbs, by omega⟩
    simp only [lowBits, if_pos hsign, Int.natAbs_neg, Int.natAbs_natCast, hneg]
    simp
  · obtain ⟨k, rfl⟩ : ∃ k : Nat, n = (k : Int) := ⟨n.natAbs, by omega⟩
    simp only [lowBits, if_neg hsign, Int.natAbs_natCast, hofNat]
    simp

namespace Number

/-- The number with a 64-bit integer taken as an integer of any width. -/
def widened : Number → Number
  | .integral n => .big n.toInt
  | number => number

/-- An integer of any width is cut to 64 bits, where one that has them already is not changed. -/
theorem cast_widened {α : Type} (cut : Int64 → α) (ofFloating : Binary binary64 → α)
    (number : Number) : number.widened.cast cut ofFloating = number.cast cut ofFloating := by
  cases number with
  | integral n => rw [widened, cast, cast, lowBits_eq, Int64.ofInt_toInt]
  | big n => rfl
  | floating x => rfl

/-- The 64-bit integer for a number does not depend on the width that it is held in. -/
theorem toInt64_widened (number : Number) : number.widened.toInt64 = number.toInt64 :=
  number.cast_widened _ _

/-- Whether a number is finite does not depend on the width that it is held in. -/
theorem isFinite_widened (number : Number) : number.widened.isFinite = number.isFinite := by
  cases number <;> rfl

end Number

/-- A 64-bit integer is rounded as an integer of any width is. -/
theorem Binary.ofWideInt_toInt (f : BinaryFormat) (n : Int64) :
    ofWideInt f n.toInt = ofInt f n.toInt := by
  refine ofWideInt_eq_ofInt f ?_
  have hlo := n.le_toInt
  have hhi := n.toInt_lt
  simp only [UInt64.size]
  omega

/-- A number is narrowed to the same value when it is taken as an integer of any width. -/
theorem NumericKind.ofNumber?_widened (kind : NumericKind) (number : Number) :
    kind.ofNumber? number.widened = kind.ofNumber? number := by
  cases kind with
  | byte | short | int => rw [ofNumber?, ofNumber?, Number.cast_widened]
  | long => rw [ofNumber?, ofNumber?, Number.toInt64_widened]
  | bigInt | float | double =>
    cases number with
    | integral n => simp only [Number.widened, ofNumber?, Binary.ofWideInt_toInt]
    | big n => rfl
    | floating x => rfl

/-! ## Values that hold a number -/

namespace Value

/-- A value holds a number. What is left out is "not a number" in single precision, whose bits are lost
when it is widened. -/
structure Holds (v : Value) (number : Number) : Prop where
  ofValue : (Number.ofValue? v).map Number.widened = some number
  isNaN : ∀ x, v = .float x → x.isNaN = false

/-- The integer that a value of an integer kind denotes. -/
def integer? : Value → Option Int
  | byte n => some n.toInt
  | short n => some n.toInt
  | int n => some n.toInt
  | long n => some n.toInt
  | bigInt n => some n
  | _ => none

/-- A value of an integer kind holds its integer. -/
theorem holds_of_integer? {v : Value} {n : Int} (h : v.integer? = some n) : v.Holds (.big n) := by
  refine ⟨?_, ?_⟩
  · cases v <;> cases h <;> simp [Number.ofValue?, Number.widened]
  · rintro x rfl
    cases h

/-- A single-precision value holds the double of the same magnitude. -/
theorem holds_float {x : Binary binary32} (h : x.isNaN = false) :
    (float x).Holds (.floating (x.convert binary64)) := by
  refine ⟨rfl, ?_⟩
  rintro y ⟨rfl⟩
  exact h

/-- A double holds itself. -/
theorem holds_double (x : Binary binary64) : (double x).Holds (.floating x) := by
  refine ⟨rfl, ?_⟩
  rintro y ⟨⟩

namespace Holds

variable {v : Value} {number : Number} (h : v.Holds number)

include h

/-- A value that holds a number is one of the numeric kinds. -/
theorem exists_ofValue? : ∃ own, Number.ofValue? v = some own ∧ own.widened = number :=
  Option.map_eq_some_iff.mp h.ofValue

/-- A value that holds a number is of one of the kinds of numbers. -/
theorem exists_kind? : ∃ kind : NumericKind, v.kind? = some kind.kind := by
  obtain ⟨own, hown, -⟩ := h.exists_ofValue?
  cases v <;> cases hown
  exacts [⟨.byte, rfl⟩, ⟨.short, rfl⟩, ⟨.int, rfl⟩, ⟨.long, rfl⟩, ⟨.bigInt, rfl⟩, ⟨.float, rfl⟩,
    ⟨.double, rfl⟩]

/-- A value that holds a number is not null. -/
theorem ne_null : v ≠ .null := by
  obtain ⟨kind, hkind⟩ := h.exists_kind?
  exact ne_null_of_kind? hkind

/-- A value that holds a number has no kind but a numeric one. -/
theorem kind?_ne {target : FieldKind} (htarget : target.isNumeric = false) :
    v.kind? ≠ some target := by
  obtain ⟨kind, hkind⟩ := h.exists_kind?
  rw [hkind]
  rintro ⟨⟩
  cases kind <;> cases htarget

/-- No truth value is a number, and none becomes one. -/
theorem boolean_eq : acceptsBoolean v = false ∧ toBoolean v = .error .incompatible := by
  obtain ⟨kind, hkind⟩ := h.exists_kind?
  cases kind <;> cases v <;> cases hkind <;> exact ⟨rfl, rfl⟩

/-- No character is a number, and none becomes one. -/
theorem char_eq : acceptsChar v = false ∧ toChar v = .error .incompatible := by
  obtain ⟨kind, hkind⟩ := h.exists_kind?
  cases kind <;> cases v <;> cases hkind <;> exact ⟨rfl, rfl⟩

/-- A number is no array. -/
theorem toArray_eq : toArray v = .error .incompatible := by
  obtain ⟨kind, hkind⟩ := h.exists_kind?
  cases kind <;> cases v <;> cases hkind <;> rfl

/-- A number is no map. -/
theorem toMap_eq : toMap v = .error .incompatible := by
  obtain ⟨kind, hkind⟩ := h.exists_kind?
  cases kind <;> cases v <;> cases hkind <;> rfl

/-- A number is written as it is displayed, whatever the format. -/
theorem render_eq (format : Option TemporalFormat) : v.render format = .ok (some v.display) := by
  obtain ⟨kind, hkind⟩ := h.exists_kind?
  cases kind <;> cases v <;> cases hkind <;> rfl

/-- A value of a kind of numbers is what its own number is narrowed to. -/
theorem ofNumber?_own {kind : NumericKind} {own : Number} (hkind : v.kind? = some kind.kind)
    (hown : Number.ofValue? v = some own) : kind.ofNumber? own = some v := by
  cases kind <;> cases v <;> cases hkind <;> cases hown
  case float x =>
    rw [NumericKind.ofNumber?, Binary.convert_convert BinaryFormat.binary32_le_binary64 (h.isNaN x rfl)]
  all_goals simp [NumericKind.ofNumber?, Number.cast, Number.toInt64]

/-- Conversion to a kind of numbers narrows the number, also where the value is of the kind already. -/
theorem convert_numeric (kind : NumericKind) :
    kind.convert v = match kind.ofNumber? number with
      | some w => .ok w
      | none => .error .nonFinite := by
  obtain ⟨own, hown, rfl⟩ := h.exists_ofValue?
  rw [kind.ofNumber?_widened]
  unfold NumericKind.convert
  by_cases hkind : v.kind? = some kind.kind
  · rw [if_pos hkind, h.ofNumber?_own hkind hown]
  · rw [if_neg hkind]
    cases v <;> cases hown <;> rfl

/-- A number is accepted by all numeric kinds, but by integers of any width only if it is finite. -/
theorem accepts_numeric (kind : NumericKind) :
    kind.accepts v = (kind != .bigInt || number.isFinite) := by
  obtain ⟨own, hown, rfl⟩ := h.exists_ofValue?
  rw [Number.isFinite_widened]
  cases v <;> cases hown <;> rfl

/-- A number is taken as a count of milliseconds, whatever the format. -/
theorem convert_temporal (kind : TemporalKind) (format : Option TemporalFormat) :
    kind.convert format v = .ok (kind.value ⟨number.toInt64⟩) := by
  obtain ⟨own, hown, rfl⟩ := h.exists_ofValue?
  rw [Number.toInt64_widened]
  cases v <;> cases hown <;> rfl

/-- A number is accepted as a point in time, whatever the format. -/
theorem accepts_temporal (format : Option TemporalFormat) : TemporalKind.accepts format v = true := by
  obtain ⟨kind, hkind⟩ := h.exists_kind?
  cases kind <;> cases v <;> cases hkind <;> rfl

end Holds

end Value

/-! ## Conversion -/

/-- Two conversions give one value, or fail for one reason in one field and with one target. The values
that they are conversions of may differ. -/
inductive ConvertAlike : Conversion → Conversion → Prop
  | ok (w : Value) : ConvertAlike (.ok w) (.ok w)
  | failed (v v' : Value) (target : FieldKind) (field : String) (reason : Reason) :
      ConvertAlike (.error (.failed ⟨v, target, field, reason⟩))
        (.error (.failed ⟨v', target, field, reason⟩))

/-- Two values with one result convert alike. -/
theorem convertAlike_settled (v v' : Value) (target : FieldKind) (field : String)
    (result : Except Reason Value) :
    ConvertAlike (settled v target field result) (settled v' target field result) := by
  cases result with
  | ok w => exact .ok w
  | error reason => exact .failed v v' target field reason

section

variable {defaults : FormatDefaults} {a b : Value} {number : Number} (ha : a.Holds number)
  (hb : b.Holds number)

include ha hb

/-- Values that hold one number are accepted by the same types. -/
theorem accepts_of_holds (type : DeclaredType) :
    accepts defaults type a = accepts defaults type b := by
  have hnull := ha.ne_null
  have hnull' := hb.ne_null
  have hkinds : ∀ target : FieldKind, target.isNumeric = false →
      (a.kind? == some target) = (b.kind? == some target) := by
    intro target htarget
    rw [beq_eq_false_iff_ne.mpr (ha.kind?_ne htarget), beq_eq_false_iff_ne.mpr (hb.kind?_ne htarget)]
  induction type using DeclaredType.familyInduction with
  | boolean =>
    rw [accepts_boolean defaults hnull, accepts_boolean defaults hnull', ha.boolean_eq.1,
      hb.boolean_eq.1]
  | numeric target =>
    rw [accepts_numeric defaults hnull, accepts_numeric defaults hnull', ha.accepts_numeric,
      hb.accepts_numeric]
  | char =>
    rw [accepts_char defaults hnull, accepts_char defaults hnull', ha.char_eq.1, hb.char_eq.1]
  | string format => rw [accepts_string defaults hnull, accepts_string defaults hnull']
  | temporal target format =>
    rw [accepts_temporal defaults hnull, accepts_temporal defaults hnull', ha.accepts_temporal,
      hb.accepts_temporal]
  | array => rw [accepts_array defaults hnull, accepts_array defaults hnull', hkinds .array rfl]
  | map => rw [accepts_map defaults hnull, accepts_map defaults hnull', hkinds .map rfl]
  | bareRecord =>
    rw [accepts_record defaults hnull, accepts_record defaults hnull', hkinds .record rfl]
  | record schema _ =>
    rw [accepts_record defaults hnull, accepts_record defaults hnull', hkinds .record rfl]
  | choice candidates ih =>
    rw [accepts_choice defaults hnull, accepts_choice defaults hnull']
    rw [Bool.eq_iff_iff, List.any_eq_true, List.any_eq_true]
    exact exists_congr fun candidate => and_congr_right fun hmem => by rw [ih candidate hmem]

/-- Values that hold one number go to the same candidate. -/
theorem choose?_of_holds (type : DeclaredType) :
    choose? defaults type a = choose? defaults type b := by
  simp only [choose?, accepts_of_holds ha hb]

/-- Values that hold one number convert alike, and to text if they have the same digits. -/
theorem convertAlike_of_holds {type : DeclaredType}
    (htext : a.display = b.display ∨ ∀ leaf ∈ type.leaves, leaf.kind ≠ .string) (field : String) :
    ConvertAlike (convert defaults type a field) (convert defaults type b field) := by
  have hnull := ha.ne_null
  have hnull' := hb.ne_null
  induction type using DeclaredType.familyInduction with
  | boolean =>
    rw [convert_boolean defaults hnull, convert_boolean defaults hnull', ha.boolean_eq.2,
      hb.boolean_eq.2]
    exact convertAlike_settled a b _ field _
  | numeric target =>
    rw [convert_numeric defaults hnull, convert_numeric defaults hnull', ha.convert_numeric,
      hb.convert_numeric]
    exact convertAlike_settled a b _ field _
  | char =>
    rw [convert_char defaults hnull, convert_char defaults hnull', ha.char_eq.2, hb.char_eq.2]
    exact convertAlike_settled a b _ field _
  | string format =>
    have hdisplay : a.display = b.display := by
      refine htext.resolve_right fun hleaves => ?_
      exact hleaves (.string format) (List.mem_singleton_self _) rfl
    rw [convert_string defaults hnull, convert_string defaults hnull', toText, toText, ha.render_eq,
      hb.render_eq, hdisplay]
    exact .ok _
  | temporal target format =>
    rw [convert_temporal defaults hnull, convert_temporal defaults hnull', ha.convert_temporal,
      hb.convert_temporal]
    exact convertAlike_settled a b _ field _
  | array =>
    rw [convert_array defaults hnull, convert_array defaults hnull', ha.toArray_eq, hb.toArray_eq]
    exact convertAlike_settled a b _ field _
  | map =>
    rw [convert_map defaults hnull, convert_map defaults hnull', ha.toMap_eq, hb.toMap_eq]
    exact convertAlike_settled a b _ field _
  | bareRecord =>
    rw [convert_record_of_other defaults hnull none (ha.kind?_ne rfl) (ha.kind?_ne rfl),
      convert_record_of_other defaults hnull' none (hb.kind?_ne rfl) (hb.kind?_ne rfl)]
    exact .failed a b _ field _
  | record schema _ =>
    rw [convert_record_of_other defaults hnull (some schema) (ha.kind?_ne rfl) (ha.kind?_ne rfl),
      convert_record_of_other defaults hnull' (some schema) (hb.kind?_ne rfl) (hb.kind?_ne rfl)]
    exact .failed a b _ field _
  | choice candidates ih =>
    rcases choose?_cases defaults candidates a with ⟨index, candidate, hchosen⟩ | hrefused
    · have hchosen' : choose? defaults (.choice candidates) b = some (index, candidate) := by
        rw [← choose?_of_holds ha hb, hchosen]
      have hmem := (accepts_of_choose? defaults hchosen).1
      rw [convert_choice_of_choose? defaults hchosen, convert_choice_of_choose? defaults hchosen']
      refine ih candidate hmem (htext.imp_right fun hleaves leaf hleaf => ?_)
      refine hleaves leaf ?_
      rw [DeclaredType.leaves_choice]
      exact List.mem_flatMap.mpr ⟨candidate, hmem, hleaf⟩
    · have hrefused' : ∀ candidate ∈ candidates, accepts defaults candidate b = false := by
        intro candidate hmem
        rw [← accepts_of_holds ha hb, hrefused candidate hmem]
      rw [convert_choice_of_forall defaults hnull hrefused,
        convert_choice_of_forall defaults hnull' hrefused']
      exact .failed a b _ field _

end

/-- A type accepts two values alike, they go to the same candidate, and they convert alike. -/
structure TreatsAlike (defaults : FormatDefaults) (type : DeclaredType) (a b : Value) : Prop where
  sameAcceptance : accepts defaults type a = accepts defaults type b
  sameCandidate : choose? defaults type a = choose? defaults type b
  convertAlike : ∀ field,
    ConvertAlike (convert defaults type a field) (convert defaults type b field)

/-- A value of an integer kind is displayed as its integer. -/
theorem Value.display_of_integer? {v : Value} {n : Int} (h : v.integer? = some n) :
    v.display = String.ofList (signedNumeral n) := by
  cases v <;> cases h <;> rfl

/-- The kind of a number does not matter. Two integers of any kinds that denote the same number are
treated alike by every type. So are a single-precision number other than "not a number" and what it is
widened to, by every type that has no text among its leaves. -/
theorem convert_same_number (defaults : FormatDefaults) (type : DeclaredType) :
    (∀ (a b : Value) (n : Int), a.integer? = some n → b.integer? = some n →
      TreatsAlike defaults type a b) ∧
    ((∀ leaf ∈ type.leaves, leaf.kind ≠ .string) → ∀ x : Binary binary32, x.isNaN = false →
      TreatsAlike defaults type (.float x) (.double (x.convert binary64))) := by
  constructor
  · intro a b n ha hb
    have hdisplay : a.display = b.display := by
      rw [Value.display_of_integer? ha, Value.display_of_integer? hb]
    have ha := Value.holds_of_integer? ha
    have hb := Value.holds_of_integer? hb
    exact ⟨accepts_of_holds ha hb type, choose?_of_holds ha hb type,
      convertAlike_of_holds ha hb (.inl hdisplay)⟩
  · intro hleaves x hx
    have ha := Value.holds_float hx
    have hb := Value.holds_double (x.convert binary64)
    exact ⟨accepts_of_holds ha hb type, choose?_of_holds ha hb type,
      convertAlike_of_holds ha hb (.inr hleaves)⟩

/-- A negative integer of 8 bits is treated as an unbounded one, and one tenth in single precision as
what it is widened to. -/
theorem convert_same_number_samples :
    TreatsAlike .empty (.choice [.boolean, .choice [.string none]]) (.byte (-5)) (.bigInt (-5)) ∧
    TreatsAlike .empty (.choice [.choice [.array], .bigInt]) (.float (.ofBits 0x3dcccccd))
      (.double ((.ofBits 0x3dcccccd : Binary binary32).convert binary64)) := by
  refine ⟨(convert_same_number _ _).1 _ _ (-5) rfl rfl, (convert_same_number _ _).2 ?_ _ (by decide)⟩
  intro leaf hleaf
  simp only [DeclaredType.leaves, DeclaredType.leavesOf, List.append_nil, List.singleton_append,
    List.mem_cons, List.not_mem_nil, or_false] at hleaf
  rcases hleaf with rfl | rfl <;> decide

end RecordCoercion

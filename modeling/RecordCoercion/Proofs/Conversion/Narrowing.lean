import Mathlib.Data.Int.ModEq
import Mathlib.Order.WithBot
import RecordCoercion.Proofs.Conversion.NumberKinds

/-!
# Integers cut to the width of a kind

An integer that is converted to a kind of integers becomes the one integer of the width of that kind which
is congruent to it (`IsCut`); the unbounded kind has no width to cut to. What is cut twice is cut at once
if the second width is not the larger one (`IsCut.trans`), and so a way through several kinds does what
the last conversion does alone (`convert_integer_cut`).
-/

set_option autoImplicit false

namespace RecordCoercion

/-- What is left of an integer in a width: the integer of that many bits in two's complement which is
congruent to it, and the integer itself in unbounded width. -/
inductive IsCut : WithTop Nat → Int → Int → Prop
  | bounded {width : Nat} {n r : Int} (lo : -2 ^ (width - 1) ≤ r) (hi : r < 2 ^ (width - 1))
      (modEq : r ≡ n [ZMOD 2 ^ width]) : IsCut width n r
  | unbounded (n : Int) : IsCut ⊤ n n

/-- The balanced residue of an integer is what is left of it in a width. -/
theorem isCut_bmod (n : Int) {width : Nat} (hwidth : 0 < width) :
    IsCut width n (n.bmod (2 ^ width)) := by
  have hpos : 0 < 2 ^ width := Nat.two_pow_pos width
  have hpow : (2 : Int) * 2 ^ (width - 1) = 2 ^ width := mul_pow_sub_one hwidth.ne' 2
  have hcast : ((2 ^ width : Nat) : Int) = 2 ^ width := by norm_cast
  have hlo := Int.le_bmod (x := n) hpos
  have hhi := Int.bmod_lt (x := n) hpos
  rw [hcast] at hlo hhi
  refine .bounded (by omega) (by omega) ?_
  have hmod := Int.bmod_emod (x := n) (m := 2 ^ width)
  rw [hcast] at hmod
  exact hmod

/-- Only one integer of a width is congruent to a given one. -/
theorem IsCut.unique {width : WithTop Nat} {n r s : Int} (hwidth : 0 < width) (hr : IsCut width n r)
    (hs : IsCut width n s) : s = r := by
  cases hr with
  | @bounded width _ _ hlo hhi hmod =>
    cases hs with
    | bounded hlo' hhi' hmod' =>
      have hpos : 0 < width := WithTop.coe_pos.mp hwidth
      have hpow : (2 : Int) * 2 ^ (width - 1) = 2 ^ width := mul_pow_sub_one hpos.ne' 2
      have hnear : |r - s| < 2 ^ width := abs_lt.mpr ⟨by omega, by omega⟩
      exact (sub_eq_zero.mp (Int.eq_zero_of_abs_lt_dvd (hmod'.trans hmod.symm).dvd hnear)).symm
  | unbounded =>
    cases hs
    rfl

/-- What is cut twice is cut to the smaller width at once. -/
theorem IsCut.trans {width width' : WithTop Nat} {n r s : Int} (h : IsCut width n r)
    (h' : IsCut width' r s) (hle : width' ≤ width) : IsCut width' n s := by
  cases h with
  | unbounded => exact h'
  | bounded _ _ hmod =>
    cases h' with
    | unbounded => exact absurd hle (WithTop.not_top_le_coe _)
    | bounded hlo hhi hmod' =>
      have hdvd := pow_dvd_pow (2 : Int) (WithTop.coe_le_coe.mp hle)
      exact .bounded hlo hhi (hmod'.trans (hmod.of_dvd hdvd))

/-- The width of the integers of a kind, which is none for floating-point numbers. -/
def NumericKind.width? : NumericKind → Option (WithTop Nat)
  | byte => some 8
  | short => some 16
  | int => some 32
  | long => some 64
  | bigInt => some ⊤
  | float | double => none

/-- Every integer kind has at least one bit. -/
theorem NumericKind.width?_pos {kind : NumericKind} {width : WithTop Nat}
    (h : kind.width? = some width) : 0 < width := by
  cases kind <;> cases h <;> decide

/-- An integer becomes one of 64 bits by keeping its low bits. -/
theorem Int64.isCut_ofInt (n : Int) : IsCut 64 n (Int64.ofInt n).toInt := by
  rw [Int64.toInt_ofInt]
  exact isCut_bmod n (by decide)

/-- An integer is cut to the width of the kind that it is narrowed to. -/
theorem NumericKind.ofNumber?_big {kind : NumericKind} {width : WithTop Nat}
    (h : kind.width? = some width) (n : Int) :
    ∃ w r, kind.ofNumber? (.big n) = some w ∧ w.kind? = some kind.kind ∧ w.integer? = some r ∧
      IsCut width n r := by
  cases kind <;> cases h
  case byte =>
    refine ⟨_, _, rfl, rfl, rfl, ?_⟩
    rw [Number.cast, lowBits_eq, Int64.toInt8_ofInt, Int8.toInt_ofInt]
    exact isCut_bmod n (by decide)
  case short =>
    refine ⟨_, _, rfl, rfl, rfl, ?_⟩
    rw [Number.cast, lowBits_eq, Int64.toInt16_ofInt, Int16.toInt_ofInt]
    exact isCut_bmod n (by decide)
  case int =>
    refine ⟨_, _, rfl, rfl, rfl, ?_⟩
    rw [Number.cast, lowBits_eq, Int64.toInt32_ofInt, Int32.toInt_ofInt]
    exact isCut_bmod n (by decide)
  case long =>
    refine ⟨_, _, rfl, rfl, rfl, ?_⟩
    rw [Number.toInt64, Number.cast, lowBits_eq, id]
    exact Int64.isCut_ofInt n
  case bigInt => exact ⟨_, _, rfl, rfl, rfl, .unbounded n⟩

/-- A value is known from its kind and the number that it holds. -/
theorem Value.Holds.eq_of_kind? {v w : Value} {number : Number} (hv : v.Holds number)
    (hw : w.Holds number) (hkind : v.kind? = w.kind?) : v = w := by
  have hnarrowed : ∀ {u : Value} {kind : NumericKind}, u.Holds number → u.kind? = some kind.kind →
      kind.ofNumber? number = some u := by
    intro u kind hu hkind
    obtain ⟨own, hown, rfl⟩ := hu.exists_ofValue?
    rw [kind.ofNumber?_widened, hu.ofNumber?_own hkind hown]
  obtain ⟨kind, hv'⟩ := hv.exists_kind?
  have hsame := hnarrowed hv hv'
  rw [hnarrowed hw (hkind ▸ hv')] at hsame
  exact (Option.some.inj hsame).symm

/-- A value is converted to what the number that it holds is narrowed to. -/
theorem convert_of_holds (defaults : FormatDefaults) (field : String) (kind : NumericKind)
    {v w : Value} {number : Number} (h : v.Holds number) (hw : kind.ofNumber? number = some w) :
    convert defaults kind.type v field = .ok w := by
  rw [convert_numeric defaults h.ne_null, h.convert_numeric, hw]
  rfl

/-- The conversion to one kind of numbers after the other. -/
def convertThrough (defaults : FormatDefaults) (field : String) (kinds : List NumericKind)
    (v : Value) : Conversion :=
  kinds.foldlM (fun v kind => convert defaults kind.type v field) v

section

variable (defaults : FormatDefaults) (field : String) {v : Value} {n : Int}

/-- Through one kind the conversion is the one to its type. -/
theorem convertThrough_singleton (kind : NumericKind) :
    convertThrough defaults field [kind] v = convert defaults kind.type v field := by
  cases h : convert defaults kind.type v field <;> simp [convertThrough, h]

/-- Through several kinds the conversion goes on with what the first one gave. -/
theorem convertThrough_cons {kind : NumericKind} {kinds : List NumericKind} {w : Value}
    (h : convert defaults kind.type v field = .ok w) :
    convertThrough defaults field (kind :: kinds) v = convertThrough defaults field kinds w := by
  rw [convertThrough, List.foldlM_cons, h]
  rfl

/-- An integer that is converted is cut. -/
theorem convert_isCut (h : v.integer? = some n) {kind : NumericKind} {width : WithTop Nat}
    (hwidth : kind.width? = some width) :
    ∃ w r, convert defaults kind.type v field = .ok w ∧ w.kind? = some kind.kind ∧
      w.integer? = some r ∧ IsCut width n r := by
  obtain ⟨w, r, hw, hkind, hr, hcut⟩ := NumericKind.ofNumber?_big hwidth n
  exact ⟨w, r, convert_of_holds defaults field kind (Value.holds_of_integer? h) hw, hkind, hr, hcut⟩

/-- An integer that is converted to one kind after the other, none of them narrower than the last one, is
cut to the width of this one. -/
theorem convertThrough_isCut {kinds : List NumericKind} {last : NumericKind} {width : WithTop Nat}
    (hlast : last.width? = some width)
    (hkinds : ∀ kind ∈ kinds, ∃ wider, kind.width? = some wider ∧ width ≤ wider)
    (h : v.integer? = some n) :
    ∃ w r, convertThrough defaults field (kinds ++ [last]) v = .ok w ∧ w.kind? = some last.kind ∧
      w.integer? = some r ∧ IsCut width n r := by
  induction kinds generalizing v n with
  | nil =>
    rw [List.nil_append, convertThrough_singleton]
    exact convert_isCut defaults field h hlast
  | cons kind rest ih =>
    obtain ⟨⟨wider, hwider, hle⟩, hrest⟩ := List.forall_mem_cons.mp hkinds
    obtain ⟨u, s, hu, -, hs, hcut⟩ := convert_isCut defaults field h hwider
    obtain ⟨w, r, hw, hkind, hr, hcut'⟩ := ih hrest hs
    refine ⟨w, r, ?_, hkind, hr, hcut.trans hcut' hle⟩
    rw [List.cons_append, convertThrough_cons defaults field hu, hw]

end

/-- An integer of any kind that is converted to a kind of integers is cut to the width of this kind, and to
64 bits where it becomes a point in time; the unbounded kind keeps it. On the way through several kinds,
none of them narrower than the last one, it becomes what it becomes at once. -/
theorem convert_integer_cut (defaults : FormatDefaults) (field : String) {v : Value} {n : Int}
    (h : v.integer? = some n) :
    (∀ (kind : NumericKind) (width : WithTop Nat), kind.width? = some width →
      ∃ w r, convert defaults kind.type v field = .ok w ∧ w.kind? = some kind.kind ∧
        w.integer? = some r ∧ ∀ s, IsCut width n s ↔ s = r) ∧
    (∀ (kind : TemporalKind) (format : Option TemporalFormat),
      ∃ r : Int64, convert defaults (kind.type format) v field = .ok (kind.value ⟨r⟩) ∧
        ∀ s, IsCut 64 n s ↔ s = r.toInt) ∧
    convert defaults .bigInt v field = .ok (.bigInt n) ∧
    ∀ (kinds : List NumericKind) (last : NumericKind) (width : WithTop Nat),
      last.width? = some width →
      (∀ kind ∈ kinds, ∃ wider, kind.width? = some wider ∧ width ≤ wider) →
      convertThrough defaults field (kinds ++ [last]) v = convert defaults last.type v field := by
  have hholds := Value.holds_of_integer? h
  refine ⟨fun kind width hwidth => ?_, fun kind format => ?_,
    convert_of_holds defaults field .bigInt hholds rfl, fun kinds last width hlast hkinds => ?_⟩
  · obtain ⟨w, r, hw, hkind, hr, hcut⟩ := convert_isCut defaults field h hwidth
    refine ⟨w, r, hw, hkind, hr, fun s => ⟨hcut.unique (NumericKind.width?_pos hwidth), ?_⟩⟩
    rintro rfl
    exact hcut
  · refine ⟨lowBits n, ?_, fun s => ?_⟩
    · rw [convert_temporal defaults hholds.ne_null, hholds.convert_temporal]
      rfl
    · have hcut := Int64.isCut_ofInt n
      rw [lowBits_eq]
      refine ⟨hcut.unique (by decide), ?_⟩
      rintro rfl
      exact hcut
  · obtain ⟨w, r, hw, hkind, hr, hcut⟩ := convertThrough_isCut defaults field hlast hkinds h
    obtain ⟨w', r', hw', hkind', hr', hcut'⟩ := convert_isCut defaults field h hlast
    obtain rfl := hcut.unique (NumericKind.width?_pos hlast) hcut'
    have hsame := (Value.holds_of_integer? hr).eq_of_kind? (Value.holds_of_integer? hr')
      (hkind.trans hkind'.symm)
    rw [hw, hw', hsame]

/-- A negative integer of 65 bits becomes a byte of the other sign, also by way of 64 and of 16 bits. -/
theorem convert_integer_cut_of_65_bits :
    (Value.bigInt (-2 ^ 64 - 129)).integer? = some (-2 ^ 64 - 129) ∧
      NumericKind.byte.width? = some 8 ∧
      (∀ kind ∈ [NumericKind.long, .short], ∃ wider, kind.width? = some wider ∧ 8 ≤ wider) ∧
      convertThrough .empty "n" [.long, .short, .byte] (.bigInt (-2 ^ 64 - 129)) = .ok (.byte 127) ∧
      ∀ s, IsCut 8 (-2 ^ 64 - 129) s ↔ s = 127 := by
  have hwider : ∀ kind ∈ [NumericKind.long, .short], ∃ wider, kind.width? = some wider ∧ 8 ≤ wider := by
    intro kind hmem
    rcases List.mem_pair.mp hmem with rfl | rfl
    · exact ⟨64, rfl, by decide⟩
    · exact ⟨16, rfl, by decide⟩
  have hbyte : convert .empty .byte (.bigInt (-2 ^ 64 - 129)) "n" = .ok (.byte 127) := by rfl
  obtain ⟨hcut, -, -, hthrough⟩ :=
    convert_integer_cut .empty "n" (v := .bigInt (-2 ^ 64 - 129)) (n := -2 ^ 64 - 129) rfl
  refine ⟨rfl, rfl, hwider, ?_, ?_⟩
  · exact (hthrough [.long, .short] .byte 8 rfl hwider).trans hbyte
  · obtain ⟨w, r, hw, -, hr, hs⟩ := hcut .byte 8 rfl
    rw [NumericKind.type, hbyte] at hw
    cases hw
    cases hr
    exact hs

end RecordCoercion

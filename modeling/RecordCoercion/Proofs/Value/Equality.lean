import RecordCoercion.Proofs.Value.SameKey
import RecordCoercion.Proofs.Value.WellFormed
import RecordCoercion.Value.Equality

/-!
# Equality is a partial equivalence

On well-formed values equality as data is symmetric and transitive, and a value is equal to itself
exactly if it holds "not a number" nowhere outside the keys of its maps. The order of entries and
members does not count. `Value.equal_partial_equivalence` puts this together. Equality looks up the
entries of one side in the other, so its symmetry rests on the keys being distinct.
-/

set_option autoImplicit false

namespace RecordCoercion

/-! ## Numeric equality -/

namespace Binary

variable {f : BinaryFormat} {x y z : Binary f}

/-- Numbers are equal if they are numbers of the same magnitude and, unless they are zero, of the same
sign. -/
theorem numericEq_iff : x.numericEq y = true ↔
    x.isNaN = false ∧ x.code = y.code ∧ (x.negative = y.negative ∨ x.code = 0) := by
  simp only [numericEq, isNaN, Bool.and_eq_true, Bool.or_eq_true, beq_iff_eq, Bool.not_eq_true',
    decide_eq_false_iff_not]
  constructor
  · rintro ⟨⟨⟨hx, -⟩, hcode⟩, hsign⟩
    exact ⟨hx, hcode, hsign⟩
  · rintro ⟨hx, hcode, hsign⟩
    exact ⟨⟨⟨hx, hcode ▸ hx⟩, hcode⟩, hsign⟩

/-- Numeric equality is symmetric. -/
theorem numericEq_symm (h : x.numericEq y = true) : y.numericEq x = true := by
  obtain ⟨hx, hcode, hsign⟩ := numericEq_iff.mp h
  exact numericEq_iff.mpr ⟨by rwa [isNaN, ← hcode], hcode.symm, by rwa [← hcode, eq_comm]⟩

/-- Numeric equality is transitive. -/
theorem numericEq_trans (h : x.numericEq y = true) (h' : y.numericEq z = true) :
    x.numericEq z = true := by
  obtain ⟨hx, hcode, hsign⟩ := numericEq_iff.mp h
  obtain ⟨-, hcode', hsign'⟩ := numericEq_iff.mp h'
  refine numericEq_iff.mpr ⟨hx, hcode.trans hcode', ?_⟩
  rcases hsign with hsign | hzero
  · rwa [hsign, hcode]
  · exact .inr hzero

/-- A number is equal to itself unless it is "not a number". -/
theorem numericEq_self_iff : x.numericEq x = true ↔ x.isNaN = false := by
  simp [numericEq_iff]

end Binary

namespace Value

/-! ## Equality by kind -/

/-- Whether equality is identity: the value is not a floating-point number and not made of others. -/
def isExact : Value → Bool
  | float _ | double _ | array _ | map _ | record _ _ => false
  | _ => true

/-- Values without parts and without rounding are equal if they are the same. -/
theorem equal_iff_of_isExact {a : Value} (h : a.isExact = true) (b : Value) :
    a.equal b = true ↔ a = b := by
  cases a with
  | float _ | double _ | array _ | map _ | record _ _ => cases h
  | _ => cases b <;> simp [equal]

/-- A single-precision number is equal to the numerically equal ones of its kind. -/
theorem equal_float_iff {x : Binary binary32} {b : Value} :
    (float x).equal b = true ↔ ∃ y, b = .float y ∧ x.numericEq y = true := by
  cases b <;> simp [equal]

/-- A double is equal to the numerically equal ones of its kind. -/
theorem equal_double_iff {x : Binary binary64} {b : Value} :
    (double x).equal b = true ↔ ∃ y, b = .double y ∧ x.numericEq y = true := by
  cases b <;> simp [equal]

/-- Arrays are equal item by item. -/
theorem equalItems_iff (items others : List Value) :
    equalItems items others = true ↔
      List.Forall₂ (fun item other => equal item other = true) items others := by
  induction items generalizing others with
  | nil => cases others <;> simp [equalItems]
  | cons item rest ih => cases others <;> simp [equalItems, ih]

/-- The entries of a map are among those of another one, with equal values. -/
theorem entriesAmong_iff (entries others : Entries) :
    entriesAmong entries others = true ↔
      Ordered.Among keyEq (fun value other => equal value other = true) entries others := by
  induction entries with
  | nil => simp [entriesAmong, Ordered.Among]
  | cons entry rest ih =>
    obtain ⟨key, value⟩ := entry
    rw [entriesAmong, Bool.and_eq_true, ih, Ordered.Among, Ordered.Among, List.forall_mem_cons,
      Entries.get?]
    cases Ordered.get? keyEq key others <;> simp

/-- The members of a record are among those of another one, with equal values. -/
theorem membersAmong_iff (members others : Members) :
    membersAmong members others = true ↔
      Ordered.Among (· == ·) (fun value other => equal value other = true) members others := by
  induction members with
  | nil => simp [membersAmong, Ordered.Among]
  | cons member rest ih =>
    obtain ⟨name, value⟩ := member
    rw [membersAmong, Bool.and_eq_true, ih, Ordered.Among, Ordered.Among, List.forall_mem_cons,
      Members.find?]
    cases Ordered.get? (· == ·) name others <;> simp

/-- Only an array is equal to an array, item by item in order. -/
theorem equal_array_iff {items : List Value} {b : Value} :
    (array items).equal b = true ↔ ∃ others, b = .array others ∧
      List.Forall₂ (fun item other => equal item other = true) items others := by
  cases b <;> simp [equal, equalItems_iff]

/-- Only a map is equal to a map, as many entries, each with an equal value in the other. -/
theorem equal_map_iff {entries : Entries} {b : Value} :
    (map entries).equal b = true ↔ ∃ others : Entries, b = .map others ∧
      entries.length = others.length ∧
      Ordered.Among keyEq (fun value other => equal value other = true) entries others := by
  cases b <;> simp [equal, entriesAmong_iff]

/-- Only a record is equal to a record, with the same schema and as many members, each with an equal
value in the other. -/
theorem equal_record_iff {schema : RecordSchema} {members : Members} {b : Value} :
    (record schema members).equal b = true ↔ ∃ schema' others, b = .record schema' others ∧
      schema.same schema' = true ∧ members.length = others.length ∧
      Ordered.Among (· == ·) (fun value other => equal value other = true) members others := by
  cases b <;> simp [equal, membersAmong_iff]

/-- Induction over values by what equality looks at. -/
theorem equalInduction {motive : Value → Prop}
    (exact : ∀ v : Value, v.isExact = true → motive v)
    (float : ∀ x, motive (.float x)) (double : ∀ x, motive (.double x))
    (array : ∀ items, (∀ item ∈ items, motive item) → motive (.array items))
    (map : ∀ entries : Entries, (∀ entry ∈ entries, motive entry.2) → motive (.map entries))
    (record : ∀ schema (members : Members), (∀ member ∈ members, motive member.2) →
      motive (.record schema members))
    (v : Value) : motive v := by
  induction v using valueInduction with
  | single v h =>
    cases v with
    | float x => exact float x
    | double x => exact double x
    | array items => cases h .array rfl
    | map entries => cases h .map rfl
    | record schema members => cases h .record rfl
    | _ => exact exact _ rfl
  | array items ih => exact array items ih
  | map entries ih => exact map entries fun entry hmem => (ih entry hmem).2
  | record schema members ih => exact record schema members ih

/-! ## Symmetry, transitivity, reflexivity -/

/-- Equality is symmetric on values whose keys are distinct. -/
theorem equal_symm {a b : Value} (ha : a.IsWellFormed) (hb : b.IsWellFormed)
    (h : a.equal b = true) : b.equal a = true := by
  induction a using equalInduction generalizing b with
  | exact a hexact =>
    obtain rfl := (equal_iff_of_isExact hexact b).mp h
    exact h
  | float x =>
    obtain ⟨y, rfl, hxy⟩ := equal_float_iff.mp h
    exact equal_float_iff.mpr ⟨x, rfl, Binary.numericEq_symm hxy⟩
  | double x =>
    obtain ⟨y, rfl, hxy⟩ := equal_double_iff.mp h
    exact equal_double_iff.mpr ⟨x, rfl, Binary.numericEq_symm hxy⟩
  | array items ih =>
    obtain ⟨others, rfl, hitems⟩ := equal_array_iff.mp h
    refine equal_array_iff.mpr ⟨items, rfl, forall₂_symm (fun item hmem other hmem' => ?_) hitems⟩
    exact ih item hmem (ha.of_item hmem) (hb.of_item hmem')
  | map entries ih =>
    obtain ⟨others, rfl, hlength, hentries⟩ := equal_map_iff.mp h
    refine equal_map_iff.mpr ⟨entries, rfl, hlength.symm, hentries.symm isEquiv_keyEq
      ha.distinct_entries hb.distinct_entries hlength fun entry hmem other hmem' => ?_⟩
    exact ih entry hmem (ha.of_value hmem) (hb.of_value hmem')
  | record schema members ih =>
    obtain ⟨schema', others, rfl, hschema, hlength, hmembers⟩ := equal_record_iff.mp h
    refine equal_record_iff.mpr ⟨schema, members, rfl,
      Schema.same_symm ha.schema_distinctNames hb.schema_distinctNames hschema, hlength.symm,
      hmembers.symm Ordered.isEquiv_beq ha.distinct_members hb.distinct_members hlength
        fun member hmem other hmem' => ?_⟩
    exact ih member hmem (ha.of_member hmem) (hb.of_member hmem')

/-- Equality is transitive. -/
theorem equal_trans {a b c : Value} (h : a.equal b = true) (h' : b.equal c = true) :
    a.equal c = true := by
  induction a using equalInduction generalizing b c with
  | exact a hexact =>
    obtain rfl := (equal_iff_of_isExact hexact b).mp h
    exact h'
  | float x =>
    obtain ⟨y, rfl, hxy⟩ := equal_float_iff.mp h
    obtain ⟨z, rfl, hyz⟩ := equal_float_iff.mp h'
    exact equal_float_iff.mpr ⟨z, rfl, Binary.numericEq_trans hxy hyz⟩
  | double x =>
    obtain ⟨y, rfl, hxy⟩ := equal_double_iff.mp h
    obtain ⟨z, rfl, hyz⟩ := equal_double_iff.mp h'
    exact equal_double_iff.mpr ⟨z, rfl, Binary.numericEq_trans hxy hyz⟩
  | array items ih =>
    obtain ⟨others, rfl, hitems⟩ := equal_array_iff.mp h
    obtain ⟨thirds, rfl, hothers⟩ := equal_array_iff.mp h'
    exact equal_array_iff.mpr
      ⟨thirds, rfl, forall₂_trans (fun item hmem b c => ih item hmem) hitems hothers⟩
  | map entries ih =>
    obtain ⟨others, rfl, hlength, hentries⟩ := equal_map_iff.mp h
    obtain ⟨thirds, rfl, hlength', hothers⟩ := equal_map_iff.mp h'
    exact equal_map_iff.mpr ⟨thirds, rfl, hlength.trans hlength',
      hentries.trans isEquiv_keyEq (fun entry hmem b c => ih entry hmem) hothers⟩
  | record schema members ih =>
    obtain ⟨schema', others, rfl, hschema, hlength, hmembers⟩ := equal_record_iff.mp h
    obtain ⟨schema'', thirds, rfl, hschema', hlength', hothers⟩ := equal_record_iff.mp h'
    exact equal_record_iff.mpr ⟨schema'', thirds, rfl, Schema.same_trans hschema hschema',
      hlength.trans hlength',
      hmembers.trans Ordered.isEquiv_beq (fun member hmem b c => ih member hmem) hothers⟩

/-- "Not a number" is in a value, at any depth but not inside the keys of maps. -/
inductive HoldsNaN : Value → Prop
  | float {x : Binary binary32} (h : x.isNaN = true) : HoldsNaN (.float x)
  | double {x : Binary binary64} (h : x.isNaN = true) : HoldsNaN (.double x)
  | item {items : List Value} {item : Value} (hmem : item ∈ items) (h : HoldsNaN item) :
      HoldsNaN (.array items)
  | value {entries : Entries} {entry : Value × Value} (hmem : entry ∈ entries)
      (h : HoldsNaN entry.2) : HoldsNaN (.map entries)
  | member {schema : RecordSchema} {members : Members} {member : String × Value}
      (hmem : member ∈ members) (h : HoldsNaN member.2) : HoldsNaN (.record schema members)

/-- A value is equal to itself exactly if no "not a number" is in it outside keys. -/
theorem equal_self_iff {a : Value} (ha : a.IsWellFormed) : a.equal a = true ↔ ¬a.HoldsNaN := by
  induction a using equalInduction with
  | exact a hexact =>
    refine iff_of_true ((equal_iff_of_isExact hexact a).mpr rfl) ?_
    rintro (_ | _ | _ | _ | _) <;> cases hexact
  | float x =>
    have hholds : HoldsNaN (.float x) ↔ x.isNaN = true := by
      refine ⟨fun hnan => ?_, .float⟩
      cases hnan with
      | float h => exact h
    rw [hholds, Bool.not_eq_true, ← Binary.numericEq_self_iff, equal]
  | double x =>
    have hholds : HoldsNaN (.double x) ↔ x.isNaN = true := by
      refine ⟨fun hnan => ?_, .double⟩
      cases hnan with
      | double h => exact h
    rw [hholds, Bool.not_eq_true, ← Binary.numericEq_self_iff, equal]
  | array items ih =>
    rw [equal, equalItems_iff, List.forall₂_same]
    constructor
    · rintro h (_ | _ | ⟨hmem, hnan⟩)
      exact (ih _ hmem (ha.of_item hmem)).mp (h _ hmem) hnan
    · intro h item hmem
      exact (ih item hmem (ha.of_item hmem)).mpr fun hnan => h (.item hmem hnan)
  | map entries ih =>
    rw [equal, beq_self_eq_true, Bool.true_and, entriesAmong_iff,
      Ordered.among_self_iff isEquiv_keyEq ha.distinct_entries]
    constructor
    · rintro h (_ | _ | _ | ⟨hmem, hnan⟩)
      exact (ih _ hmem (ha.of_value hmem)).mp (h _ hmem) hnan
    · intro h entry hmem
      exact (ih entry hmem (ha.of_value hmem)).mpr fun hnan => h (.value hmem hnan)
  | record schema members ih =>
    have hschema : schema.same schema = true := Schema.same_self ha.schema_distinctNames
    rw [equal, hschema, beq_self_eq_true, Bool.true_and, Bool.true_and, membersAmong_iff,
      Ordered.among_self_iff Ordered.isEquiv_beq ha.distinct_members]
    constructor
    · rintro h (_ | _ | _ | _ | ⟨hmem, hnan⟩)
      exact (ih _ hmem (ha.of_member hmem)).mp (h _ hmem) hnan
    · intro h member hmem
      exact (ih member hmem (ha.of_member hmem)).mpr fun hnan => h (.member hmem hnan)

/-! ## Rearrangement -/

/-- A value is another one with entries of maps and members of records in other places, at any depth
but not inside the keys of maps. -/
inductive Rearranged : Value → Value → Prop
  | refl (v : Value) : Rearranged v v
  | trans {a b c : Value} (h : Rearranged a b) (h' : Rearranged b c) : Rearranged a c
  | entries {entries entries' : Entries} (perm : entries.Perm entries') :
      Rearranged (.map entries) (.map entries')
  | members {schema : RecordSchema} {members members' : Members} (perm : members.Perm members') :
      Rearranged (.record schema members) (.record schema members')
  | item {before after : List Value} {item item' : Value} (h : Rearranged item item') :
      Rearranged (.array (before ++ item :: after)) (.array (before ++ item' :: after))
  | value {before after : Entries} {key value value' : Value} (h : Rearranged value value') :
      Rearranged (.map (before ++ (key, value) :: after)) (.map (before ++ (key, value') :: after))
  | member {schema : RecordSchema} {before after : Members} {name : String} {value value' : Value}
      (h : Rearranged value value') :
      Rearranged (.record schema (before ++ (name, value) :: after))
        (.record schema (before ++ (name, value') :: after))

namespace Rearranged

variable {a b : Value}

/-- Keys and names stay distinct when entries and members change places. -/
theorem isWellFormed (h : Rearranged a b) (ha : a.IsWellFormed) : b.IsWellFormed := by
  induction h with
  | refl _ => exact ha
  | trans _ _ ih ih' => exact ih' (ih ha)
  | entries perm =>
    rw [isWellFormed_map_iff] at ha ⊢
    exact ⟨ha.1.perm isEquiv_keyEq perm, fun entry hmem => ha.2 entry (perm.mem_iff.mpr hmem)⟩
  | members perm =>
    rw [isWellFormed_record_iff] at ha ⊢
    exact ⟨ha.1, ha.2.1.perm Ordered.isEquiv_beq perm,
      fun member hmem => ha.2.2 member (perm.mem_iff.mpr hmem)⟩
  | item _ ih =>
    rw [isWellFormed_array_iff, List.forall_mem_append, List.forall_mem_cons] at ha ⊢
    exact ⟨ha.1, ih ha.2.1, ha.2.2⟩
  | value _ ih =>
    rw [isWellFormed_map_iff, List.forall_mem_append, List.forall_mem_cons] at ha ⊢
    obtain ⟨hdistinct, hbefore, ⟨hkey, hvalue⟩, hafter⟩ := ha
    exact ⟨by simpa [Ordered.Distinct] using hdistinct, hbefore, ⟨hkey, ih hvalue⟩, hafter⟩
  | member _ ih =>
    rw [isWellFormed_record_iff, List.forall_mem_append, List.forall_mem_cons] at ha ⊢
    obtain ⟨hschema, hdistinct, hbefore, hvalue, hafter⟩ := ha
    exact ⟨hschema, by simpa [Ordered.Distinct] using hdistinct, hbefore, ih hvalue, hafter⟩

/-- A rearranged value is equal to the same values. Its own entries are only looked at one by one, so
nothing is asked of their keys. -/
theorem equal_left (h : Rearranged a b) (c : Value) : a.equal c = b.equal c := by
  induction h generalizing c with
  | refl _ => rfl
  | trans _ _ ih ih' => rw [ih, ih']
  | entries perm =>
    rw [Bool.eq_iff_iff, equal_map_iff, equal_map_iff, perm.length_eq]
    simp only [Ordered.among_congr_perm perm]
  | members perm =>
    rw [Bool.eq_iff_iff, equal_record_iff, equal_record_iff, perm.length_eq]
    simp only [Ordered.among_congr_perm perm]
  | @item before after item item' _ ih =>
    have hitems : ∀ others, equalItems (before ++ item :: after) others =
        equalItems (before ++ item' :: after) others := by
      induction before with
      | nil => intro others; cases others <;> simp [equalItems, ih]
      | cons first rest ihrest => intro others; cases others <;> simp [equalItems, ihrest]
    cases c <;> simp [equal, hitems]
  | @value before after key value value' _ ih =>
    have hentries : ∀ others, entriesAmong (before ++ (key, value) :: after) others =
        entriesAmong (before ++ (key, value') :: after) others := by
      intro others
      induction before with
      | nil => simp only [List.nil_append, entriesAmong, ih]
      | cons first rest ihrest => rw [List.cons_append, List.cons_append, entriesAmong, ihrest,
          entriesAmong]
    cases c <;> simp [equal, hentries]
  | @member schema before after name value value' _ ih =>
    have hmembers : ∀ others, membersAmong (before ++ (name, value) :: after) others =
        membersAmong (before ++ (name, value') :: after) others := by
      intro others
      induction before with
      | nil => simp only [List.nil_append, membersAmong, ih]
      | cons first rest ihrest => rw [List.cons_append, List.cons_append, membersAmong, ihrest,
          membersAmong]
    cases c <;> simp [equal, hmembers]

end Rearranged

/-- Equality is the same in both directions on values whose keys are distinct. -/
theorem equal_comm {a b : Value} (ha : a.IsWellFormed) (hb : b.IsWellFormed) :
    a.equal b = b.equal a := by
  rw [Bool.eq_iff_iff]
  exact ⟨equal_symm ha hb, equal_symm hb ha⟩

/-- Equality of well-formed values is a partial equivalence: it is symmetric and transitive, and a value
is equal to itself exactly if it does not hold "not a number" outside the keys of its maps. It stays as
it is when entries and members are rearranged on both sides. -/
theorem equal_partial_equivalence :
    (∀ a b : Value, a.IsWellFormed → b.IsWellFormed → a.equal b = true → b.equal a = true) ∧
    (∀ a b c : Value, a.equal b = true → b.equal c = true → a.equal c = true) ∧
    (∀ a : Value, a.IsWellFormed → (a.equal a = true ↔ ¬a.HoldsNaN)) ∧
    ∀ a b a' b' : Value, a.IsWellFormed → b.IsWellFormed → Rearranged a a' → Rearranged b b' →
      a'.equal b' = a.equal b := by
  refine ⟨fun a b => equal_symm, fun a b c => equal_trans, fun a => equal_self_iff, ?_⟩
  intro a b a' b' ha hb haa' hbb'
  calc a'.equal b' = a.equal b' := (haa'.equal_left b').symm
    _ = b'.equal a := equal_comm ha (hbb'.isWellFormed hb)
    _ = b.equal a := (hbb'.equal_left a).symm
    _ = a.equal b := equal_comm hb ha

/-- A map with "not a number" as a key is equal to itself, also with its entries the other way round,
and so is the map with the other zero as a value. -/
theorem equal_partial_equivalence_nan_key :
    (map [(double (.nan false), int 1), (null, float (.ofBits 0))]).equal
        (map [(double (.nan false), int 1), (null, float (.ofBits 0))]) = true ∧
    (map [(null, float (.ofBits 0)), (double (.nan false), int 1)]).equal
        (map [(double (.nan false), int 1), (null, float (.ofBits 0))]) = true ∧
    (map [(double (.nan false), int 1), (null, float (.ofBits 0x80000000))]).equal
        (map [(null, float (.ofBits 0)), (double (.nan false), int 1)]) = true := by
  obtain ⟨hsymm, htrans, hself, hrearranged⟩ := equal_partial_equivalence
  have hwell : ∀ x, IsWellFormed (.map [(double (.nan false), int 1), (null, float x)]) := by
    intro x
    have hsingle : ∀ v ∈ [double (.nan false), int 1, null, float x], v.IsWellFormed := by
      intro v hmem
      refine isWellFormed_of_single fun kind hkind => ?_
      simp only [List.mem_cons, List.not_mem_nil, or_false] at hmem
      rcases hmem with rfl | rfl | rfl | rfl <;> cases hkind <;> rfl
    refine isWellFormed_map_iff.mpr ⟨by simp [Ordered.Distinct, keyEq], ?_⟩
    simpa [and_assoc] using hsingle
  have hequal : (map [(double (.nan false), int 1), (null, float (.ofBits 0))]).equal
      (map [(double (.nan false), int 1), (null, float (.ofBits 0))]) = true := by
    refine (hself _ (hwell _)).mpr ?_
    rintro (_ | _ | _ | ⟨hmem, hnan⟩)
    simp only [List.mem_cons, List.not_mem_nil, or_false] at hmem
    rcases hmem with rfl | rfl <;> cases hnan
    next hzero => exact absurd hzero (by decide)
  have hswap : Rearranged (.map [(double (.nan false), int 1), (null, float (.ofBits 0))])
      (.map [(null, float (.ofBits 0)), (double (.nan false), int 1)]) :=
    .entries (List.Perm.swap _ _ _)
  have hswapped := (hrearranged _ _ _ _ (hwell _) (hwell _) hswap (.refl _)).trans hequal
  have hzeros : (map [(double (.nan false), int 1), (null, float (.ofBits 0))]).equal
      (map [(double (.nan false), int 1), (null, float (.ofBits 0x80000000))]) = true := by
    have hzero : (Binary.ofBits 0 : Binary binary32).numericEq (.ofBits 0x80000000) = true := by
      decide
    simp [equal, entriesAmong, Entries.get?, Ordered.get?, keyEq, hzero]
  exact ⟨hequal, hswapped, hsymm _ _ (hswap.isWellFormed (hwell _)) (hwell _)
    (htrans _ _ _ hswapped hzeros)⟩

end Value

end RecordCoercion

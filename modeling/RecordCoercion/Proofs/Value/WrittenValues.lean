import RecordCoercion.Proofs.Catalog.WrittenTypes
import RecordCoercion.Proofs.Value.SameKey
import RecordCoercion.Proofs.Value.WellFormed
import RecordCoercion.Value.Form

/-!
# Written values are read back

Only floating-point numbers may change when the text of a value is read. `Value.read_reread_toForm` says
what is read if each of them is read as some number: the value with these numbers in their places, as long
as this makes no two keys of a map the same. A value without floating-point numbers is read back as it was
(`Value.written_value`).
-/

set_option autoImplicit false

namespace RecordCoercion

namespace Value

/-- A value is another one or a part of it, at any depth and inside the keys of maps too. -/
inductive IsIn (part : Value) : Value → Prop
  | here : IsIn part part
  | item {items : List Value} {item : Value} (hmem : item ∈ items) (h : IsIn part item) :
      IsIn part (.array items)
  | key {entries : Entries} {entry : Value × Value} (hmem : entry ∈ entries)
      (h : IsIn part entry.1) : IsIn part (.map entries)
  | value {entries : Entries} {entry : Value × Value} (hmem : entry ∈ entries)
      (h : IsIn part entry.2) : IsIn part (.map entries)
  | member {schema : RecordSchema} {members : Members} {member : String × Value}
      (hmem : member ∈ members) (h : IsIn part member.2) : IsIn part (.record schema members)

section

variable {part : Value}

/-- A value that is not made of others is no part but itself. -/
theorem isIn_single_iff {v : Value} (h : (v.kind?.any fun kind => kind.isComposite) = false) :
    part.IsIn v ↔ part = v := by
  refine ⟨fun hin => ?_, fun heq => heq ▸ .here⟩
  cases hin with
  | here => rfl
  | _ => cases h

/-- A part of an array is the array or a part of an item. -/
theorem isIn_array_iff {items : List Value} :
    part.IsIn (.array items) ↔ part = .array items ∨ ∃ item ∈ items, part.IsIn item := by
  constructor
  · rintro (_ | ⟨hmem, h⟩)
    · exact .inl rfl
    · exact .inr ⟨_, hmem, h⟩
  · rintro (rfl | ⟨item, hmem, h⟩)
    · exact .here
    · exact .item hmem h

/-- A part of a map is the map or a part of a key or a value. -/
theorem isIn_map_iff {entries : Entries} :
    part.IsIn (.map entries) ↔
      part = .map entries ∨ ∃ entry ∈ entries, part.IsIn entry.1 ∨ part.IsIn entry.2 := by
  constructor
  · rintro (_ | _ | ⟨hmem, h⟩ | ⟨hmem, h⟩)
    · exact .inl rfl
    · exact .inr ⟨_, hmem, .inl h⟩
    · exact .inr ⟨_, hmem, .inr h⟩
  · rintro (rfl | ⟨entry, hmem, h | h⟩)
    · exact .here
    · exact .key hmem h
    · exact .value hmem h

/-- A part of a record is the record or a part of a member. -/
theorem isIn_record_iff {schema : RecordSchema} {members : Members} :
    part.IsIn (.record schema members) ↔
      part = .record schema members ∨ ∃ member ∈ members, part.IsIn member.2 := by
  constructor
  · rintro (_ | _ | _ | _ | ⟨hmem, h⟩)
    · exact .inl rfl
    · exact .inr ⟨_, hmem, h⟩
  · rintro (rfl | ⟨member, hmem, h⟩)
    · exact .here
    · exact .member hmem h

end

/-! ## Changing floating-point numbers -/

section

variable (onSingle : Binary binary32 → Binary binary32) (onDouble : Binary binary64 → Binary binary64)

mutual

/-- A value with its floating-point numbers changed, at any depth and inside the keys of maps too. -/
def mapFloats : Value → Value
  | float x => float (onSingle x)
  | double x => double (onDouble x)
  | array items => array (mapItems items)
  | map entries => map (mapEntries entries)
  | record schema members => record schema (mapMembers members)
  | v => v

/-- The items of an array with their floating-point numbers changed. -/
def mapItems : List Value → List Value
  | [] => []
  | item :: rest => item.mapFloats :: mapItems rest

/-- The entries of a map with their floating-point numbers changed. -/
def mapEntries : List (Value × Value) → List (Value × Value)
  | [] => []
  | (key, value) :: rest => (key.mapFloats, value.mapFloats) :: mapEntries rest

/-- The members of a record with their floating-point numbers changed. -/
def mapMembers : List (String × Value) → List (String × Value)
  | [] => []
  | (name, value) :: rest => (name, value.mapFloats) :: mapMembers rest

end

/-- The floating-point numbers of an array are those of its items. -/
theorem mapFloats_array (items : List Value) :
    (array items).mapFloats onSingle onDouble = array (items.map (mapFloats onSingle onDouble)) := by
  rw [mapFloats]
  congr 1
  induction items with
  | nil => rfl
  | cons item rest ih => rw [mapItems, ih, List.map_cons]

/-- The entries of a map with their floating-point numbers changed are changed one by one. -/
theorem mapFloats_map (entries : Entries) :
    (map entries).mapFloats onSingle onDouble =
      map (entries.map (Prod.map (mapFloats onSingle onDouble) (mapFloats onSingle onDouble))) := by
  rw [mapFloats]
  congr 1
  induction entries with
  | nil => rfl
  | cons entry rest ih => rw [mapEntries, ih, List.map_cons, Prod.map]

/-- The floating-point numbers of a record are those of its members. -/
theorem mapFloats_record (schema : RecordSchema) (members : Members) :
    (record schema members).mapFloats onSingle onDouble =
      record schema (members.map (Prod.map id (mapFloats onSingle onDouble))) := by
  rw [mapFloats]
  congr 1
  induction members with
  | nil => rfl
  | cons member rest ih => rw [mapMembers, ih, List.map_cons, Prod.map, id]

end

/-- A value whose floating-point numbers are kept is kept. -/
theorem mapFloats_id (v : Value) : v.mapFloats id id = v := by
  induction v using valueInduction with
  | single v h =>
    cases v with
    | array items => cases h .array rfl
    | map entries => cases h .map rfl
    | record schema members => cases h .record rfl
    | _ => rfl
  | array items ih => rw [mapFloats_array, List.map_congr_left ih, List.map_id']
  | map entries ih =>
    have hentries : ∀ entry ∈ entries, Prod.map (mapFloats id id) (mapFloats id id) entry = entry :=
      fun entry hmem => Prod.ext (ih entry hmem).1 (ih entry hmem).2
    rw [mapFloats_map, List.map_congr_left hentries, List.map_id']
  | record schema members ih =>
    have hmembers : ∀ member ∈ members, Prod.map id (mapFloats id id) member = member :=
      fun member hmem => Prod.ext rfl (ih member hmem)
    rw [mapFloats_record, List.map_congr_left hmembers, List.map_id']

/-! ## Forms -/

/-- The form of a tagged content is read as the content of its kind. -/
theorem read_tagged (kind : FieldKind) (content : Json) :
    read false (tagged kind content) = readContent false (some kind) content := by
  have hkind : kindMember false [DeclaredType.kindMember kind, ("value", content)] =
      .ok (some kind) := by
    have hname : kind.name ≠ "Null" := by cases kind <;> decide
    simp [kindMember, DeclaredType.kindMember, Json.member?, Json.hasKey, kindOfTag, kindOfName,
      hname, DeclaredType.readKind_name, Except.map]
  rw [tagged, read, hkind]
  rfl

/-- The name of a kind is read as it was written. -/
theorem reread_tagged (kind : FieldKind) (content : Json) :
    (tagged kind content).reread = tagged kind content.reread := rfl

/-! ## Unbounded integers -/

/-- The limbs of a number fit 32 bits. -/
theorem lt_of_mem_limbs (n : Nat) : ∀ limb ∈ limbs n, limb < UInt32.size := by
  induction n using Nat.strong_induction_on with
  | _ n ih =>
    rw [limbs]
    split
    · exact List.forall_mem_nil _
    · next hn =>
      have hless : n / UInt32.size < n := Nat.div_lt_self (Nat.pos_of_ne_zero hn) (by decide)
      exact List.forall_mem_cons.mpr ⟨Nat.mod_lt n (by decide), ih _ hless⟩

/-- Limbs are read as they were written. -/
theorem readLimbs_map {digits : List Nat} (h : ∀ limb ∈ digits, limb < UInt32.size) :
    readLimbs (digits.map fun (limb : Nat) => .integer limb) = .ok digits := by
  induction digits with
  | nil => rfl
  | cons limb rest ih =>
    obtain ⟨hlimb, hrest⟩ := List.forall_mem_cons.mp h
    have hrange : (decide (0 ≤ (limb : Int)) && decide ((limb : Int) < UInt32.size)) = true := by
      rw [Bool.and_eq_true, decide_eq_true_iff, decide_eq_true_iff]
      omega
    rw [List.map_cons, readLimbs, if_pos hrange, ih hrest, Int.toNat_natCast]
    rfl

/-- A sign is minus one, zero or one. -/
theorem sign_bounds (n : Int) : -1 ≤ n.sign ∧ n.sign ≤ 1 := by
  rcases Int.lt_trichotomy n 0 with hn | rfl | hn
  · rw [Int.sign_eq_neg_one_of_neg hn]
    decide
  · decide
  · rw [Int.sign_eq_one_of_pos hn]
    decide

/-- The form of an unbounded integer is read as the integer. -/
theorem readBigInt_bigIntForm (n : Int) : readBigInt (bigIntForm n) = .ok (bigInt n) := by
  have hsign : (decide (-1 ≤ n.sign) && decide (n.sign ≤ 1)) = true := by
    rw [Bool.and_eq_true, decide_eq_true_iff, decide_eq_true_iff]
    exact sign_bounds n
  rw [bigIntForm, readBigInt, if_pos hsign, readLimbs_map (lt_of_mem_limbs _), Except.map,
    ofLimbs_limbs, Int.sign_mul_natAbs]

/-- The form of an unbounded integer is kept by its text. -/
theorem isKept_bigIntForm (n : Int) : (bigIntForm n).IsKept := by
  have hsign : (Json.integer n.sign).IsKept := by
    have hbounds := sign_bounds n
    refine Json.isKept_integer ((IntRange.contains_iff _ _).mpr ?_)
    simp only [Json.integers]
    omega
  have hdigits : (Json.array ((limbs n.natAbs).map fun (limb : Nat) => .integer limb)).IsKept := by
    refine Json.isKept_array fun form hform => ?_
    obtain ⟨limb, hmem, rfl⟩ := List.mem_map.mp hform
    have hlimb := lt_of_mem_limbs _ limb hmem
    have hsize : UInt32.size = 4294967296 := rfl
    refine Json.isKept_integer ((IntRange.contains_iff _ _).mpr ?_)
    simp only [Json.integers]
    omega
  refine Json.isKept_array ?_
  simpa using ⟨hsign, hdigits⟩

/-! ## Reading -/

/-- A bounded integer is read back from its form. -/
theorem read_tagged_integer {kind : FieldKind} {range : IntRange} {make : Int → Value} {n : Int}
    (hkind : ∀ n : Int, readContent false (some kind) (.integer n) =
      boundedForm range make (.integer n))
    (hn : range.lo ≤ n ∧ n ≤ range.hi) (hlo : -9223372036854775808 ≤ range.lo)
    (hhi : range.hi ≤ 9223372036854775807) :
    read false (tagged kind (.integer n)).reread = .ok (make n) := by
  have hkept : (Json.integer n).IsKept := by
    refine Json.isKept_integer ((IntRange.contains_iff _ _).mpr ?_)
    simp only [Json.integers]
    omega
  rw [reread_tagged, hkept, read_tagged, hkind, boundedForm,
    if_pos ((IntRange.contains_iff _ _).mpr hn)]

/-- The form of a point in time is read as the point in time. -/
theorem read_tagged_instant {kind : FieldKind} {make : Instant → Value} (i : Instant)
    (hkind : ∀ n : Int, readContent false (some kind) (.integer n) =
      instantForm make (.integer n)) :
    read false (tagged kind (.integer i.epochMillis.toInt)).reread = .ok (make i) := by
  refine (read_tagged_integer hkind ⟨i.epochMillis.le_toInt, i.epochMillis.toInt_le⟩ le_rfl
    le_rfl).trans ?_
  rw [Int64.ofInt_toInt]

variable {onSingle : Binary binary32 → Binary binary32} {onDouble : Binary binary64 → Binary binary64}

/-- What is read of the text of a value that is not made of others. -/
theorem read_reread_of_single {v : Value} (h : ∀ kind, v.kind? = some kind → kind.isComposite = false)
    (hsingle : ∀ x, (float x).IsIn v →
      readContent false (some .float) (floatForm x).reread = .ok (float (onSingle x)))
    (hdouble : ∀ x, (double x).IsIn v →
      readContent false (some .double) (doubleForm x).reread = .ok (double (onDouble x))) :
    read false v.toForm.reread = .ok (v.mapFloats onSingle onDouble) := by
  cases v with
  | null => rfl
  | boolean b => cases b <;> rfl
  | byte n =>
    refine (read_tagged_integer (fun _ => rfl) ⟨n.le_toInt, n.toInt_le⟩ (by decide)
      (by decide)).trans ?_
    rw [Int8.ofInt_toInt]
    rfl
  | short n =>
    refine (read_tagged_integer (fun _ => rfl) ⟨n.le_toInt, n.toInt_le⟩ (by decide)
      (by decide)).trans ?_
    rw [Int16.ofInt_toInt]
    rfl
  | int n =>
    refine (read_tagged_integer (fun _ => rfl) ⟨n.le_toInt, n.toInt_le⟩ (by decide)
      (by decide)).trans ?_
    rw [Int32.ofInt_toInt]
    rfl
  | long n =>
    refine (read_tagged_integer (fun _ => rfl) ⟨n.le_toInt, n.toInt_le⟩ (by decide)
      (by decide)).trans ?_
    rw [Int64.ofInt_toInt]
    rfl
  | bigInt n =>
    rw [toForm, reread_tagged, read_tagged, isKept_bigIntForm n]
    exact readBigInt_bigIntForm n
  | float x =>
    rw [toForm, reread_tagged, read_tagged]
    exact hsingle x .here
  | double x =>
    rw [toForm, reread_tagged, read_tagged]
    exact hdouble x .here
  | char c =>
    rw [toForm, reread_tagged, read_tagged, Json.isKept_string]
    change readScalar .char (.string (String.ofList [c])) = _
    rw [readScalar, String.toList_ofList]
    rfl
  | string s =>
    rw [toForm, reread_tagged, read_tagged]
    rfl
  | date i => exact read_tagged_instant i fun _ => rfl
  | time i => exact read_tagged_instant i fun _ => rfl
  | timestamp i => exact read_tagged_instant i fun _ => rfl
  | array items => cases h .array rfl
  | map entries => cases h .map rfl
  | record schema members => cases h .record rfl

/-- The items of an array are read from what their forms are read as. -/
theorem readItems_reread {items : List Value}
    (h : ∀ item ∈ items, read false item.toForm.reread = .ok (item.mapFloats onSingle onDouble)) :
    readItems false (Json.rereadItems (itemForms items)) =
      .ok (items.map (mapFloats onSingle onDouble)) := by
  induction items with
  | nil => rfl
  | cons item rest ih =>
    obtain ⟨hitem, hrest⟩ := List.forall_mem_cons.mp h
    rw [itemForms, Json.rereadItems, readItems, hitem, ih hrest]
    rfl

/-- The forms of entries are read as the entries. -/
theorem readPairs_reread {entries : Entries}
    (hkeys : ∀ entry ∈ entries,
      read false entry.1.toForm.reread = .ok (entry.1.mapFloats onSingle onDouble))
    (hvalues : ∀ entry ∈ entries,
      read false entry.2.toForm.reread = .ok (entry.2.mapFloats onSingle onDouble)) :
    readPairs false (Json.rereadItems (entryForms entries)) =
      .ok (entries.map (Prod.map (mapFloats onSingle onDouble) (mapFloats onSingle onDouble))) := by
  induction entries with
  | nil => rfl
  | cons entry rest ih =>
    obtain ⟨key, value⟩ := entry
    obtain ⟨hkey, hrestKeys⟩ := List.forall_mem_cons.mp hkeys
    obtain ⟨hvalue, hrestValues⟩ := List.forall_mem_cons.mp hvalues
    rw [entryForms, Json.rereadItems, Json.reread, Json.rereadItems, Json.rereadItems,
      Json.rereadItems, readPairs, hkey, hvalue, ih hrestKeys hrestValues]
    rfl

/-- The forms of members are read as the members. -/
theorem readMembers_reread {members : Members}
    (h : ∀ member ∈ members,
      read false member.2.toForm.reread = .ok (member.2.mapFloats onSingle onDouble)) :
    readMembers false (Json.rereadMembers (memberForms members)) =
      .ok (members.map (Prod.map id (mapFloats onSingle onDouble))) := by
  induction members with
  | nil => rfl
  | cons member rest ih =>
    obtain ⟨name, value⟩ := member
    obtain ⟨hvalue, hrest⟩ := List.forall_mem_cons.mp h
    rw [memberForms, Json.rereadMembers, readMembers, hvalue, ih hrest]
    rfl

/-- What is read of the text of a value, if that of every floating-point number in it is read as the
number that it is changed to. -/
theorem read_reread_toForm {v : Value} (hwf : (v.mapFloats onSingle onDouble).IsWellFormed)
    (hsingle : ∀ x, (float x).IsIn v →
      readContent false (some .float) (floatForm x).reread = .ok (float (onSingle x)))
    (hdouble : ∀ x, (double x).IsIn v →
      readContent false (some .double) (doubleForm x).reread = .ok (double (onDouble x))) :
    read false v.toForm.reread = .ok (v.mapFloats onSingle onDouble) := by
  induction v using valueInduction with
  | single v h => exact read_reread_of_single h hsingle hdouble
  | array items ih =>
    rw [mapFloats_array] at hwf ⊢
    have hitems : ∀ item ∈ items,
        read false item.toForm.reread = .ok (item.mapFloats onSingle onDouble) := by
      intro item hmem
      exact ih item hmem (hwf.of_item (List.mem_map_of_mem hmem))
        (fun x hx => hsingle x (.item hmem hx)) (fun x hx => hdouble x (.item hmem hx))
    rw [toForm, reread_tagged, read_tagged, Json.reread, readContent, readItems_reread hitems]
    rfl
  | map entries ih =>
    rw [mapFloats_map] at hwf ⊢
    have hkeys : ∀ entry ∈ entries,
        read false entry.1.toForm.reread = .ok (entry.1.mapFloats onSingle onDouble) := by
      intro entry hmem
      exact (ih entry hmem).1 (hwf.of_key (List.mem_map_of_mem hmem))
        (fun x hx => hsingle x (.key hmem hx)) (fun x hx => hdouble x (.key hmem hx))
    have hvalues : ∀ entry ∈ entries,
        read false entry.2.toForm.reread = .ok (entry.2.mapFloats onSingle onDouble) := by
      intro entry hmem
      exact (ih entry hmem).2 (hwf.of_value (List.mem_map_of_mem hmem))
        (fun x hx => hsingle x (.value hmem hx)) (fun x hx => hdouble x (.value hmem hx))
    rw [toForm, reread_tagged, read_tagged, Json.reread, readContent, readPairs_reread hkeys hvalues]
    exact congrArg (fun entries => Except.ok (map entries)) (Ordered.ofList_of_distinct hwf.distinct_entries)
  | record schema members ih =>
    rw [mapFloats_record] at hwf ⊢
    have hmembers : ∀ member ∈ members,
        read false member.2.toForm.reread = .ok (member.2.mapFloats onSingle onDouble) := by
      intro member hmem
      exact ih member hmem (hwf.of_member (List.mem_map_of_mem hmem))
        (fun x hx => hsingle x (.member hmem hx)) (fun x hx => hdouble x (.member hmem hx))
    have hschema : schemaMember false [("schema", schema.toForm), ("values",
        .object (Json.rereadMembers (memberForms members)))] = .ok schema := by
      simp [schemaMember, Json.member?, Json.hasKey,
        Schema.readSchema_toForm hwf.schema_distinctNames]
    have hvalues : valuesMember false [("schema", schema.toForm), ("values",
        .object (Json.rereadMembers (memberForms members)))] =
        .ok (members.map (Prod.map id (mapFloats onSingle onDouble))) := by
      simp [valuesMember, Json.hasKey, readMembers_reread hmembers]
    rw [toForm, reread_tagged, read_tagged, Json.reread, Json.rereadMembers, Json.rereadMembers,
      Json.rereadMembers, schema.isKept_toForm, Json.reread, readContent, hschema, hvalues]
    exact congrArg (fun members => Except.ok (record schema members))
      (Ordered.ofList_of_distinct hwf.distinct_members)

/-- The text of a value that is not nested too deep is read as the value with its floating-point numbers
changed. -/
theorem ofText_text {v : Value} (hwf : (v.mapFloats onSingle onDouble).IsWellFormed)
    (hnesting : v.toForm.nesting ≤ Json.nestingLimit)
    (hsingle : ∀ x, (float x).IsIn v →
      readContent false (some .float) (floatForm x).reread = .ok (float (onSingle x)))
    (hdouble : ∀ x, (double x).IsIn v →
      readContent false (some .double) (doubleForm x).reread = .ok (double (onDouble x))) :
    ofText (String.ofList v.toForm.text) = .ok (v.mapFloats onSingle onDouble) := by
  rw [ofText, Json.readAs, String.toList_ofList, Json.read?_text hnesting]
  exact read_reread_toForm hwf hsingle hdouble

/-- A value without floating-point numbers is read back from its text as it was. -/
theorem written_value {v : Value} (hwf : v.IsWellFormed) (hsingle : ∀ x, ¬(float x).IsIn v)
    (hdouble : ∀ x, ¬(double x).IsIn v) (hnesting : v.toForm.nesting ≤ Json.nestingLimit) :
    ofText (String.ofList v.toForm.text) = .ok v := by
  have htext := @ofText_text id id v (by rwa [mapFloats_id]) hnesting
    (fun x hx => absurd hx (hsingle x)) fun x hx => absurd hx (hdouble x)
  rwa [mapFloats_id] at htext

/-- A map with a record, whose schema has a choice with a format, under a key that is no text. -/
def nestedSample : Value :=
  map [(array [bigInt (-1180591620717411303425), null],
      record ⟨[("day", .choice [.date (some .isoDate), .long])]⟩ [("day", date ⟨-1⟩)]),
    (null, null)]

/-- The nested sample is read as it was written. -/
theorem written_value_nestedSample :
    ofText (String.ofList nestedSample.toForm.text) = .ok nestedSample := by
  have hread : DeclaredType.readSchema true
      (Schema.toForm ⟨[("day", .choice [.date (some .isoDate), .long])]⟩) =
      .ok ⟨[("day", .choice [.date (some .isoDate), .long])]⟩ := rfl
  have hschema := DeclaredType.hasDistinctNames_of_readSchema hread
  have hsingle : null.IsWellFormed ∧ (∀ n, (bigInt n).IsWellFormed) ∧ ∀ i, (date i).IsWellFormed := by
    refine ⟨isWellFormed_of_single ?_, fun n => isWellFormed_of_single ?_,
      fun i => isWellFormed_of_single ?_⟩ <;> rintro kind ⟨⟩ <;> rfl
  have hparts : ∀ part : Value, (part.IsIn null ↔ part = null) ∧
      (∀ n, part.IsIn (bigInt n) ↔ part = bigInt n) ∧ ∀ i, part.IsIn (date i) ↔ part = date i :=
    fun part => ⟨isIn_single_iff rfl, fun n => isIn_single_iff rfl, fun i => isIn_single_iff rfl⟩
  refine written_value ?wellFormed ?single ?double (by decide +kernel)
  case wellFormed =>
    simp [nestedSample, isWellFormed_map_iff, isWellFormed_array_iff, isWellFormed_record_iff,
      hsingle, hschema, Ordered.Distinct, keyEq]
  case single =>
    simp [nestedSample, isIn_map_iff, isIn_array_iff, isIn_record_iff, hparts]
  case double =>
    simp [nestedSample, isIn_map_iff, isIn_array_iff, isIn_record_iff, hparts]

end Value

end RecordCoercion

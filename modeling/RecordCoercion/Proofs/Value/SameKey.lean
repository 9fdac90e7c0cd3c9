import RecordCoercion.Proofs.Value.Insertion
import RecordCoercion.Value.Display

/-!
# Same keys

Two values are the same key exactly if they are equal once the schemas of records are left out
(`Value.keyEq_iff`), so that being the same key is an equivalence. All that is seen of a key is left
alone by leaving out schemas: what a hash of it is computed from, its kind and its texts. Hence the
same keys cannot be told apart (`Value.keyEq_lawful`). A text that is looked for as such is found where
the value of the text is.
-/

set_option autoImplicit false

namespace RecordCoercion.Value

/-! ## Induction over values -/

/-- Induction over values with one case for all values that are not made of others. The composite ones
have what holds for their items, for the keys and values of their entries or for the values of their
members to build on. -/
theorem valueInduction {motive : Value → Prop}
    (single : ∀ v : Value, (∀ kind, v.kind? = some kind → kind.isComposite = false) → motive v)
    (array : ∀ items, (∀ item ∈ items, motive item) → motive (.array items))
    (map : ∀ entries : Entries, (∀ entry ∈ entries, motive entry.1 ∧ motive entry.2) →
      motive (.map entries))
    (record : ∀ schema (members : Members), (∀ member ∈ members, motive member.2) →
      motive (.record schema members))
    (v : Value) : motive v := by
  have hsingle : ∀ v : Value, (v.kind?.all fun kind => !kind.isComposite) = true → motive v := by
    intro v hv
    refine single v fun kind hkind => ?_
    simpa [hkind] using hv
  refine @Value.rec motive (fun items => ∀ item ∈ items, motive item)
    (fun entries => ∀ entry ∈ entries, motive entry.1 ∧ motive entry.2)
    (fun members => ∀ member ∈ members, motive member.2)
    (fun entry => motive entry.1 ∧ motive entry.2) (fun member => motive member.2)
    (hsingle _ rfl) (fun _ => hsingle _ rfl) (fun _ => hsingle _ rfl) (fun _ => hsingle _ rfl)
    (fun _ => hsingle _ rfl) (fun _ => hsingle _ rfl) (fun _ => hsingle _ rfl)
    (fun _ => hsingle _ rfl) (fun _ => hsingle _ rfl) (fun _ => hsingle _ rfl)
    (fun _ => hsingle _ rfl) (fun _ => hsingle _ rfl) (fun _ => hsingle _ rfl)
    (fun _ => hsingle _ rfl) array map record ?_ ?_ ?_ ?_ ?_ ?_ ?_ ?_ v
  · exact List.forall_mem_nil _
  · exact fun _ _ hitem hrest => List.forall_mem_cons.mpr ⟨hitem, hrest⟩
  · exact List.forall_mem_nil _
  · exact fun _ _ hentry hrest => List.forall_mem_cons.mpr ⟨hentry, hrest⟩
  · exact List.forall_mem_nil _
  · exact fun _ _ hmember hrest => List.forall_mem_cons.mpr ⟨hmember, hrest⟩
  · exact fun _ _ hkey hvalue => ⟨hkey, hvalue⟩
  · exact fun _ _ hvalue => hvalue

/-! ## Leaving out schemas -/

mutual

/-- A value with the schemas of all records in it left out. -/
def withoutSchemas : Value → Value
  | array items => array (itemsWithoutSchemas items)
  | map entries => map (entriesWithoutSchemas entries)
  | record _ members => record ⟨[]⟩ (membersWithoutSchemas members)
  | v => v

/-- Items with the schemas of all records in them left out. -/
def itemsWithoutSchemas : List Value → List Value
  | [] => []
  | item :: rest => item.withoutSchemas :: itemsWithoutSchemas rest

/-- Entries with the schemas of all records in them left out. -/
def entriesWithoutSchemas : List (Value × Value) → List (Value × Value)
  | [] => []
  | (key, value) :: rest => (key.withoutSchemas, value.withoutSchemas) :: entriesWithoutSchemas rest

/-- Members with the schemas of all records in them left out. -/
def membersWithoutSchemas : List (String × Value) → List (String × Value)
  | [] => []
  | (name, value) :: rest => (name, value.withoutSchemas) :: membersWithoutSchemas rest

end

/-- Schemas are left out item by item. -/
theorem itemsWithoutSchemas_eq (items : List Value) :
    itemsWithoutSchemas items = items.map withoutSchemas := by
  induction items with
  | nil => rfl
  | cons item rest ih => rw [itemsWithoutSchemas, ih, List.map_cons]

/-- Schemas are left out of keys and values, entry by entry. -/
theorem entriesWithoutSchemas_eq (entries : Entries) :
    entriesWithoutSchemas entries = entries.map (Prod.map withoutSchemas withoutSchemas) := by
  induction entries with
  | nil => rfl
  | cons entry rest ih => rw [entriesWithoutSchemas, ih, List.map_cons, Prod.map]

/-- Schemas are left out member by member. -/
theorem membersWithoutSchemas_eq (members : Members) :
    membersWithoutSchemas members = members.map (Prod.map id withoutSchemas) := by
  induction members with
  | nil => rfl
  | cons member rest ih => rw [membersWithoutSchemas, ih, List.map_cons, Prod.map, id]

/-- A value that is not made of others has no schemas. -/
theorem withoutSchemas_of_single {v : Value}
    (h : ∀ kind, v.kind? = some kind → kind.isComposite = false) : v.withoutSchemas = v := by
  cases v with
  | array items => cases h .array rfl
  | map entries => cases h .map rfl
  | record schema members => cases h .record rfl
  | _ => rfl

/-- A value without schemas is of the same kind. -/
theorem kind?_withoutSchemas (v : Value) : v.withoutSchemas.kind? = v.kind? := by
  cases v <;> rfl

/-- A value that is not made of others is the same key only as itself. -/
theorem keyEq_iff_of_single {a : Value}
    (h : ∀ kind, a.kind? = some kind → kind.isComposite = false) (b : Value) :
    a.keyEq b = true ↔ a = b := by
  cases a with
  | array items => cases h .array rfl
  | map entries => cases h .map rfl
  | record schema members => cases h .record rfl
  | _ => cases b <;> simp [keyEq]

/-- Items are the same as keys if they are the same without schemas. -/
theorem keyEqItems_iff {items others : List Value}
    (h : ∀ item ∈ items, ∀ other : Value,
      item.keyEq other = true ↔ item.withoutSchemas = other.withoutSchemas) :
    keyEqItems items others = true ↔ items.map withoutSchemas = others.map withoutSchemas := by
  induction items generalizing others with
  | nil => cases others <;> simp [keyEqItems]
  | cons item rest ih =>
    obtain ⟨hitem, hrest⟩ := List.forall_mem_cons.mp h
    cases others with
    | nil => simp [keyEqItems]
    | cons other others => simp [keyEqItems, hitem, ih hrest]

/-- Entries are the same as keys if they are the same without schemas. -/
theorem keyEqEntries_iff {entries others : Entries}
    (h : ∀ entry ∈ entries,
      (∀ other : Value, entry.1.keyEq other = true ↔
        entry.1.withoutSchemas = other.withoutSchemas) ∧
      ∀ other : Value, entry.2.keyEq other = true ↔
        entry.2.withoutSchemas = other.withoutSchemas) :
    keyEqEntries entries others = true ↔
      entries.map (Prod.map withoutSchemas withoutSchemas) =
        others.map (Prod.map withoutSchemas withoutSchemas) := by
  induction entries generalizing others with
  | nil => cases others <;> simp [keyEqEntries]
  | cons entry rest ih =>
    obtain ⟨⟨hkey, hvalue⟩, hrest⟩ := List.forall_mem_cons.mp h
    cases others with
    | nil => simp [keyEqEntries]
    | cons other others =>
      obtain ⟨key, value⟩ := entry
      obtain ⟨key', value'⟩ := other
      simp [keyEqEntries, hkey, hvalue, ih hrest]

/-- Members are the same as keys if they are the same without schemas. -/
theorem keyEqMembers_iff {members others : Members}
    (h : ∀ member ∈ members, ∀ other : Value,
      member.2.keyEq other = true ↔ member.2.withoutSchemas = other.withoutSchemas) :
    keyEqMembers members others = true ↔
      members.map (Prod.map id withoutSchemas) = others.map (Prod.map id withoutSchemas) := by
  induction members generalizing others with
  | nil => cases others <;> simp [keyEqMembers]
  | cons member rest ih =>
    obtain ⟨hvalue, hrest⟩ := List.forall_mem_cons.mp h
    cases others with
    | nil => simp [keyEqMembers]
    | cons other others =>
      obtain ⟨name, value⟩ := member
      obtain ⟨name', value'⟩ := other
      simp [keyEqMembers, hvalue, ih hrest]

/-- Values are the same key exactly if they are equal but for the schemas of records. -/
theorem keyEq_iff {a b : Value} : a.keyEq b = true ↔ a.withoutSchemas = b.withoutSchemas := by
  induction a using valueInduction generalizing b with
  | single a h =>
    rw [keyEq_iff_of_single h, withoutSchemas_of_single h]
    constructor
    · rintro rfl
      rw [withoutSchemas_of_single h]
    · intro heq
      have hkind : a.kind? = b.kind? := by rw [heq, kind?_withoutSchemas]
      rw [heq, withoutSchemas_of_single (by rwa [← hkind])]
  | array items ih =>
    cases b with
    | array others =>
      rw [keyEq, keyEqItems_iff fun item hmem other => ih item hmem]
      simp [withoutSchemas, itemsWithoutSchemas_eq]
    | _ => simp [keyEq, withoutSchemas]
  | map entries ih =>
    cases b with
    | map others =>
      rw [keyEq, keyEqEntries_iff fun entry hmem =>
        ⟨fun other => (ih entry hmem).1, fun other => (ih entry hmem).2⟩]
      simp [withoutSchemas, entriesWithoutSchemas_eq]
    | _ => simp [keyEq, withoutSchemas]
  | record schema members ih =>
    cases b with
    | record schema' others =>
      rw [keyEq, keyEqMembers_iff fun member hmem other => ih member hmem]
      simp [withoutSchemas, membersWithoutSchemas_eq]
    | _ => simp [keyEq, withoutSchemas]

/-- To be the same key is an equivalence. -/
theorem isEquiv_keyEq : Ordered.IsEquiv keyEq where
  refl _ := keyEq_iff.mpr rfl
  symm h := keyEq_iff.mpr (keyEq_iff.mp h).symm
  trans h h' := keyEq_iff.mpr ((keyEq_iff.mp h).trans (keyEq_iff.mp h'))

/-! ## What is seen of a key -/

/-- The atoms of items, one after the other. -/
theorem itemAtoms_eq (items : List Value) : itemAtoms items = items.flatMap keyAtoms := by
  induction items with
  | nil => rfl
  | cons item rest ih => rw [itemAtoms, ih, List.flatMap_cons]

/-- The atoms of entries, each key before its value. -/
theorem entryAtoms_eq (entries : Entries) :
    entryAtoms entries = entries.flatMap fun entry => entry.1.keyAtoms ++ entry.2.keyAtoms := by
  induction entries with
  | nil => rfl
  | cons entry rest ih => rw [entryAtoms, ih, List.flatMap_cons]

/-- The atoms of members, each name before its value. -/
theorem memberAtoms_eq (members : Members) :
    memberAtoms members = members.flatMap fun member => .text member.1 :: member.2.keyAtoms := by
  induction members with
  | nil => rfl
  | cons member rest ih => rw [memberAtoms, ih, List.flatMap_cons]

/-- Schemas do not identify a key. -/
theorem keyAtoms_withoutSchemas (v : Value) : v.withoutSchemas.keyAtoms = v.keyAtoms := by
  induction v using valueInduction with
  | single v h => rw [withoutSchemas_of_single h]
  | array items ih =>
    simp only [withoutSchemas, itemsWithoutSchemas_eq, keyAtoms, itemAtoms_eq, List.length_map,
      List.flatMap_map]
    rw [List.flatMap_congr ih]
  | map entries ih =>
    simp only [withoutSchemas, entriesWithoutSchemas_eq, keyAtoms, entryAtoms_eq, List.length_map,
      List.flatMap_map]
    rw [List.flatMap_congr fun entry hmem => ?_]
    rw [Prod.map_fst, Prod.map_snd, (ih entry hmem).1, (ih entry hmem).2]
  | record schema members ih =>
    simp only [withoutSchemas, membersWithoutSchemas_eq, keyAtoms, memberAtoms_eq, List.length_map,
      List.flatMap_map]
    rw [List.flatMap_congr fun member hmem => ?_]
    rw [Prod.map_fst, Prod.map_snd, ih member hmem, id]

/-- Schemas do not show in the text of a value. -/
theorem text_withoutSchemas (v : Value) : v.withoutSchemas.text = v.text := by
  induction v using valueInduction with
  | single v h => rw [withoutSchemas_of_single h]
  | array items ih =>
    rw [withoutSchemas, itemsWithoutSchemas_eq, text_array, text_array, List.map_map]
    rw [List.map_congr_left fun item hmem => ?_]
    exact ih item hmem
  | map entries ih =>
    rw [withoutSchemas, entriesWithoutSchemas_eq, text_map, text_map, List.map_map]
    rw [List.map_congr_left fun entry hmem => ?_]
    rw [Function.comp_apply, Prod.map_fst, Prod.map_snd, (ih entry hmem).1, (ih entry hmem).2]
  | record schema members ih =>
    rw [withoutSchemas, membersWithoutSchemas_eq, text_record, text_record, List.map_map]
    rw [List.map_congr_left fun member hmem => ?_]
    rw [Function.comp_apply, Prod.map_fst, Prod.map_snd, ih member hmem, id]

/-- Schemas do not show in the rendering of a value. -/
theorem render_withoutSchemas (format : Option TemporalFormat) (v : Value) :
    v.withoutSchemas.render format = v.render format := by
  have hdisplay : v.withoutSchemas.display = v.display := by
    rw [display, text_withoutSchemas, display]
  cases v with
  | array items => exact congrArg (fun text => Except.ok (some text)) hdisplay
  | map entries => exact congrArg (fun text => Except.ok (some text)) hdisplay
  | record schema members => exact congrArg (fun text => Except.ok (some text)) hdisplay
  | _ => rfl

/-! ## Text keys -/

/-- A key is a text exactly if it is the same key as the text. -/
theorem isText_eq_keyEq (text : String) (key : Value) : key.isText text = (string text).keyEq key := by
  cases key <;> simp [isText, string?, keyEq, Bool.beq_comm]

end RecordCoercion.Value

namespace RecordCoercion

open Value

/-- The same keys cannot be told apart. To be the same key is reflexive, for "not a number" too,
symmetric and transitive; the same keys have the same atoms, from which a hash is computed, the same
kind, the same displayed text and the same text in every format; and a text that is looked for as such
has the atoms of its value and is matched by the keys that are the same as its value. -/
theorem Value.keyEq_lawful :
    (∀ a : Value, a.keyEq a = true) ∧
    (∀ a b : Value, a.keyEq b = b.keyEq a) ∧
    (∀ a b c : Value, a.keyEq b = true → b.keyEq c = true → a.keyEq c = true) ∧
    (∀ a b : Value, a.keyEq b = true →
      a.keyAtoms = b.keyAtoms ∧ a.kindName = b.kindName ∧ a.display = b.display ∧
        ∀ format, a.render format = b.render format) ∧
    ∀ text : String, Value.textAtoms text = (Value.string text).keyAtoms ∧
      ∀ key : Value, key.isText text = (Value.string text).keyEq key := by
  refine ⟨isEquiv_keyEq.refl, fun a b => ?_, fun a b c => isEquiv_keyEq.trans, fun a b h => ?_,
    fun text => ⟨rfl, isText_eq_keyEq text⟩⟩
  · rw [Bool.eq_iff_iff]
    exact ⟨isEquiv_keyEq.symm, isEquiv_keyEq.symm⟩
  · have heq := keyEq_iff.mp h
    refine ⟨?_, ?_, ?_, fun format => ?_⟩
    · rw [← keyAtoms_withoutSchemas a, heq, keyAtoms_withoutSchemas]
    · rw [kindName, kindName, ← kind?_withoutSchemas a, heq, kind?_withoutSchemas]
    · rw [display, display, ← text_withoutSchemas a, heq, text_withoutSchemas]
    · rw [← render_withoutSchemas format a, heq, render_withoutSchemas]

/-- A record that holds "not a number" is the same key under three schemas. -/
theorem Value.keyEq_lawful_other_schemas :
    (record ⟨[("x", .array)]⟩ [("x", array [double (.nan false)])]).keyEq
        (record ⟨[]⟩ [("x", array [double (.nan false)])]) = true ∧
    (record ⟨[]⟩ [("x", array [double (.nan false)])]).keyEq
        (record ⟨[("y", .int)]⟩ [("x", array [double (.nan false)])]) = true ∧
    (record ⟨[("x", .array)]⟩ [("x", array [double (.nan false)])]).keyEq
        (record ⟨[("y", .int)]⟩ [("x", array [double (.nan false)])]) = true ∧
    (record ⟨[("x", .array)]⟩ [("x", array [double (.nan false)])]).keyAtoms =
      (record ⟨[]⟩ [("x", array [double (.nan false)])]).keyAtoms ∧
    (record ⟨[("x", .array)]⟩ [("x", array [double (.nan false)])]).kindName =
      (record ⟨[]⟩ [("x", array [double (.nan false)])]).kindName ∧
    (record ⟨[("x", .array)]⟩ [("x", array [double (.nan false)])]).display =
      (record ⟨[]⟩ [("x", array [double (.nan false)])]).display ∧
    (record ⟨[("x", .array)]⟩ [("x", array [double (.nan false)])]).render (some .isoDate) =
      (record ⟨[]⟩ [("x", array [double (.nan false)])]).render (some .isoDate) := by
  obtain ⟨-, -, htrans, hseen, -⟩ := keyEq_lawful
  have h : (record ⟨[("x", .array)]⟩ [("x", array [double (.nan false)])]).keyEq
      (record ⟨[]⟩ [("x", array [double (.nan false)])]) = true := by
    simp [keyEq, keyEqMembers, keyEqItems]
  have h' : (record ⟨[]⟩ [("x", array [double (.nan false)])]).keyEq
      (record ⟨[("y", .int)]⟩ [("x", array [double (.nan false)])]) = true := by
    simp [keyEq, keyEqMembers, keyEqItems]
  obtain ⟨hatoms, hkind, hdisplay, hrender⟩ := hseen _ _ h
  exact ⟨h, h', htrans _ _ _ h h', hatoms, hkind, hdisplay, hrender (some .isoDate)⟩

end RecordCoercion

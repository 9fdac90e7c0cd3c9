import RecordCoercion.Proofs.Value.Insertion
import RecordCoercion.Value.Document

/-!
# Places inside a value

A place is a path of steps to the items of arrays and to the members of maps and records
(`Value.at?`). In the value of a document the place of an array's item is its index, and under a
name is the last member that has it (`Value.child?_ofDocument_array`, `Value.child?_ofDocument_object`).
-/

set_option autoImplicit false

namespace RecordCoercion

/-! ## Lookups -/

namespace Ordered

variable {κ ι α β : Type} {eq : κ → κ → Bool} {eq' : ι → ι → Bool} {rename : κ → ι}

/-- Under a renamed key is what became of the value under the key. -/
theorem get?_map (h : ∀ k l, eq' (rename k) (rename l) = eq k l) (f : α → β) (key : κ)
    (entries : List (κ × α)) :
    get? eq' (rename key) (entries.map (Prod.map rename f)) = (get? eq key entries).map f := by
  induction entries with
  | nil => rfl
  | cons entry rest ih =>
    obtain ⟨k, value⟩ := entry
    rw [List.map_cons, Prod.map_apply, get?, get?, h, ih]
    split <;> rfl

/-- What was inserted last is what is found first from the end. -/
theorem lastInserted?_eq_get?_reverse (insertions : List (κ × α)) (key : κ) :
    lastInserted? eq insertions key = get? eq key insertions.reverse := by
  unfold lastInserted?
  induction insertions.reverse with
  | nil => rfl
  | cons insertion rest ih =>
    obtain ⟨k, value⟩ := insertion
    rw [get?, ← ih]
    cases h : eq k key <;> simp [h]

/-- What was inserted last is renamed with all insertions. -/
theorem lastInserted?_map (h : ∀ k l, eq' (rename k) (rename l) = eq k l) (f : α → β) (key : κ)
    (insertions : List (κ × α)) :
    lastInserted? eq' (insertions.map (Prod.map rename f)) (rename key) =
      (lastInserted? eq insertions key).map f := by
  rw [lastInserted?_eq_get?_reverse, lastInserted?_eq_get?_reverse, ← List.map_reverse, get?_map h]

end Ordered

/-! ## Places -/

/-- One step from a container to something in it. -/
inductive PlaceStep
  | item (index : Nat)
  | member (name : String)
  deriving DecidableEq

namespace Value

/-- What stands in a container at the end of a step. -/
def child? : Value → PlaceStep → Option Value
  | array items, .item index => items[index]?
  | map entries, .member name => Entries.get? entries (string name)
  | record _ members, .member name => Members.find? members name
  | _, _ => none

/-- What stands in a value at the end of a path. -/
def at? (v : Value) (place : List PlaceStep) : Option Value := place.foldlM child? v

/-! ## Sorted members -/

variable {α : Type}

/-- A sorted entry is found under its key, and the others where they were. -/
theorem get?_insertSorted (key name : String) (value : α) (entries : List (String × α)) :
    Ordered.get? (· == ·) name (insertSorted key value entries) =
      if key == name then some value else Ordered.get? (· == ·) name entries := by
  induction entries with
  | nil => rfl
  | cons entry rest ih =>
    obtain ⟨k, old⟩ := entry
    rw [insertSorted]
    split
    · rw [Ordered.get?]
    · split
      · next hk =>
        subst hk
        rw [Ordered.get?, Ordered.get?]
        split <;> rfl
      · next hk =>
        rw [Ordered.get?, Ordered.get?, ih]
        by_cases hname : k = name
        · have hother : ¬key = name := fun hkey => hk (hname.trans hkey.symm)
          simp [hname, hother]
        · simp [hname]

/-- Under a name the sorted entries have the last value of the name. -/
theorem get?_sortedByKey (entries : List (String × α)) (name : String) :
    Ordered.get? (· == ·) name (sortedByKey entries) =
      Ordered.lastInserted? (· == ·) entries name := by
  -- the entries are put in one after the other, so what was there before comes last
  have hrun : ∀ sorted : List (String × α), Ordered.get? (· == ·) name
      (entries.foldl (fun sorted entry => insertSorted entry.1 entry.2 sorted) sorted) =
      (Ordered.lastInserted? (· == ·) entries name).or (Ordered.get? (· == ·) name sorted) := by
    induction entries with
    | nil =>
      intro sorted
      rfl
    | cons entry rest ih =>
      intro sorted
      rw [List.foldl_cons, ih, get?_insertSorted, Ordered.lastInserted?, Ordered.lastInserted?,
        List.reverse_cons, List.find?_append, Option.map_or, Option.or_assoc]
      cases h : entry.1 == name <;> simp [h]
  have hnothing := hrun []
  rw [Ordered.get?, Option.or_none] at hnothing
  exact hnothing

/-! ## Values of documents -/

/-- The values of documents, one by one. -/
theorem ofDocuments_eq (items : List Json) : ofDocuments items = items.map ofDocument := by
  induction items with
  | nil => rfl
  | cons item rest ih => rw [ofDocuments, ih, List.map_cons]

/-- The values of members, one by one, under their names. -/
theorem ofDocumentMembers_eq (members : List (String × Json)) :
    ofDocumentMembers members = members.map (Prod.map id ofDocument) := by
  induction members with
  | nil => rfl
  | cons member rest ih =>
    obtain ⟨key, value⟩ := member
    rw [ofDocumentMembers, ih, List.map_cons, Prod.map_apply, id_eq]

/-- The items of an array keep their places. -/
theorem child?_ofDocument_array (items : List Json) (index : Nat) :
    (ofDocument (.array items)).child? (.item index) = items[index]?.map ofDocument := by
  rw [ofDocument, child?, ofDocuments_eq, List.getElem?_map]

/-- Under a name an object has the value of the last member of this name. -/
theorem child?_ofDocument_object (members : List (String × Json)) (name : String) :
    (ofDocument (.object members)).child? (.member name) =
      (Ordered.lastInserted? (· == ·) members name).map ofDocument := by
  have hkeys : ∀ k l : String, keyEq (string k) (string l) = (k == l) := by
    intro k l
    rw [keyEq]
  have hentries := Ordered.get?_map hkeys id name (sortedByKey (ofDocumentMembers members))
  have hlast : Ordered.lastInserted? (· == ·) (ofDocumentMembers members) name =
      (Ordered.lastInserted? (· == ·) members name).map ofDocument := by
    rw [ofDocumentMembers_eq]
    exact Ordered.lastInserted?_map (fun _ _ => rfl) ofDocument name members
  rw [Option.map_id, id_eq, get?_sortedByKey, hlast] at hentries
  rw [ofDocument, child?, Entries.get?]
  exact hentries

end Value

end RecordCoercion

import RecordCoercion.Proofs.Value.Insertion

/-!
# Renaming and selecting entries

What is done to every entry of a list of insertions can as well be done to what the insertions leave:
keys may be replaced one for one and values by any function (`Ordered.map_ofList`), and entries may be
left out by their keys while the others are taken up under new names, as long as no two keys get the same
name (`Ordered.named_filterMap_ofList`).
-/

set_option autoImplicit false

namespace RecordCoercion.Ordered

variable {κ ι α β : Type}

/-! ## Renaming -/

section

variable {eq : κ → κ → Bool} {eq' : ι → ι → Bool} {rename : κ → ι}

/-- An insertion is renamed with the entries, if renaming keeps keys apart. -/
theorem map_insert (h : ∀ k l, eq' (rename k) (rename l) = eq k l) (f : α → β) (key : κ) (value : α)
    (entries : List (κ × α)) :
    (insert eq key value entries).map (Prod.map rename f) =
      insert eq' (rename key) (f value) (entries.map (Prod.map rename f)) := by
  induction entries with
  | nil => rfl
  | cons entry rest ih =>
    obtain ⟨k, old⟩ := entry
    rw [insert, List.map_cons, Prod.map_apply, insert, h]
    split
    · simp
    · simp [ih]

/-- Insertions are renamed with the entries, if renaming keeps keys apart. -/
theorem map_insertAll (h : ∀ k l, eq' (rename k) (rename l) = eq k l) (f : α → β)
    (entries insertions : List (κ × α)) :
    (insertAll eq entries insertions).map (Prod.map rename f) =
      insertAll eq' (entries.map (Prod.map rename f)) (insertions.map (Prod.map rename f)) := by
  induction insertions generalizing entries with
  | nil => simp
  | cons insertion rest ih =>
    obtain ⟨key, value⟩ := insertion
    simp only [insertAll_cons, List.map_cons, Prod.map_apply, ih, map_insert h]

/-- Keys that stay as equal as they were, and values, may be replaced before the insertions or after
them. -/
theorem map_ofList (h : ∀ k l, eq' (rename k) (rename l) = eq k l) (f : α → β)
    (insertions : List (κ × α)) :
    (ofList eq insertions).map (Prod.map rename f) =
      ofList eq' (insertions.map (Prod.map rename f)) := by
  rw [ofList, map_insertAll h]
  rfl

end

/-! ## Selecting -/

/-- What is selected is listed under its name. -/
def named (name : β → ι) (selected : List β) : List (ι × β) := selected.map fun b => (name b, b)

/-- Nothing that was selected has no names. -/
@[simp] theorem named_nil (name : β → ι) : named name [] = [] := rfl

/-- What is selected first comes first with its name. -/
@[simp] theorem named_cons (name : β → ι) (b : β) (rest : List β) :
    named name (b :: rest) = (name b, b) :: named name rest := rfl

/-- What is listed under its name is what is selected. -/
theorem mem_named_iff (name : β → ι) {b : β} {selected : List β} :
    (name b, b) ∈ named name selected ↔ b ∈ selected := by
  simp [named]

section

variable [BEq κ] [LawfulBEq κ]

/-- What a list of insertions leaves was inserted. -/
theorem mem_of_mem_ofList {insertions : List (κ × α)} {entry : κ × α}
    (h : entry ∈ ofList (· == ·) insertions) : entry ∈ insertions := by
  refine forall_mem_insertAll (P := (· ∈ insertions)) ?_ (by simp) entry h
  rintro insertion hmem k (rfl | heq)
  · exact hmem
  · rw [beq_iff_eq.mp heq]
    exact hmem

/-- The last insertion under a key is left. -/
theorem mem_ofList_of_last {before after : List (κ × α)} {last : κ × α}
    (h : ∀ later ∈ after, later.1 ≠ last.1) : last ∈ ofList (· == ·) (before ++ last :: after) := by
  have hget : get? (· == ·) last.1 (ofList (· == ·) (before ++ last :: after)) = some last.2 := by
    apply get?_insertAll_last isEquiv_beq
    simpa using h
  obtain ⟨first, k, rest, hentries, hk, -⟩ := exists_insert_of_get?_eq_some hget
  rw [beq_iff_eq] at hk
  rw [hentries, hk]
  simp

variable {select : κ × α → Option β} {name : β → ι} {nameOf : κ → Option ι}

/-- Where an insertion is left out, so is the entry it goes to. -/
theorem filterMap_insert_of_none (hname : ∀ k v, (select (k, v)).map name = nameOf k) {key : κ}
    {value : α} (h : select (key, value) = none) (entries : List (κ × α)) :
    (insert (· == ·) key value entries).filterMap select = entries.filterMap select := by
  have hnone : ∀ v, select (key, v) = none := by
    intro v
    rw [← Option.map_eq_none_iff (f := name), hname, ← hname key value, h, Option.map_none]
  induction entries with
  | nil => simp [insert, h]
  | cons entry rest ih =>
    obtain ⟨k, old⟩ := entry
    by_cases hk : k = key
    · simp [insert, hk, hnone]
    · simp [insert, hk, List.filterMap_cons, ih]

variable [BEq ι] [LawfulBEq ι]

/-- A selected insertion is one under the name of what it gives. -/
theorem named_filterMap_insert (hname : ∀ k v, (select (k, v)).map name = nameOf k)
    (hinj : ∀ k l n, nameOf k = some n → nameOf l = some n → k = l) {key : κ} {value : α} {b : β}
    (h : select (key, value) = some b) (entries : List (κ × α)) :
    named name ((insert (· == ·) key value entries).filterMap select) =
      insert (· == ·) (name b) b (named name (entries.filterMap select)) := by
  have hkey : nameOf key = some (name b) := by rw [← hname key value, h, Option.map_some]
  induction entries with
  | nil => simp [insert, h]
  | cons entry rest ih =>
    obtain ⟨k, old⟩ := entry
    have hold := hname k old
    by_cases hk : k = key
    · -- the entry of the key is selected too, under the same name
      subst hk
      rw [hkey, Option.map_eq_some_iff] at hold
      obtain ⟨c, hc, hcname⟩ := hold
      simp [insert, h, hc, hcname]
    · have hskip : insert (· == ·) key value ((k, old) :: rest) =
          (k, old) :: insert (· == ·) key value rest := by simp [insert, hk]
      rw [hskip]
      cases hc : select (k, old) with
      | none => rw [List.filterMap_cons_none hc, List.filterMap_cons_none hc, ih]
      | some c =>
        have hne : name c ≠ name b := by
          intro heq
          rw [hc, Option.map_some, heq] at hold
          exact hk (hinj k key _ hold.symm hkey)
        rw [List.filterMap_cons_some hc, List.filterMap_cons_some hc, named_cons, named_cons, ih]
        simp [insert, hne]

/-- Entries may be selected by their keys before the insertions or after them, if what is selected has a
name that tells its key. -/
theorem named_filterMap_ofList (hname : ∀ k v, (select (k, v)).map name = nameOf k)
    (hinj : ∀ k l n, nameOf k = some n → nameOf l = some n → k = l) (insertions : List (κ × α)) :
    named name ((ofList (· == ·) insertions).filterMap select) =
      ofList (· == ·) (named name (insertions.filterMap select)) := by
  -- the entries so far grow along the run, so the induction is for all of them
  suffices hrun : ∀ entries : List (κ × α),
      named name ((insertAll (· == ·) entries insertions).filterMap select) =
        insertAll (· == ·) (named name (entries.filterMap select))
          (named name (insertions.filterMap select)) from hrun []
  induction insertions with
  | nil => intro entries; rfl
  | cons insertion rest ih =>
    intro entries
    obtain ⟨key, value⟩ := insertion
    rw [insertAll_cons, ih]
    cases h : select (key, value) with
    | none => rw [filterMap_insert_of_none hname h, List.filterMap_cons_none h]
    | some b =>
      rw [named_filterMap_insert hname hinj h, List.filterMap_cons_some h, named_cons, insertAll_cons]

end

end RecordCoercion.Ordered

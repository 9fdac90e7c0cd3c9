/-!
# Lists of entries in insertion order

A map that remembers the order of insertion is a list of pairs, and the equality of its keys is a
parameter. Inserting under a key that is already there replaces the value and keeps the key and its
place; any other key goes to the end.
-/

set_option autoImplicit false

namespace RecordCoercion.Ordered

variable {κ α : Type}

/-- The value under a key. -/
def get? (eq : κ → κ → Bool) (key : κ) : List (κ × α) → Option α
  | [] => none
  | (k, value) :: rest => if eq k key then some value else get? eq key rest

/-- The entries after an insertion. -/
def insert (eq : κ → κ → Bool) (key : κ) (value : α) : List (κ × α) → List (κ × α)
  | [] => [(key, value)]
  | (k, old) :: rest =>
    if eq k key then (k, value) :: rest else (k, old) :: insert eq key value rest

/-- The entries that a list of insertions leaves, one after the other. -/
def insertAll (eq : κ → κ → Bool) (entries insertions : List (κ × α)) : List (κ × α) :=
  insertions.foldl (fun acc (key, value) => insert eq key value acc) entries

/-- The entries of a list of insertions into nothing. -/
def ofList (eq : κ → κ → Bool) (insertions : List (κ × α)) : List (κ × α) :=
  insertAll eq [] insertions

/-- No insertions change nothing. -/
@[simp] theorem insertAll_nil (eq : κ → κ → Bool) (entries : List (κ × α)) :
    insertAll eq entries [] = entries := rfl

/-- Insertions are made from the first on. -/
@[simp] theorem insertAll_cons (eq : κ → κ → Bool) (entries rest : List (κ × α)) (key : κ)
    (value : α) :
    insertAll eq entries ((key, value) :: rest) = insertAll eq (insert eq key value entries) rest :=
  rfl

/-- Inserting keeps the keys or adds the new one at the end. -/
theorem keys_insert (eq : κ → κ → Bool) (key : κ) (value : α) (entries : List (κ × α)) :
    (insert eq key value entries).map (·.1) =
      if (get? eq key entries).isSome then entries.map (·.1) else entries.map (·.1) ++ [key] := by
  induction entries with
  | nil => rfl
  | cons entry rest ih =>
    obtain ⟨k, old⟩ := entry
    by_cases h : eq k key = true
    · simp [insert, get?, h]
    · simp only [insert, get?, h, Bool.false_eq_true, if_false, List.map_cons, ih]
      split <;> simp

end RecordCoercion.Ordered

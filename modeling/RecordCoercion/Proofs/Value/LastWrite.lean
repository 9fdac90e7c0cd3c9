import RecordCoercion.Proofs.Value.SameKey

/-!
# The last write wins

A map is what a run of insertions leaves. `Entries.last_write_wins` says all that a run leaves in terms
of the insertions alone: which keys stand where, which values they have, what each further insertion
returns and changes, and what is found under a key. The laws of single insertions hold for any
equivalence of keys; here they are put together for values, of which the same keys form one.
-/

set_option autoImplicit false

namespace RecordCoercion.Entries

open Value

/-- The keys of a list of insertions, each where it is inserted first and as it is inserted then. -/
def firstKeys (insertions : List (Value × Value)) : List Value :=
  (insertions.map (·.1)).eraseDupsBy fun key k => k.keyEq key

/-- The value that was inserted last under a key. -/
def lastInserted? (insertions : List (Value × Value)) (key : Value) : Option Value :=
  Ordered.lastInserted? keyEq insertions key

/-- One more insertion is made into what the insertions before it leave. -/
theorem ofList_append_singleton (insertions : List (Value × Value)) (key value : Value) :
    ofList (insertions ++ [(key, value)]) = (ofList insertions).insert key value := by
  rw [ofList, Ordered.ofList, Ordered.insertAll, List.foldl_append]
  rfl

/-- A map holds under a key what was inserted last. -/
theorem get?_ofList (insertions : List (Value × Value)) (key : Value) :
    (ofList insertions).get? key = lastInserted? insertions key :=
  Ordered.get?_ofList isEquiv_keyEq insertions key

/-- A text is looked for as its value is. -/
theorem getText?_eq_get? (entries : Entries) (text : String) :
    entries.getText? text = entries.get? (.string text) := by
  induction entries with
  | nil => rfl
  | cons entry rest ih =>
    obtain ⟨key, value⟩ := entry
    have hkey : key.keyEq (.string text) = key.isText text := by
      rw [isText_eq_keyEq, Bool.eq_iff_iff]
      exact ⟨isEquiv_keyEq.symm, isEquiv_keyEq.symm⟩
    rw [get?] at ih ⊢
    rw [Ordered.get?, hkey, ← ih]
    cases h : key.isText text <;> simp [getText?, h]

/-- What a further insertion changes: nothing but the value of the entry of its key, or if there is
none, it adds an entry at the end. -/
theorem insert_cases (entries : Entries) (key value : Value) :
    (entries.get? key = none ∧ entries.insert key value = entries ++ [(key, value)]) ∨
      ∃ before k old after, entries.get? key = some old ∧ k.keyEq key = true ∧
        entries = before ++ (k, old) :: after ∧
        entries.insert key value = before ++ (k, value) :: after := by
  cases h : entries.get? key with
  | none => exact .inl ⟨rfl, Ordered.insert_of_get?_eq_none h value⟩
  | some old =>
    obtain ⟨before, k, after, hentries, hk, hinsert⟩ := Ordered.exists_insert_of_get?_eq_some h
    exact .inr ⟨before, k, old, after, rfl, hk, hentries, hinsert value⟩

/-- What a run of insertions into an empty map leaves. At every step no key comes twice. The keys stand
in the order in which they are first inserted and as they are inserted then, and each has the value
that is inserted last. A further insertion returns the last value of its key, if there is one, and
changes the entry of the key and no other. A value is found under a key exactly if something is inserted
under the same key, and it is what is inserted last; under a text is what is under its value. The
entries of the map are a run of insertions that leaves the same map. -/
theorem last_write_wins (insertions : List (Value × Value)) :
    (∀ steps, Ordered.Distinct keyEq (ofList (insertions.take steps))) ∧
    (ofList insertions).map (·.1) = firstKeys insertions ∧
    (∀ entry ∈ ofList insertions, lastInserted? insertions entry.1 = some entry.2) ∧
    (∀ key value, (ofList insertions).getThenInsert key value =
      (lastInserted? insertions key, ofList (insertions ++ [(key, value)]))) ∧
    (∀ key value,
      (lastInserted? insertions key = none ∧
        ofList (insertions ++ [(key, value)]) = ofList insertions ++ [(key, value)]) ∨
      ∃ before k old after, lastInserted? insertions key = some old ∧ k.keyEq key = true ∧
        ofList insertions = before ++ (k, old) :: after ∧
        ofList (insertions ++ [(key, value)]) = before ++ (k, value) :: after) ∧
    (∀ key, (ofList insertions).get? key = lastInserted? insertions key ∧
      (((ofList insertions).get? key).isSome = true ↔
        ∃ insertion ∈ insertions, insertion.1.keyEq key = true)) ∧
    (∀ text, (ofList insertions).getText? text = (ofList insertions).get? (.string text)) ∧
    ofList (ofList insertions) = ofList insertions := by
  have hdistinct : ∀ insertions : List (Value × Value), Ordered.Distinct keyEq (ofList insertions) :=
    Ordered.distinct_ofList
  refine ⟨fun steps => hdistinct _, Ordered.keys_ofList insertions, fun entry hmem => ?_,
    fun key value => ?_, fun key value => ?_, fun key => ⟨get?_ofList insertions key, ?_⟩,
    getText?_eq_get? _, Ordered.ofList_of_distinct (hdistinct insertions)⟩
  · rw [← get?_ofList]
    exact Ordered.get?_of_mem isEquiv_keyEq (hdistinct insertions) hmem
  · rw [getThenInsert, get?_ofList, ofList_append_singleton]
  · rw [← get?_ofList, ofList_append_singleton]
    exact insert_cases (ofList insertions) key value
  · rw [get?_ofList]
    exact Ordered.isSome_lastInserted?_iff

/-- The key "not a number" has the value that is inserted last under it, at its first place. -/
theorem last_write_wins_nan :
    (double (.nan false), int 2) ∈
        ofList [(double (.nan false), int 1), (long 1, string "one"), (double (.nan false), int 2)] ∧
      lastInserted? [(double (.nan false), int 1), (long 1, string "one"), (double (.nan false), int 2)]
        (double (.nan false)) = some (int 2) := by
  have hmem : (double (.nan false), int 2) ∈
      ofList [(double (.nan false), int 1), (long 1, string "one"), (double (.nan false), int 2)] := by
    simp [ofList, Ordered.ofList, Ordered.insert, keyEq]
  exact ⟨hmem, (last_write_wins _).2.2.1 _ hmem⟩

end RecordCoercion.Entries

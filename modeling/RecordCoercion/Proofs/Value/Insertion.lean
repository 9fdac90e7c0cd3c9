import Mathlib.Data.List.Basic
import RecordCoercion.Value.Key

/-!
# Runs of insertions

What a run of insertions leaves in a list of entries in insertion order: `keys_insertAll` gives the
keys and their order, `get?_insertAll` the value under a key, and `distinct_insertAll` says that no
key comes twice. The equality of keys is a parameter; only the statement about values needs it to
be an equivalence.
-/

set_option autoImplicit false

namespace RecordCoercion.Ordered

variable {κ α : Type} {eq : κ → κ → Bool}

/-- There is a value under a key exactly if one of the keys is equal to it. -/
theorem isSome_get? (key : κ) (entries : List (κ × α)) :
    (get? eq key entries).isSome = (entries.map (·.1)).any (eq · key) := by
  induction entries with
  | nil => rfl
  | cons entry rest ih =>
    obtain ⟨k, old⟩ := entry
    cases h : eq k key <;> simp_all [get?]

/-- What holds of all entries before an insertion and of the new value under each equal key holds of
all entries after it. -/
theorem forall_mem_insert {P : κ × α → Prop} {key : κ} {value : α} {entries : List (κ × α)}
    (hnew : ∀ k, k = key ∨ eq k key = true → P (k, value)) (hold : ∀ entry ∈ entries, P entry) :
    ∀ entry ∈ insert eq key value entries, P entry := by
  induction entries with
  | nil =>
    intro entry hmem
    rw [List.mem_singleton.mp hmem]
    exact hnew key (.inl rfl)
  | cons entry rest ih =>
    obtain ⟨k, old⟩ := entry
    rw [List.forall_mem_cons] at hold
    rw [insert]
    split
    next h => exact List.forall_mem_cons.mpr ⟨hnew k (.inr h), hold.2⟩
    next => exact List.forall_mem_cons.mpr ⟨hold.1, ih hold.2⟩

/-- What holds of all entries before a run of insertions and of all inserted values under equal keys
holds of all entries after it. -/
theorem forall_mem_insertAll {P : κ × α → Prop} {entries insertions : List (κ × α)}
    (hnew : ∀ insertion ∈ insertions, ∀ k, k = insertion.1 ∨ eq k insertion.1 = true →
      P (k, insertion.2))
    (hold : ∀ entry ∈ entries, P entry) : ∀ entry ∈ insertAll eq entries insertions, P entry := by
  induction insertions generalizing entries with
  | nil => exact hold
  | cons insertion rest ih =>
    rw [List.forall_mem_cons] at hnew
    obtain ⟨key, value⟩ := insertion
    rw [insertAll_cons]
    exact ih hnew.2 (forall_mem_insert hnew.1 hold)

/-! ## Keys -/

/-- The keys after a run of insertions: those before, and behind them the new ones in the order in
which each is first inserted. -/
theorem keys_insertAll (entries insertions : List (κ × α)) :
    (insertAll eq entries insertions).map (·.1) =
      entries.map (·.1) ++
        ((insertions.map (·.1)).filter fun key => !(entries.map (·.1)).any (eq · key)).eraseDupsBy
          fun key k => eq k key := by
  induction insertions generalizing entries with
  | nil => simp
  | cons insertion rest ih =>
    obtain ⟨key, value⟩ := insertion
    rw [insertAll_cons, ih, keys_insert, isSome_get?, List.map_cons]
    by_cases h : (entries.map (·.1)).any (eq · key) = true
    · rw [if_pos h, List.filter_cons_of_neg (by simpa using h)]
    · rw [if_neg h, List.filter_cons_of_pos (by simpa using h), List.eraseDupsBy_cons,
        List.filter_filter, List.append_assoc, List.singleton_append]
      simp [Bool.and_comm]

/-- The keys of a list of insertions into nothing. -/
theorem keys_ofList (insertions : List (κ × α)) :
    (ofList eq insertions).map (·.1) =
      (insertions.map (·.1)).eraseDupsBy fun key k => eq k key := by
  rw [ofList, keys_insertAll]
  simp

/-- No two entries have equal keys. -/
def Distinct (eq : κ → κ → Bool) (entries : List (κ × α)) : Prop :=
  (entries.map (·.1)).Pairwise fun k l => eq k l = false

/-- An insertion makes no key come twice. -/
theorem distinct_insert {entries : List (κ × α)} (h : Distinct eq entries) (key : κ) (value : α) :
    Distinct eq (insert eq key value entries) := by
  unfold Distinct
  rw [keys_insert, isSome_get?]
  split
  next => exact h
  next hnew =>
    rw [List.pairwise_append]
    refine ⟨h, List.pairwise_singleton _ _, ?_⟩
    intro k hk l hl
    rw [List.mem_singleton.mp hl, Bool.eq_false_iff]
    exact fun heq => hnew (List.any_eq_true.mpr ⟨k, hk, heq⟩)

/-- A run of insertions makes no key come twice. -/
theorem distinct_insertAll {entries : List (κ × α)} (h : Distinct eq entries)
    (insertions : List (κ × α)) : Distinct eq (insertAll eq entries insertions) := by
  induction insertions generalizing entries with
  | nil => exact h
  | cons insertion rest ih => exact ih (distinct_insert h insertion.1 insertion.2)

/-- A list of insertions into nothing leaves every key once. -/
theorem distinct_ofList (insertions : List (κ × α)) : Distinct eq (ofList eq insertions) := by
  apply distinct_insertAll
  exact List.Pairwise.nil

/-- An insertion under a new key goes to the end. -/
theorem insert_of_forall_ne {key : κ} {value : α} {entries : List (κ × α)}
    (h : ∀ entry ∈ entries, eq entry.1 key = false) :
    insert eq key value entries = entries ++ [(key, value)] := by
  induction entries with
  | nil => rfl
  | cons entry rest ih =>
    obtain ⟨hentry, hrest⟩ := List.forall_mem_cons.mp h
    rw [insert, if_neg (by simp [hentry]), ih hrest, List.cons_append]

/-- Insertions under distinct new keys leave the entries as they come. -/
theorem insertAll_of_distinct {entries insertions : List (κ × α)}
    (h : Distinct eq (entries ++ insertions)) :
    insertAll eq entries insertions = entries ++ insertions := by
  induction insertions generalizing entries with
  | nil => simp
  | cons insertion rest ih =>
    obtain ⟨key, value⟩ := insertion
    have hnew : ∀ entry ∈ entries, eq entry.1 key = false := by
      intro entry hmem
      rw [Distinct, List.map_append, List.pairwise_append] at h
      exact h.2.2 entry.1 (List.mem_map_of_mem hmem) key (by simp)
    have hassoc : entries ++ [(key, value)] ++ rest = entries ++ (key, value) :: rest := by simp
    rw [insertAll_cons, insert_of_forall_ne hnew, ih (by rw [hassoc]; exact h), hassoc]

/-- Entries with distinct keys are the entries of their own list of insertions. -/
theorem ofList_of_distinct {entries : List (κ × α)} (h : Distinct eq entries) :
    ofList eq entries = entries :=
  insertAll_of_distinct h

/-! ## Lawful equality of keys -/

section

variable [BEq κ] [LawfulBEq κ]

/-- Keys are distinct under their own equality if none is listed twice. -/
theorem distinct_beq_iff {entries : List (κ × α)} :
    Distinct (· == ·) entries ↔ (entries.map (·.1)).Nodup := by
  simp only [Distinct, List.Nodup, beq_eq_false_iff_ne]

/-- A list of insertions into nothing leaves each key at its first place. -/
theorem keys_ofList_beq (insertions : List (κ × α)) :
    (ofList (· == ·) insertions).map (·.1) = (insertions.map (·.1)).eraseDups := by
  rw [keys_ofList, List.eraseDups]
  congr 1
  funext key k
  exact BEq.comm

end

/-! ## Values -/

/-- Equality of keys is an equivalence. -/
structure IsEquiv (eq : κ → κ → Bool) : Prop where
  refl : ∀ k, eq k k = true
  symm : ∀ {k l}, eq k l = true → eq l k = true
  trans : ∀ {k l m}, eq k l = true → eq l m = true → eq k m = true

/-- Lawful equality of keys is an equivalence. -/
theorem isEquiv_beq [BEq κ] [LawfulBEq κ] : IsEquiv ((· == ·) : κ → κ → Bool) where
  refl k := beq_self_eq_true k
  symm h := beq_iff_eq.mpr (beq_iff_eq.mp h).symm
  trans h h' := beq_iff_eq.mpr ((beq_iff_eq.mp h).trans (beq_iff_eq.mp h'))

/-- After an insertion the new value is under its key, and under other keys is what was there. -/
theorem get?_insert (heq : IsEquiv eq) (key key' : κ) (value : α) (entries : List (κ × α)) :
    get? eq key' (insert eq key value entries) =
      if eq key key' then some value else get? eq key' entries := by
  induction entries with
  | nil => rfl
  | cons entry rest ih =>
    obtain ⟨k, old⟩ := entry
    by_cases h : eq k key = true
    · have hsame : eq k key' = eq key key' := by
        rw [Bool.eq_iff_iff]
        exact ⟨heq.trans (heq.symm h), heq.trans h⟩
      rw [insert, if_pos h, get?, hsame]
      split
      next => rfl
      next hne => rw [get?, hsame, if_neg hne]
    · rw [insert, if_neg h, get?, ih, get?]
      by_cases hk : eq k key' = true
      · have hother : ¬ eq key key' = true := fun hkey => h (heq.trans hk (heq.symm hkey))
        rw [if_pos hk, if_neg hother, if_pos hk]
      · rw [if_neg hk, if_neg hk]

/-- Insertions under other keys leave a value alone. -/
theorem get?_insertAll_of_forall_ne (heq : IsEquiv eq) {key : κ} {insertions : List (κ × α)}
    (h : ∀ insertion ∈ insertions, eq insertion.1 key = false) (entries : List (κ × α)) :
    get? eq key (insertAll eq entries insertions) = get? eq key entries := by
  induction insertions generalizing entries with
  | nil => rfl
  | cons insertion rest ih =>
    rw [List.forall_mem_cons] at h
    obtain ⟨k, value⟩ := insertion
    rw [insertAll_cons, ih h.2, get?_insert heq, if_neg (by simp [h.1])]

/-- The value under a key after a run of insertions is the last one inserted under it. -/
theorem get?_insertAll_last (heq : IsEquiv eq) (entries before : List (κ × α)) (key : κ) (value : α)
    {after : List (κ × α)} (h : ∀ insertion ∈ after, eq insertion.1 key = false) :
    get? eq key (insertAll eq entries (before ++ (key, value) :: after)) = some value := by
  rw [insertAll, List.foldl_append]
  change get? eq key (insertAll eq (insertAll eq entries before) ((key, value) :: after)) = _
  rw [insertAll_cons, get?_insertAll_of_forall_ne heq h, get?_insert heq, if_pos (heq.refl key)]

/-- The value that was inserted last under a key. -/
def lastInserted? (eq : κ → κ → Bool) (insertions : List (κ × α)) (key : κ) : Option α :=
  (insertions.reverse.find? fun insertion => eq insertion.1 key).map (·.2)

/-- Something was inserted under a key exactly if an insertion has this key. -/
theorem isSome_lastInserted?_iff {insertions : List (κ × α)} {key : κ} :
    (lastInserted? eq insertions key).isSome = true ↔
      ∃ insertion ∈ insertions, eq insertion.1 key = true := by
  simp [lastInserted?]

/-- The value under a key after a run of insertions is the one inserted last, or else the one that was
there before. -/
theorem get?_insertAll (heq : IsEquiv eq) (entries insertions : List (κ × α)) (key : κ) :
    get? eq key (insertAll eq entries insertions) =
      (lastInserted? eq insertions key).or (get? eq key entries) := by
  induction insertions generalizing entries with
  | nil => rfl
  | cons insertion rest ih =>
    obtain ⟨k, value⟩ := insertion
    rw [insertAll_cons, ih, get?_insert heq, lastInserted?, lastInserted?, List.reverse_cons,
      List.find?_append, Option.map_or, Option.or_assoc]
    cases h : eq k key <;> simp [h]

/-- A list of insertions leaves under a key what was inserted last. -/
theorem get?_ofList (heq : IsEquiv eq) (insertions : List (κ × α)) (key : κ) :
    get? eq key (ofList eq insertions) = lastInserted? eq insertions key := by
  rw [ofList, get?_insertAll heq, get?, Option.or_none]

/-- Entries with distinct keys are found under their keys. -/
theorem get?_of_mem (heq : IsEquiv eq) {entries : List (κ × α)} (h : Distinct eq entries)
    {entry : κ × α} (hmem : entry ∈ entries) : get? eq entry.1 entries = some entry.2 := by
  induction entries with
  | nil => cases hmem
  | cons first rest ih =>
    obtain ⟨hfirst, hrest⟩ := List.pairwise_cons.mp h
    rcases List.mem_cons.mp hmem with rfl | hmem
    · rw [get?, if_pos (heq.refl _)]
    · rw [get?, if_neg (by simp [hfirst _ (List.mem_map_of_mem hmem)]), ih hrest hmem]

/-- An insertion under a key without a value adds an entry at the end. -/
theorem insert_of_get?_eq_none {key : κ} {entries : List (κ × α)} (h : get? eq key entries = none)
    (value : α) : insert eq key value entries = entries ++ [(key, value)] := by
  induction entries with
  | nil => rfl
  | cons entry rest ih =>
    obtain ⟨k, old⟩ := entry
    rw [get?] at h
    split at h
    · cases h
    · next hne => rw [insert, if_neg hne, ih h, List.cons_append]

/-- An insertion under a key with a value changes the entry of that value and no other. -/
theorem exists_insert_of_get?_eq_some {key : κ} {old : α} {entries : List (κ × α)}
    (h : get? eq key entries = some old) :
    ∃ before k after, entries = before ++ (k, old) :: after ∧ eq k key = true ∧
      ∀ value, insert eq key value entries = before ++ (k, value) :: after := by
  induction entries with
  | nil => cases h
  | cons entry rest ih =>
    obtain ⟨k, other⟩ := entry
    rw [get?] at h
    split at h
    · next hk =>
      obtain rfl := Option.some.inj h
      exact ⟨[], k, rest, rfl, hk, fun value => by rw [insert, if_pos hk, List.nil_append]⟩
    · next hne =>
      obtain ⟨before, k', after, rfl, hk', hinsert⟩ := ih h
      refine ⟨(k, other) :: before, k', after, rfl, hk', fun value => ?_⟩
      rw [insert, if_neg hne, hinsert, List.cons_append]

end RecordCoercion.Ordered

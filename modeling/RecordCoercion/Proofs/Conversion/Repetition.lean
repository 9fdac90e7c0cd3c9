import RecordCoercion.Proofs.Conversion.Leaves
import RecordCoercion.Proofs.Conversion.Shape

/-!
# Converting again

What a conversion gives is a value of the kind of its type, and such a value stays as it is when it is
converted again (`convert_convert`). A choice may take such a value for another of its candidates, but
only for one further to the left: the candidate that gave it accepts it. So the position of the first
leaf that accepts never grows along a run of conversions, and where it stays the run has come to an end
(`run_converges`).
-/

set_option autoImplicit false

namespace RecordCoercion

variable {defaults : FormatDefaults} {type : DeclaredType} {field : String} {v w : Value}

/-! ## Native values -/

/-- A list of insertions under text keys makes a map that stays as it is. -/
theorem toMap_ofList {insertions : List (Value × Value)}
    (htext : ∀ insertion ∈ insertions, insertion.1.IsTextKey) :
    toMap (.map (Entries.ofList insertions)) = .ok (.map (Entries.ofList insertions)) := by
  have hkeyed := textKeyed_of_isTextKey (Entries.forall_isTextKey_ofList htext)
    (Ordered.distinct_ofList insertions)
  rw [toMap, hkeyed, ite_self]

/-- A map that was converted stays as it is when it is converted again. -/
theorem toMap_toMap (h : toMap v = .ok w) : toMap w = .ok w := by
  cases v <;> cases h
  case map entries =>
    split
    next htext => rw [toMap, if_pos htext]
    next =>
      apply toMap_ofList
      intro insertion hmem
      obtain ⟨⟨key, value⟩, -, rfl⟩ := List.mem_map.mp hmem
      exact isTextKey_textKey key
  case record bound members =>
    apply toMap_ofList
    intro insertion hmem
    obtain ⟨name, -, rfl⟩ := List.mem_map.mp hmem
    exact .inr ⟨name, rfl⟩

/-- A value of the kind of a type is accepted by it. -/
theorem accepts_of_kind? (hkind : v.kind? = some type.kind) : accepts defaults type v = true := by
  have hv := Value.ne_null_of_kind? hkind
  cases type using DeclaredType.familyCases with
  | boolean =>
    rw [accepts_boolean defaults hv]
    cases v <;> cases hkind
    rfl
  | numeric kind =>
    rw [accepts_numeric defaults hv]
    exact NumericKind.accepts_of_kind? (by simpa using hkind)
  | char =>
    rw [accepts_char defaults hv]
    cases v <;> cases hkind
    rfl
  | string format => exact accepts_string defaults hv format
  | temporal kind format =>
    rw [accepts_temporal defaults hv]
    cases kind <;> cases v <;> cases hkind <;> rfl
  | array => rw [accepts_array defaults hv, hkind]; rfl
  | map => rw [accepts_map defaults hv, hkind]; rfl
  | record schema => rw [accepts_record defaults hv, hkind]; rfl
  | choice candidates => cases v <;> cases hkind

/-- A value of the kind of a type stays as it is, unless the type is that of maps. -/
theorem convert_of_kind? (hkind : v.kind? = some type.kind) (hmap : type.kind ≠ .map) :
    convert defaults type v field = .ok v := by
  have hv := Value.ne_null_of_kind? hkind
  cases type using DeclaredType.familyCases with
  | boolean =>
    rw [convert_boolean defaults hv]
    cases v <;> cases hkind
    rfl
  | numeric kind =>
    rw [convert_numeric defaults hv, settled_eq_ok_iff]
    unfold NumericKind.convert
    exact if_pos (by simpa using hkind)
  | char =>
    rw [convert_char defaults hv]
    cases v <;> cases hkind
    rfl
  | string format =>
    rw [convert_string defaults hv]
    cases v <;> cases hkind
    rfl
  | temporal kind format =>
    rw [convert_temporal defaults hv]
    cases kind <;> cases v <;> cases hkind <;> rfl
  | array =>
    rw [convert_array defaults hv]
    cases v <;> cases hkind
    rfl
  | map => exact absurd rfl hmap
  | record schema =>
    obtain ⟨bound, members, rfl⟩ := Value.exists_of_kind?_record hkind
    exact convert_record_of_record defaults schema bound members field
  | choice candidates => cases v <;> cases hkind

/-- What was converted to a record type is a record. -/
theorem kind?_of_convert_record {schema : Option RecordSchema} (hv : v ≠ .null)
    (h : convert defaults (.record schema) v field = .ok w) : w.kind? = some .record := by
  obtain hrecord | ⟨s, entries, rfl, rfl, -⟩ := source_of_record hv h
  · obtain ⟨bound, members, rfl⟩ := Value.exists_of_kind?_record hrecord
    rw [convert_record_of_record] at h
    cases h
    rfl
  · obtain ⟨value, -, rfl⟩ := exists_values_of_convert_map h
    rfl

/-- What a conversion gives is null or of the kind of the type, unless the type is a choice. -/
theorem kind?_of_convert (hchoice : type.kind ≠ .choice)
    (h : convert defaults type v field = .ok w) : w = .null ∨ w.kind? = some type.kind := by
  by_cases hv : v = .null
  · rw [hv, convert_null] at h
    cases h
    exact .inl rfl
  cases type using DeclaredType.familyCases with
  | boolean =>
    rw [convert_boolean defaults hv, settled_eq_ok_iff] at h
    exact .inr ((toBoolean_agrees v).kind_of_ok h)
  | numeric kind =>
    rw [convert_numeric defaults hv, settled_eq_ok_iff] at h
    rw [kind.kind_type]
    exact .inr ((kind.convert_agrees v).kind_of_ok h)
  | char =>
    rw [convert_char defaults hv, settled_eq_ok_iff] at h
    exact .inr ((toChar_agrees v).kind_of_ok h)
  | string format =>
    rw [convert_string defaults hv] at h
    obtain ⟨text, ht⟩ | ⟨f, i, rfl, hi, hcannot⟩ := toText_cases format hv
    · rw [ht] at h
      cases h
      exact .inr rfl
    · rw [toText_of_cannotWrite hi hcannot] at h
      cases h
  | temporal kind format =>
    rw [convert_temporal defaults hv, settled_eq_ok_iff] at h
    rw [kind.kind_type]
    by_cases hblank : v.IsBlankText
    · rw [kind.convert_of_isBlankText _ hblank] at h
      cases h
      exact .inl rfl
    · exact .inr ((kind.convert_agrees _ hblank).kind_of_ok h)
  | array =>
    rw [convert_array defaults hv, settled_eq_ok_iff] at h
    exact .inr ((toArray_agrees v).kind_of_ok h)
  | map =>
    rw [convert_map defaults hv, settled_eq_ok_iff] at h
    exact .inr ((toMap_agrees v).kind_of_ok h)
  | record schema => exact .inr (kind?_of_convert_record hv h)
  | choice candidates => exact absurd rfl hchoice

/-- A value that was converted stays as it is when it is converted again, unless the type is a
choice. -/
theorem convert_convert (hchoice : type.kind ≠ .choice)
    (h : convert defaults type v field = .ok w) : convert defaults type w field = .ok w := by
  by_cases hv : v = .null
  · rw [hv, convert_null] at h
    cases h
    exact convert_null defaults type field
  by_cases hmap : type.kind = .map
  · obtain rfl : type = .map := by cases type <;> cases hmap; rfl
    rw [convert_map defaults hv, settled_eq_ok_iff] at h
    have hw := Value.ne_null_of_kind? ((toMap_agrees v).kind_of_ok h)
    rw [convert_map defaults hw, settled_eq_ok_iff]
    exact toMap_toMap h
  · obtain rfl | hkind := kind?_of_convert hchoice h
    · exact convert_null defaults type field
    · exact convert_of_kind? hkind hmap

/-! ## One step of a choice -/

/-- The position of the first leaf of a type that accepts a value, if one does. -/
def firstLeafIndex? (defaults : FormatDefaults) (type : DeclaredType) (v : Value) : Option Nat :=
  type.leaves.findIdx? fun leaf => accepts defaults leaf v

/-- The leaf at the first position accepts the value and those before it do not. -/
theorem firstLeafIndex?_eq_some_iff {i : Nat} :
    firstLeafIndex? defaults type v = some i ↔
      ∃ h : i < type.leaves.length, accepts defaults type.leaves[i] v = true ∧
        ∀ (j : Nat) (hj : j < i), accepts defaults type.leaves[j] v = false := by
  simp only [firstLeafIndex?, List.findIdx?_eq_some_iff_getElem, Bool.not_eq_true]

/-- A value converts to a type as it does to the first leaf that accepts it. -/
theorem convert_of_firstLeafIndex? {i : Nat} (h : firstLeafIndex? defaults type v = some i)
    (hi : i < type.leaves.length) :
    convert defaults type v field = convert defaults type.leaves[i] v field := by
  obtain ⟨_, haccepts, hbefore⟩ := firstLeafIndex?_eq_some_iff.mp h
  apply convert_of_firstLeaf?
  rw [firstLeaf?, List.find?_eq_some_iff_getElem]
  refine ⟨haccepts, i, hi, rfl, ?_⟩
  intro j hj
  simp [hbefore j hj]

/-- A position whose leaf accepts a value is not before the first one. -/
theorem exists_firstLeafIndex?_le {i : Nat} (hi : i < type.leaves.length)
    (haccepts : accepts defaults type.leaves[i] v = true) :
    ∃ j ≤ i, firstLeafIndex? defaults type v = some j := by
  have hsome : (firstLeafIndex? defaults type v).isSome = true := by
    rw [firstLeafIndex?, List.findIdx?_isSome, List.any_eq_true]
    exact ⟨_, List.getElem_mem hi, haccepts⟩
  obtain ⟨j, hj⟩ := Option.isSome_iff_exists.mp hsome
  refine ⟨j, ?_, hj⟩
  obtain ⟨_, _, hbefore⟩ := firstLeafIndex?_eq_some_iff.mp hj
  apply Nat.le_of_not_lt
  intro hlt
  rw [hbefore i hlt] at haccepts
  cases haccepts

/-- What a single type accepts converts to it, unless the type is that of text. -/
theorem convert_isOk_of_accepts (hchoice : type.kind ≠ .choice) (hstring : type.kind ≠ .string)
    (h : accepts defaults type v = true) (field : String) :
    ∃ w, convert defaults type v field = .ok w := by
  obtain ⟨w, hw, -⟩ | ⟨format, hholds, -, -⟩ := convert_cases_of_accepts h field
  · exact ⟨w, hw⟩
  -- records hold text formats in their fields, but only records are accepted there
  cases hholds with
  | here => exact absurd rfl hstring
  | candidate hmem hformat => exact absurd rfl hchoice
  | field hmem hformat =>
    have hkind := h
    rw [accepts_record defaults (ne_null_of_accepts h), beq_iff_eq] at hkind
    exact ⟨v, convert_of_kind? hkind (by simp [DeclaredType.kind])⟩

/-- A value that a choice converts has a first leaf that accepts it. What comes out is accepted there
or further to the left, and converts again; it stays as it is if its first leaf is the same one. -/
theorem choice_step {candidates : List DeclaredType} (hv : v ≠ .null)
    (h : convert defaults (.choice candidates) v field = .ok w) :
    w ≠ .null ∧ ∃ i j w', firstLeafIndex? defaults (.choice candidates) v = some i ∧
      firstLeafIndex? defaults (.choice candidates) w = some j ∧ j ≤ i ∧
      convert defaults (.choice candidates) w field = .ok w' ∧ (j = i → w' = w) := by
  have haccepts := accepts_of_convert_choice hv h
  obtain ⟨i, hi⟩ : ∃ i, firstLeafIndex? defaults (.choice candidates) v = some i := by
    rw [← isSome_firstLeaf?, firstLeaf?, List.find?_isSome] at haccepts
    apply Option.isSome_iff_exists.mp
    rw [firstLeafIndex?, List.findIdx?_isSome, List.any_eq_true]
    exact haccepts
  obtain ⟨hlt, hleaf, hbefore⟩ := firstLeafIndex?_eq_some_iff.mp hi
  have hsingle := DeclaredType.kind_ne_of_mem_leaves (List.getElem_mem hlt)
  rw [convert_of_firstLeafIndex? hi hlt] at h
  have hw : w ≠ .null := by
    obtain ⟨w', hw', hne⟩ | ⟨format, -, -, herror⟩ := convert_cases_of_accepts hleaf field
    · rw [h] at hw'
      cases hw'
      exact hne
    · rw [h] at herror
      cases herror
  -- what comes out is accepted by the leaf that gave it, if by none before
  have hkind := (kind?_of_convert hsingle h).resolve_left hw
  have hstays : accepts defaults _ w = true := accepts_of_kind? hkind
  obtain ⟨j, hle, hj⟩ := exists_firstLeafIndex?_le hlt hstays
  obtain ⟨hjlt, hjleaf, -⟩ := firstLeafIndex?_eq_some_iff.mp hj
  refine ⟨hw, i, j, ?_⟩
  rw [convert_of_firstLeafIndex? hj hjlt]
  rcases Nat.lt_or_eq_of_le hle with hleft | rfl
  · -- text accepts everything, so the leaf further to the left is not text
    have hnot : (DeclaredType.choice candidates).leaves[j].kind ≠ .string := by
      intro hstring
      have hrefused := hbefore j hleft
      generalize (DeclaredType.choice candidates).leaves[j] = leaf at hstring hrefused
      cases leaf <;> cases hstring
      rw [accepts_string defaults hv] at hrefused
      cases hrefused
    obtain ⟨w', hw'⟩ := convert_isOk_of_accepts
      (DeclaredType.kind_ne_of_mem_leaves (List.getElem_mem hjlt)) hnot hjleaf field
    exact ⟨w', hi, hj, hle, hw', fun heq => absurd heq (Nat.ne_of_lt hleft)⟩
  · exact ⟨w, hi, hj, hle, convert_convert hsingle h, fun _ => rfl⟩

/-! ## Runs -/

/-- What a value becomes when it is converted so many times; where it does not convert it stays as it
is. -/
def convertedTimes (defaults : FormatDefaults) (type : DeclaredType) (field : String) (v : Value) :
    Nat → Value
  | 0 => v
  | n + 1 =>
    let w := convertedTimes defaults type field v n
    (convert defaults type w field).toOption.getD w

/-- A type of the kind of choices is a choice. -/
theorem exists_choice_of_kind (h : type.kind = .choice) : ∃ candidates, type = .choice candidates := by
  cases type <;> cases h
  exact ⟨_, rfl⟩

/-- What a conversion gives converts again. -/
theorem converts_again (h : convert defaults type v field = .ok w) :
    ∃ w', convert defaults type w field = .ok w' := by
  by_cases hv : v = .null
  · rw [hv, convert_null] at h
    cases h
    exact ⟨.null, convert_null defaults type field⟩
  by_cases hchoice : type.kind = .choice
  · obtain ⟨candidates, rfl⟩ := exists_choice_of_kind hchoice
    obtain ⟨-, -, -, w', -, -, -, hw', -⟩ := choice_step hv h
    exact ⟨w', hw'⟩
  · exact ⟨w, convert_convert hchoice h⟩

/-- A value that converts once converts at every step. -/
theorem convert_convertedTimes (h : convert defaults type v field = .ok w) (n : Nat) :
    convert defaults type (convertedTimes defaults type field v n) field =
      .ok (convertedTimes defaults type field v (n + 1)) := by
  have hvalue : ∃ w', convert defaults type (convertedTimes defaults type field v n) field = .ok w' := by
    induction n with
    | zero => exact ⟨w, h⟩
    | succ n ih =>
      obtain ⟨w', hw'⟩ := ih
      have hnext : convertedTimes defaults type field v (n + 1) = w' := by
        simp only [convertedTimes, hw']
        rfl
      rw [hnext]
      exact converts_again hw'
  obtain ⟨w', hw'⟩ := hvalue
  simp only [convertedTimes, hw']
  rfl

/-- A run goes on from equal values in the same way. -/
theorem run_succ_eq {run : Nat → Value}
    (hrun : ∀ n, convert defaults type (run n) field = .ok (run (n + 1))) {m n : Nat}
    (h : run m = run n) : run (m + 1) = run (n + 1) := by
  have hm := hrun m
  rw [h, hrun n] at hm
  exact (Except.ok.inj hm).symm

/-- A sequence that goes on from each value in one way only, and moves only where its position falls,
is constant from its first position on. -/
theorem eq_of_position {α : Type} {run : Nat → α} {position : Nat → Nat}
    (hsame : ∀ m n, run m = run n → run (m + 1) = run (n + 1))
    (hfall : ∀ n, position (n + 1) ≤ position n)
    (hrest : ∀ n, position (n + 1) = position n → run (n + 2) = run (n + 1)) {k : Nat}
    (hk : position 0 < k) : ∀ n, k ≤ n → run n = run k := by
  -- as long as the sequence moves, each step uses up a position
  have hmoves : ∀ n, position n + n ≤ position 0 ∨ run (n + 1) = run n := by
    intro n
    induction n with
    | zero => exact .inl (by omega)
    | succ n ih =>
      rcases ih with hleft | hstill
      · rcases Nat.lt_or_eq_of_le (hfall n) with hlt | heq
        · exact .inl (by omega)
        · exact .inr (hrest n heq)
      · exact .inr (hsame _ _ hstill)
  have hstill : run (k + 1) = run k := by
    rcases hmoves k with hleft | hstill
    · omega
    · exact hstill
  intro n hn
  induction hn with
  | refl => rfl
  | step _ ih => rw [hsame _ _ ih, hstill]

/-- A run that does not start with null and converts to a choice: the positions of the first leaves
fall until nothing changes. -/
theorem choice_run {candidates : List DeclaredType} {run : Nat → Value}
    (hrun : ∀ n, convert defaults (.choice candidates) (run n) field = .ok (run (n + 1)))
    (hv : run 0 ≠ .null) :
    (∃ position : Nat → Nat, ∀ n,
      firstLeafIndex? defaults (.choice candidates) (run n) = some (position n) ∧
        position (n + 1) ≤ position n) ∧
      ∀ n, (DeclaredType.choice candidates).leaves.length ≤ n →
        run n = run (DeclaredType.choice candidates).leaves.length := by
  have hnull : ∀ n, run n ≠ .null := by
    intro n
    induction n with
    | zero => exact hv
    | succ n ih => exact (choice_step ih (hrun n)).1
  have hposition : ∀ n, ∃ i, firstLeafIndex? defaults (.choice candidates) (run n) = some i := by
    intro n
    obtain ⟨-, i, -, -, hi, -⟩ := choice_step (hnull n) (hrun n)
    exact ⟨i, hi⟩
  choose position hposition using hposition
  have hsteps : ∀ n, position (n + 1) ≤ position n ∧
      (position (n + 1) = position n → run (n + 2) = run (n + 1)) := by
    intro n
    obtain ⟨-, i, j, w', hi, hj, hle, hw', hsame⟩ := choice_step (hnull n) (hrun n)
    obtain rfl : position n = i := Option.some.inj ((hposition n).symm.trans hi)
    obtain rfl : position (n + 1) = j := Option.some.inj ((hposition (n + 1)).symm.trans hj)
    have hvalue : run (n + 2) = w' := Except.ok.inj ((hrun (n + 1)).symm.trans hw')
    exact ⟨hle, fun heq => hvalue.trans (hsame heq)⟩
  refine ⟨⟨position, fun n => ⟨hposition n, (hsteps n).1⟩⟩, ?_⟩
  obtain ⟨hlt, -⟩ := firstLeafIndex?_eq_some_iff.mp (hposition 0)
  have hsame : ∀ m n, run m = run n → run (m + 1) = run (n + 1) := fun m n => run_succ_eq hrun
  exact eq_of_position hsame (fun n => (hsteps n).1) (fun n => (hsteps n).2) hlt

/-- What converts once converts any number of times. Unless the type is a choice, everything after the
first conversion is the same. In a choice the first leaf that accepts the value is never further to
the right than the step before, and after as many steps as there are leaves nothing changes any
more. -/
theorem run_converges (defaults : FormatDefaults) (type : DeclaredType) (field : String) (v w : Value)
    (h : convert defaults type v field = .ok w) :
    ∃ run : Nat → Value, run 0 = v ∧
      (∀ n, convert defaults type (run n) field = .ok (run (n + 1))) ∧
      (type.kind ≠ .choice → ∀ n, run (n + 1) = run 1) ∧
      (type.kind = .choice →
        (v ≠ .null → ∃ position : Nat → Nat, ∀ n,
          firstLeafIndex? defaults type (run n) = some (position n) ∧
            position (n + 1) ≤ position n) ∧
        ∀ n, type.leaves.length ≤ n → run n = run type.leaves.length) := by
  have hrun := convert_convertedTimes h
  refine ⟨convertedTimes defaults type field v, rfl, hrun, ?_, ?_⟩
  · intro hchoice n
    induction n with
    | zero => rfl
    | succ n ih =>
      have hagain := convert_convert hchoice (hrun n)
      rw [← ih]
      exact Except.ok.inj ((hrun (n + 1)).symm.trans hagain)
  · intro hchoice
    obtain ⟨candidates, rfl⟩ := exists_choice_of_kind hchoice
    by_cases hv : v = .null
    · refine ⟨fun hne => absurd hv hne, ?_⟩
      have hnull : ∀ n, convertedTimes defaults (.choice candidates) field v n = .null := by
        intro n
        induction n with
        | zero => exact hv
        | succ n ih => simp only [convertedTimes, ih, convert_null, Except.toOption, Option.getD_some]
      intro n _
      rw [hnull, hnull]
    · obtain ⟨hposition, hconstant⟩ := choice_run hrun hv
      exact ⟨fun _ => hposition, hconstant⟩

/-- A truth value becomes its text, and the text its first letter, which is then kept: two leaves, two
steps. -/
theorem run_converges_truth_value :
    convert .empty (.choice [.char, .string none]) (.boolean true) "flag" = .ok (.string "true") ∧
      ∃ run : Nat → Value, run 0 = .boolean true ∧ run 1 = .string "true" ∧
        ∀ n, 2 ≤ n → run n = .char 't' := by
  have hfirst : convert .empty (.choice [.char, .string none]) (.boolean true) "flag" =
      .ok (.string "true") := rfl
  have hsecond : convert .empty (.choice [.char, .string none]) (.string "true") "flag" =
      .ok (.char 't') := rfl
  obtain ⟨run, hzero, hrun, -, hchoice⟩ := run_converges .empty _ "flag" _ _ hfirst
  obtain ⟨-, hconstant⟩ := hchoice rfl
  have hone : run 1 = .string "true" := by
    have hstep := hrun 0
    rw [hzero, hfirst] at hstep
    exact (Except.ok.inj hstep).symm
  have htwo : run 2 = .char 't' := by
    have hstep := hrun 1
    rw [hone, hsecond] at hstep
    exact (Except.ok.inj hstep).symm
  refine ⟨hfirst, run, hzero, hone, ?_⟩
  intro n hn
  have hn' := hconstant n hn
  rw [show (DeclaredType.choice [.char, .string none]).leaves.length = 2 from rfl, htwo] at hn'
  exact hn'

end RecordCoercion

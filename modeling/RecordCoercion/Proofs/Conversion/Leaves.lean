import RecordCoercion.Proofs.Conversion.Families

/-!
# The leaves of a choice

A choice may have choices among its candidates. The types that are no choices stand at the leaves of
this tree (`DeclaredType.leaves`), and a choice comes to the same as the flat list of them: it accepts
what one of its leaves accepts, and converts to the first leaf that accepts, by way of the candidate
whose subtree holds this leaf. `choice_first_match` is the top.
-/

set_option autoImplicit false

namespace RecordCoercion

namespace DeclaredType

mutual

/-- The types of a tree of choices that are no choices, from left to right. -/
def leaves : DeclaredType → List DeclaredType
  | choice candidates => leavesOf candidates
  | type => [type]

/-- The leaves of several trees, one after the other. -/
def leavesOf : List DeclaredType → List DeclaredType
  | [] => []
  | type :: rest => type.leaves ++ leavesOf rest

end

/-- The leaves of types are those of each type, one after the other. -/
theorem leavesOf_eq (candidates : List DeclaredType) :
    leavesOf candidates = candidates.flatMap leaves := by
  induction candidates with
  | nil => rfl
  | cons type rest ih => rw [leavesOf, ih, List.flatMap_cons]

/-- The leaves of a choice are those of its candidates, one after the other. -/
@[simp] theorem leaves_choice (candidates : List DeclaredType) :
    (choice candidates).leaves = candidates.flatMap leaves := by
  rw [leaves, leavesOf_eq]

/-- A type that is no choice is its own only leaf. -/
theorem leaves_of_kind_ne {type : DeclaredType} (h : type.kind ≠ .choice) :
    type.leaves = [type] := by
  cases type
  case choice candidates => exact absurd rfl h
  all_goals rfl

/-- Induction over trees of choices. -/
theorem choiceInduction {motive : DeclaredType → Prop}
    (leaf : ∀ type, type.kind ≠ .choice → motive type)
    (choice : ∀ candidates : List DeclaredType, (∀ candidate ∈ candidates, motive candidate) →
      motive (.choice candidates))
    (type : DeclaredType) : motive type := by
  induction type using familyInduction with
  | choice candidates ih => exact choice candidates ih
  | numeric kind => cases kind <;> exact leaf _ (by decide)
  | temporal kind format => cases kind <;> exact leaf _ (by simp [TemporalKind.type, kind])
  | _ => exact leaf _ (by simp [kind])

/-- A leaf is no choice. -/
theorem kind_ne_of_mem_leaves {type leaf : DeclaredType} (h : leaf ∈ type.leaves) :
    leaf.kind ≠ .choice := by
  induction type using choiceInduction with
  | leaf type hkind =>
    rw [leaves_of_kind_ne hkind, List.mem_singleton] at h
    rw [h]
    exact hkind
  | choice candidates ih =>
    rw [leaves_choice, List.mem_flatMap] at h
    obtain ⟨candidate, hmem, hleaf⟩ := h
    exact ih candidate hmem hleaf

end DeclaredType

open DeclaredType (leaves)

variable {defaults : FormatDefaults} {v : Value}

/-- The first leaf that accepts a value, if one does. -/
def firstLeaf? (defaults : FormatDefaults) (type : DeclaredType) (v : Value) :
    Option DeclaredType :=
  type.leaves.find? fun leaf => accepts defaults leaf v

/-- A type that is no choice is the first leaf that accepts a value if it accepts it. -/
theorem firstLeaf?_of_kind_ne {type : DeclaredType} (hkind : type.kind ≠ .choice) :
    firstLeaf? defaults type v = if accepts defaults type v then some type else none := by
  rw [firstLeaf?, DeclaredType.leaves_of_kind_ne hkind, List.find?_singleton]

/-- The first leaf of a choice is looked for in its first candidate and then in the others. -/
theorem firstLeaf?_choice_cons (candidate : DeclaredType) (rest : List DeclaredType) :
    firstLeaf? defaults (.choice (candidate :: rest)) v =
      (firstLeaf? defaults candidate v).or (firstLeaf? defaults (.choice rest) v) := by
  simp only [firstLeaf?, DeclaredType.leaves_choice, List.flatMap_cons, List.find?_append]

/-- A type accepts what one of its leaves accepts. -/
theorem isSome_firstLeaf? (type : DeclaredType) :
    (firstLeaf? defaults type v).isSome = accepts defaults type v := by
  induction type using DeclaredType.choiceInduction with
  | leaf type hkind =>
    rw [firstLeaf?_of_kind_ne hkind]
    cases accepts defaults type v <;> rfl
  | choice candidates ih =>
    by_cases hv : v = .null
    · simp [hv, firstLeaf?]
    rw [accepts_choice defaults hv]
    induction candidates with
    | nil => rfl
    | cons candidate rest ihrest =>
      rw [List.forall_mem_cons] at ih
      rw [firstLeaf?_choice_cons, Option.isSome_or, ih.1, ihrest ih.2, List.any_cons]

/-- The first leaf of a choice that accepts is the first one of the chosen candidate. -/
theorem firstLeaf?_choice (candidates : List DeclaredType) :
    firstLeaf? defaults (.choice candidates) v =
      (candidates.find? fun candidate => accepts defaults candidate v).bind
        fun candidate => firstLeaf? defaults candidate v := by
  induction candidates with
  | nil => rfl
  | cons candidate rest ih =>
    rw [firstLeaf?_choice_cons, ih, List.find?_cons]
    have hsome := @isSome_firstLeaf? defaults v candidate
    cases haccepts : accepts defaults candidate v with
    | true =>
      rw [haccepts] at hsome
      obtain ⟨leaf, hleaf⟩ := Option.isSome_iff_exists.mp hsome
      simp [hleaf]
    | false =>
      rw [haccepts, Option.isSome_eq_false_iff, Option.isNone_iff_eq_none] at hsome
      simp [hsome]

/-- The first leaf that accepts a value is a leaf, and accepts it. -/
theorem accepts_of_firstLeaf? {type leaf : DeclaredType}
    (h : firstLeaf? defaults type v = some leaf) :
    leaf ∈ type.leaves ∧ accepts defaults leaf v = true :=
  ⟨List.mem_of_find?_eq_some h, List.find?_some (p := fun leaf => accepts defaults leaf v) h⟩

/-- A value converts to a type as it does to the first leaf that accepts it. -/
theorem convert_of_firstLeaf? {type leaf : DeclaredType}
    (h : firstLeaf? defaults type v = some leaf) (field : String) :
    convert defaults type v field = convert defaults leaf v field := by
  induction type using DeclaredType.choiceInduction with
  | leaf type hkind =>
    obtain ⟨hmem, -⟩ := accepts_of_firstLeaf? h
    rw [DeclaredType.leaves_of_kind_ne hkind, List.mem_singleton] at hmem
    rw [hmem]
  | choice candidates ih =>
    rw [firstLeaf?_choice, ← choose?_map_snd] at h
    obtain ⟨candidate, hcandidate, hleaf⟩ := Option.bind_eq_some_iff.mp h
    obtain ⟨⟨index, _⟩, hchosen, rfl⟩ := Option.map_eq_some_iff.mp hcandidate
    rw [convert_choice_of_choose? defaults hchosen]
    exact ih _ (accepts_of_choose? defaults hchosen).1 hleaf

/-- The chosen candidate is the one behind those that refuse the value. -/
theorem choose?_append {earlier later : List DeclaredType} {candidate : DeclaredType}
    (hearlier : ∀ c ∈ earlier, accepts defaults c v = false)
    (hcandidate : accepts defaults candidate v = true) :
    choose? defaults (.choice (earlier ++ candidate :: later)) v =
      some (earlier.length, candidate) := by
  have hnone : earlier.zipIdx.find? (fun entry => accepts defaults entry.1 v) = none := by
    rw [List.find?_eq_none]
    rintro ⟨c, index⟩ hmem
    simp [hearlier c (List.fst_mem_of_mem_zipIdx hmem)]
  simp [choose?, DeclaredType.candidates, List.zipIdx_append, List.find?_append, hnone, hcandidate]

/-- A type accepts a value exactly if one of its leaves does. -/
theorem firstLeaf?_eq_none_iff {type : DeclaredType} :
    firstLeaf? defaults type v = none ↔ accepts defaults type v = false := by
  rw [← isSome_firstLeaf?, Option.isSome_eq_false_iff, Option.isNone_iff_eq_none]

/-- If no leaf accepts a value, then there is no first one that does. -/
theorem firstLeaf?_eq_none_of_forall {type : DeclaredType}
    (h : ∀ leaf ∈ type.leaves, accepts defaults leaf v = false) :
    firstLeaf? defaults type v = none := by
  rw [firstLeaf?, List.find?_eq_none]
  simpa using h

/-- A leaf that accepts a value is the first one if those before it do not. -/
theorem firstLeaf?_of_split {type leaf : DeclaredType} {before after : List DeclaredType}
    (hleaves : type.leaves = before ++ leaf :: after)
    (hbefore : ∀ l ∈ before, accepts defaults l v = false)
    (hleaf : accepts defaults leaf v = true) : firstLeaf? defaults type v = some leaf := by
  rw [firstLeaf?, List.find?_eq_some_iff_append]
  exact ⟨hleaf, before, after, hleaves, by simpa using hbefore⟩

/-- Without a leaf that accepts the value there is no candidate to choose and nothing to convert to. -/
theorem convert_of_firstLeaf?_eq_none {candidates : List DeclaredType} (hv : v ≠ .null)
    (h : firstLeaf? defaults (.choice candidates) v = none) :
    choose? defaults (.choice candidates) v = none ∧
      ∀ field, convert defaults (.choice candidates) v field =
        .error (.failed ⟨v, .choice, field,
          .noMatchingCandidate (candidates.map DeclaredType.display)⟩) := by
  rw [firstLeaf?_eq_none_iff, accepts_choice defaults hv] at h
  have hrefused : ∀ candidate ∈ candidates, accepts defaults candidate v = false := by
    simpa using h
  have hfind : (candidates.find? fun candidate => accepts defaults candidate v) = none := by
    simpa using hrefused
  rw [← choose?_map_snd, Option.map_eq_none_iff] at hfind
  exact ⟨hfind, convert_choice_of_forall defaults hv hrefused⟩

/-- A list is split in one way only at its first element of a kind. -/
theorem eq_of_first_split {α : Type} {p : α → Bool} {before after before' after' : List α} {a a' : α}
    (hsplit : before ++ a :: after = before' ++ a' :: after')
    (hbefore : ∀ b ∈ before, p b = false) (hbefore' : ∀ b ∈ before', p b = false)
    (ha : p a = true) (ha' : p a' = true) : before = before' ∧ a = a' ∧ after = after' := by
  induction before generalizing before' with
  | nil =>
    cases before' with
    | nil => simpa using hsplit
    | cons b rest =>
      have hb : a = b := (List.cons.inj hsplit).1
      rw [hb, hbefore' b List.mem_cons_self] at ha
      cases ha
  | cons b rest ih =>
    cases before' with
    | nil =>
      have hb : b = a' := (List.cons.inj hsplit).1
      rw [← hb, hbefore b List.mem_cons_self] at ha'
      cases ha'
    | cons b' rest' =>
      obtain ⟨rfl, htail⟩ := List.cons.inj hsplit
      have hrest : ∀ c ∈ rest, p c = false := fun c hc => hbefore c (List.mem_cons_of_mem _ hc)
      have hrest' : ∀ c ∈ rest', p c = false := fun c hc => hbefore' c (List.mem_cons_of_mem _ hc)
      obtain ⟨rfl, rfl, rfl⟩ := ih htail hrest hrest'
      exact ⟨rfl, rfl, rfl⟩

/-- The candidate that is chosen holds the first leaf that accepts the value. -/
theorem choose?_of_first_leaf {candidates before after : List DeclaredType} {leaf : DeclaredType}
    (hleaves : (DeclaredType.choice candidates).leaves = before ++ leaf :: after)
    (hbefore : ∀ l ∈ before, accepts defaults l v = false)
    (hleaf : accepts defaults leaf v = true) :
    ∃ earlier candidate later left right, candidates = earlier ++ candidate :: later ∧
      candidate.leaves = left ++ leaf :: right ∧ before = earlier.flatMap leaves ++ left ∧
      after = right ++ later.flatMap leaves ∧
      choose? defaults (.choice candidates) v = some (earlier.length, candidate) := by
  have hfirst := firstLeaf?_of_split hleaves hbefore hleaf
  rw [firstLeaf?_choice] at hfirst
  obtain ⟨candidate, hcandidate, hfound⟩ := Option.bind_eq_some_iff.mp hfirst
  obtain ⟨haccepts, earlier, later, rfl, hearlier⟩ := List.find?_eq_some_iff_append.mp hcandidate
  obtain ⟨-, left, right, hsubtree, hleft⟩ := List.find?_eq_some_iff_append.mp hfound
  have hrefused : ∀ c ∈ earlier, accepts defaults c v = false := by
    intro c hc
    simpa using hearlier c hc
  -- the leaves of the candidates that refuse the value refuse it too
  have hskipped : ∀ l ∈ earlier.flatMap leaves ++ left, accepts defaults l v = false := by
    intro l hl
    rcases List.mem_append.mp hl with hl | hl
    · obtain ⟨c, hc, hlc⟩ := List.mem_flatMap.mp hl
      have hnone := firstLeaf?_eq_none_iff.mpr (hrefused c hc)
      simpa using List.find?_eq_none.mp hnone l hlc
    · simpa using hleft l hl
  have hsplit : before ++ leaf :: after =
      (earlier.flatMap leaves ++ left) ++ leaf :: (right ++ later.flatMap leaves) := by
    rw [← hleaves, DeclaredType.leaves_choice, List.flatMap_append, List.flatMap_cons, hsubtree]
    simp
  obtain ⟨rfl, -, rfl⟩ := eq_of_first_split hsplit hbefore hskipped hleaf hleaf
  exact ⟨earlier, candidate, later, left, right, rfl, hsubtree, rfl, rfl,
    choose?_append hrefused haccepts⟩

/-- A choice accepts a value if one of its leaves does. The first such leaf decides: the chosen
candidate is the one whose subtree holds it, and the value converts as it does to this leaf. If there
is none, no candidate is chosen and the conversion fails for that reason, with all candidates listed.
So a conversion that succeeds does so for every other grouping of the same leaves. -/
theorem choice_first_match (defaults : FormatDefaults) (candidates : List DeclaredType) (v : Value) :
    (accepts defaults (.choice candidates) v = true ↔
      ∃ leaf ∈ (DeclaredType.choice candidates).leaves, accepts defaults leaf v = true) ∧
    (∀ before leaf after, (DeclaredType.choice candidates).leaves = before ++ leaf :: after →
      (∀ l ∈ before, accepts defaults l v = false) → accepts defaults leaf v = true →
      (∃ earlier candidate later left right, candidates = earlier ++ candidate :: later ∧
        candidate.leaves = left ++ leaf :: right ∧ before = earlier.flatMap leaves ++ left ∧
        after = right ++ later.flatMap leaves ∧
        choose? defaults (.choice candidates) v = some (earlier.length, candidate)) ∧
      ∀ field, convert defaults (.choice candidates) v field = convert defaults leaf v field) ∧
    (v ≠ .null → (∀ leaf ∈ (DeclaredType.choice candidates).leaves, accepts defaults leaf v = false) →
      choose? defaults (.choice candidates) v = none ∧
      ∀ field, convert defaults (.choice candidates) v field =
        .error (.failed ⟨v, .choice, field,
          .noMatchingCandidate (candidates.map DeclaredType.display)⟩)) ∧
    ∀ regrouped, (DeclaredType.choice regrouped).leaves = (DeclaredType.choice candidates).leaves →
      ∀ field w, convert defaults (.choice candidates) v field = .ok w →
        convert defaults (.choice regrouped) v field = .ok w := by
  refine ⟨?_, ?_, ?_, ?_⟩
  · rw [← isSome_firstLeaf?, firstLeaf?, List.find?_isSome]
  · intro before leaf after hleaves hbefore hleaf
    exact ⟨choose?_of_first_leaf hleaves hbefore hleaf,
      convert_of_firstLeaf? (firstLeaf?_of_split hleaves hbefore hleaf)⟩
  · intro hv hrefused
    exact convert_of_firstLeaf?_eq_none hv (firstLeaf?_eq_none_of_forall hrefused)
  · intro regrouped hsame field w hw
    by_cases hv : v = .null
    · rw [hv, convert_null] at hw ⊢
      exact hw
    · have hfirst : firstLeaf? defaults (.choice regrouped) v =
          firstLeaf? defaults (.choice candidates) v := by
        rw [firstLeaf?, hsame, firstLeaf?]
      cases hleaf : firstLeaf? defaults (.choice candidates) v with
      | none =>
        rw [(convert_of_firstLeaf?_eq_none hv hleaf).2] at hw
        cases hw
      | some leaf =>
        rw [convert_of_firstLeaf? (hfirst.trans hleaf), ← convert_of_firstLeaf? hleaf]
        exact hw

/-- A text of a truth value passes by the empty choice and the bounded numbers and goes to the inner
choice that holds the booleans, as it does in a flat list. Without booleans it goes nowhere. -/
theorem choice_first_match_nested :
    (choose? .empty (.choice [.choice [], .byte, .choice [.short, .boolean]]) (.string "true") =
        some (2, .choice [.short, .boolean]) ∧
      convert .empty (.choice [.choice [], .byte, .choice [.short, .boolean]]) (.string "true")
        "flag" = convert .empty .boolean (.string "true") "flag") ∧
    convert .empty (.choice [.byte, .short, .boolean]) (.string "true") "flag" =
      .ok (.boolean true) ∧
    convert .empty (.choice [.byte, .choice [.short]]) (.string "true") "flag" =
      .error (.failed ⟨.string "true", .choice, "flag",
        .noMatchingCandidate ["Byte", "Choice[Short]"]⟩) := by
  have hrefused : ∀ l ∈ [DeclaredType.byte, .short],
      accepts .empty l (.string "true") = false := by
    intro l hl
    simp only [List.mem_cons, List.not_mem_nil, or_false] at hl
    obtain rfl | rfl := hl <;> decide
  have hnested := choice_first_match .empty [.choice [], .byte, .choice [.short, .boolean]]
    (.string "true")
  have hshort := choice_first_match .empty [.byte, .choice [.short]] (.string "true")
  have hmatch := (hnested.2.1 [.byte, .short] .boolean [] rfl hrefused (by decide)).2
  have hflat := hnested.2.2.2 [.byte, .short, .boolean] rfl "flag" (.boolean true) rfl
  have hnone := (hshort.2.2.1 (by simp) hrefused).2 "flag"
  exact ⟨⟨rfl, hmatch "flag"⟩, hflat, hnone⟩

end RecordCoercion

import RecordCoercion.Temporal.Render

/-!
# Specifiers in a pattern

A specifier is read from its own characters and no others (`Item.specifier?_take_append`). So a
pattern that is accepted up to some point is accepted as a whole if the rest is
(`patternItems?_append`), and the one specifier that cannot be written is found in the pattern itself
if it is among the items (`TemporalFormat.isRenderable_eq_false_iff`).
-/

set_option autoImplicit false

namespace RecordCoercion

namespace Item

/-- A fraction has three, six or nine digits. -/
theorem fractionDigits?_cases {c : Char} {digits : Nat} (h : fractionDigits? c = some digits) :
    c = '3' ∨ c = '6' ∨ c = '9' := by
  unfold fractionDigits? at h
  split at h
  · exact .inl rfl
  · exact .inr (.inl rfl)
  · exact .inr (.inr rfl)
  · cases h

/-- A specifier is read from its own characters, whatever follows. -/
theorem specialSpecifier?_take_append {text : List Char} {items : List Item} {n : Nat}
    (h : specialSpecifier? text = some (items, n)) (more : List Char) :
    0 < n ∧ n ≤ text.length ∧ specialSpecifier? (text.take n ++ more) = some (items, n) := by
  unfold specialSpecifier? at h
  split at h
  -- a fraction of a second, with its point and without
  case h_6 | h_7 =>
    obtain ⟨digits, hdigits, heq⟩ := Option.map_eq_some_iff.mp h
    cases heq
    obtain rfl | rfl | rfl := fractionDigits?_cases hdigits <;> cases hdigits <;>
      exact ⟨by decide, by simp, rfl⟩
  case h_8 => cases h
  all_goals
    cases h
    exact ⟨by decide, by simp, rfl⟩

/-- A specifier is read from its own characters, whatever follows. -/
theorem specifier?_take_append {text : List Char} {items : List Item} {n : Nat}
    (h : specifier? text = some (items, n)) (more : List Char) :
    n ≤ text.length ∧ specifier? (text.take n ++ more) = some (items, n) := by
  cases text with
  | nil => cases h
  | cons c rest =>
    simp only [specifier?] at h
    cases hnumber : numberOf? c with
    | some number =>
      simp only [hnumber, Option.some.injEq, Prod.mk.injEq] at h
      obtain ⟨rfl, rfl⟩ := h
      exact ⟨by simp, by simp [specifier?, hnumber]⟩
    | none =>
    cases hitems : itemsOf? c with
    | some several =>
      simp only [hnumber, hitems, Option.some.injEq, Prod.mk.injEq] at h
      obtain ⟨rfl, rfl⟩ := h
      exact ⟨by simp, by simp [specifier?, hnumber, hitems]⟩
    | none =>
    cases hpadding : paddingOf? c with
    | some padding =>
      simp only [hnumber, hitems, hpadding, Option.map_eq_some_iff, Option.bind_eq_some_iff] at h
      obtain ⟨⟨field, usual⟩, ⟨d, hhead, hfield⟩, heq⟩ := h
      cases heq
      cases rest with
      | nil => cases hhead
      | cons e rest =>
        cases hhead
        exact ⟨by simp, by simp [specifier?, hnumber, hitems, hpadding, hfield]⟩
    | none =>
      simp only [hnumber, hitems, hpadding] at h
      obtain ⟨hpos, hle, hspecial⟩ := specialSpecifier?_take_append h more
      obtain ⟨n, rfl⟩ := Nat.exists_eq_succ_of_ne_zero (Nat.ne_of_gt hpos)
      refine ⟨hle, ?_⟩
      rw [List.take_succ_cons, List.cons_append] at hspecial ⊢
      simp only [specifier?, hnumber, hitems, hpadding]
      exact hspecial

/-- The permissive offset comes from one specifier only. -/
theorem exists_of_permissive_mem {text : List Char} {items : List Item} {n : Nat}
    (h : specifier? text = some (items, n)) (hmem : .offset .permissive ∈ items) :
    ∃ after, text = '#' :: 'z' :: after := by
  cases text with
  | nil => cases h
  | cons c rest =>
    simp only [specifier?] at h
    cases hnumber : numberOf? c with
    | some number =>
      simp only [hnumber, Option.some.injEq, Prod.mk.injEq] at h
      obtain ⟨rfl, -⟩ := h
      simp at hmem
    | none =>
    cases hitems : itemsOf? c with
    | some several =>
      simp only [hnumber, hitems, Option.some.injEq, Prod.mk.injEq] at h
      obtain ⟨rfl, -⟩ := h
      unfold itemsOf? at hitems
      split at hitems <;> cases hitems <;> exact absurd hmem (by decide)
    | none =>
    cases hpadding : paddingOf? c with
    | some padding =>
      simp only [hnumber, hitems, hpadding, Option.map_eq_some_iff] at h
      obtain ⟨field, -, heq⟩ := h
      cases heq
      simp at hmem
    | none =>
      simp only [hnumber, hitems, hpadding] at h
      unfold specialSpecifier? at h
      split at h
      case h_4 after heq =>
        cases h
        exact ⟨after, heq⟩
      case h_6 | h_7 =>
        obtain ⟨digits, -, heq⟩ := Option.map_eq_some_iff.mp h
        cases heq
        simp at hmem
      case h_8 => cases h
      all_goals
        cases h
        simp at hmem

end Item

/-- A pattern is made of characters that stand for themselves and of specifiers. -/
inductive SplitsInto : List Char → List Item → Prop
  | nil : SplitsInto [] []
  | char {c : Char} {rest : List Char} {items : List Item} (hc : c ≠ '%')
      (h : SplitsInto rest items) : SplitsInto (c :: rest) (Item.ofChar isBlank c :: items)
  | specifier {chars rest : List Char} {first items : List Item}
      (hfirst : ∀ more, Item.specifier? (chars ++ more) = some (first, chars.length))
      (h : SplitsInto rest items) : SplitsInto ('%' :: (chars ++ rest)) (first ++ items)

/-- The part of a pattern behind an earlier specifier is made so. -/
theorem splitsInto_of_patternItemsAfter? {n : Nat} {text : List Char} {items : List Item}
    (h : patternItemsAfter? n text = some items) : SplitsInto (text.drop n) items := by
  induction text generalizing n items with
  | nil =>
    rw [patternItemsAfter?] at h
    cases h
    rw [List.drop_nil]
    exact .nil
  | cons c rest ih =>
    cases n with
    | succ n => exact ih h
    | zero =>
      rw [patternItemsAfter?] at h
      split at h
      · next hpercent =>
        split at h
        · next first length hfirst =>
          obtain ⟨after, hafter, rfl⟩ := Option.map_eq_some_iff.mp h
          have hread := fun more => Item.specifier?_take_append hfirst more
          have hlength : (rest.take length).length = length :=
            List.length_take_of_le (hread []).1
          have hsplit : SplitsInto ('%' :: (rest.take length ++ rest.drop length))
              (first ++ after) := by
            refine .specifier (fun more => ?_) (ih hafter)
            rw [hlength]
            exact (hread more).2
          rw [List.take_append_drop] at hsplit
          rw [hpercent]
          exact hsplit
        · cases h
      · next hc =>
        obtain ⟨after, hafter, rfl⟩ := Option.map_eq_some_iff.mp h
        exact .char hc (ih hafter)

/-- Reading goes on behind the characters of a specifier. -/
theorem patternItemsAfter?_append (chars rest : List Char) :
    patternItemsAfter? chars.length (chars ++ rest) = patternItems? rest := by
  induction chars with
  | nil => rfl
  | cons c chars ih => exact ih

/-- A character other than `%` stands for itself. -/
theorem patternItems?_char {c : Char} (hc : c ≠ '%') (rest : List Char) :
    patternItems? (c :: rest) = (patternItems? rest).map (Item.ofChar isBlank c :: ·) := by
  simp only [patternItems?, patternItemsAfter?, if_neg hc]

/-- A specifier is read as its items, and then the rest. -/
theorem patternItems?_percent {chars rest : List Char} {first : List Item}
    (hfirst : Item.specifier? (chars ++ rest) = some (first, chars.length)) :
    patternItems? ('%' :: (chars ++ rest)) = (patternItems? rest).map (first ++ ·) := by
  rw [← patternItemsAfter?_append chars rest]
  simp only [patternItems?, patternItemsAfter?, if_true, hfirst]

/-- What follows a pattern is split behind it. -/
theorem SplitsInto.patternItems?_append {before : List Char} {items : List Item}
    (h : SplitsInto before items) (after : List Char) :
    patternItems? (before ++ after) = (patternItems? after).map (items ++ ·) := by
  induction h with
  | nil => simp
  | @char c rest items hc _ ih =>
    rw [List.cons_append, patternItems?_char hc, ih, Option.map_map]
    rfl
  | @specifier chars rest first items hfirst _ ih =>
    rw [List.cons_append, List.append_assoc, patternItems?_percent (hfirst _), ih, Option.map_map]
    simp only [Function.comp_def, List.append_assoc]

/-- The items of a pattern are those that it is made of. -/
theorem patternItems?_eq_some_iff {text : List Char} {items : List Item} :
    patternItems? text = some items ↔ SplitsInto text items := by
  refine ⟨splitsInto_of_patternItemsAfter?, fun h => ?_⟩
  have happend := h.patternItems?_append []
  rw [List.append_nil] at happend
  rw [happend]
  simp [patternItems?, patternItemsAfter?]

/-- The specifier `%#z` stands in a pattern, behind a part that is a pattern by itself. -/
def HoldsPermissive (pattern : List Char) : Prop :=
  ∃ before after, pattern = before ++ '%' :: '#' :: 'z' :: after ∧
    (patternItems? before).isSome = true

/-- A pattern with the item of `%#z` holds this specifier. -/
theorem SplitsInto.holdsPermissive {pattern : List Char} {items : List Item}
    (h : SplitsInto pattern items) (hmem : .offset .permissive ∈ items) :
    HoldsPermissive pattern := by
  induction h with
  | nil => simp at hmem
  | @char c rest items hc hrest ih =>
    have hofChar : .offset .permissive ≠ Item.ofChar isBlank c := by
      unfold Item.ofChar
      split <;> simp
    have htail := (List.mem_cons.mp hmem).resolve_left hofChar
    obtain ⟨before, after, rfl, hbefore⟩ := ih htail
    refine ⟨c :: before, after, rfl, ?_⟩
    rw [patternItems?_char hc, Option.isSome_map]
    exact hbefore
  | @specifier chars rest first items hfirst hrest ih =>
    rcases List.mem_append.mp hmem with hmem | hmem
    · have hchars := hfirst []
      rw [List.append_nil] at hchars
      obtain ⟨after, rfl⟩ := Item.exists_of_permissive_mem hchars hmem
      exact ⟨[], after ++ rest, rfl, rfl⟩
    · obtain ⟨before, after, rfl, hbefore⟩ := ih hmem
      refine ⟨'%' :: (chars ++ before), after, by simp, ?_⟩
      rw [patternItems?_percent (hfirst before), Option.isSome_map]
      exact hbefore

/-- Exactly the formats that cannot write have the specifier `%#z` in their pattern. -/
theorem TemporalFormat.isRenderable_eq_false_iff (format : TemporalFormat) :
    format.isRenderable = false ↔ HoldsPermissive format.pattern.toList := by
  have hitems : patternItems? format.pattern.toList = some format.items :=
    (Option.some_get format.isSome_patternItems).symm
  have hcontains : format.isRenderable = false ↔ .offset .permissive ∈ format.items := by
    simp [isRenderable]
  rw [hcontains]
  constructor
  · exact (patternItems?_eq_some_iff.mp hitems).holdsPermissive
  · rintro ⟨before, after, hpattern, hbefore⟩
    obtain ⟨first, hfirst⟩ := Option.isSome_iff_exists.mp hbefore
    have hspecifier : Item.specifier? (['#', 'z'] ++ after) =
        some ([.offset .permissive], ['#', 'z'].length) := rfl
    have hpermissive : patternItems? ('%' :: '#' :: 'z' :: after) =
        (patternItems? after).map ([.offset .permissive] ++ ·) := patternItems?_percent hspecifier
    rw [hpattern, (patternItems?_eq_some_iff.mp hfirst).patternItems?_append, hpermissive,
      Option.map_map] at hitems
    obtain ⟨rest, -, heq⟩ := Option.map_eq_some_iff.mp hitems
    rw [← heq]
    simp

end RecordCoercion

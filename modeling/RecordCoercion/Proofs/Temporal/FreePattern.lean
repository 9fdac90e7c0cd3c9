import RecordCoercion.Proofs.Temporal.Specifiers
import RecordCoercion.Proofs.Temporal.WrittenMoment

/-!
# Patterns with text between their numbers

The parts of a pattern are here specifiers of a date and a time of day and characters that stand for
themselves, in any order and with nothing between them. What such a pattern writes of a moment is
what its items ask for when they are read, even after blanks were taken from the ends of the text
(`matches_trim`): a reader that meets a blank takes all blanks that follow, and none of them has to be
there. So a format reads what it wrote, up to the fields that it leaves out
(`TemporalFormat.read?_trim_partsText`).
-/

set_option autoImplicit false

namespace RecordCoercion

/-- A part of a pattern: a character that stands for itself, or a number. -/
inductive PatternPart
  | char (c : Char) (hc : c ≠ '%')
  | field (f : CivilField)
  deriving DecidableEq

namespace PatternPart

/-- The part as it stands in a pattern. -/
def pattern : PatternPart → List Char
  | char c _ => [c]
  | field f => ['%', f.letter]

/-- The item of a part. -/
def item : PatternPart → Item
  | char c _ => .ofChar isBlank c
  | field f => .number f.number .zeros

/-- What a part writes of a moment. -/
def text (m : Moment) : PatternPart → List Char
  | char c _ => [c]
  | field f => f.number.text .zeros m

/-- The field of a part. -/
def field? : PatternPart → Option CivilField
  | char _ _ => none
  | field f => some f

/-- The item of a part asks for its field. -/
theorem civilField?_item (part : PatternPart) : part.item.civilField? = part.field? := by
  cases part with
  | char c hc =>
    simp only [item, Item.ofChar]
    split <;> rfl
  | field f => exact f.civilField?_number

/-- No part asks for an offset. -/
theorem isOffset_item (part : PatternPart) : part.item.isOffset = false := by
  cases part with
  | char c hc =>
    simp only [item, Item.ofChar]
    split <;> rfl
  | field f => rfl

/-- The item of a part writes its text. -/
theorem text?_item (m : Moment) (part : PatternPart) : part.item.text? m = some (part.text m) := by
  cases part with
  | char c hc =>
    simp only [item, Item.ofChar]
    split <;> rfl
  | field f => rfl

end PatternPart

/-- The fields of the parts of a pattern, in their order. -/
def partFields (parts : List PatternPart) : List CivilField := parts.filterMap PatternPart.field?

/-- What the parts of a pattern write of a moment. -/
def partsText (m : Moment) (parts : List PatternPart) : List Char := parts.flatMap (PatternPart.text m)

/-- A pattern is read as the items of its parts. -/
theorem patternItems?_parts (parts : List PatternPart) :
    patternItems? (parts.flatMap PatternPart.pattern) = some (parts.map PatternPart.item) := by
  induction parts with
  | nil => rfl
  | cons part rest ih =>
    rw [List.flatMap_cons, List.map_cons]
    cases part with
    | char c hc =>
      rw [PatternPart.pattern, List.singleton_append, patternItems?_char hc, ih, Option.map_some]
      rfl
    | field f =>
      have hsplit : PatternPart.pattern (.field f) ++ rest.flatMap PatternPart.pattern =
          '%' :: f.letter :: rest.flatMap PatternPart.pattern := rfl
      rw [hsplit, patternItems?_specifier, ih, Option.map_some]
      rfl

namespace TemporalFormat

/-- The format whose pattern has the given parts. -/
def ofParts (parts : List PatternPart) : TemporalFormat where
  pattern := String.ofList (parts.flatMap PatternPart.pattern)
  isSome_patternItems := by
    rw [String.toList_ofList, patternItems?_parts]
    rfl

variable (parts : List PatternPart)

/-- The items of the format of some parts. -/
theorem items_ofParts : (ofParts parts).items = parts.map PatternPart.item := by
  have hitems : patternItems? (ofParts parts).pattern.toList = some (parts.map PatternPart.item) := by
    rw [ofParts, String.toList_ofList, patternItems?_parts]
  simp only [items, hitems, Option.get_some]

/-- The fields of a format are those of its parts. -/
theorem civilFields_items_ofParts : civilFields (ofParts parts).items = partFields parts := by
  rw [items_ofParts, civilFields, partFields, List.filterMap_map]
  exact congrArg (List.filterMap · parts) (funext PatternPart.civilField?_item)

/-- No offset is read by the format of parts. -/
theorem offsetAfter_items_ofParts (known : Option Int) (offset : Int) :
    offsetAfter known offset (ofParts parts).items = known := by
  have hnone : (ofParts parts).items.any Item.isOffset = false := by
    rw [items_ofParts, List.any_map, List.any_eq_false]
    intro part _
    simp [PatternPart.isOffset_item]
  rw [offsetAfter, hnone]
  rfl

/-- The format of parts writes their texts. -/
theorem textOfItems?_ofParts (m : Moment) :
    textOfItems? m (ofParts parts).items = some (partsText m parts) := by
  have hmap : (parts.map PatternPart.item).mapM (Item.text? m) =
      some (parts.map (PatternPart.text m)) := by
    induction parts with
    | nil => rfl
    | cons part rest ih =>
      simp [List.map_cons, List.mapM_cons, PatternPart.text?_item, ih]
  rw [textOfItems?, items_ofParts, hmap, Option.map_some, partsText, List.flatMap_def]

end TemporalFormat

/-! ## Reading what was written -/

/-- Characters that are not blank are not among the blanks at the end of a text. -/
theorem exists_of_append_eq_append {front back text blanks : List Char}
    (hfront : ∀ c ∈ front, isBlank c = false) (hblanks : ∀ c ∈ blanks, isBlank c = true)
    (h : front ++ back = text ++ blanks) : ∃ rest, text = front ++ rest ∧ back = rest ++ blanks := by
  obtain ⟨rest, htext, hback⟩ | ⟨common, htext, hback⟩ := List.append_eq_append_iff.mp h
  · exact ⟨rest, htext, hback⟩
  · cases common with
    | nil => exact ⟨[], by simp_all, by simp_all⟩
    | cons c common =>
      have hnot := hfront c (by simp [htext])
      have hblank := hblanks c (by simp [hback])
      rw [hnot] at hblank
      cases hblank

/-- Nothing is trimmed off a text that starts without a blank. -/
theorem trimStart_of_nonblank {front rest : List Char} (hne : front ≠ [])
    (hfront : ∀ c ∈ front, isBlank c = false) : trimStart (front ++ rest) = front ++ rest := by
  have hnone : ∀ c ∈ ([] : List Char), isBlank c = true := by simp
  refine trimStart_append hnone fun c hc => hfront c ?_
  obtain ⟨first, front, rfl⟩ := List.exists_cons_of_ne_nil hne
  cases hc
  exact List.mem_cons_self

/-- What is left of a text when blanks are taken from its end is what the items ask for, and remains
so when blanks are taken from its start. -/
theorem matches_of_partsText {t : CivilTime} {m : Moment} {parts : List PatternPart}
    (hfilled : ∀ f ∈ partFields parts, f.IsFilled (f.number.text .zeros m) (t.value f))
    {text blanks : List Char} (htext : partsText m parts = text ++ blanks)
    (hblanks : ∀ c ∈ blanks, isBlank c = true) :
    Matches t 0 (parts.map PatternPart.item) text ∧
      Matches t 0 (parts.map PatternPart.item) (trimStart text) := by
  induction parts generalizing text blanks with
  | nil =>
    obtain ⟨rfl, -⟩ := List.append_eq_nil_iff.mp htext.symm
    exact ⟨.done, .done⟩
  | cons part rest ih =>
    rw [List.map_cons]
    cases part with
    | field f =>
      obtain ⟨hf, hrest⟩ := List.forall_mem_cons.mp hfilled
      have hdigits : ∀ c ∈ f.number.text .zeros m, isBlank c = false :=
        fun c hc => isBlank_of_isDigit (hf.isDigit c hc)
      obtain ⟨after, rfl, hafter⟩ := exists_of_append_eq_append hdigits hblanks htext
      have hmatch : Matches t 0 (.number f.number .zeros :: rest.map PatternPart.item)
          (f.number.text .zeros m ++ after) := .number (hf.numberText after) (ih hrest hafter hblanks).1
      rw [trimStart_of_nonblank hf.ne_nil hdigits]
      exact ⟨hmatch, hmatch⟩
    | char c hc =>
      have hrest : ∀ f ∈ partFields rest, f.IsFilled (f.number.text .zeros m) (t.value f) := hfilled
      by_cases hblank : isBlank c = true
      · have hitem : (PatternPart.char c hc).item = .blank c := if_pos hblank
        rw [hitem]
        -- the blank takes all blanks that follow it, so that what the rest is read from starts with none
        have hskip : ∀ {skipped after : List Char}, (∀ b ∈ skipped, isBlank b = true) →
            Matches t 0 (rest.map PatternPart.item) (trimStart after) →
            Matches t 0 (.blank c :: rest.map PatternPart.item) (skipped ++ trimStart after) :=
          fun hskipped hafter => .blank hskipped (fun b hb => head?_dropWhile hb) hafter
        have hnone : ∀ b ∈ ([] : List Char), isBlank b = true := by simp
        cases text with
        | nil =>
          have hall : ∀ b ∈ partsText m rest, isBlank b = true := by
            intro b hb
            refine hblanks b ?_
            rw [← List.nil_append blanks, ← htext]
            exact List.mem_cons_of_mem c hb
          have hempty := hskip hnone (ih hrest (List.nil_append _).symm hall).2
          exact ⟨hempty, hempty⟩
        | cons first after =>
          obtain ⟨rfl, hafter⟩ := List.cons.inj htext
          have hmatch := (ih hrest hafter hblanks).2
          obtain ⟨skipped, hskipped, hallblank⟩ := exists_blanks after
          constructor
          · rw [hskipped, ← List.cons_append]
            exact hskip (List.forall_mem_cons.mpr ⟨hblank, hallblank⟩) hmatch
          · rw [trimStart, List.dropWhile_cons_of_pos hblank]
            exact hskip hnone hmatch
      · have hitem : (PatternPart.char c hc).item = .literal c := if_neg hblank
        rw [hitem]
        have hfront : ∀ d ∈ [c], isBlank d = false := by simpa using hblank
        obtain ⟨after, rfl, hafter⟩ := exists_of_append_eq_append hfront hblanks htext
        have hmatch : Matches t 0 (.literal c :: rest.map PatternPart.item) ([c] ++ after) :=
          .literal (ih hrest hafter hblanks).1
        rw [trimStart_of_nonblank (List.cons_ne_nil c []) hfront]
        exact ⟨hmatch, hmatch⟩

variable {t : CivilTime} {m : Moment} {parts : List PatternPart}

/-- Without the blanks at its ends, what a pattern writes is what its items ask for. -/
theorem matches_trim
    (hfilled : ∀ f ∈ partFields parts, f.IsFilled (f.number.text .zeros m) (t.value f)) :
    Matches t 0 (parts.map PatternPart.item) (trim (partsText m parts)) := by
  obtain ⟨before, after, htext, hbefore, hafter, hhead⟩ := exists_trim (partsText m parts)
  have hmatch := (matches_of_partsText hfilled htext hafter).2
  rw [trimStart_append hbefore hhead] at hmatch
  exact hmatch

/-- A pattern with a number writes more than blanks. -/
theorem trim_partsText_ne_nil {f : CivilField} (hf : f ∈ partFields parts)
    (hfilled : ∀ f ∈ partFields parts, f.IsFilled (f.number.text .zeros m) (t.value f)) :
    trim (partsText m parts) ≠ [] := by
  intro hempty
  obtain ⟨before, after, htext, hbefore, hafter, -⟩ := exists_trim (partsText m parts)
  rw [hempty, List.append_nil] at htext
  obtain ⟨part, hpart, hfield⟩ := List.mem_filterMap.mp hf
  obtain ⟨c, hc⟩ := List.exists_mem_of_ne_nil _ (hfilled f hf).ne_nil
  have hdigit : isBlank c = false := isBlank_of_isDigit ((hfilled f hf).isDigit c hc)
  have hmem : c ∈ partsText m parts := by
    refine List.mem_flatMap.mpr ⟨part, hpart, ?_⟩
    cases part with
    | char => cases hfield
    | field g =>
      cases hfield
      exact hc
  rw [htext] at hmem
  have hblank := (List.mem_append.mp hmem).elim (hbefore c) (hafter c)
  rw [hdigit] at hblank
  cases hblank

/-- The numbers that a pattern writes of a moment fill their places. -/
theorem filled_partFields (hm : m.InDay)
    (hyear : .year ∈ partFields parts → 0 ≤ m.date.year ∧ m.date.year ≤ 9999)
    (hshort : .yearOfCentury ∉ partFields parts) :
    ∀ f ∈ partFields parts, f.IsFilled (f.number.text .zeros m)
      ((m.civilTime.keep (partFields parts)).value f) := by
  intro f hf
  have hne : f ≠ .yearOfCentury := by
    rintro rfl
    exact hshort hf
  rw [CivilTime.value_keep hf hne]
  refine Moment.filled_text hm f ?_
  rintro rfl
  exact hyear hf

/-- What a pattern writes of a moment is read as the time with the numbers of its fields, if there is
such a time. -/
theorem TemporalFormat.read?_trim_partsText (hm : m.InDay)
    (hyear : .year ∈ partFields parts → 0 ≤ m.date.year ∧ m.date.year ≤ 9999)
    (hshort : .yearOfCentury ∉ partFields parts)
    (hexists : (m.civilTime.keep (partFields parts)).Exists) :
    ((ofParts parts).read? (trim (partsText m parts))).map (·.epochMillis.toInt) =
      some (m.civilTime.keep (partFields parts)).epochMillis := by
  have hcalendar : (m.civilTime.keep (partFields parts)).OnCalendar := by
    unfold CivilTime.OnCalendar firstYear lastYear CivilTime.keep
    dsimp only
    split
    · next hf =>
      have hrange := hyear hf
      show -262143 ≤ m.date.year ∧ m.date.year ≤ 262142
      omega
    · decide
  have hmatch := matches_trim (filled_partFields hm hyear hshort)
  rw [← items_ofParts] at hmatch
  have hread := read?_of_matches hmatch
  rw [civilFields_items_ofParts, offsetAfter_items_ofParts] at hread
  rw [hread (fun h => absurd h hshort) (.inr CivilTime.hasDefaultDate_keep)
    CivilTime.hasDefaultClock_keep, if_pos ⟨hexists, hcalendar⟩, Option.elim_none, Int.zero_mul,
    Int.sub_zero]

end RecordCoercion

import Mathlib.Data.List.Perm.Subperm
import RecordCoercion.Proofs.Value.Insertion

/-!
# Comparing lists

Lists of items are compared in order, item by item. Lists of entries are compared without regard to
order, by looking up each entry of one list in the other; `Ordered.Among` is this comparison, for any
relation of values. It looks at one list only; among lists of one length with distinct keys it goes both
ways nevertheless (`Ordered.Among.symm`), since keys that are all found in a list that is no longer than
theirs are all the keys of that list.
-/

set_option autoImplicit false

namespace RecordCoercion

/-! ## In order -/

section

variable {α : Type} {related : α → α → Prop}

/-- Lists of related items are related the other way round if their items are. -/
theorem forall₂_symm {items others : List α}
    (hrelated : ∀ item ∈ items, ∀ other ∈ others, related item other → related other item)
    (h : List.Forall₂ related items others) : List.Forall₂ related others items := by
  induction h with
  | nil => exact .nil
  | cons hitem _ ih =>
    obtain ⟨hfirst, hrest⟩ := List.forall_mem_cons.mp hrelated
    exact .cons (hfirst _ List.mem_cons_self hitem)
      (ih fun item hmem other hmem' => hrest item hmem other (List.mem_cons_of_mem _ hmem'))

/-- Lists of related items compose if their items do. -/
theorem forall₂_trans {items others thirds : List α}
    (hrelated : ∀ item ∈ items, ∀ b c, related item b → related b c → related item c)
    (h : List.Forall₂ related items others) (h' : List.Forall₂ related others thirds) :
    List.Forall₂ related items thirds := by
  induction h generalizing thirds with
  | nil => exact h'
  | cons hitem _ ih =>
    obtain ⟨hfirst, hrest⟩ := List.forall_mem_cons.mp hrelated
    cases h' with
    | cons hother hothers => exact .cons (hfirst _ _ hitem hother) (ih hrest hothers)

end

/-- An item of a list has a related one at its place in the other. -/
theorem exists_getElem?_of_forall₂ {α β : Type} {related : α → β → Prop} {items : List α}
    {others : List β} (h : List.Forall₂ related items others) {i : Nat} {item : α}
    (hitem : items[i]? = some item) : ∃ other, others[i]? = some other ∧ related item other := by
  induction h generalizing i with
  | nil => simp at hitem
  | cons hfirst _ ih =>
    cases i with
    | zero => exact ⟨_, rfl, by simpa [← Option.some.inj hitem] using hfirst⟩
    | succ i => exact ih hitem

/-- An item of a list that is related to another one item by item has a related item there. -/
theorem exists_mem_of_forall₂ {α β : Type} {related : α → β → Prop} {items : List α}
    {others : List β} (h : List.Forall₂ related items others) {item : α} (hmem : item ∈ items) :
    ∃ other ∈ others, related item other := by
  obtain ⟨i, hitem⟩ := List.mem_iff_getElem?.mp hmem
  obtain ⟨other, hother, hrelated⟩ := exists_getElem?_of_forall₂ h hitem
  exact ⟨other, List.mem_of_getElem? hother, hrelated⟩

namespace Ordered

variable {κ α : Type} {eq : κ → κ → Bool}

/-! ## Looking up -/

/-- A value that is found stands under a key that is equal to the one it is looked for under. -/
theorem exists_mem_of_get?_eq_some {key : κ} {value : α} {entries : List (κ × α)}
    (h : get? eq key entries = some value) : ∃ k, (k, value) ∈ entries ∧ eq k key = true := by
  obtain ⟨before, k, after, rfl, hk, -⟩ := exists_insert_of_get?_eq_some h
  exact ⟨k, by simp, hk⟩

/-- Under equal keys the same is found. -/
theorem get?_congr (heq : IsEquiv eq) {k l : κ} (h : eq k l = true) (entries : List (κ × α)) :
    get? eq k entries = get? eq l entries := by
  induction entries with
  | nil => rfl
  | cons entry rest ih =>
    have hsame : eq entry.1 k = eq entry.1 l := by
      rw [Bool.eq_iff_iff]
      exact ⟨fun hk => heq.trans hk h, fun hl => heq.trans hl (heq.symm h)⟩
    rw [get?, get?, hsame, ih]

/-- With the equality of its own, a key is looked up as in any list of pairs. -/
theorem get?_beq_eq_lookup [BEq κ] [LawfulBEq κ] (key : κ) (entries : List (κ × α)) :
    get? (· == ·) key entries = entries.lookup key := by
  induction entries with
  | nil => rfl
  | cons entry rest ih =>
    obtain ⟨k, value⟩ := entry
    have hkey : (k == key) = (key == k) := Bool.beq_comm
    rw [get?, List.lookup_cons, ih, hkey]
    cases key == k <;> rfl

/-! ## Permutations -/

/-- Distinct keys stay so in any order. -/
theorem Distinct.perm (heq : IsEquiv eq) {entries others : List (κ × α)} (h : Distinct eq entries)
    (hperm : entries.Perm others) : Distinct eq others := by
  refine (List.Perm.pairwise_iff ?_ (hperm.map _)).mp h
  intro k l hkl
  rw [Bool.eq_false_iff] at hkl ⊢
  exact fun hlk => hkl (heq.symm hlk)

/-- What is found among distinct keys does not depend on the order of the entries. -/
theorem get?_perm (heq : IsEquiv eq) {entries others : List (κ × α)} (h : Distinct eq entries)
    (hperm : entries.Perm others) (key : κ) : get? eq key entries = get? eq key others := by
  cases hget : get? eq key entries with
  | some value =>
    obtain ⟨k, hmem, hk⟩ := exists_mem_of_get?_eq_some hget
    rw [← get?_congr heq hk, get?_of_mem heq (h.perm heq hperm) (hperm.mem_iff.mp hmem)]
  | none =>
    have hnone : (get? eq key others).isSome = false := by
      rw [isSome_get?, ← (hperm.map _).any_eq, ← isSome_get?, hget, Option.isSome_none]
    exact (Option.not_isSome_iff_eq_none.mp (by simp [hnone])).symm

/-! ## Comparison -/

/-- Each entry of a list has a related value under its key in another list. -/
def Among (eq : κ → κ → Bool) (related : α → α → Prop) (entries others : List (κ × α)) : Prop :=
  ∀ entry ∈ entries, ∃ value, get? eq entry.1 others = some value ∧ related entry.2 value

/-- Entries with distinct keys are among themselves exactly if each value is related to itself. -/
theorem among_self_iff (heq : IsEquiv eq) {related : α → α → Prop} {entries : List (κ × α)}
    (h : Distinct eq entries) :
    Among eq related entries entries ↔ ∀ entry ∈ entries, related entry.2 entry.2 := by
  refine forall₂_congr fun entry hmem => ?_
  simp [get?_of_mem heq h hmem]

/-- What is among entries that are among others is among those. -/
theorem Among.trans (heq : IsEquiv eq) {related : α → α → Prop}
    {entries others thirds : List (κ × α)}
    (hrelated : ∀ entry ∈ entries, ∀ b c, related entry.2 b → related b c → related entry.2 c)
    (h : Among eq related entries others) (h' : Among eq related others thirds) :
    Among eq related entries thirds := by
  intro entry hmem
  obtain ⟨value, hvalue, hab⟩ := h entry hmem
  obtain ⟨k, hk, hkey⟩ := exists_mem_of_get?_eq_some hvalue
  obtain ⟨value', hvalue', hbc⟩ := h' (k, value) hk
  exact ⟨value', by rw [← get?_congr heq hkey, hvalue'], hrelated entry hmem _ _ hab hbc⟩

/-- Distinct keys that are all found among no more other keys leave none of those out. -/
theorem exists_eq_of_forall_exists_eq (heq : IsEquiv eq) {keys others : List κ}
    (hdistinct : keys.Pairwise fun k l => eq k l = false) (hlength : others.length ≤ keys.length)
    (h : ∀ k ∈ keys, ∃ l ∈ others, eq l k = true) : ∀ l ∈ others, ∃ k ∈ keys, eq k l = true := by
  -- up to equality of keys, the one list is a list without repetition of members of the other
  let setoid : Setoid κ := ⟨fun k l => eq k l = true, heq.refl, heq.symm, heq.trans⟩
  let up : κ → Quotient setoid := Quotient.mk setoid
  have up_eq : ∀ {k l}, up k = up l ↔ eq k l = true :=
    ⟨Quotient.exact, fun h => Quotient.sound h⟩
  have hnodup : (keys.map up).Nodup := by
    refine List.pairwise_map.mpr (hdistinct.imp ?_)
    intro k l hkl hup
    rw [up_eq.mp hup] at hkl
    cases hkl
  have hsubset : keys.map up ⊆ others.map up := by
    intro q hq
    obtain ⟨k, hk, rfl⟩ := List.mem_map.mp hq
    obtain ⟨l, hl, hlk⟩ := h k hk
    exact List.mem_map.mpr ⟨l, hl, up_eq.mpr hlk⟩
  have hperm : (keys.map up).Perm (others.map up) :=
    (hnodup.subperm hsubset).perm_of_length_le (by simpa using hlength)
  intro l hl
  obtain ⟨k, hk, hup⟩ := List.mem_map.mp (hperm.mem_iff.mpr (List.mem_map_of_mem hl))
  exact ⟨k, hk, up_eq.mp hup⟩

/-- Between lists of one length with distinct keys the comparison goes both ways. -/
theorem Among.symm (heq : IsEquiv eq) {related : α → α → Prop} {entries others : List (κ × α)}
    (hentries : Distinct eq entries) (hothers : Distinct eq others)
    (hlength : entries.length = others.length)
    (hrelated : ∀ entry ∈ entries, ∀ other ∈ others, related entry.2 other.2 →
      related other.2 entry.2)
    (h : Among eq related entries others) : Among eq related others entries := by
  have hkeys : ∀ l ∈ others.map (·.1), ∃ k ∈ entries.map (·.1), eq k l = true := by
    refine exists_eq_of_forall_exists_eq heq hentries (by simp [hlength]) ?_
    intro k hk
    obtain ⟨entry, hmem, rfl⟩ := List.mem_map.mp hk
    obtain ⟨value, hvalue, -⟩ := h entry hmem
    obtain ⟨l, hl, heql⟩ := exists_mem_of_get?_eq_some hvalue
    exact ⟨l, List.mem_map_of_mem hl, heql⟩
  intro other hmem
  obtain ⟨k, hk, hkey⟩ := hkeys other.1 (List.mem_map_of_mem hmem)
  obtain ⟨entry, hentry, rfl⟩ := List.mem_map.mp hk
  obtain ⟨value, hvalue, hab⟩ := h entry hentry
  -- the entry was found under an equal key, so what was found for it is this other entry
  rw [get?_congr heq hkey, get?_of_mem heq hothers hmem] at hvalue
  obtain rfl := Option.some.inj hvalue
  exact ⟨entry.2, by rw [← get?_congr heq hkey, get?_of_mem heq hentries hentry],
    hrelated entry hentry other hmem hab⟩

/-- The order of the entries that are looked up does not count. -/
theorem among_congr_perm {related : α → α → Prop} {entries entries' : List (κ × α)}
    (hperm : entries.Perm entries') (others : List (κ × α)) :
    Among eq related entries others ↔ Among eq related entries' others :=
  forall_congr' fun _ => imp_congr_left hperm.mem_iff

end Ordered

end RecordCoercion

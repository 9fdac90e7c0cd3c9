import RecordCoercion.Proofs.Json.WrittenTokens

/-!
# Written documents are read back

The reader takes the tokens of a document to the document, wherever it stands and as long as it is
not nested too deep there (`Json.foldlM_tokens`). With the splitting of the text this gives
`Json.read?_text`: the text of a document is read as the document with its numbers reread, and a
document without doubles, whose integers are in range, as itself.
-/

set_option autoImplicit false

namespace RecordCoercion.Json

mutual

/-- The number of containers inside each other in a document. -/
def nesting : Json → Nat
  | .array items => nestingOfItems items + 1
  | .object members => nestingOfMembers members + 1
  | _ => 0

/-- The greatest nesting of the items of an array. -/
def nestingOfItems : List Json → Nat
  | [] => 0
  | item :: rest => max item.nesting (nestingOfItems rest)

/-- The greatest nesting of the values of an object. -/
def nestingOfMembers : List (String × Json) → Nat
  | [] => 0
  | (_, value) :: rest => max value.nesting (nestingOfMembers rest)

end

/-- Items are nested as deep as the deepest of them. -/
theorem nestingOfItems_le_iff {items : List Json} {n : Nat} :
    nestingOfItems items ≤ n ↔ ∀ item ∈ items, item.nesting ≤ n := by
  induction items with
  | nil => simp [nestingOfItems]
  | cons item rest ih => rw [nestingOfItems, Nat.max_le, ih, List.forall_mem_cons]

/-- Members are nested as deep as the deepest of them. -/
theorem nestingOfMembers_le_iff {members : List (String × Json)} {n : Nat} :
    nestingOfMembers members ≤ n ↔ ∀ member ∈ members, member.2.nesting ≤ n := by
  induction members with
  | nil => simp [nestingOfMembers]
  | cons member rest ih => rw [nestingOfMembers, Nat.max_le, ih, List.forall_mem_cons]

/-- All items of an array can be read if each of them can. -/
theorem areReadable_iff {items : List Json} :
    areReadable items = true ↔ ∀ item ∈ items, item.isReadable = true := by
  induction items with
  | nil => simp [areReadable]
  | cons item rest ih => rw [areReadable, Bool.and_eq_true, ih, List.forall_mem_cons]

/-- All members of an object can be read if each of them can. -/
theorem areReadableMembers_iff {members : List (String × Json)} :
    areReadableMembers members = true ↔ ∀ member ∈ members, member.2.isReadable = true := by
  induction members with
  | nil => simp [areReadableMembers]
  | cons member rest ih => rw [areReadableMembers, Bool.and_eq_true, ih, List.forall_mem_cons]

/-! ## Reading tokens -/

variable {limit : Nat}

/-- The tokens of a document, where a value is expected inside the containers of a stack, are read as
the document, unless it is nested too deep there. -/
def Finishes (limit : Nat) (document : Json) : Prop :=
  ∀ stack rest, stack.length + document.nesting ≤ limit →
    (document.tokens ++ rest).foldlM (Reading.step limit) (.value stack) =
      rest.foldlM (Reading.step limit) (.finish document stack)

/-- After an opening bracket the first item is expected. -/
theorem foldlM_beginArray (stack : List Frame) (rest : List Token) :
    (Token.beginArray :: rest).foldlM (Reading.step limit) (.value stack) =
      rest.foldlM (Reading.step limit) (.firstItem stack) := rfl

/-- After an opening brace the first key is expected. -/
theorem foldlM_beginObject (stack : List Frame) (rest : List Token) :
    (Token.beginObject :: rest).foldlM (Reading.step limit) (.value stack) =
      rest.foldlM (Reading.step limit) (.firstKey stack) := rfl

/-- A container that is not too deep is readable. -/
theorem close_of_lt (document : Json) {stack : List Frame} (h : stack.length < limit) :
    Reading.close limit document stack = .finish document stack := by
  have htake : (stack.take limit).length < limit := by
    rw [List.length_take]
    omega
  rw [Reading.close, if_pos htake]

/-- The first item of an array is read like any other. -/
theorem foldlM_firstItem (document : Json) (stack : List Frame) (rest : List Token) :
    (document.tokens ++ rest).foldlM (Reading.step limit) (.firstItem stack) =
      (document.tokens ++ rest).foldlM (Reading.step limit) (.value (.array [] :: stack)) := by
  cases document <;> rfl

/-- After an item a comma makes room for the next one. -/
theorem foldlM_comma (item : Json) (before : List Json) (stack : List Frame) (rest : List Token) :
    (Token.comma :: rest).foldlM (Reading.step limit) (.finish item (.array before :: stack)) =
      rest.foldlM (Reading.step limit) (.value (.array (item :: before) :: stack)) := rfl

/-- After the last item the array is closed. -/
theorem foldlM_endArray (item : Json) (before : List Json) (stack : List Frame)
    (rest : List Token) :
    (Token.endArray :: rest).foldlM (Reading.step limit) (.finish item (.array before :: stack)) =
      rest.foldlM (Reading.step limit) (.close limit (.array (before.reverse ++ [item])) stack) := by
  rw [← List.reverse_cons]
  rfl

/-- The tokens of items that are read one by one close their array. -/
theorem foldlM_items {items : List Json} (hne : items ≠ [])
    (hfinishes : ∀ item ∈ items, item.Finishes limit) {stack : List Frame}
    (hnesting : ∀ item ∈ items, stack.length + 1 + item.nesting ≤ limit) (before : List Json)
    (rest : List Token) :
    (itemTokens items ++ rest).foldlM (Reading.step limit) (.value (.array before :: stack)) =
      rest.foldlM (Reading.step limit) (.close limit (.array (before.reverse ++ items)) stack) := by
  induction items generalizing before with
  | nil => exact absurd rfl hne
  | cons item others ih =>
    obtain ⟨hitem, hothers⟩ := List.forall_mem_cons.mp hfinishes
    obtain ⟨hdepth, hdepths⟩ := List.forall_mem_cons.mp hnesting
    cases others with
    | nil =>
      rw [itemTokens, List.append_assoc, hitem (.array before :: stack) _ hdepth]
      exact foldlM_endArray item before stack rest
    | cons second others =>
      rw [itemTokens, List.append_assoc, hitem (.array before :: stack) _ hdepth, List.cons_append,
        foldlM_comma, ih (List.cons_ne_nil _ _) hothers hdepths, List.reverse_cons,
        List.append_assoc, List.singleton_append]
      exact List.cons_ne_nil _ _

/-- The members of an object with their keys, as they stand on the stack. -/
def keyed (members : List (String × Json)) : List (Option String × Json) :=
  members.map fun member => (some member.1, member.2)

/-- All keys of written members can be read. -/
theorem objectOf_keyed (members : List (String × Json)) :
    Reading.objectOf (keyed members).reverse = .object members := by
  have hkeys : members.mapM (pure : String × Json → Option (String × Json)) = some members := by
    rw [List.mapM_pure, List.map_id']
    rfl
  rw [Reading.objectOf, List.reverse_reverse, keyed, List.mapM_map]
  split
  · next heq => cases heq.symm.trans hkeys; rfl
  · next heq => cases heq.symm.trans hkeys

/-- A key and its colon make room for the value. -/
theorem foldlM_key (key : String) (before : List (Option String × Json)) (stack : List Frame)
    (rest : List Token) :
    (Token.string (some key) :: .colon :: rest).foldlM (Reading.step limit) (.key before stack) =
      rest.foldlM (Reading.step limit) (.value (.object before (some key) :: stack)) := rfl

/-- After a member a comma makes room for the next one. -/
theorem foldlM_memberComma (key : String) (value : Json) (before : List (String × Json))
    (stack : List Frame) (rest : List Token) :
    (Token.comma :: rest).foldlM (Reading.step limit)
        (.finish value (.object (keyed before).reverse (some key) :: stack)) =
      rest.foldlM (Reading.step limit) (.key (keyed (before ++ [(key, value)])).reverse stack) := by
  have hkeyed : (some key, value) :: (keyed before).reverse =
      (keyed (before ++ [(key, value)])).reverse := by
    simp [keyed]
  rw [← hkeyed]
  rfl

/-- After the last member the object is closed. -/
theorem foldlM_endObject (key : String) (value : Json) (before : List (String × Json))
    (stack : List Frame) (rest : List Token) :
    (Token.endObject :: rest).foldlM (Reading.step limit)
        (.finish value (.object (keyed before).reverse (some key) :: stack)) =
      rest.foldlM (Reading.step limit) (.close limit (.object (before ++ [(key, value)])) stack) := by
  have hkeyed : (some key, value) :: (keyed before).reverse =
      (keyed (before ++ [(key, value)])).reverse := by
    simp [keyed]
  rw [← objectOf_keyed, ← hkeyed]
  rfl

/-- The tokens of members that are read one by one close their object. -/
theorem foldlM_members {members : List (String × Json)} (hne : members ≠ [])
    (hfinishes : ∀ member ∈ members, member.2.Finishes limit) {stack : List Frame}
    (hnesting : ∀ member ∈ members, stack.length + 1 + member.2.nesting ≤ limit)
    (before : List (String × Json)) (rest : List Token) :
    (memberTokens members ++ rest).foldlM (Reading.step limit)
        (.key (keyed before).reverse stack) =
      rest.foldlM (Reading.step limit) (.close limit (.object (before ++ members)) stack) := by
  induction members generalizing before with
  | nil => exact absurd rfl hne
  | cons member others ih =>
    obtain ⟨key, value⟩ := member
    obtain ⟨hvalue, hothers⟩ := List.forall_mem_cons.mp hfinishes
    obtain ⟨hdepth, hdepths⟩ := List.forall_mem_cons.mp hnesting
    have hread := hvalue (.object (keyed before).reverse (some key) :: stack)
    cases others with
    | nil =>
      rw [memberTokens, List.append_assoc, List.cons_append, List.cons_append, foldlM_key,
        hread _ hdepth]
      exact foldlM_endObject key value before stack rest
    | cons second others =>
      rw [memberTokens, List.append_assoc, List.cons_append, List.cons_append, foldlM_key,
        hread _ hdepth, List.cons_append, foldlM_memberComma,
        ih (List.cons_ne_nil _ _) hothers hdepths, List.append_assoc, List.singleton_append]
      exact List.cons_ne_nil _ _

/-- The tokens of every document are read as the document. -/
theorem finishes (limit : Nat) (document : Json) : document.Finishes limit := by
  induction document using documentInduction with
  | array items ih =>
    intro stack rest hdepth
    rw [nesting] at hdepth
    have hnesting : ∀ item ∈ items, stack.length + 1 + item.nesting ≤ limit := by
      intro item hitem
      have hle := nestingOfItems_le_iff.mp le_rfl item hitem
      omega
    rw [tokens, List.cons_append, foldlM_beginArray,
      ← close_of_lt _ (by omega : stack.length < limit)]
    cases items with
    | nil => rfl
    | cons item others =>
      have hitems := foldlM_items (List.cons_ne_nil _ _) ih hnesting [] rest
      rw [List.reverse_nil, List.nil_append] at hitems
      rw [← hitems]
      cases others with
      | nil =>
        rw [itemTokens, List.append_assoc]
        exact foldlM_firstItem item stack _
      | cons second others =>
        rw [itemTokens, List.append_assoc]
        · exact foldlM_firstItem item stack _
        · exact List.cons_ne_nil _ _
  | object members ih =>
    intro stack rest hdepth
    rw [nesting] at hdepth
    have hnesting : ∀ member ∈ members, stack.length + 1 + member.2.nesting ≤ limit := by
      intro member hmember
      have hle := nestingOfMembers_le_iff.mp le_rfl member hmember
      omega
    rw [tokens, List.cons_append, foldlM_beginObject,
      ← close_of_lt _ (by omega : stack.length < limit)]
    cases members with
    | nil => rfl
    | cons member others =>
      have hmembers := foldlM_members (List.cons_ne_nil _ _) ih hnesting [] rest
      rw [List.nil_append] at hmembers
      rw [← hmembers]
      obtain ⟨key, value⟩ := member
      cases others with
      | nil => rfl
      | cons second others =>
        rw [memberTokens]
        · rfl
        · exact List.cons_ne_nil _ _
  | _ => exact fun _ _ _ => rfl

/-- The document that the tokens of a document make up. -/
theorem ofTokens?_tokens {document : Json} (h : document.nesting ≤ limit) :
    ofTokens? limit document.tokens = some document := by
  have hfold := finishes limit document [] [] (by rwa [List.length_nil, Nat.zero_add])
  rw [List.append_nil] at hfold
  rw [ofTokens?, hfold]
  rfl

/-! ## Reading text -/

/-- A scalar that was written and read holds no container. -/
theorem nesting_rereadScalar {document : Json} (h : document.IsScalar) : document.nesting = 0 := by
  cases document <;> first | rfl | cases h

/-- A document that was written and read is nested as deep as before. -/
theorem nesting_reread (document : Json) : document.reread.nesting = document.nesting := by
  induction document using documentInduction with
  | array items ih =>
    rw [reread, nesting, nesting]
    congr 1
    induction items with
    | nil => rfl
    | cons item rest ihrest =>
      obtain ⟨hitem, hrest⟩ := List.forall_mem_cons.mp ih
      rw [rereadItems, nestingOfItems, nestingOfItems, hitem, ihrest hrest]
  | object members ih =>
    rw [reread, nesting, nesting]
    congr 1
    induction members with
    | nil => rfl
    | cons member rest ihrest =>
      obtain ⟨hvalue, hrest⟩ := List.forall_mem_cons.mp ih
      rw [rereadMembers, nestingOfMembers, nestingOfMembers, hvalue, ihrest hrest]
  | integer n => exact nesting_rereadScalar (@isScalar_rereadScalar (.integer n) rfl)
  | float x => exact nesting_rereadScalar (@isScalar_rereadScalar (.float x) rfl)
  | single x => exact nesting_rereadScalar (@isScalar_rereadScalar (.single x) rfl)
  | _ => rfl

/-- The text of a document that is not nested too deep is read as the document with its numbers
reread. -/
theorem read?_text {document : Json} (h : document.nesting ≤ limit) :
    read? limit document.text = some document.reread := by
  rw [read?, tokens?_text, Option.bind_some]
  refine ofTokens?_tokens ?_
  rwa [nesting_reread]

/-- A document is read as it was written. -/
def IsKept (document : Json) : Prop := document.reread = document

/-- A string is read as it was written. -/
theorem isKept_string (s : String) : (string s).IsKept := rfl

/-- An integer in range is read as it was written. -/
theorem isKept_integer {n : Int} (h : integers.contains n = true) : (integer n).IsKept := by
  simp only [IsKept, reread, rereadScalar, value?_integerParts h, Option.getD_some]

/-- An array is read as it was written if its items are. -/
theorem isKept_array {items : List Json} (h : ∀ item ∈ items, item.IsKept) :
    (array items).IsKept := by
  rw [IsKept, reread]
  congr 1
  induction items with
  | nil => rfl
  | cons item rest ih =>
    obtain ⟨hitem, hrest⟩ := List.forall_mem_cons.mp h
    rw [rereadItems, hitem, ih hrest]

/-- An object is read as it was written if its members are. -/
theorem isKept_object {members : List (String × Json)} (h : ∀ member ∈ members, member.2.IsKept) :
    (object members).IsKept := by
  rw [IsKept, reread]
  congr 1
  induction members with
  | nil => rfl
  | cons member rest ih =>
    obtain ⟨hvalue, hrest⟩ := List.forall_mem_cons.mp h
    rw [rereadMembers, hvalue, ih hrest]

end RecordCoercion.Json

import RecordCoercion.Proofs.Json.WrittenDocuments

/-!
# The tokens of a document that was read

Whatever the tokens are that the reader makes a document of, they are the tokens of this document
(`Json.tokens_of_ofTokens?`), provided that no part of it is unreadable. The invariant is that the
tokens read so far are those of the values and containers that the state holds; each step adds its
token to them (`Json.of_step`). A part that is unreadable is never lost on the way, so the argument goes
from the last state back to the first.
-/

set_option autoImplicit false

namespace RecordCoercion.Json

/-! ## The tokens read so far -/

section

variable {α : Type} (parts : α → List Token)

/-- The tokens of entries with a comma behind each; the entries come last first. -/
def followed (before : List α) : List Token :=
  before.reverse.flatMap fun entry => parts entry ++ [.comma]

/-- The tokens of entries with a comma between them; the entries come last first. -/
def joined : List α → List Token
  | [] => []
  | entry :: before => followed parts before ++ parts entry

/-- Behind the last entry stands a comma. -/
theorem followed_cons (entry : α) (before : List α) :
    followed parts (entry :: before) = joined parts (entry :: before) ++ [.comma] := by
  simp [followed, joined]

end

/-- The tokens of a member of an object. -/
def entryTokens (member : Option String × Json) : List Token :=
  .string member.1 :: .colon :: member.2.tokens

/-- The tokens of an open container up to its present place. -/
def Frame.tokens : Frame → List Token
  | .array before => .beginArray :: followed Json.tokens before
  | .object before name => .beginObject :: followed entryTokens before ++ [.string name, .colon]

/-- The tokens of all open containers up to the present place. -/
def stackTokens (stack : List Frame) : List Token := stack.reverse.flatMap Frame.tokens

/-- The innermost container stands behind all the others. -/
theorem stackTokens_cons (frame : Frame) (stack : List Frame) :
    stackTokens (frame :: stack) = stackTokens stack ++ frame.tokens := by
  simp [stackTokens]

/-- The tokens that were read to come into a state. -/
def Reading.tokens : Reading → List Token
  | .value stack => stackTokens stack
  | .firstItem stack => stackTokens stack ++ [.beginArray]
  | .afterItem before stack => stackTokens stack ++ .beginArray :: joined Json.tokens before
  | .firstKey stack => stackTokens stack ++ [.beginObject]
  | .key before stack => stackTokens stack ++ .beginObject :: followed entryTokens before
  | .colon before name stack =>
    stackTokens stack ++ .beginObject :: followed entryTokens before ++ [.string name]
  | .afterMember before stack => stackTokens stack ++ .beginObject :: joined entryTokens before
  | .done document => document.tokens

/-! ## Containers -/

/-- Items stand with a comma behind each but the last. -/
theorem itemTokens_append (items : List Json) (last : Json) :
    itemTokens (items ++ [last]) =
      (items.flatMap fun item => item.tokens ++ [.comma]) ++ last.tokens ++ [.endArray] := by
  induction items with
  | nil => simp [itemTokens]
  | cons item rest ih =>
    rw [List.cons_append, itemTokens, ih]
    · simp
    · simp

/-- The tokens of an array are those of its items with commas between them. -/
theorem tokens_array_reverse (before : List Json) :
    (array before.reverse).tokens = .beginArray :: joined Json.tokens before ++ [.endArray] := by
  rw [tokens]
  cases before with
  | nil => rfl
  | cons item before => simp [itemTokens_append, joined, followed]

/-- Members stand with a comma behind each but the last. -/
theorem memberTokens_append (members : List (String × Json)) (last : String × Json) :
    memberTokens (members ++ [last]) =
      ((keyed members).flatMap fun member => entryTokens member ++ [.comma]) ++
        entryTokens (some last.1, last.2) ++ [.endObject] := by
  induction members with
  | nil => simp [memberTokens, keyed, entryTokens]
  | cons member rest ih =>
    rw [List.cons_append, memberTokens, ih]
    · simp [keyed, entryTokens]
    · simp

/-- The tokens of an object are those of its members with commas between them. -/
theorem tokens_object_keyed (members : List (String × Json)) :
    (object members).tokens =
      .beginObject :: joined entryTokens (keyed members).reverse ++ [.endObject] := by
  rw [tokens]
  rcases List.eq_nil_or_concat members with rfl | ⟨front, last, rfl⟩
  · rfl
  · simp [memberTokens_append, joined, followed, keyed]

/-! ## Readable states -/

/-- What an open container holds can be read. -/
def Frame.IsReadable : Frame → Prop
  | .array before => ∀ item ∈ before, item.isReadable = true
  | .object before name =>
    (∀ member ∈ before, member.1.isSome = true ∧ member.2.isReadable = true) ∧ name.isSome = true

/-- What a state holds can be read. -/
def Reading.IsReadable : Reading → Prop
  | .value stack | .firstItem stack | .firstKey stack => ∀ frame ∈ stack, frame.IsReadable
  | .afterItem before stack =>
    (∀ item ∈ before, item.isReadable = true) ∧ ∀ frame ∈ stack, frame.IsReadable
  | .key before stack | .afterMember before stack =>
    (∀ member ∈ before, member.1.isSome = true ∧ member.2.isReadable = true) ∧
      ∀ frame ∈ stack, frame.IsReadable
  | .colon before name stack =>
    ((∀ member ∈ before, member.1.isSome = true ∧ member.2.isReadable = true) ∧
      name.isSome = true) ∧ ∀ frame ∈ stack, frame.IsReadable
  | .done document => document.isReadable = true

/-- What was read can be read, and so can what the containers around it hold. -/
theorem isReadable_finish {document : Json} {stack : List Frame}
    (h : (Reading.finish document stack).IsReadable) :
    document.isReadable = true ∧ ∀ frame ∈ stack, frame.IsReadable := by
  unfold Reading.finish at h
  split at h
  · exact ⟨h, List.forall_mem_nil _⟩
  · obtain ⟨hitems, hstack⟩ := h
    obtain ⟨hdocument, hbefore⟩ := List.forall_mem_cons.mp hitems
    exact ⟨hdocument, List.forall_mem_cons.mpr ⟨hbefore, hstack⟩⟩
  · obtain ⟨hmembers, hstack⟩ := h
    obtain ⟨⟨hname, hdocument⟩, hbefore⟩ := List.forall_mem_cons.mp hmembers
    exact ⟨hdocument, List.forall_mem_cons.mpr ⟨⟨hbefore, hname⟩, hstack⟩⟩

/-- The tokens of a document stand behind those of the containers around it. -/
theorem tokens_finish (document : Json) (stack : List Frame) :
    (Reading.finish document stack).tokens = stackTokens stack ++ document.tokens := by
  unfold Reading.finish
  split
  · rfl
  · simp [Reading.tokens, stackTokens_cons, Frame.tokens, joined]
  · simp [Reading.tokens, stackTokens_cons, Frame.tokens, joined, entryTokens]

/-- A container that was closed readably is not too deep. -/
theorem isReadable_close {limit : Nat} {document : Json} {stack : List Frame}
    (h : (Reading.close limit document stack).IsReadable) :
    Reading.close limit document stack = .finish document stack ∧
      document.isReadable = true ∧ ∀ frame ∈ stack, frame.IsReadable := by
  unfold Reading.close at h ⊢
  split at h
  · next hlimit =>
    rw [if_pos hlimit]
    exact ⟨rfl, isReadable_finish h⟩
  · cases (isReadable_finish h).1

/-- Entries that all have a key are members with their keys. -/
theorem eq_keyed_of_mapM {entries : List (Option String × Json)} {members : List (String × Json)}
    (h : (entries.mapM fun entry => entry.1.map (·, entry.2)) = some members) :
    entries = keyed members := by
  induction entries generalizing members with
  | nil =>
    cases h
    rfl
  | cons entry rest ih =>
    obtain ⟨name, value⟩ := entry
    rw [List.mapM_cons] at h
    simp only [Option.bind_eq_bind, Option.bind_eq_some_iff, Option.map_eq_some_iff, Option.pure_def,
      Option.some.injEq] at h
    obtain ⟨_, ⟨key, rfl, rfl⟩, others, hothers, rfl⟩ := h
    rw [ih hothers]
    rfl

/-- An object that can be read has keys that can be read. -/
theorem exists_keyed_of_objectOf {before : List (Option String × Json)}
    (h : (Reading.objectOf before).isReadable = true) :
    ∃ members, before = (keyed members).reverse ∧ Reading.objectOf before = .object members := by
  cases hmembers : before.reverse.mapM fun entry => entry.1.map (·, entry.2) with
  | some members =>
    have hbefore := congrArg List.reverse (eq_keyed_of_mapM hmembers)
    rw [List.reverse_reverse] at hbefore
    refine ⟨members, hbefore, ?_⟩
    rw [hbefore, objectOf_keyed]
  | none =>
    have hnone : Reading.objectOf before = .unreadable := by
      unfold Reading.objectOf
      split
      · next hsome => cases hsome.symm.trans hmembers
      · rfl
    rw [hnone] at h
    cases h

/-! ## Steps -/

/-- Something stands in front of what comes after an item or a member. -/
def Reading.FollowsSomething : Reading → Prop
  | .afterItem before _ => before ≠ []
  | .afterMember before _ => before ≠ []
  | _ => True

/-- After a document something stands in front of what comes next. -/
theorem followsSomething_finish (document : Json) (stack : List Frame) :
    (Reading.finish document stack).FollowsSomething := by
  unfold Reading.finish
  split
  · trivial
  · exact List.cons_ne_nil _ _
  · exact List.cons_ne_nil _ _

/-- After the first token of a value something stands in front of what comes next. -/
theorem followsSomething_start {stack : List Frame} {token : Token} {next : Reading}
    (h : Reading.start stack token = some next) : next.FollowsSomething := by
  unfold Reading.start at h
  split at h <;> cases h
  · exact followsSomething_finish _ _
  · exact followsSomething_finish _ _
  · trivial
  · trivial

/-- After any token something stands in front of what comes next. -/
theorem followsSomething_step {limit : Nat} {reading next : Reading} {token : Token}
    (h : Reading.step limit reading token = some next) : next.FollowsSomething := by
  unfold Reading.step at h
  split at h
  case h_1 | h_3 => exact followsSomething_start h
  all_goals cases h
  case h_2 | h_5 | h_6 | h_11 => exact followsSomething_finish _ _
  all_goals trivial

/-- The first token of a value is added to those before it. -/
theorem of_start {stack : List Frame} {token : Token} {next : Reading}
    (h : Reading.start stack token = some next)
    (hscalar : ∀ value, token = .scalar value → value.IsScalar) (hnext : next.IsReadable) :
    (∀ frame ∈ stack, frame.IsReadable) ∧ next.tokens = stackTokens stack ++ [token] := by
  unfold Reading.start at h
  split at h
  case h_1 document =>
    cases h
    rw [tokens_finish, hscalar document rfl]
    exact ⟨(isReadable_finish hnext).2, rfl⟩
  case h_2 content =>
    cases h
    obtain ⟨hcontent, hstack⟩ := isReadable_finish hnext
    cases content with
    | none => cases hcontent
    | some s =>
      rw [tokens_finish]
      exact ⟨hstack, rfl⟩
  case h_3 =>
    cases h
    exact ⟨hnext, rfl⟩
  case h_4 =>
    cases h
    exact ⟨hnext, rfl⟩
  case h_5 => cases h

/-- Each token is added to those before it, on the way to a state that can be read. -/
theorem of_step {limit : Nat} {reading next : Reading} {token : Token}
    (h : Reading.step limit reading token = some next) (hfollows : reading.FollowsSomething)
    (hscalar : ∀ value, token = .scalar value → value.IsScalar) (hnext : next.IsReadable) :
    reading.IsReadable ∧ next.tokens = reading.tokens ++ [token] := by
  unfold Reading.step at h
  split at h
  case h_1 stack token => exact of_start h hscalar hnext
  case h_2 stack =>
    -- the array ends without an item
    cases h
    obtain ⟨hclose, -, hstack⟩ := isReadable_close hnext
    rw [hclose, tokens_finish]
    exact ⟨hstack, by simp [Reading.tokens, tokens, itemTokens]⟩
  case h_3 stack token _ =>
    -- the first item starts
    obtain ⟨hstack, htokens⟩ := of_start h hscalar hnext
    refine ⟨(List.forall_mem_cons.mp hstack).2, ?_⟩
    rw [htokens, stackTokens_cons]
    rfl
  case h_4 before stack =>
    -- a comma stands behind an item
    cases h
    obtain ⟨item, before, rfl⟩ := List.exists_cons_of_ne_nil hfollows
    obtain ⟨hbefore, hstack⟩ := List.forall_mem_cons.mp hnext
    refine ⟨⟨hbefore, hstack⟩, ?_⟩
    simp [Reading.tokens, stackTokens_cons, Frame.tokens, followed_cons]
  case h_5 before stack =>
    -- the array ends behind an item
    cases h
    obtain ⟨hclose, hbefore, hstack⟩ := isReadable_close hnext
    rw [isReadable, areReadable_iff] at hbefore
    rw [hclose, tokens_finish, tokens_array_reverse]
    exact ⟨⟨fun item hmem => hbefore item (List.mem_reverse.mpr hmem), hstack⟩,
      by simp [Reading.tokens]⟩
  case h_6 stack =>
    -- the object ends without a member
    cases h
    obtain ⟨hclose, -, hstack⟩ := isReadable_close hnext
    rw [hclose, tokens_finish]
    exact ⟨hstack, by simp [Reading.tokens, tokens, memberTokens]⟩
  case h_7 name stack =>
    -- the first key
    cases h
    exact ⟨hnext.2, by simp [Reading.tokens, followed]⟩
  case h_8 before name stack =>
    -- another key
    cases h
    exact ⟨⟨hnext.1.1, hnext.2⟩, by simp [Reading.tokens]⟩
  case h_9 before name stack =>
    -- the colon behind a key
    cases h
    obtain ⟨hframe, hstack⟩ := List.forall_mem_cons.mp hnext
    exact ⟨⟨hframe, hstack⟩, by simp [Reading.tokens, stackTokens_cons, Frame.tokens]⟩
  case h_10 before stack =>
    -- a comma stands behind a member
    cases h
    obtain ⟨member, before, rfl⟩ := List.exists_cons_of_ne_nil hfollows
    exact ⟨hnext, by simp [Reading.tokens, followed_cons]⟩
  case h_11 before stack =>
    -- the object ends behind a member
    cases h
    obtain ⟨hclose, hobject, hstack⟩ := isReadable_close hnext
    obtain ⟨members, rfl, hmembers⟩ := exists_keyed_of_objectOf hobject
    rw [hmembers] at hclose hobject
    rw [isReadable, areReadableMembers_iff] at hobject
    rw [hmembers, hclose, tokens_finish, tokens_object_keyed]
    refine ⟨⟨?_, hstack⟩, by simp [Reading.tokens]⟩
    intro member hmem
    obtain ⟨entry, hentry, rfl⟩ := List.mem_map.mp (List.mem_reverse.mp hmem)
    exact ⟨rfl, hobject entry hentry⟩
  case h_12 => cases h

/-- The tokens of a run are added to those before it, on the way to a state that can be read. -/
theorem of_foldlM {limit : Nat} {tokens : List Token} {reading last : Reading}
    (h : tokens.foldlM (Reading.step limit) reading = some last)
    (hfollows : reading.FollowsSomething)
    (hscalar : ∀ value, .scalar value ∈ tokens → value.IsScalar) (hlast : last.IsReadable) :
    reading.IsReadable ∧ last.tokens = reading.tokens ++ tokens := by
  induction tokens generalizing reading with
  | nil =>
    cases h
    exact ⟨hlast, (List.append_nil _).symm⟩
  | cons token rest ih =>
    rw [List.foldlM_cons, Option.bind_eq_bind, Option.bind_eq_some_iff] at h
    obtain ⟨next, hstep, hrest⟩ := h
    obtain ⟨hnext, htokens⟩ := ih hrest (followsSomething_step hstep) fun value hmem =>
      hscalar value (List.mem_cons_of_mem _ hmem)
    have hfirst : ∀ value, token = .scalar value → value.IsScalar := by
      rintro value rfl
      exact hscalar value List.mem_cons_self
    obtain ⟨hreading, hone⟩ := of_step hstep hfollows hfirst hnext
    refine ⟨hreading, ?_⟩
    rw [htokens, hone, List.append_assoc, List.singleton_append]

/-- Tokens make up no other document that can be read than one that has these tokens. -/
theorem tokens_of_ofTokens? {limit : Nat} {tokens : List Token} {document : Json}
    (h : ofTokens? limit tokens = some document)
    (hscalar : ∀ value, .scalar value ∈ tokens → value.IsScalar)
    (hreadable : document.isReadable = true) : document.tokens = tokens := by
  unfold ofTokens? at h
  split at h
  · next last hfold =>
    cases h
    have hstart : (Reading.value []).FollowsSomething := trivial
    exact (of_foldlM hfold hstart hscalar hreadable).2
  · cases h

/-- Documents with the same tokens are the same. -/
theorem tokens_injective : Function.Injective tokens := by
  intro document other htokens
  have hdocument : ofTokens? (document.nesting + other.nesting) document.tokens = some document :=
    ofTokens?_tokens (Nat.le_add_right _ _)
  have hother : ofTokens? (document.nesting + other.nesting) other.tokens = some other :=
    ofTokens?_tokens (Nat.le_add_left _ _)
  rw [htokens, hother] at hdocument
  exact (Option.some.inj hdocument).symm

end RecordCoercion.Json

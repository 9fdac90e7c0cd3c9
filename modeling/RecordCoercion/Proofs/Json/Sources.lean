import RecordCoercion.Proofs.Json.Lexemes
import RecordCoercion.Proofs.Json.ReadTokens
import RecordCoercion.Proofs.Value.Places

/-!
# Documents with their text

A `Json.Source` is a document in which every scalar, string and key is kept with the part of the text that
it was read from. A text that is read is split into the lexemes of a source (`Json.exists_source`), and
the document of any such source is the document that is read (`Json.Source.document_eq`). What stands at
a place of the source determines what stands there in the value of the document
(`Json.Source.at?_ofDocument`).
-/

set_option autoImplicit false

namespace RecordCoercion.Json

/-! ## Marks -/

/-- The lexeme of a mark. -/
def Lexeme.ofMark (token : Token) : Lexeme := ⟨token.text, token⟩

/-- A mark is read from its character. -/
theorem text_of_scanToken?_mark {text : List Char} {token : Token} {length : Nat}
    (h : scanToken? text = some (token, length)) (hmark : token.IsMark) :
    text.take length = token.text := by
  cases startsWith_of_scanToken? h with
  | mark _ htext => exact htext.symm
  | string => cases hmark
  | word => cases hmark
  | number => cases hmark

/-- A lexeme that is read at its place and is a mark has the text of the mark. -/
theorem Lexeme.eq_ofMark {lexeme : Lexeme} {rest : List Char}
    (h : scanToken? (lexeme.text ++ rest) = some (lexeme.token, lexeme.text.length))
    (hmark : lexeme.token.IsMark) : lexeme = .ofMark lexeme.token := by
  have htext := text_of_scanToken?_mark h hmark
  rw [List.take_left] at htext
  rw [Lexeme.ofMark, ← htext]

/-! ## Sources -/

/-- A part of a text with what it stands for. -/
structure Literal (α : Type) where
  text : List Char
  value : α

/-- A document whose scalars, strings and keys are kept with their texts. -/
inductive Source
  | scalar (literal : Literal Json)
  | string (literal : Literal String)
  | array (items : List Source)
  | object (members : List (Literal String × Source))

/-- The lexeme of a string. -/
def Literal.lexeme (literal : Literal String) : Lexeme := ⟨literal.text, .string (some literal.value)⟩

namespace Source

mutual

/-- The document without the texts. -/
def document : Source → Json
  | scalar literal => literal.value
  | string literal => .string literal.value
  | array items => .array (documents items)
  | object members => .object (memberDocuments members)

/-- The documents of the items of an array. -/
def documents : List Source → List Json
  | [] => []
  | item :: rest => item.document :: documents rest

/-- The documents of the members of an object. -/
def memberDocuments : List (Literal String × Source) → List (String × Json)
  | [] => []
  | (key, value) :: rest => (key.value, value.document) :: memberDocuments rest

end

mutual

/-- The lexemes of a source in the order of the text. -/
def lexemes : Source → List Lexeme
  | scalar literal => [⟨literal.text, .scalar literal.value⟩]
  | string literal => [literal.lexeme]
  | array items => .ofMark .beginArray :: itemLexemes items
  | object members => .ofMark .beginObject :: memberLexemes members

/-- The lexemes of the items of an array, its end included. -/
def itemLexemes : List Source → List Lexeme
  | [] => [.ofMark .endArray]
  | [item] => item.lexemes ++ [.ofMark .endArray]
  | item :: rest => item.lexemes ++ .ofMark .comma :: itemLexemes rest

/-- The lexemes of the members of an object, its end included. -/
def memberLexemes : List (Literal String × Source) → List Lexeme
  | [] => [.ofMark .endObject]
  | [(key, value)] => key.lexeme :: .ofMark .colon :: value.lexemes ++ [.ofMark .endObject]
  | (key, value) :: rest =>
    key.lexeme :: .ofMark .colon :: value.lexemes ++ .ofMark .comma :: memberLexemes rest

end

/-- A comma stands between items. -/
theorem itemLexemes_cons_cons (item second : Source) (rest : List Source) :
    itemLexemes (item :: second :: rest) =
      item.lexemes ++ .ofMark .comma :: itemLexemes (second :: rest) := rfl

/-- A colon stands behind a key and a comma between members. -/
theorem memberLexemes_cons_cons (key : Literal String) (value : Source)
    (second : Literal String × Source) (rest : List (Literal String × Source)) :
    memberLexemes ((key, value) :: second :: rest) =
      key.lexeme :: .ofMark .colon :: (value.lexemes ++
        .ofMark .comma :: memberLexemes (second :: rest)) := rfl

/-- The documents of sources, one by one. -/
theorem documents_eq (items : List Source) : documents items = items.map document := by
  induction items with
  | nil => rfl
  | cons item rest ih => rw [documents, ih, List.map_cons]

/-- The members of sources, one by one. -/
theorem memberDocuments_eq (members : List (Literal String × Source)) :
    memberDocuments members = members.map (Prod.map Literal.value document) := by
  induction members with
  | nil => rfl
  | cons member rest ih =>
    obtain ⟨key, value⟩ := member
    rw [memberDocuments, ih, List.map_cons, Prod.map_apply]

end Source

/-! ## The source of a text -/

/-- The marks among lexemes have the texts of marks. -/
def HaveMarkTexts (lexemes : List Lexeme) : Prop :=
  ∀ lexeme ∈ lexemes, lexeme.token.IsMark → lexeme = .ofMark lexeme.token

/-- The lexemes that a text is split into were read, so that their marks have their texts. -/
theorem SplitsInto.haveMarkTexts {text : List Char} {lexemes : List Lexeme}
    (h : SplitsInto text lexemes) : HaveMarkTexts lexemes := by
  intro lexeme hmem hmark
  obtain ⟨rest, hscan⟩ := h.exists_scanToken? hmem
  exact Lexeme.eq_ofMark hscan hmark

/-- Lexemes with the tokens of the document make up a source of it. -/
def HasSources (document : Json) : Prop :=
  ∀ lexemes : List Lexeme, lexemes.map Lexeme.token = document.tokens → HaveMarkTexts lexemes →
    ∃ source : Source, source.document = document ∧ source.lexemes = lexemes

section

variable {lexemes : List Lexeme} {tokens : List Token}

/-- A lexeme that is read as a mark is the text of this mark. -/
theorem exists_of_mark {mark : Token} (h : lexemes.map Lexeme.token = mark :: tokens)
    (hmark : mark.IsMark) (hmarks : HaveMarkTexts lexemes) :
    ∃ others, lexemes = .ofMark mark :: others ∧ others.map Lexeme.token = tokens ∧
      HaveMarkTexts others := by
  obtain ⟨lexeme, others, rfl, rfl, hothers⟩ := List.map_eq_cons_iff.mp h
  obtain ⟨hlexeme, hrest⟩ := List.forall_mem_cons.mp hmarks
  rw [← hlexeme hmark]
  exact ⟨others, rfl, hothers, hrest⟩

/-- Lexemes with the tokens of a document start with a source of it. -/
theorem exists_of_document {document : Json} (hsources : document.HasSources)
    (h : lexemes.map Lexeme.token = document.tokens ++ tokens) (hmarks : HaveMarkTexts lexemes) :
    ∃ (source : Source) (others : List Lexeme), source.document = document ∧
      lexemes = source.lexemes ++ others ∧ others.map Lexeme.token = tokens ∧
      HaveMarkTexts others := by
  obtain ⟨front, others, rfl, hfront, hothers⟩ := List.map_eq_append_iff.mp h
  obtain ⟨hmarksFront, hmarksOthers⟩ := List.forall_mem_append.mp hmarks
  obtain ⟨source, hdocument, rfl⟩ := hsources front hfront hmarksFront
  exact ⟨source, others, hdocument, rfl, hothers, hmarksOthers⟩

/-- Lexemes with the tokens of a key start with its text and a colon. -/
theorem exists_of_key {name : String}
    (h : lexemes.map Lexeme.token = .string (some name) :: .colon :: tokens)
    (hmarks : HaveMarkTexts lexemes) :
    ∃ (key : Literal String) (others : List Lexeme), key.value = name ∧
      lexemes = key.lexeme :: .ofMark .colon :: others ∧ others.map Lexeme.token = tokens ∧
      HaveMarkTexts others := by
  obtain ⟨⟨text, _⟩, after, rfl, rfl, hafter⟩ := List.map_eq_cons_iff.mp h
  obtain ⟨others, rfl, hothers, hrest⟩ :=
    exists_of_mark hafter trivial (List.forall_mem_cons.mp hmarks).2
  exact ⟨⟨text, name⟩, others, rfl, rfl, hothers, hrest⟩

/-- Lexemes with the tokens of items make up their sources. -/
theorem exists_itemSources {items : List Json} (hitems : ∀ item ∈ items, item.HasSources)
    (h : lexemes.map Lexeme.token = itemTokens items) (hmarks : HaveMarkTexts lexemes) :
    ∃ sources, Source.documents sources = items ∧ Source.itemLexemes sources = lexemes := by
  induction items generalizing lexemes with
  | nil =>
    obtain ⟨others, rfl, hothers, -⟩ := exists_of_mark h trivial hmarks
    obtain rfl := List.map_eq_nil_iff.mp hothers
    exact ⟨[], rfl, rfl⟩
  | cons item rest ih =>
    obtain ⟨hitem, hrest⟩ := List.forall_mem_cons.mp hitems
    -- what stands behind the item is the end of the array, or a comma and the other items
    cases rest with
    | nil =>
      obtain ⟨source, after, rfl, rfl, hafter, hmarksAfter⟩ := exists_of_document hitem h hmarks
      obtain ⟨others, rfl, hothers, -⟩ := exists_of_mark hafter trivial hmarksAfter
      obtain rfl := List.map_eq_nil_iff.mp hothers
      exact ⟨[source], rfl, rfl⟩
    | cons second rest =>
      rw [itemTokens] at h
      · obtain ⟨source, after, rfl, rfl, hafter, hmarksAfter⟩ := exists_of_document hitem h hmarks
        obtain ⟨others, rfl, hothers, hmarksOthers⟩ := exists_of_mark hafter trivial hmarksAfter
        obtain ⟨sources, hdocuments, hlexemes⟩ := ih hrest hothers hmarksOthers
        cases sources with
        | nil => cases hdocuments
        | cons next sources =>
          refine ⟨source :: next :: sources, ?_, ?_⟩
          · rw [Source.documents, hdocuments]
          · rw [Source.itemLexemes_cons_cons, hlexemes]
      · exact List.cons_ne_nil _ _

/-- Lexemes with the tokens of members make up their sources. -/
theorem exists_memberSources {members : List (String × Json)}
    (hmembers : ∀ member ∈ members, member.2.HasSources)
    (h : lexemes.map Lexeme.token = memberTokens members) (hmarks : HaveMarkTexts lexemes) :
    ∃ sources, Source.memberDocuments sources = members ∧ Source.memberLexemes sources = lexemes := by
  induction members generalizing lexemes with
  | nil =>
    obtain ⟨others, rfl, hothers, -⟩ := exists_of_mark h trivial hmarks
    obtain rfl := List.map_eq_nil_iff.mp hothers
    exact ⟨[], rfl, rfl⟩
  | cons member rest ih =>
    obtain ⟨name, value⟩ := member
    obtain ⟨hvalue, hrest⟩ := List.forall_mem_cons.mp hmembers
    cases rest with
    | nil =>
      obtain ⟨key, behind, rfl, rfl, hbehind, hmarksBehind⟩ := exists_of_key h hmarks
      obtain ⟨source, after, rfl, rfl, hafter, hmarksAfter⟩ :=
        exists_of_document hvalue hbehind hmarksBehind
      obtain ⟨others, rfl, hothers, -⟩ := exists_of_mark hafter trivial hmarksAfter
      obtain rfl := List.map_eq_nil_iff.mp hothers
      exact ⟨[(key, source)], rfl, rfl⟩
    | cons second rest =>
      rw [memberTokens] at h
      · obtain ⟨key, behind, rfl, rfl, hbehind, hmarksBehind⟩ := exists_of_key h hmarks
        obtain ⟨source, after, rfl, rfl, hafter, hmarksAfter⟩ :=
          exists_of_document hvalue hbehind hmarksBehind
        obtain ⟨others, rfl, hothers, hmarksOthers⟩ := exists_of_mark hafter trivial hmarksAfter
        obtain ⟨sources, hdocuments, hlexemes⟩ := ih hrest hothers hmarksOthers
        cases sources with
        | nil => cases hdocuments
        | cons next sources =>
          refine ⟨(key, source) :: next :: sources, ?_, ?_⟩
          · rw [Source.memberDocuments, hdocuments]
          · rw [Source.memberLexemes_cons_cons, hlexemes]
      · exact List.cons_ne_nil _ _

/-- A scalar is its own source, with the text of its lexeme. -/
theorem hasSources_of_isScalar {document : Json} (h : document.IsScalar) : document.HasSources := by
  intro lexemes htokens _
  rw [h] at htokens
  obtain ⟨⟨text, _⟩, rfl, rfl⟩ := List.map_eq_singleton_iff.mp htokens
  exact ⟨.scalar ⟨text, document⟩, rfl, rfl⟩

end

/-- Every document has a source among the lexemes that are read as it. -/
theorem hasSources (document : Json) : document.HasSources := by
  induction document using documentInduction with
  | null | bool b | integer n | float x | single x | unreadable => exact hasSources_of_isScalar rfl
  | string s =>
    intro lexemes htokens _
    obtain ⟨⟨text, _⟩, rfl, rfl⟩ := List.map_eq_singleton_iff.mp htokens
    exact ⟨.string ⟨text, s⟩, rfl, rfl⟩
  | array items ih =>
    intro lexemes htokens hmarks
    obtain ⟨others, rfl, hothers, hmarksOthers⟩ := exists_of_mark htokens trivial hmarks
    obtain ⟨sources, rfl, rfl⟩ := exists_itemSources ih hothers hmarksOthers
    exact ⟨.array sources, rfl, rfl⟩
  | object members ih =>
    intro lexemes htokens hmarks
    obtain ⟨others, rfl, hothers, hmarksOthers⟩ := exists_of_mark htokens trivial hmarks
    obtain ⟨sources, rfl, rfl⟩ := exists_memberSources ih hothers hmarksOthers
    exact ⟨.object sources, rfl, rfl⟩

/-! ## The document of a source -/

namespace Source

/-- Induction over sources. An array has what holds for all its items to build on, and an object what
holds for the values of all its members. -/
theorem sourceInduction {motive : Source → Prop} (scalar : ∀ literal, motive (.scalar literal))
    (string : ∀ literal, motive (.string literal))
    (array : ∀ items, (∀ item ∈ items, motive item) → motive (.array items))
    (object : ∀ members : List (Literal String × Source), (∀ member ∈ members, motive member.2) →
      motive (.object members))
    (source : Source) : motive source := by
  refine @Source.rec motive (fun items => ∀ item ∈ items, motive item)
    (fun members => ∀ member ∈ members, motive member.2) (fun member => motive member.2)
    scalar string array object ?_ ?_ ?_ ?_ ?_ source
  · exact List.forall_mem_nil _
  · exact fun _ _ hitem hrest => List.forall_mem_cons.mpr ⟨hitem, hrest⟩
  · exact List.forall_mem_nil _
  · exact fun _ _ hmember hrest => List.forall_mem_cons.mpr ⟨hmember, hrest⟩
  · exact fun _ _ hvalue => hvalue

/-- What is read as a scalar among lexemes is one. -/
def HaveScalars (lexemes : List Lexeme) : Prop :=
  ∀ lexeme ∈ lexemes, ∀ value, lexeme.token = .scalar value → value.IsScalar

/-- The lexemes of items are read as the items. -/
theorem map_token_itemLexemes {items : List Source}
    (ih : ∀ item ∈ items, HaveScalars item.lexemes →
      item.lexemes.map Lexeme.token = item.document.tokens)
    (h : HaveScalars (itemLexemes items)) :
    (itemLexemes items).map Lexeme.token = itemTokens (documents items) := by
  induction items with
  | nil => rfl
  | cons item rest ihRest =>
    obtain ⟨ihItem, ihOthers⟩ := List.forall_mem_cons.mp ih
    cases rest with
    | nil =>
      obtain ⟨hitem, -⟩ := List.forall_mem_append.mp h
      rw [itemLexemes, List.map_append, ihItem hitem]
      rfl
    | cons second rest =>
      obtain ⟨hitem, hafter⟩ := List.forall_mem_append.mp h
      obtain ⟨-, hothers⟩ := List.forall_mem_cons.mp hafter
      rw [itemLexemes_cons_cons, List.map_append, ihItem hitem, List.map_cons,
        ihRest ihOthers hothers]
      rfl

/-- The lexemes of members are read as the members. -/
theorem map_token_memberLexemes {members : List (Literal String × Source)}
    (ih : ∀ member ∈ members, HaveScalars member.2.lexemes →
      member.2.lexemes.map Lexeme.token = member.2.document.tokens)
    (h : HaveScalars (memberLexemes members)) :
    (memberLexemes members).map Lexeme.token = memberTokens (memberDocuments members) := by
  induction members with
  | nil => rfl
  | cons member rest ihRest =>
    obtain ⟨key, value⟩ := member
    obtain ⟨ihValue, ihOthers⟩ := List.forall_mem_cons.mp ih
    dsimp only at ihValue
    cases rest with
    | nil =>
      obtain ⟨-, hcolon⟩ := List.forall_mem_cons.mp h
      obtain ⟨hvalue, -⟩ := List.forall_mem_append.mp (List.forall_mem_cons.mp hcolon).2
      rw [memberLexemes, List.map_append, List.map_cons, List.map_cons, ihValue hvalue]
      rfl
    | cons second rest =>
      obtain ⟨-, hcolon⟩ := List.forall_mem_cons.mp h
      obtain ⟨hvalue, hafter⟩ := List.forall_mem_append.mp (List.forall_mem_cons.mp hcolon).2
      obtain ⟨-, hothers⟩ := List.forall_mem_cons.mp hafter
      rw [memberLexemes_cons_cons, List.map_cons, List.map_cons, List.map_append, ihValue hvalue,
        List.map_cons, ihRest ihOthers hothers]
      rfl

/-- The tokens of a source's lexemes are those of its document. -/
theorem map_token_lexemes {source : Source} (h : HaveScalars source.lexemes) :
    source.lexemes.map Lexeme.token = source.document.tokens := by
  induction source using sourceInduction with
  | scalar literal =>
    have hscalar : literal.value.IsScalar := h _ List.mem_cons_self _ rfl
    rw [document, hscalar]
    rfl
  | string literal => rfl
  | array items ih =>
    obtain ⟨-, hitems⟩ := List.forall_mem_cons.mp h
    rw [lexemes, List.map_cons, map_token_itemLexemes ih hitems]
    rfl
  | object members ih =>
    obtain ⟨-, hmembers⟩ := List.forall_mem_cons.mp h
    rw [lexemes, List.map_cons, map_token_memberLexemes ih hmembers]
    rfl

/-- A text is split into the lexemes of the source. -/
def IsOf (source : Source) (text : List Char) : Prop := SplitsInto text source.lexemes

end Source

/-- What a text is split into has scalars where it has scalar tokens. -/
theorem SplitsInto.haveScalars {text : List Char} {lexemes : List Lexeme} (h : SplitsInto text lexemes) :
    Source.HaveScalars lexemes := by
  intro lexeme hmem value htoken
  obtain ⟨rest, hscan⟩ := h.exists_scanToken? hmem
  rw [htoken] at hscan
  exact isScalar_of_scanToken? hscan

/-- A text that is read is split into lexemes with the tokens of its document. -/
theorem exists_of_ofText? {text : String} {document : Json} (h : ofText? text = some document) :
    ∃ lexemes, SplitsInto text.toList lexemes ∧ lexemes.map Lexeme.token = document.tokens := by
  obtain ⟨hread, hreadable⟩ := Option.filter_eq_some_iff.mp h
  obtain ⟨tokens, htokens, hdocument⟩ := Option.bind_eq_some_iff.mp hread
  obtain ⟨lexemes, hlexemes, rfl⟩ := tokens?_eq_some_iff.mp htokens
  refine ⟨lexemes, hlexemes, (tokens_of_ofTokens? hdocument ?_ hreadable).symm⟩
  intro value hmem
  obtain ⟨lexeme, hlexeme, htoken⟩ := List.mem_map.mp hmem
  exact hlexemes.haveScalars lexeme hlexeme value htoken

/-- A text that is read has a source. -/
theorem exists_source {text : String} {document : Json} (h : ofText? text = some document) :
    ∃ source : Source, source.IsOf text.toList := by
  obtain ⟨lexemes, hlexemes, htokens⟩ := exists_of_ofText? h
  obtain ⟨source, -, rfl⟩ := hasSources document lexemes htokens hlexemes.haveMarkTexts
  exact ⟨source, hlexemes⟩

/-- The sources of a text that is read are all of the document that is read. -/
theorem Source.document_eq {source : Source} {text : String} {document : Json}
    (hsource : source.IsOf text.toList) (h : ofText? text = some document) :
    source.document = document := by
  obtain ⟨lexemes, hlexemes, htokens⟩ := exists_of_ofText? h
  have hsame : source.lexemes.map Lexeme.token = lexemes.map Lexeme.token :=
    Option.some.inj (hsource.tokens?_eq.symm.trans hlexemes.tokens?_eq)
  rw [map_token_lexemes hsource.haveScalars, htokens] at hsame
  exact tokens_injective hsame

/-! ## Places -/

namespace Source

/-- What stands in a source at the end of a step. Under a name that is the last member of the name. -/
def child? : Source → PlaceStep → Option Source
  | array items, .item index => items[index]?
  | object members, .member name =>
    Ordered.lastInserted? (· == ·) (members.map (Prod.map Literal.value id)) name
  | _, _ => none

/-- What stands in a source at the end of a path. -/
def at? (source : Source) (place : List PlaceStep) : Option Source := place.foldlM child? source

/-- A place starts with a step to a child. -/
theorem at?_cons_eq_some_iff {source part : Source} {step : PlaceStep} {place : List PlaceStep} :
    source.at? (step :: place) = some part ↔
      ∃ child, source.child? step = some child ∧ child.at? place = some part := by
  rw [at?, List.foldlM_cons, Option.bind_eq_bind, Option.bind_eq_some_iff]
  rfl

/-- What a step leads to is an item of an array or belongs to a member of an object. -/
theorem cases_of_child? {source part : Source} {step : PlaceStep} (h : source.child? step = some part) :
    (∃ items, source = array items ∧ part ∈ items) ∨
      ∃ members key, source = object members ∧ (key, part) ∈ members := by
  unfold child? at h
  split at h
  · next items index => exact .inl ⟨items, rfl, List.mem_of_getElem? h⟩
  · next members name =>
    obtain ⟨found, hfind, rfl⟩ := Option.map_eq_some_iff.mp h
    have hfound := List.mem_reverse.mp (List.mem_of_find?_eq_some hfind)
    obtain ⟨⟨key, part⟩, hmember, rfl⟩ := List.mem_map.mp hfound
    exact .inr ⟨members, key, rfl, hmember⟩
  · cases h

/-! ## Parts -/

/-- The lexemes of an item are among those of the items. -/
theorem mem_itemLexemes {items : List Source} {item : Source} (h : item ∈ items) {lexeme : Lexeme}
    (hmem : lexeme ∈ item.lexemes) : lexeme ∈ itemLexemes items := by
  induction items with
  | nil => cases h
  | cons first rest ih =>
    cases rest with
    | nil =>
      rw [List.mem_singleton] at h
      subst h
      simp [itemLexemes, hmem]
    | cons second rest =>
      rcases List.mem_cons.mp h with rfl | hrest
      · simp [itemLexemes_cons_cons, hmem]
      · simp [itemLexemes_cons_cons, ih hrest]

/-- The lexemes of a member are among those of the members. -/
theorem mem_memberLexemes {members : List (Literal String × Source)}
    {member : Literal String × Source} (h : member ∈ members) {lexeme : Lexeme}
    (hmem : lexeme ∈ member.2.lexemes) : lexeme ∈ memberLexemes members := by
  induction members with
  | nil => cases h
  | cons first rest ih =>
    obtain ⟨key, value⟩ := first
    cases rest with
    | nil =>
      rw [List.mem_singleton] at h
      subst h
      simp [memberLexemes, hmem]
    | cons second rest =>
      rcases List.mem_cons.mp h with rfl | hrest
      · simp [memberLexemes_cons_cons, hmem]
      · simp [memberLexemes_cons_cons, ih hrest]

/-- The lexemes of a part are lexemes of the whole. -/
theorem mem_lexemes_of_child? {source part : Source} {step : PlaceStep}
    (h : source.child? step = some part) {lexeme : Lexeme} (hmem : lexeme ∈ part.lexemes) :
    lexeme ∈ source.lexemes := by
  rcases cases_of_child? h with ⟨items, rfl, hitem⟩ | ⟨members, key, rfl, hmember⟩
  · exact List.mem_cons_of_mem _ (mem_itemLexemes hitem hmem)
  · exact List.mem_cons_of_mem _ (mem_memberLexemes hmember hmem)

/-- The lexemes of a part are among those of the whole. -/
theorem mem_lexemes_of_at? {source part : Source} {place : List PlaceStep}
    (h : source.at? place = some part) {lexeme : Lexeme} (hmem : lexeme ∈ part.lexemes) :
    lexeme ∈ source.lexemes := by
  induction place generalizing source with
  | nil =>
    cases h
    exact hmem
  | cons step place ih =>
    obtain ⟨child, hchild, hpart⟩ := at?_cons_eq_some_iff.mp h
    exact mem_lexemes_of_child? hchild (ih hpart)

/-- A part of what can be read can be read. -/
theorem isReadable_of_child? {source part : Source} {step : PlaceStep}
    (h : source.child? step = some part) (hreadable : source.document.isReadable = true) :
    part.document.isReadable = true := by
  rcases cases_of_child? h with ⟨items, rfl, hitem⟩ | ⟨members, key, rfl, hmember⟩
  · rw [document, isReadable, areReadable_iff, documents_eq] at hreadable
    exact hreadable _ (List.mem_map_of_mem hitem)
  · rw [document, isReadable, areReadableMembers_iff, memberDocuments_eq] at hreadable
    exact hreadable _ (List.mem_map_of_mem hmember)

/-- A part of what can be read can be read. -/
theorem isReadable_of_at? {source part : Source} {place : List PlaceStep}
    (h : source.at? place = some part) (hreadable : source.document.isReadable = true) :
    part.document.isReadable = true := by
  induction place generalizing source with
  | nil =>
    cases h
    exact hreadable
  | cons step place ih =>
    obtain ⟨child, hchild, hpart⟩ := at?_cons_eq_some_iff.mp h
    exact ih hpart (isReadable_of_child? hchild hreadable)

/-! ## Values of parts -/

/-- A scalar has no parts. -/
theorem child?_ofDocument_of_isScalar {value : Json} (h : value.IsScalar) (step : PlaceStep) :
    (Value.ofDocument value).child? step = none := by
  cases value with
  | integer n =>
    rw [Value.ofDocument]
    split <;> rfl
  | array items => cases h
  | object members => cases h
  | _ => rfl

/-- A step leads from a source to the values of what it leads to in the source. -/
theorem child?_ofDocument {source : Source} (h : HaveScalars source.lexemes) (step : PlaceStep) :
    (Value.ofDocument source.document).child? step =
      (source.child? step).map fun part => Value.ofDocument part.document := by
  cases source with
  | scalar literal =>
    have hscalar : literal.value.IsScalar := h _ List.mem_cons_self _ rfl
    exact child?_ofDocument_of_isScalar hscalar step
  | string literal => cases step <;> rfl
  | array items =>
    cases step with
    | item index =>
      rw [document, Value.child?_ofDocument_array, documents_eq, List.getElem?_map, Option.map_map]
      rfl
    | member name => rfl
  | object members =>
    cases step with
    | item index => rfl
    | member name =>
      have hmembers : memberDocuments members =
          (members.map (Prod.map Literal.value id)).map (Prod.map id document) := by
        rw [memberDocuments_eq, List.map_map, Prod.map_comp_map, Function.id_comp, Function.comp_id]
      have hlast : Ordered.lastInserted? (· == ·) (memberDocuments members) name =
          (child? (object members) (.member name)).map document := by
        rw [hmembers]
        exact Ordered.lastInserted?_map (fun _ _ => rfl) document name _
      rw [document, Value.child?_ofDocument_object, hlast, Option.map_map]
      rfl

/-- A path leads from a source to the values of what it leads to in the source. -/
theorem at?_ofDocument {source : Source} (h : HaveScalars source.lexemes) (place : List PlaceStep) :
    (Value.ofDocument source.document).at? place =
      (source.at? place).map fun part => Value.ofDocument part.document := by
  induction place generalizing source with
  | nil => rfl
  | cons step place ih =>
    rw [Value.at?, List.foldlM_cons, child?_ofDocument h, at?, List.foldlM_cons]
    cases hchild : source.child? step with
    | none => rfl
    | some child =>
      have hscalars : HaveScalars child.lexemes :=
        fun lexeme hmem => h lexeme (mem_lexemes_of_child? hchild hmem)
      exact ih hscalars

/-- A scalar in the source of a text was read from its text. -/
theorem exists_scanToken?_of_at? {source : Source} {text : List Char} (hsource : source.IsOf text)
    {place : List PlaceStep} {literal : Literal Json} (h : source.at? place = some (.scalar literal)) :
    ∃ rest, scanToken? (literal.text ++ rest) = some (.scalar literal.value, literal.text.length) :=
  SplitsInto.exists_scanToken? hsource (mem_lexemes_of_at? h List.mem_cons_self)

end Source

end RecordCoercion.Json

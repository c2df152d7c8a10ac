import ShaderChain.Proofs.Json.Token

/-! A text for each JSON value, and that it is read as this value. -/

namespace ShaderChain.Json

mutual

def tokens : Json → List Token
  | .null => [.null]
  | .bool b => [.bool b]
  | .number n => [.number (some n)]
  | .string s => [.string (some s)]
  | .array items => .openArray :: (itemsTokens [] items ++ [.closeArray])
  | .object members => .openObject :: (membersTokens [] members ++ [.closeObject])
  | .unreadable => [.number none]

/-- The items of an array, the first behind `lead` and the others behind commas. -/
def itemsTokens (lead : List Token) : List Json → List Token
  | [] => []
  | item :: rest => lead ++ (tokens item ++ itemsTokens [.comma] rest)

def membersTokens (lead : List Token) : List (String × Json) → List Token
  | [] => []
  | (name, value) :: rest =>
      lead ++ .string (some name) :: .colon :: (tokens value ++ membersTokens [.comma] rest)

end

def render (json : Json) : String :=
  String.ofList (Token.spaced json.tokens)

/-! The tokens of a value have its numbers. -/

theorem sound_comma : ∀ token ∈ [Token.comma], token.Sound := by
  intro token htoken
  cases List.mem_singleton.mp htoken
  exact nofun

theorem sound_itemsTokens {items : List Json} {lead : List Token}
    (hlead : ∀ token ∈ lead, token.Sound)
    (hitems : ∀ item ∈ items, ∀ token ∈ item.tokens, token.Sound) :
    ∀ token ∈ itemsTokens lead items, token.Sound := by
  induction items generalizing lead with
  | nil =>
      rw [itemsTokens]
      exact nofun
  | cons item rest ih =>
      obtain ⟨hitem, hrest⟩ := List.forall_mem_cons.mp hitems
      rw [itemsTokens, List.forall_mem_append, List.forall_mem_append]
      exact ⟨hlead, hitem, ih sound_comma hrest⟩

theorem sound_membersTokens {members : List (String × Json)} {lead : List Token}
    (hlead : ∀ token ∈ lead, token.Sound)
    (hmembers : ∀ member ∈ members, ∀ token ∈ member.2.tokens, token.Sound) :
    ∀ token ∈ membersTokens lead members, token.Sound := by
  induction members generalizing lead with
  | nil =>
      rw [membersTokens]
      exact nofun
  | cons member rest ih =>
      obtain ⟨hmember, hrest⟩ := List.forall_mem_cons.mp hmembers
      rw [membersTokens, List.forall_mem_append, List.forall_mem_cons, List.forall_mem_cons,
        List.forall_mem_append]
      exact ⟨hlead, nofun, nofun, hmember, ih sound_comma hrest⟩

theorem Sound.tokens {json : Json} (hjson : json.Sound) : ∀ token ∈ json.tokens, token.Sound := by
  induction hjson with
  | number hn =>
      rw [Json.tokens, List.forall_mem_singleton]
      intro n htoken
      cases htoken
      exact hn
  | array _ ih =>
      rw [Json.tokens, List.forall_mem_cons, List.forall_mem_append, List.forall_mem_singleton]
      exact ⟨nofun, sound_itemsTokens nofun ih, nofun⟩
  | object _ ih =>
      rw [Json.tokens, List.forall_mem_cons, List.forall_mem_append, List.forall_mem_singleton]
      exact ⟨nofun, sound_membersTokens nofun ih, nofun⟩
  | null | bool | string | unreadable =>
      rw [Json.tokens, List.forall_mem_singleton]
      exact nofun

/-! The reader goes through the tokens of a value and then has this value. -/

namespace Reader

def Reads (tokens : List Token) (before after : Reader) : Prop :=
  tokens.foldlM Reader.step before = some after

theorem Reads.append {front back : List Token} {before middle after : Reader}
    (hfront : Reads front before middle) (hback : Reads back middle after) :
    Reads (front ++ back) before after := by
  rw [Reads, List.foldlM_append, hfront]
  exact hback

theorem Reads.cons {token : Token} {rest : List Token} {before middle after : Reader}
    (htoken : before.step token = some middle) (hrest : Reads rest middle after) :
    Reads (token :: rest) before after := by
  rw [Reads, List.foldlM_cons, htoken]
  exact hrest

theorem reads_single {token : Token} {before after : Reader}
    (htoken : before.step token = some after) : Reads [token] before after :=
  .cons htoken rfl

end Reader

open Reader (Reads reads_single)

def ReadsBack (json : Json) : Prop :=
  ∀ frames, Reads json.tokens ⟨.value, frames⟩ ⟨.separator json, frames⟩

/-- No value starts with the end of an array, so the first item of one is read as any other. -/
theorem ReadsBack.first {json : Json} (hjson : ReadsBack json) (frames : List Frame) :
    Reads json.tokens ⟨.firstItem, .array [] :: frames⟩ ⟨.separator json, .array [] :: frames⟩ := by
  have hread := hjson (.array [] :: frames)
  cases json with
  | array items =>
      rw [tokens, Reads, List.foldlM_cons] at hread ⊢
      exact hread
  | object members =>
      rw [tokens, Reads, List.foldlM_cons] at hread ⊢
      exact hread
  | null | bool | number | string | unreadable =>
      rw [tokens] at hread ⊢
      exact hread

theorem reads_items {rest : List Json} (hrest : ∀ item ∈ rest, ReadsBack item) (item : Json)
    (seen : List Json) (frames : List Frame) :
    Reads (itemsTokens [.comma] rest ++ [.closeArray]) ⟨.separator item, .array seen :: frames⟩
      ⟨.separator (.array ((item :: seen).reverse ++ rest)), frames⟩ := by
  induction rest generalizing item seen with
  | nil =>
      rw [itemsTokens, List.append_nil]
      exact reads_single rfl
  | cons next rest ih =>
      obtain ⟨hnext, hrest⟩ := List.forall_mem_cons.mp hrest
      have hlater := ih hrest next (item :: seen)
      rw [List.reverse_cons, List.append_assoc] at hlater
      rw [itemsTokens, List.append_assoc, List.append_assoc]
      exact .cons rfl ((hnext _).append hlater)

theorem reads_members {rest : List (String × Json)}
    (hrest : ∀ member ∈ rest, ReadsBack member.2) (name : String) (value : Json)
    (seen : List (String × Json)) (frames : List Frame) :
    Reads (membersTokens [.comma] rest ++ [.closeObject])
      ⟨.separator value, .member (some seen) (some name) :: frames⟩
      ⟨.separator (.object (((name, value) :: seen).reverse ++ rest)), frames⟩ := by
  induction rest generalizing name value seen with
  | nil =>
      rw [membersTokens, List.append_nil]
      exact reads_single rfl
  | cons next rest ih =>
      obtain ⟨nextName, nextValue⟩ := next
      obtain ⟨hnext, hrest⟩ := List.forall_mem_cons.mp hrest
      have hlater := ih hrest nextName nextValue ((name, value) :: seen)
      rw [List.reverse_cons, List.append_assoc] at hlater
      rw [membersTokens, List.singleton_append, List.cons_append, List.cons_append,
        List.cons_append, List.append_assoc]
      exact .cons rfl (.cons rfl (.cons rfl ((hnext _).append hlater)))

theorem readsBack_array {items : List Json} (hitems : ∀ item ∈ items, ReadsBack item) :
    ReadsBack (.array items) := by
  intro frames
  rw [tokens]
  refine .cons rfl ?_
  cases items with
  | nil =>
      rw [itemsTokens]
      exact reads_single rfl
  | cons item rest =>
      obtain ⟨hitem, hrest⟩ := List.forall_mem_cons.mp hitems
      rw [itemsTokens, List.nil_append, List.append_assoc]
      exact (hitem.first frames).append (reads_items hrest item [] frames)

theorem readsBack_object {members : List (String × Json)}
    (hmembers : ∀ member ∈ members, ReadsBack member.2) : ReadsBack (.object members) := by
  intro frames
  rw [tokens]
  refine .cons rfl ?_
  cases members with
  | nil =>
      rw [membersTokens]
      exact reads_single rfl
  | cons member rest =>
      obtain ⟨name, value⟩ := member
      obtain ⟨hvalue, hrest⟩ := List.forall_mem_cons.mp hmembers
      rw [membersTokens, List.nil_append, List.cons_append, List.cons_append, List.append_assoc]
      exact .cons rfl (.cons rfl ((hvalue _).append (reads_members hrest name value [] frames)))

theorem Sound.readsBack {json : Json} (hjson : json.Sound) : ReadsBack json := by
  induction hjson with
  | array _ ih => exact readsBack_array ih
  | object _ ih => exact readsBack_object ih
  | null | bool | number | string | unreadable =>
      intro frames
      rw [Json.tokens]
      exact reads_single rfl

theorem parse?_render {json : Json} (hjson : json.Sound) : parse? json.render = some json := by
  have hread : json.tokens.foldlM Reader.step .start = some ⟨.separator json, []⟩ :=
    hjson.readsBack []
  rw [parse?, render, String.toList_ofList, Token.tokens?_spaced hjson.tokens]
  change ofTokens? json.tokens = some json
  rw [ofTokens?, hread]
  rfl

/-- The values of texts are those of which all numbers are proper. -/
theorem sound_iff {json : Json} : json.Sound ↔ ∃ text, parse? text = some json :=
  ⟨fun hjson => ⟨json.render, parse?_render hjson⟩, fun ⟨_, htext⟩ => sound_parse? htext⟩

end ShaderChain.Json

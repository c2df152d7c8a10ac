import ShaderChain.Proofs.Expr.Token
import ShaderChain.Proofs.Text.Key
import ShaderChain.Proofs.Transform.Normal

/-! Headers of functions, by their tokens. The names of the arguments can be read from them. -/

namespace ShaderChain

namespace Text

theorem isToken_of_isIdentifier {cs : List Char} (hcs : isIdentifier cs) :
    IsToken cs ∧ isWord cs = true := by
  cases cs with
  | nil => cases hcs
  | cons first more =>
      have hchars := (Token.identifier_start hcs).2
      exact ⟨.word (by simp) hchars, isWord_of_chars (by simp) hchars⟩

theorem tokens_intercalate (texts : List (List Char)) :
    tokens ([',', ' '].intercalate texts) = [[',']].intercalate (texts.map tokens) := by
  induction texts with
  | nil => rfl
  | cons first rest ih =>
      cases rest with
      | nil => simp
      | cons second more =>
          rw [List.intercalate_cons_cons, List.map_cons, List.map_cons, List.intercalate_cons_cons,
            ← List.map_cons, ← ih, List.append_assoc]
          calc
            tokens (first ++ ',' :: ' ' :: [',', ' '].intercalate (second :: more)) =
                tokens first ++ [','] :: tokens (' ' :: [',', ' '].intercalate (second :: more)) :=
              tokens_mark_between rfl rfl _ _
            _ = tokens first ++ [','] :: tokens ([',', ' '].intercalate (second :: more)) :=
              congrArg (tokens first ++ [','] :: ·) (tokens_blank_between rfl [] _)
            _ = tokens first ++ [[',']] ++ tokens ([',', ' '].intercalate (second :: more)) := by
              simp

/-- The words before a comma or a closing parenthesis. -/
def argumentWords : List (List Char) → List (List Char)
  | word :: mark :: rest =>
      if mark = [','] ∨ mark = [')'] then word :: argumentWords (mark :: rest)
      else argumentWords (mark :: rest)
  | _ => []

theorem argumentWords_of_word (first : List Char) {word : List Char} (hword : isWord word = true)
    (rest : List (List Char)) :
    argumentWords (first :: word :: rest) = argumentWords (word :: rest) := by
  have hmark : ¬(word = [','] ∨ word = [')']) := by
    rintro (rfl | rfl) <;> cases hword
  rw [argumentWords, if_neg hmark]

/-- `declared` are the types and names of the arguments. -/
theorem argumentWords_intercalate {declared : List (List Char × List Char)}
    (hwords : ∀ d ∈ declared, isWord d.1 = true ∧ isWord d.2 = true) (before : List Char) :
    argumentWords (before ::
        ([[',']].intercalate (declared.map fun d => [d.1, d.2]) ++ [[')']])) =
      if declared = [] then [before] else declared.map Prod.snd := by
  induction declared generalizing before with
  | nil => simp [argumentWords]
  | cons d rest ih =>
      obtain ⟨⟨htype, hname⟩, hrest⟩ := List.forall_mem_cons.mp hwords
      have htail := ih hrest
      cases rest with
      | nil =>
          rw [List.map_singleton, List.intercalate_singleton, List.cons_append,
            argumentWords_of_word _ htype, List.cons_append, argumentWords_of_word _ hname]
          simp [argumentWords]
      | cons next more =>
          rw [List.map_cons, List.intercalate_cons_of_ne_nil (by simp), List.append_assoc,
            List.append_assoc, List.cons_append, argumentWords_of_word _ htype, List.cons_append,
            argumentWords_of_word _ hname, List.nil_append, List.singleton_append, argumentWords,
            if_pos (.inl rfl), htail [',']]
          rfl

end Text

def Category.leadingNames (category : Category) : List String :=
  category.signature.leading.map Prod.snd

theorem Category.isIdentifier_leadingNames (category : Category) :
    ∀ name ∈ category.leadingNames, Text.isIdentifier name.toList := by
  cases category <;> decide +kernel

theorem Category.nodup_leadingNames (category : Category) : category.leadingNames.Nodup := by
  cases category <;> decide

namespace Transform

/-- The types and names of the arguments, the fixed ones of the category first. -/
def declarations (category : Category) (params : List Param) : List (String × String) :=
  (category.signature.leading.map fun (type, name) => (type.glsl, name)) ++
    params.map fun p => (p.type.glsl, p.name)

theorem arguments_eq (category : Category) (params : List Param) :
    arguments category params =
      (declarations category params).map fun d => d.1 ++ " " ++ d.2 := by
  simp [arguments, declarations, Function.comp_def]

theorem isIdentifier_type (type : ValueType) : Text.isIdentifier type.glsl.toList := by
  cases type with
  | numeric type => exact Expr.isIdentifier_glsl type
  | texture => decide +kernel

theorem isIdentifier_declarations (category : Category) {params : List Param}
    (hparams : ∀ p ∈ params, Text.isIdentifier p.name.toList) :
    ∀ d ∈ declarations category params,
      Text.isIdentifier d.1.toList ∧ Text.isIdentifier d.2.toList := by
  intro d hd
  rcases List.mem_append.mp hd with hd | hd
  · obtain ⟨⟨type, name⟩, hleading, rfl⟩ := List.mem_map.mp hd
    exact ⟨Expr.isIdentifier_glsl type,
      category.isIdentifier_leadingNames name (List.mem_map_of_mem hleading)⟩
  · obtain ⟨p, hp, rfl⟩ := List.mem_map.mp hd
    exact ⟨isIdentifier_type p.type, hparams p hp⟩

theorem tokens_declaration {d : String × String} (htype : Text.isIdentifier d.1.toList)
    (hname : Text.isIdentifier d.2.toList) :
    Text.tokens (d.1 ++ " " ++ d.2).toList = [d.1.toList, d.2.toList] := by
  have htext : (d.1 ++ " " ++ d.2).toList = d.1.toList ++ ' ' :: d.2.toList := by simp
  rw [htext, Text.tokens_blank_between rfl, (Text.isToken_of_isIdentifier htype).1.tokens_eq,
    (Text.isToken_of_isIdentifier hname).1.tokens_eq]
  rfl

theorem toList_header (symbol : String) (category : Category) (params : List Param) :
    (header symbol category params).toList =
      category.signature.result.glsl.toList ++ ' ' :: (symbol.toList ++ '(' ::
        ([',', ' '].intercalate ((arguments category params).map String.toList) ++ [')'])) := by
  simp [header, String.toList_intercalate]

/-- The tokens between the symbol and the end of a header. -/
def argumentTokens (category : Category) (params : List Param) : List (List Char) :=
  [[',']].intercalate ((declarations category params).map fun d => [d.1.toList, d.2.toList])

theorem tokens_header {symbol : String} (hsymbol : Text.isIdentifier symbol.toList)
    (category : Category) {params : List Param}
    (hparams : ∀ p ∈ params, Text.isIdentifier p.name.toList) :
    Text.tokens (header symbol category params).toList =
      category.signature.result.glsl.toList :: (symbol.toList :: ['('] ::
        argumentTokens category params ++ [[')']]) := by
  have hresult := Expr.isIdentifier_glsl category.signature.result
  have harguments : ((arguments category params).map String.toList).map Text.tokens =
      (declarations category params).map fun d => [d.1.toList, d.2.toList] := by
    rw [arguments_eq, List.map_map, List.map_map]
    apply List.map_congr_left
    intro d hd
    obtain ⟨htype, hname⟩ := isIdentifier_declarations category hparams d hd
    exact tokens_declaration htype hname
  rw [toList_header, Text.tokens_blank_between rfl,
    (Text.isToken_of_isIdentifier hresult).1.tokens_eq, Text.tokens_mark_between rfl rfl,
    (Text.isToken_of_isIdentifier hsymbol).1.tokens_eq, Text.tokens_mark_between rfl rfl,
    Text.tokens_intercalate, harguments]
  rfl

/-- The names of the arguments, as the text of the signature lists them. -/
def argumentNames (t : Transform) : List String :=
  (Text.argumentWords (Text.tokens t.signature.toList)).map String.ofList

theorem argumentNames_eq {t : Transform} (hsymbol : Text.isIdentifier t.symbol.toList)
    (hparams : ∀ p ∈ t.params, Text.isIdentifier p.name.toList) :
    t.argumentNames = (declarations t.category t.params).map Prod.snd := by
  have hwords : ∀ d ∈ (declarations t.category t.params).map fun d => (d.1.toList, d.2.toList),
      Text.isWord d.1 = true ∧ Text.isWord d.2 = true := by
    intro d hd
    obtain ⟨e, he, rfl⟩ := List.mem_map.mp hd
    obtain ⟨htype, hname⟩ := isIdentifier_declarations t.category hparams e he
    exact ⟨(Text.isToken_of_isIdentifier htype).2, (Text.isToken_of_isIdentifier hname).2⟩
  have hne : (declarations t.category t.params).map (fun d => (d.1.toList, d.2.toList)) ≠ [] := by
    cases t.category <;> simp [declarations, Category.signature]
  have hread := Text.argumentWords_intercalate hwords ['(']
  rw [if_neg hne, List.map_map, List.map_map] at hread
  rw [argumentNames, signature, tokens_header hsymbol _ hparams, List.cons_append,
    Text.argumentWords_of_word _ (Text.isToken_of_isIdentifier hsymbol).2, List.cons_append,
    Text.argumentWords, if_neg (by decide)]
  calc
    (Text.argumentWords (['('] :: (argumentTokens t.category t.params ++ [[')']]))).map
          String.ofList =
        ((declarations t.category t.params).map fun d => d.2.toList).map String.ofList :=
      congrArg (List.map String.ofList) hread
    _ = (declarations t.category t.params).map Prod.snd := by
      simp [Function.comp_def]

end Transform

/-! What normalization has made sure of when it accepts the parameters. -/

namespace Descriptor

variable {d : Descriptor} {t : Transform}

theorem isIdentifier_of_normalizeParams {taken : List String} {p : ParamDescriptor}
    {rest : List ParamDescriptor} {params : List Param}
    (hok : d.normalizeParams taken (p :: rest) = .ok params) :
    Text.isIdentifier p.name.toList := by
  unfold normalizeParams checkName at hok
  by_contra hident
  simp [hident, bind, Except.bind] at hok

theorem names_normalizeParams {taken : List String} {ps : List ParamDescriptor}
    {params : List Param} (hok : d.normalizeParams taken ps = .ok params) :
    params.map Param.name = ps.map ParamDescriptor.name ∧
      ∀ p ∈ params, Text.isIdentifier p.name.toList := by
  induction ps generalizing taken params with
  | nil =>
      cases hok
      simp
  | cons p rest ih =>
      have hident := isIdentifier_of_normalizeParams hok
      obtain ⟨-, kind, more, rfl, hrest⟩ := normalizeParams_cons_eq_ok hok
      obtain ⟨hnames, hmore⟩ := ih hrest
      refine ⟨?_, List.forall_mem_cons.mpr ⟨hident, hmore⟩⟩
      rw [List.map_cons, List.map_cons, hnames]

theorem isIdentifier_normalize (hok : d.normalize = .ok t) :
    Text.isIdentifier t.symbol.toList ∧ ∀ p ∈ t.params, Text.isIdentifier p.name.toList := by
  obtain ⟨-, -, hsymbol, -, hparams⟩ := normalize_eq_ok hok
  exact ⟨hsymbol, (names_normalizeParams hparams).2⟩

/-- The arguments in the signature of an accepted transform have identifiers for names. These are
distinct unless a parameter takes the name of a fixed argument. -/
theorem normalize_argumentNames (hok : d.normalize = .ok t) :
    t.argumentNames = t.category.leadingNames ++ d.params.map ParamDescriptor.name ∧
      (∀ name ∈ t.argumentNames, Text.isIdentifier name.toList) ∧
      (t.argumentNames.Nodup ↔ ∀ p ∈ d.params, p.name ∉ t.category.leadingNames) := by
  obtain ⟨hsymbol, hidents⟩ := isIdentifier_normalize hok
  obtain ⟨-, -, -, -, hparams⟩ := normalize_eq_ok hok
  obtain ⟨hnames, -⟩ := names_normalizeParams hparams
  obtain ⟨hnodup, -⟩ := nodup_normalizeParams hparams
  have hread := Transform.argumentNames_eq hsymbol hidents
  have hlisted : t.argumentNames =
      t.category.leadingNames ++ d.params.map ParamDescriptor.name := by
    rw [hread, ← hnames]
    simp [Transform.declarations, Category.leadingNames, Function.comp_def]
  refine ⟨hlisted, ?_, ?_⟩
  · intro name hname
    rw [hread] at hname
    obtain ⟨e, he, rfl⟩ := List.mem_map.mp hname
    exact (Transform.isIdentifier_declarations t.category hidents e he).2
  · rw [hlisted, List.nodup_append]
    constructor
    · rintro ⟨-, -, hdisjoint⟩ p hp hleading
      exact hdisjoint p.name hleading p.name (List.mem_map_of_mem hp) rfl
    · intro hfree
      refine ⟨t.category.nodup_leadingNames, hnames ▸ hnodup, ?_⟩
      rintro name hleading _ hparam rfl
      obtain ⟨p, hp, hname⟩ := List.mem_map.mp hparam
      exact hfree p hp (hname ▸ hleading)

/-- The name of the operand's slot is taken, and those of the fixed arguments are not. -/
def sampleClash : Descriptor :=
  { name := "fade"
    category := "combine"
    params := [.number "amount" 0.5, .number "_c1" 1.0]
    sources := { main := .text "return mix(_c0, _c1, amount);" } }

theorem normalize_argumentNames_sampleClash :
    ∃ t, sampleClash.normalize = .ok t ∧
      t.argumentNames = ["_c0", "_c1", "amount", "_c1"] ∧ ¬t.argumentNames.Nodup := by
  obtain ⟨t, hok⟩ : ∃ t, sampleClash.normalize = .ok t := ⟨_, rfl⟩
  have hcategory : t.category = .combine := by
    obtain ⟨-, -, -, hparse, -⟩ := normalize_eq_ok hok
    exact (Except.ok.inj hparse).symm
  obtain ⟨hnames, -, hnodup⟩ := normalize_argumentNames hok
  rw [hcategory] at hnames hnodup
  refine ⟨t, hok, hnames, fun hdistinct => ?_⟩
  exact hnodup.mp hdistinct (.number "_c1" 1.0) (by simp [sampleClash]) (by decide)

end Descriptor

end ShaderChain

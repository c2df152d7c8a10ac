import ShaderChain.Proofs.Text.Line
import ShaderChain.Proofs.Transform.Header

/-! Complete texts. A body is kept if the tokens of the header stand in it, the first perhaps as
the end of a longer word. Any other is put into braces, and its text is kept when it is completed
again. -/

namespace ShaderChain

namespace Transform

/-! A body that is taken to be complete is trimmed and ends its line. -/

def kept (body : String) : String :=
  String.ofList (Text.trim body.toList) ++ "\n"

def wrapped (header body : String) : String :=
  header ++ " \x7b\n" ++ String.ofList (Text.indentLines [' ', ' '] (Text.trim body.toList)) ++
    "\n\x7d\n"

def Keeps (category : Category) (header body : String) : Prop :=
  category = .raw ∨
    Text.occurs (Text.spacingKey header.toList) (Text.spacingKey body.toList) = true

theorem keeps_of_tokens {category : Category} {header body other : String}
    (htokens : Text.tokens body.toList = Text.tokens other.toList) :
    Keeps category header body ↔ Keeps category header other := by
  unfold Keeps
  rw [Text.spacingKey_of_tokens htokens]

section Cases

variable {category : Category} {header body : String}

theorem keeps_iff_trim : Keeps category header body ↔
    category = .raw ∨ Text.occurs (Text.spacingKey header.toList)
      (Text.spacingKey (Text.trim body.toList)) = true := by
  rw [Keeps, Text.spacingKey_of_tokens (Text.tokens_trim body.toList)]

theorem complete_of_keeps (hkeeps : Keeps category header body) :
    complete category header body = kept body :=
  if_pos (keeps_iff_trim.mp hkeeps)

theorem complete_of_not_keeps (hkeeps : ¬Keeps category header body) :
    complete category header body = wrapped header body :=
  if_neg fun htrim => hkeeps (keeps_iff_trim.mpr htrim)

end Cases

/-! Both kinds of text once more. -/

theorem blank_newline : Text.Blank ['\n'] := by
  intro c hc
  rw [List.mem_singleton.mp hc]
  rfl

theorem trim_kept (body : String) :
    Text.trim (kept body).toList = Text.trim body.toList := by
  have htext : (kept body).toList = Text.trim body.toList ++ ['\n'] := by simp [kept]
  rw [htext, Text.trim_append _ blank_newline, (Text.trimmed_trim _).trim_eq]

theorem tokens_kept (body : String) :
    Text.tokens (kept body).toList = Text.tokens body.toList := by
  rw [← Text.tokens_trim, trim_kept, Text.tokens_trim]

theorem kept_kept (body : String) : kept (kept body) = kept body := by
  rw [kept, trim_kept]
  rfl

/-- The characters of a wrapped body up to the closing brace. -/
def braced (header body : String) : List Char :=
  header.toList ++ ' ' :: '\x7b' :: '\n' ::
    (Text.indentLines [' ', ' '] (Text.trim body.toList) ++ ['\n', '\x7d'])

theorem wrapped_eq (header body : String) :
    wrapped header body = String.ofList (braced header body) ++ "\n" := by
  apply String.toList_inj.mp
  simp [wrapped, braced]

theorem toList_wrapped (header body : String) :
    (wrapped header body).toList = braced header body ++ ['\n'] := by
  simp [wrapped_eq]

theorem tokens_indentLines (cs : List Char) :
    Text.tokens (Text.indentLines [' ', ' '] cs) = Text.tokens cs := by
  rw [Text.indentLines, Text.tokens_join, List.flatMap_map, ← Text.tokens_lines cs]
  congr 1
  funext line
  exact (Text.indented_indentLine line).tokens_eq

theorem tokens_wrapped (header body : String) :
    Text.tokens (wrapped header body).toList =
      Text.tokens header.toList ++ ['\x7b'] :: (Text.tokens body.toList ++ [['\x7d']]) := by
  have htext : (wrapped header body).toList = header.toList ++ ' ' :: ([] ++ '\x7b' :: ([] ++ '\n' ::
      (Text.indentLines [' ', ' '] (Text.trim body.toList) ++ '\n' :: ([] ++ '\x7d' :: ['\n'])))) := by
    simp [wrapped]
  have hend : Text.tokens ['\n'] = [] := Text.tokens_blank blank_newline
  rw [htext, Text.tokens_blank_between rfl, Text.tokens_mark_between rfl rfl,
    Text.tokens_blank_between rfl, Text.tokens_blank_between rfl,
    Text.tokens_mark_between rfl rfl, hend, tokens_indentLines, Text.tokens_trim]
  rfl

/-- The header starts with no white space, so that there is none to trim from a wrapped body. -/
theorem trimmed_braced {header : String}
    (hheader : ∃ c ∈ header.toList.head?, Text.isBlank c = false) (body : String) :
    Text.Trimmed (braced header body) := by
  constructor
  · intro first hmem
    obtain ⟨c, hfirst, hblank⟩ := hheader
    rw [braced, List.head?_append, Option.mem_def.mp hfirst] at hmem
    cases hmem
    exact hblank
  · intro last hmem
    rw [braced] at hmem
    have hlast : last = '\x7d' := by
      simpa [List.getLast?_append, List.getLast?_cons] using hmem.symm
    rw [hlast]
    rfl

theorem kept_wrapped {header : String}
    (hheader : ∃ c ∈ header.toList.head?, Text.isBlank c = false) (body : String) :
    kept (wrapped header body) = wrapped header body := by
  rw [kept, toList_wrapped, Text.trim_append _ blank_newline, (trimmed_braced hheader body).trim_eq,
    ← wrapped_eq]

theorem keeps_wrapped (category : Category) (header body : String) :
    Keeps category header (wrapped header body) := by
  right
  rw [Text.occurs_iff, Text.spacingKey_eq_spell, Text.spacingKey_eq_spell, tokens_wrapped]
  exact Text.spell_within [] _ _

theorem complete_complete {header : String}
    (hheader : ∃ c ∈ header.toList.head?, Text.isBlank c = false) (category : Category)
    (body : String) :
    complete category header (complete category header body) = complete category header body := by
  by_cases hkeeps : Keeps category header body
  · have hagain : Keeps category header (kept body) :=
      (keeps_of_tokens (tokens_kept body)).mpr hkeeps
    rw [complete_of_keeps hkeeps, complete_of_keeps hagain, kept_kept]
  · rw [complete_of_not_keeps hkeeps, complete_of_keeps (keeps_wrapped category header body),
      kept_wrapped hheader]

/-! The function that a text defines. -/

/-- The tokens of the header stand in the text, and an opening brace behind them. -/
def Defines (header text : String) : Prop :=
  Text.StandsIn (Text.tokens header.toList ++ [['\x7b']]) text.toList

instance (header text : String) : Decidable (Defines header text) :=
  inferInstanceAs (Decidable (_ <:+: _))

theorem defines_of_tokens {header text other : String}
    (htokens : Text.tokens text.toList = Text.tokens other.toList) :
    Defines header text ↔ Defines header other := by
  unfold Defines Text.StandsIn
  rw [htokens]

theorem defines_wrapped (header body : String) : Defines header (wrapped header body) := by
  refine ⟨[], Text.tokens body.toList ++ [['\x7d']], ?_⟩
  rw [tokens_wrapped]
  simp

/-- The tokens of the header stand in the body, the first perhaps as the end of a longer word. -/
def Shows (header body : String) : Prop :=
  Text.LooselyIn (Text.tokens header.toList) body.toList

section Header

variable {symbol : String} {category : Category} {params : List Param}

theorem shows_of_defines (hsymbol : Text.isIdentifier symbol.toList)
    (hparams : ∀ p ∈ params, Text.isIdentifier p.name.toList) {body : String}
    (hdefines : Defines (header symbol category params) body) :
    Shows (header symbol category params) body := by
  have hstands : Text.StandsIn (Text.tokens (header symbol category params).toList) body.toList :=
    (List.prefix_append _ _).isInfix.trans hdefines
  unfold Shows
  rw [tokens_header hsymbol category hparams] at hstands ⊢
  exact hstands.loosely

theorem keeps_iff_shows (hsymbol : Text.isIdentifier symbol.toList)
    (hparams : ∀ p ∈ params, Text.isIdentifier p.name.toList) (hraw : category ≠ .raw)
    (body : String) :
    Keeps category (header symbol category params) body ↔
      Shows (header symbol category params) body := by
  have hresult := Expr.isIdentifier_glsl category.signature.result
  rw [Keeps, or_iff_right hraw]
  exact Text.occurs_spacingKey_iff (tokens_header hsymbol category hparams)
    (Text.isToken_of_isIdentifier hresult).2 rfl body.toList

/-- What becomes of a body, and when its text defines the function of the header. -/
structure Completes (header body text : String) : Prop where
  kept_iff : text = kept body ↔ Shows header body
  wrapped_of_not : ¬Shows header body → text = wrapped header body
  defines_iff : Defines header text ↔ (Shows header body → Defines header body)

theorem completes_complete (hsymbol : Text.isIdentifier symbol.toList)
    (hparams : ∀ p ∈ params, Text.isIdentifier p.name.toList) (hraw : category ≠ .raw)
    (body : String) :
    Completes (header symbol category params) body
      (complete category (header symbol category params) body) := by
  have hkeeps := keeps_iff_shows hsymbol hparams hraw body
  by_cases hshows : Shows (header symbol category params) body
  · rw [complete_of_keeps (hkeeps.mpr hshows)]
    refine ⟨iff_of_true rfl hshows, fun hnot => absurd hshows hnot, ?_⟩
    rw [defines_of_tokens (tokens_kept body)]
    exact ⟨fun hdefines _ => hdefines, fun hdefines => hdefines hshows⟩
  · rw [complete_of_not_keeps (mt hkeeps.mp hshows)]
    have hdefines := defines_wrapped (header symbol category params) body
    refine ⟨iff_of_false ?_ hshows, fun _ => rfl, iff_of_true hdefines fun h => absurd h hshows⟩
    -- If the two texts were the same, the body would define the function itself.
    intro hsame
    rw [hsame, defines_of_tokens (tokens_kept body)] at hdefines
    exact hshows (shows_of_defines hsymbol hparams hdefines)

end Header

theorem exists_head?_header (symbol : String) (category : Category) (params : List Param) :
    ∃ c ∈ (header symbol category params).toList.head?, Text.isBlank c = false := by
  rw [toList_header]
  cases category <;> exact ⟨'v', rfl, rfl⟩

end Transform

namespace Variants

theorem map_map (f : α → β) (g : β → γ) (v : Variants α) :
    (v.map f).map g = v.map (g ∘ f) := by
  simp [Variants.map, Option.map_map]

/-- A relation between bodies that stand in the same places. -/
structure Related (P : α → β → Prop) (v : Variants α) (w : Variants β) : Prop where
  main : P v.main w.main
  es300 : Option.Rel P v.es300 w.es300
  vertex : Option.Rel P v.vertex w.vertex

def toList (v : Variants α) : List α :=
  v.main :: (v.es300.toList ++ v.vertex.toList)

theorem Related.imp {P Q : α → β → Prop} {v : Variants α} {w : Variants β}
    (hrelated : v.Related P w) (himp : ∀ a ∈ v.toList, ∀ b, P a b → Q a b) : v.Related Q w := by
  obtain ⟨main, es300, vertex⟩ := v
  obtain ⟨other, otherEs300, otherVertex⟩ := w
  obtain ⟨hmain, hes300, hvertex⟩ := hrelated
  refine ⟨himp _ (by simp [toList]) _ hmain, ?_, ?_⟩
  · cases hes300 with
    | none => exact .none
    | some h => exact .some (himp _ (by simp [toList]) _ h)
  · cases hvertex with
    | none => exact .none
    | some h => exact .some (himp _ (by simp [toList]) _ h)

theorem related_map {P : α → β → Prop} {f : α → β} (hf : ∀ a, P a (f a))
    (v : Variants α) : v.Related P (v.map f) := by
  obtain ⟨main, es300, vertex⟩ := v
  refine ⟨hf main, ?_, ?_⟩
  · cases es300 with
    | none => exact .none
    | some a => exact .some (hf a)
  · cases vertex with
    | none => exact .none
    | some a => exact .some (hf a)

end Variants

namespace Descriptor

variable {d : Descriptor} {t : Transform}

theorem normalizeParams_withSources (d : Descriptor) (sources : Variants Source)
    (taken : List String) (ps : List ParamDescriptor) :
    ({ d with sources } : Descriptor).normalizeParams taken ps = d.normalizeParams taken ps := by
  induction ps generalizing taken with
  | nil => rfl
  | cons p rest ih =>
      simp only [normalizeParams, ih]
      rfl

/-- The sources have no part in whether a descriptor is accepted. -/
theorem normalize_withSources (hok : d.normalize = .ok t) (sources : Variants Source) :
    ({ d with sources } : Descriptor).normalize =
      .ok { t with texts := sources.map fun source =>
              Transform.complete t.category t.signature source.toText } := by
  obtain ⟨hname, hsymbol, hident, hcategory, hparams⟩ := normalize_eq_ok hok
  rw [hsymbol] at hident
  unfold normalize
  simp only [normalizeParams_withSources, checkName, hident, hcategory, mapError_ok, hparams,
    if_true, bind, Except.bind, pure, Except.pure]
  rw [← hsymbol, ← hname]
  rfl

theorem texts_normalize (hok : d.normalize = .ok t) :
    t.texts = d.sources.map fun source =>
      Transform.complete t.category t.signature source.toText := by
  have hsame := normalize_withSources hok d.sources
  rw [show ({ d with sources := d.sources } : Descriptor) = d from rfl, hok] at hsame
  exact congrArg Transform.texts (Except.ok.inj hsame)

/-- A transform comes out again when its own texts are the sources. -/
theorem normalize_texts (hok : d.normalize = .ok t) :
    ({ d with sources := t.texts.map Source.text } : Descriptor).normalize = .ok t := by
  have hheader := Transform.exists_head?_header t.symbol t.category t.params
  have hcomplete (body : String) :
      Transform.complete t.category t.signature
          (Transform.complete t.category t.signature body) =
        Transform.complete t.category t.signature body :=
    Transform.complete_complete hheader t.category body
  have htexts : ((t.texts.map Source.text).map fun source =>
      Transform.complete t.category t.signature source.toText) = t.texts := by
    rw [texts_normalize hok, Variants.map_map, Variants.map_map]
    congr 1
    funext source
    exact hcomplete source.toText
  rw [normalize_withSources hok, htexts]

/-- A body that is wrapped, one that is complete and one that is blank. -/
def sampleTint : Descriptor :=
  { name := "tint"
    category := "color"
    params := [.number "amount" 0.5]
    sources := {
      main := .lines ["return _c0 * amount;", "", "  // opaque  "]
      es300 := some (.text "vec4 tint( vec4 _c0,\r\n  float amount ) \x7b return _c0; \x7d\r\n")
      vertex := some (.text " \u2003\n") } }

theorem normalize_texts_sampleTint :
    ∃ t, sampleTint.normalize = .ok t ∧ t.texts.vertex.isSome ∧
      ({ sampleTint with sources := t.texts.map Source.text } : Descriptor).normalize = .ok t := by
  obtain ⟨t, hok, hvertex⟩ :
      ∃ t, sampleTint.normalize = .ok t ∧ t.texts.vertex.isSome := ⟨_, rfl, rfl⟩
  exact ⟨t, hok, hvertex, normalize_texts hok⟩

/-- A text is the body alone exactly if the body shows the signature, though the body need not
define the function then. Any other text does define it. -/
theorem normalize_completes (hok : d.normalize = .ok t) (hraw : t.category ≠ .raw) :
    d.sources.Related (fun source text => Transform.Completes t.signature source.toText text)
      t.texts := by
  obtain ⟨hsymbol, hparams⟩ := isIdentifier_normalize hok
  rw [texts_normalize hok]
  apply Variants.related_map
  intro source
  exact Transform.completes_complete hsymbol hparams hraw source.toText

/-- Bodies with the header in a comment, as a prototype and behind a longer word. -/
def sampleGlow : Descriptor :=
  { name := "glow"
    category := "src"
    params := [.number "level" 1.0]
    sources := {
      main := .lines ["// vec4 glow(vec2 _st, float level)", "return vec4(level);"]
      es300 := some (.text "vec4 glow(vec2 _st, float level);")
      vertex := some (.text "ivec4 glow(vec2 _st, float level) \x7b return ivec4(1); \x7d") } }

theorem normalize_completes_sampleGlow :
    ∃ t, sampleGlow.normalize = .ok t ∧ t.category ≠ .raw ∧
      sampleGlow.sources.Related
        (fun source text =>
          text = Transform.kept source.toText ∧ ¬Transform.Defines t.signature text)
        t.texts := by
  obtain ⟨t, hok, hcategory, hsignature⟩ :
      ∃ t, sampleGlow.normalize = .ok t ∧ t.category = .source ∧
        t.signature = "vec4 glow(vec2 _st, float level)" :=
    ⟨_, rfl, rfl, by decide +kernel⟩
  have hraw : t.category ≠ .raw := by
    rw [hcategory]
    nofun
  have hbodies : ∀ source ∈ sampleGlow.sources.toList,
      Text.occurs (Text.spacingKey "vec4 glow(vec2 _st, float level)".toList)
          (Text.spacingKey source.toText.toList) = true ∧
        ¬Transform.Defines "vec4 glow(vec2 _st, float level)" source.toText := by
    decide +kernel
  rw [← hsignature] at hbodies
  obtain ⟨hsymbol, hparams⟩ := isIdentifier_normalize hok
  refine ⟨t, hok, hraw, (normalize_completes hok hraw).imp ?_⟩
  intro source hsource text hcompletes
  obtain ⟨hoccurs, hundefined⟩ := hbodies source hsource
  have hshows := (Transform.keeps_iff_shows hsymbol hparams hraw source.toText).mp (.inr hoccurs)
  refine ⟨hcompletes.kept_iff.mpr hshows, fun hdefines => ?_⟩
  exact hundefined (hcompletes.defines_iff.mp hdefines hshows)

end Descriptor

end ShaderChain

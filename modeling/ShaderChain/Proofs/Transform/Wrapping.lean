import ShaderChain.Proofs.Transform.Completion

/-! Wrapped bodies. A body that is put into braces keeps its tokens and its lines, and nothing
changes but the white space at the ends of the lines. -/

namespace ShaderChain

namespace Transform

/-- The lines of a body without the white space around it. An empty one has an empty line. -/
def bodyLines (body : String) : List (List Char) :=
  match Text.lines (Text.trim body.toList) with
  | [] => [[]]
  | ls => ls

theorem bodyLines_ne_nil (body : String) : bodyLines body ≠ [] := by
  unfold bodyLines
  split
  · simp
  · assumption

theorem not_mem_of_mem_bodyLines {body : String} {line : List Char} (hline : line ∈ bodyLines body) :
    '\n' ∉ line := by
  unfold bodyLines at hline
  split at hline
  · rw [List.mem_singleton.mp hline]
    exact List.not_mem_nil
  · exact Text.not_mem_of_mem_lines hline

theorem indentLines_eq (body : String) :
    Text.indentLines [' ', ' '] (Text.trim body.toList) =
      ['\n'].intercalate ((bodyLines body).map (Text.indentLine [' ', ' '])) := by
  unfold Text.indentLines bodyLines
  split
  · rename_i hnone
    rw [hnone]
    rfl
  · rfl

theorem oneLine_indentLine {body : String} :
    ∀ line ∈ (bodyLines body).map (Text.indentLine [' ', ' ']), Text.OneLine line := by
  intro indented hindented
  obtain ⟨line, hline, rfl⟩ := List.mem_map.mp hindented
  exact (Text.indented_indentLine line).oneLine (not_mem_of_mem_bodyLines hline)

theorem lines_wrapped {header : String} (hheader : '\n' ∉ header.toList) (body : String) :
    Text.lines (wrapped header body).toList =
      (header.toList ++ [' ', '\x7b']) ::
        ((bodyLines body).map (Text.indentLine [' ', ' ']) ++ [['\x7d']]) := by
  have htext : (wrapped header body).toList = (header.toList ++ [' ', '\x7b']) ++ '\n' ::
      (['\n'].intercalate ((bodyLines body).map (Text.indentLine [' ', ' '])) ++ '\n' ::
        (['\x7d'] ++ '\n' :: [])) := by
    rw [← indentLines_eq]
    simp [wrapped]
  have hfirst : Text.OneLine (header.toList ++ [' ', '\x7b']) := ⟨by simp [hheader], by simp⟩
  have hlast : Text.OneLine ['\x7d'] := ⟨by simp, by simp⟩
  rw [htext, hfirst.lines_append,
    Text.lines_intercalate (by simp [bodyLines_ne_nil]) oneLine_indentLine, hlast.lines_append]
  rfl

/-! Headers stand on one line. -/

theorem not_mem_of_isIdentifier {name : String} (hname : Text.isIdentifier name.toList) :
    '\n' ∉ name.toList := by
  intro hfeed
  obtain ⟨htoken, hword⟩ := Text.isToken_of_isIdentifier hname
  cases htoken.chars_of_isWord hword '\n' hfeed

theorem not_mem_header {symbol : String} (hsymbol : Text.isIdentifier symbol.toList)
    (category : Category) {params : List Param}
    (hparams : ∀ p ∈ params, Text.isIdentifier p.name.toList) :
    '\n' ∉ (header symbol category params).toList := by
  have harguments :
      '\n' ∉ [',', ' '].intercalate ((arguments category params).map String.toList) := by
    intro hfeed
    obtain hmark | ⟨text, htext, hfeed⟩ := Text.mem_of_mem_intercalate hfeed
    · simp at hmark
    · rw [arguments_eq] at htext
      simp only [List.map_map, List.mem_map] at htext
      obtain ⟨d, hd, rfl⟩ := htext
      obtain ⟨htype, hname⟩ := isIdentifier_declarations category hparams d hd
      simp [not_mem_of_isIdentifier htype, not_mem_of_isIdentifier hname] at hfeed
  rw [toList_header]
  simp [not_mem_of_isIdentifier (Expr.isIdentifier_glsl _), not_mem_of_isIdentifier hsymbol,
    harguments]

/-- How a text wraps a body. Each line of the body is a line of the text, with the same tokens. -/
structure Wraps (header body text : String) : Prop where
  key : Text.spacingKey text.toList =
    Text.spacingKey header.toList ++ '\x7b' :: (Text.spacingKey body.toList ++ ['\x7d'])
  lines : ∃ between,
    Text.lines text.toList = (header.toList ++ [' ', '\x7b']) :: (between ++ [['\x7d']]) ∧
      List.Forall₂ Text.Indented (bodyLines body) between ∧
      between.map Text.tokens = (bodyLines body).map Text.tokens

theorem wraps_wrapped {header : String} (hheader : '\n' ∉ header.toList) (body : String) :
    Wraps header body (wrapped header body) where
  key := by
    rw [Text.spacingKey_eq_spell, tokens_wrapped, Text.spell_mark_between rfl,
      Text.spell_concat_mark rfl, ← Text.spacingKey_eq_spell, ← Text.spacingKey_eq_spell]
  lines := by
    refine ⟨_, lines_wrapped hheader body, ?_, ?_⟩
    · rw [List.forall₂_map_right_iff, List.forall₂_same]
      exact fun line _ => Text.indented_indentLine line
    · rw [List.map_map]
      apply List.map_congr_left
      exact fun line _ => (Text.indented_indentLine line).tokens_eq

end Transform

namespace Descriptor

variable {d : Descriptor} {t : Transform}

/-- A body in which the signature's key does not stand is wrapped, and changes in its layout
only. -/
theorem normalize_wraps (hok : d.normalize = .ok t) (hraw : t.category ≠ .raw) :
    d.sources.Related
      (fun source text =>
        ¬Text.spacingKey t.signature.toList <:+: Text.spacingKey source.toText.toList →
          Transform.Wraps t.signature source.toText text)
      t.texts := by
  obtain ⟨hsymbol, hparams⟩ := isIdentifier_normalize hok
  rw [texts_normalize hok]
  apply Variants.related_map
  intro source hkey
  have hkeeps : ¬Transform.Keeps t.category t.signature source.toText := by
    rintro (hcategory | hoccurs)
    · exact hraw hcategory
    · exact hkey ((Text.occurs_iff _ _).mp hoccurs)
  rw [Transform.complete_of_not_keeps hkeeps]
  exact Transform.wraps_wrapped (Transform.not_mem_header hsymbol t.category hparams) source.toText

/-- Bodies with directives, comments and white space at the ends of lines, and a blank one. -/
def sampleScale : Descriptor :=
  { name := "scale"
    category := "color"
    params := [.number "amount" 2.0]
    sources := {
      main := .text "\n#define BY amount \t\r\n\r\n  return _c0 * BY; // scaled\u2003\n"
      es300 := some (.lines ["// vec4 scale", "return _c0 * amount;  ", " "])
      vertex := some (.text " \n") } }

theorem normalize_wraps_sampleScale :
    ∃ t, sampleScale.normalize = .ok t ∧ t.category ≠ .raw ∧
      (∀ source ∈ sampleScale.sources.toList,
        ¬Text.spacingKey t.signature.toList <:+: Text.spacingKey source.toText.toList) ∧
      sampleScale.sources.Related
        (fun source text => Transform.Wraps t.signature source.toText text) t.texts := by
  obtain ⟨t, hok, hcategory, hsignature⟩ :
      ∃ t, sampleScale.normalize = .ok t ∧ t.category = .color ∧
        t.signature = "vec4 scale(vec4 _c0, float amount)" :=
    ⟨_, rfl, rfl, by decide +kernel⟩
  have hraw : t.category ≠ .raw := by
    rw [hcategory]
    nofun
  have hkeys : ∀ source ∈ sampleScale.sources.toList,
      ¬Text.spacingKey t.signature.toList <:+: Text.spacingKey source.toText.toList := by
    rw [hsignature]
    decide +kernel
  refine ⟨t, hok, hraw, hkeys, (normalize_wraps hok hraw).imp ?_⟩
  intro source hsource text hwraps
  exact hwraps (hkeys source hsource)

end Descriptor

end ShaderChain

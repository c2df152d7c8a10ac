import ShaderChain.Proofs.Text.Token

/-! The spacing key of a text spells its tokens, with a space between two words. -/

namespace ShaderChain.Text

def isWord (token : List Char) : Bool :=
  token.head?.any isIdentChar

/-- A space in front of a word that follows another. -/
def gap (afterWord : Bool) (rest : List (List Char)) : List Char :=
  if afterWord && rest.head?.any isWord then [' '] else []

def spell : List (List Char) → List Char
  | [] => []
  | token :: rest => token ++ (gap (isWord token) rest ++ spell rest)

theorem isWord_of_chars {cs : List Char} (hne : cs ≠ [])
    (hchars : ∀ c ∈ cs, isIdentChar c = true) : isWord cs = true := by
  obtain ⟨c, rest, rfl⟩ := List.exists_cons_of_ne_nil hne
  exact hchars c (by simp)

theorem gap_false (rest : List (List Char)) : gap false rest = [] := rfl

theorem gap_of_word {token : List Char} (hword : isWord token = true)
    (afterWord : Bool) (rest : List (List Char)) :
    gap afterWord (token :: rest) = if afterWord then [' '] else [] := by
  simp [gap, hword]

theorem gap_of_mark {c : Char} (hident : isIdentChar c = false) (afterWord : Bool)
    (rest : List (List Char)) : gap afterWord ([c] :: rest) = [] := by
  simp [gap, isWord, hident]

theorem spacingKeyFrom_word {cs : List Char} (hchars : ∀ c ∈ cs, isIdentChar c = true)
    (rest : List Char) :
    spacingKeyFrom true false (cs ++ rest) = cs ++ spacingKeyFrom true false rest := by
  induction cs with
  | nil => rfl
  | cons c more ih =>
      obtain ⟨hc, hmore⟩ := List.forall_mem_cons.mp hchars
      simp [spacingKeyFrom, isBlank_of_isIdentChar hc, hc, ih hmore]

/-- The runs that a text is divided into, from some run on. -/
structure Runs (runs : List (List Char)) : Prop where
  each : ∀ run ∈ runs, IsToken run ∨ ∃ c, run = [c] ∧ isBlank c = true
  apart : runs.IsChain fun a b => ∃ ha hb, joins (a.getLast ha) (b.head hb) = false

theorem runs_splitBy (cs : List Char) : Runs (cs.splitBy joins) :=
  ⟨fun _ => isToken_or_blank, List.isChain_getLast_head_splitBy joins cs⟩

theorem Runs.tail {run : List Char} {runs : List (List Char)} (hruns : Runs (run :: runs)) :
    Runs runs :=
  ⟨(List.forall_mem_cons.mp hruns.each).2, hruns.apart.tail⟩

theorem Runs.not_word_of_word {run next : List Char} {runs : List (List Char)}
    (hruns : Runs (run :: runs)) (hchars : ∀ c ∈ run, isIdentChar c = true)
    (hnext : next ∈ runs.head?) : isWord next = false := by
  obtain ⟨more, rfl⟩ := List.head?_eq_some_iff.mp hnext
  obtain ⟨⟨hrun, hne, hjoins⟩, -⟩ := List.isChain_cons_cons.mp hruns.apart
  rw [joins, hchars _ (List.getLast_mem hrun), Bool.true_and] at hjoins
  rw [isWord, List.head?_eq_some_head hne]
  exact hjoins

theorem spacingKeyFrom_cons_word {c : Char} (hc : isIdentChar c = true) {afterWord gapped : Bool}
    (hstart : afterWord = true → gapped = true) (rest : List Char) :
    spacingKeyFrom afterWord gapped (c :: rest) =
      (if afterWord then [' '] else []) ++ c :: spacingKeyFrom true false rest := by
  cases afterWord with
  | false => simp [spacingKeyFrom, isBlank_of_isIdentChar hc, hc]
  | true => simp [spacingKeyFrom, isBlank_of_isIdentChar hc, hc, hstart rfl]

/-- `afterWord` tells whether a word stands before the runs, and `gapped` whether white space keeps
them apart from it. -/
theorem spacingKeyFrom_runs {runs : List (List Char)} (hruns : Runs runs) (afterWord gapped : Bool)
    (hstart : afterWord = true → gapped = false → ∀ next ∈ runs.head?, isWord next = false) :
    spacingKeyFrom afterWord gapped runs.flatten =
      gap afterWord (withoutBlanks runs) ++ spell (withoutBlanks runs) := by
  induction runs generalizing afterWord gapped with
  | nil => simp [spacingKeyFrom, gap, spell, withoutBlanks]
  | cons run runs ih =>
      have hrest := ih hruns.tail
      obtain ⟨hrun, -⟩ := List.forall_mem_cons.mp hruns.each
      rw [List.flatten_cons]
      rcases hrun with hrun | ⟨c, rfl, hblank⟩
      · rw [hrun.withoutBlanks_cons, spell]
        cases hrun with
        | word hne hchars =>
            have hword := isWord_of_chars hne hchars
            have hgapped : afterWord = true → gapped = true := by
              intro hafter
              by_contra hgapped
              rw [hstart hafter (by simpa using hgapped) run rfl] at hword
              cases hword
            obtain ⟨c, more, rfl⟩ := List.exists_cons_of_ne_nil hne
            obtain ⟨hc, hmore⟩ := List.forall_mem_cons.mp hchars
            rw [List.cons_append, spacingKeyFrom_cons_word hc hgapped, spacingKeyFrom_word hmore,
              hrest true false fun _ _ _ hnext => hruns.not_word_of_word hchars hnext,
              gap_of_word hword, hword]
            rfl
        | @mark c hident hblank =>
            rw [gap_of_mark hident, List.singleton_append]
            simp [spacingKeyFrom, hblank, hident, hrest false false (by simp), isWord, gap_false]
      · rw [withoutBlanks_cons_blank hblank, ← hrest afterWord true (by simp)]
        simp [spacingKeyFrom, hblank]

theorem spacingKey_eq_spell (cs : List Char) : spacingKey cs = spell (tokens cs) := by
  have hkey := spacingKeyFrom_runs (runs_splitBy cs) false false (by simp)
  rw [List.flatten_splitBy, gap_false] at hkey
  exact hkey

/-! The tokens of a spelling are those that were spelled. -/

theorem IsToken.ne_nil {token : List Char} (htoken : IsToken token) : token ≠ [] := by
  cases htoken with
  | word hne _ => exact hne
  | mark _ _ => simp

theorem IsToken.chars_of_isWord {token : List Char} (htoken : IsToken token)
    (hword : isWord token = true) : ∀ c ∈ token, isIdentChar c = true := by
  cases htoken with
  | word _ hchars => exact hchars
  | mark hident _ => simp [isWord, hident] at hword

theorem IsToken.last_of_not_isWord {token : List Char} (htoken : IsToken token)
    (hword : isWord token = false) : ∀ a ∈ token.getLast?, isIdentChar a = false := by
  cases htoken with
  | word hne hchars => simp [isWord_of_chars hne hchars] at hword
  | mark hident _ => simpa using hident

theorem head?_spell {next : List Char} (hnext : IsToken next) (rest : List (List Char)) :
    (spell (next :: rest)).head? = next.head? := by
  rw [spell, List.head?_append_of_ne_nil _ hnext.ne_nil]

theorem first_spell {ts : List (List Char)} (hts : ∀ token ∈ ts, IsToken token)
    (hword : ts.head?.any isWord = false) : ∀ b ∈ (spell ts).head?, isIdentChar b = false := by
  intro b hb
  cases ts with
  | nil => cases hb
  | cons next rest =>
      rw [head?_spell (hts next (by simp))] at hb
      simpa [isWord, Option.mem_def.mp hb] using hword

theorem tokens_spell {ts : List (List Char)} (hts : ∀ token ∈ ts, IsToken token) :
    tokens (spell ts) = ts := by
  induction ts with
  | nil => rfl
  | cons token rest ih =>
      obtain ⟨htoken, hrest⟩ := List.forall_mem_cons.mp hts
      have happend : tokens (spell (token :: rest)) = tokens token ++ tokens (spell rest) := by
        rw [spell]
        cases hword : isWord token with
        | false =>
            rw [gap_false]
            exact tokens_append_of_last (htoken.last_of_not_isWord hword) _
        | true =>
            cases hnext : rest.head?.any isWord with
            | false =>
                rw [gap, hnext]
                exact tokens_append_of_first _ (first_spell hrest hnext)
            | true =>
                rw [gap, hnext]
                exact tokens_blank_between rfl _ _
      rw [happend, htoken.tokens_eq, ih hrest]
      rfl

theorem tokens_spacingKey (cs : List Char) : tokens (spacingKey cs) = tokens cs := by
  rw [spacingKey_eq_spell]
  exact tokens_spell fun _ => isToken_of_mem_tokens

theorem spacingKey_of_tokens {cs other : List Char} (htokens : tokens cs = tokens other) :
    spacingKey cs = spacingKey other := by
  rw [spacingKey_eq_spell, spacingKey_eq_spell, htokens]

/-! Spellings of parts. -/

theorem spell_append (front back : List (List Char)) :
    spell (front ++ back) =
      spell front ++ (gap (front.getLast?.any isWord) back ++ spell back) := by
  induction front with
  | nil => rfl
  | cons token rest ih =>
      rw [List.cons_append, spell, ih, spell]
      cases rest with
      | nil => simp [spell, gap]
      | cons next more => simp [gap]

theorem spell_within (front ts back : List (List Char)) :
    spell ts <:+: spell (front ++ ts ++ back) := by
  rw [List.append_assoc, spell_append front, spell_append ts, ← List.append_assoc (spell front)]
  exact List.infix_append' ..

theorem occurs_iff (part cs : List Char) : occurs part cs = true ↔ part <:+: cs := by
  induction cs with
  | nil => simp [occurs]
  | cons c rest ih =>
      rw [occurs, Bool.or_eq_true, List.isPrefixOf_iff_prefix, ih, List.infix_cons_iff]

/-! Where the key of a text stands in that of another. -/

def StandsIn (ts : List (List Char)) (cs : List Char) : Prop :=
  ts <:+: tokens cs

/-- The first of the tokens may be the end of a longer word. -/
def LooselyIn (ts : List (List Char)) (cs : List Char) : Prop :=
  ∃ extra first rest, ts = first :: rest ∧ StandsIn ((extra ++ first) :: rest) cs

theorem StandsIn.loosely {first : List Char} {rest : List (List Char)} {cs : List Char}
    (hstands : StandsIn (first :: rest) cs) : LooselyIn (first :: rest) cs :=
  ⟨[], first, rest, rfl, hstands⟩

theorem exists_word_end (cs : List Char) :
    ∃ front word, cs = front ++ word ∧ (∀ c ∈ word, isIdentChar c = true) ∧
      ∀ a ∈ front.getLast?, isIdentChar a = false :=
  ⟨cs.rdropWhile isIdentChar, cs.rtakeWhile isIdentChar, List.rdropWhile_append_rtakeWhile.symm,
    fun _ hc => List.mem_rtakeWhile_imp hc, getLast?_rdropWhile isIdentChar cs⟩

theorem spell_extend {extra first : List Char} (hextended : isWord (extra ++ first) = true)
    (hword : isWord first = true) (rest : List (List Char)) :
    spell ((extra ++ first) :: rest) = extra ++ spell (first :: rest) := by
  rw [spell, spell, hextended, hword, List.append_assoc]

theorem spell_mark_between {mark : Char} (hmark : isIdentChar mark = false)
    (front back : List (List Char)) :
    spell (front ++ [mark] :: back) = spell front ++ mark :: spell back := by
  rw [spell_append, gap_of_mark hmark]
  simp [spell, isWord, hmark, gap_false]

theorem spell_concat_mark {mark : Char} (hmark : isIdentChar mark = false)
    (ts : List (List Char)) : spell (ts ++ [[mark]]) = spell ts ++ [mark] :=
  spell_mark_between hmark ts []

theorem IsToken.extend {extra first : List Char} (hextra : ∀ c ∈ extra, isIdentChar c = true)
    (htoken : IsToken first) (hword : isWord first = true) : IsToken (extra ++ first) := by
  apply IsToken.word
  · simp [htoken.ne_nil]
  · intro c hc
    rcases List.mem_append.mp hc with hc | hc
    · exact hextra c hc
    · exact htoken.chars_of_isWord hword c hc

theorem isWord_of_isToken_append {extra first : List Char} (htoken : IsToken (extra ++ first))
    (hword : isWord first = true) : isWord (extra ++ first) = true := by
  cases extra with
  | nil => exact hword
  | cons c more =>
      generalize htext : c :: more ++ first = text at htoken
      cases htoken with
      | word hne hchars => exact isWord_of_chars hne hchars
      | mark _ _ =>
          -- A mark is a single character, which leaves none for the word.
          simp only [List.cons_append, List.cons.injEq, List.append_eq_nil_iff] at htext
          obtain ⟨-, -, rfl⟩ := htext
          cases hword

section Occurrence

variable {header first : List Char} {rest : List (List Char)} {mark : Char}

theorem looselyIn_of_occurs (htokens : tokens header = first :: (rest ++ [[mark]]))
    (hword : isWord first = true) (hmark : isIdentChar mark = false) {body : List Char}
    (hoccurs : occurs (spacingKey header) (spacingKey body) = true) :
    LooselyIn (tokens header) body := by
  obtain ⟨before, after, hsplit⟩ := (occurs_iff _ _).mp hoccurs
  obtain ⟨front, extra, rfl, hextra, hfront⟩ := exists_word_end before
  have hheader : ∀ token ∈ first :: (rest ++ [[mark]]), IsToken token := fun token htoken =>
    isToken_of_mem_tokens (htokens ▸ htoken)
  obtain ⟨hfirst, hrest⟩ := List.forall_mem_cons.mp hheader
  have hextended := hfirst.extend hextra hword
  have hspelled : extra ++ spacingKey header =
      spell ((extra ++ first) :: (rest ++ [[mark]])) := by
    rw [spacingKey_eq_spell, htokens,
      spell_extend (isWord_of_isToken_append hextended hword) hword]
  have hlast : ∀ a ∈ (extra ++ spacingKey header).getLast?, isIdentChar a = false := by
    rw [hspelled, ← List.cons_append, spell_concat_mark hmark, List.getLast?_concat]
    simpa using hmark
  refine ⟨extra, first, rest ++ [[mark]], htokens, tokens front, tokens after, ?_⟩
  calc
    tokens front ++ (extra ++ first) :: (rest ++ [[mark]]) ++ tokens after =
        tokens front ++ tokens (extra ++ spacingKey header) ++ tokens after := by
      rw [hspelled, tokens_spell (List.forall_mem_cons.mpr ⟨hextended, hrest⟩)]
    _ = tokens (front ++ ((extra ++ spacingKey header) ++ after)) := by
      rw [tokens_append_of_last hfront, tokens_append_of_last hlast, List.append_assoc]
    _ = tokens (spacingKey body) := by
      rw [← hsplit]
      simp only [List.append_assoc]
    _ = tokens body := tokens_spacingKey body

theorem occurs_of_looselyIn (htokens : tokens header = first :: rest)
    (hword : isWord first = true) {body : List Char} (hloosely : LooselyIn (tokens header) body) :
    occurs (spacingKey header) (spacingKey body) = true := by
  obtain ⟨extra, other, more, hother, hstands⟩ := hloosely
  obtain ⟨rfl, rfl⟩ := List.cons.inj (htokens.symm.trans hother)
  obtain ⟨front, back, hsplit⟩ := hstands
  have htoken : IsToken (extra ++ first) := by
    apply isToken_of_mem_tokens
    rw [← hsplit]
    simp
  have hextended := isWord_of_isToken_append htoken hword
  rw [occurs_iff, spacingKey_eq_spell, spacingKey_eq_spell, htokens, ← hsplit]
  refine List.IsInfix.trans ?_ (spell_within front _ back)
  rw [spell_extend hextended hword]
  exact (List.suffix_append ..).isInfix

/-- The key of a header that starts with a word and ends with a mark. -/
theorem occurs_spacingKey_iff (htokens : tokens header = first :: (rest ++ [[mark]]))
    (hword : isWord first = true) (hmark : isIdentChar mark = false) (body : List Char) :
    occurs (spacingKey header) (spacingKey body) = true ↔ LooselyIn (tokens header) body :=
  ⟨looselyIn_of_occurs htokens hword hmark, occurs_of_looselyIn htokens hword⟩

end Occurrence

end ShaderChain.Text

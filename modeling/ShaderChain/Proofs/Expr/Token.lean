import ShaderChain.Proofs.Expr.Occurrence
import ShaderChain.Proofs.Number.Numeral

/-! The tokens of an expression, and how they are found again in its text. -/

namespace ShaderChain

inductive Token where
  | number (text : String)
  | word (text : String)
  | left
  | right
  | comma
  | dot
deriving DecidableEq

namespace Token

def startsNumber (c : Char) : Bool :=
  c.isDigit || c == '-'

/-- Whether a character belongs to the word or number before it. A number has one point. -/
def continues (pending : List Char) (c : Char) : Bool :=
  match pending with
  | [] => false
  | first :: _ =>
      if startsNumber first then c.isDigit || (c == '.' && !pending.contains '.')
      else Text.isIdentChar c

def ofPending : List Char → List Token
  | [] => []
  | first :: rest =>
      let text := String.ofList (first :: rest)
      [if startsNumber first then .number text else .word text]

def mark? : Char → Option Token
  | '(' => some .left
  | ')' => some .right
  | ',' => some .comma
  | '.' => some .dot
  | _ => none

/-- What a character starts that belongs to no word or number before it. -/
def start (c : Char) : List Char :=
  if (mark? c).isSome || c == ' ' then [] else [c]

/-- Divides a text into words, numbers and marks. `pending` is the word or number before it. -/
def scan (pending : List Char) : List Char → List Token
  | [] => ofPending pending
  | c :: rest =>
      if continues pending c then scan (pending ++ [c]) rest
      else ofPending pending ++ ((mark? c).toList ++ scan (start c) rest)

theorem scan_append {first : Char} {chars : List Char}
    (hcontinues : ∀ c ∈ chars, ∀ more, continues (first :: more) c = true)
    (more rest : List Char) :
    scan (first :: more) (chars ++ rest) = scan (first :: (more ++ chars)) rest := by
  induction chars generalizing more with
  | nil => simp
  | cons c chars ih =>
      have hrest := ih (fun other hother => hcontinues other (by simp [hother])) (more ++ [c])
      rw [List.append_assoc, List.singleton_append] at hrest
      rw [List.cons_append, scan, if_pos (hcontinues c (by simp) more)]
      exact hrest

/-- A text that starts with no identifier character ends words, and numbers that have their
point. -/
def Ends (rest : List Char) : Prop :=
  ∀ c ∈ rest.head?, Text.isIdentChar c = false

theorem scan_of_ends {pending rest : List Char}
    (hends : ∀ c ∈ rest.head?, continues pending c = false) :
    scan pending rest = ofPending pending ++ scan [] rest := by
  cases rest with
  | nil => simp [scan, ofPending]
  | cons c rest =>
      have hc : continues pending c = false := hends c (by simp)
      have hnil : continues [] c = false := rfl
      simp [scan, hc, hnil, ofPending]

theorem scan_start {c : Char} (hc : Text.isIdentChar c ∨ c = '-') (rest : List Char) :
    scan [] (c :: rest) = scan [c] rest := by
  have hmark : mark? c = none := by
    unfold mark?
    split <;> simp_all [Text.isIdentChar]
  have hblank : c ≠ ' ' := by
    rintro rfl
    revert hc
    decide
  have hnil : continues [] c = false := rfl
  simp [scan, hnil, ofPending, hmark, start, hblank]

theorem scan_mark {c : Char} {mark : Token} (hmark : mark? c = some mark) (rest : List Char) :
    scan [] (c :: rest) = mark :: scan [] rest := by
  have hnil : continues [] c = false := rfl
  simp [scan, hnil, ofPending, hmark, start]

theorem scan_blank (rest : List Char) : scan [] (' ' :: rest) = scan [] rest := by
  rfl

theorem isDigit_eq_false_of_isAlpha {c : Char} (hc : c.isAlpha) : c.isDigit = false := by
  have hrange : (decide (c.val ≥ 'A'.val ∧ c.val ≤ 'Z'.val) ||
      (decide (c.val ≥ 'a'.val) && decide (c.val ≤ 'z'.val))) = true := hc
  simp only [Bool.or_eq_true, Bool.and_eq_true, decide_eq_true_eq, UInt32.le_iff_toNat_le,
    ge_iff_le] at hrange
  simp only [Char.isDigit, Bool.and_eq_false_iff, decide_eq_false_iff_not,
    UInt32.le_iff_toNat_le, ge_iff_le]
  have hnine : '9'.val.toNat = 57 := rfl
  have hupper : 'A'.val.toNat = 65 := rfl
  have hlower : 'a'.val.toNat = 97 := rfl
  omega

theorem identifier_start {first : Char} {more : List Char}
    (hident : Text.isIdentifier (first :: more)) :
    startsNumber first = false ∧ ∀ c ∈ first :: more, Text.isIdentChar c := by
  simp only [Text.isIdentifier, Bool.and_eq_true, Bool.or_eq_true] at hident
  obtain ⟨⟨hfirst, hmore⟩, -⟩ := hident
  have hchars : ∀ c ∈ more, Text.isIdentChar c := List.all_eq_true.mp hmore
  rcases hfirst with halpha | hunderscore
  · have hnotDigit := isDigit_eq_false_of_isAlpha halpha
    have hnotMinus : first ≠ '-' := by
      rintro rfl
      revert halpha
      decide
    refine ⟨by simp [startsNumber, hnotDigit, hnotMinus], ?_⟩
    rw [List.forall_mem_cons]
    exact ⟨by simp [Text.isIdentChar, Char.isAlphanum, halpha], hchars⟩
  · have hfirst : first = '_' := by simpa using hunderscore
    subst hfirst
    refine ⟨rfl, ?_⟩
    rw [List.forall_mem_cons]
    exact ⟨rfl, hchars⟩

theorem scan_word {text : String} (hident : Text.isIdentifier text.toList) {rest : List Char}
    (hends : Ends rest) :
    scan [] (text.toList ++ rest) = .word text :: scan [] rest := by
  cases hchars : text.toList with
  | nil => simp [hchars, Text.isIdentifier] at hident
  | cons first more =>
      rw [hchars] at hident
      obtain ⟨hnumber, hidentChars⟩ := identifier_start hident
      rw [List.forall_mem_cons] at hidentChars
      have hcontinues (c : Char) (before : List Char) :
          continues (first :: before) c = Text.isIdentChar c := by
        simp [continues, hnumber]
      have htoken : ofPending (first :: more) = [.word text] := by
        simp [ofPending, hnumber, ← hchars]
      rw [List.cons_append, scan_start (.inl hidentChars.1),
        scan_append (fun c hc before => by rw [hcontinues, hidentChars.2 c hc]), List.nil_append,
        scan_of_ends (fun c hc => by rw [hcontinues, hends c hc]), htoken]
      rfl

theorem isIdentChar_of_isDigit {c : Char} (hc : c.isDigit) : Text.isIdentChar c := by
  simp [Text.isIdentChar, Char.isAlphanum, hc]

/-- The digits around the point of a number, from its first character on. -/
theorem scan_digits {first : Char} (hfirst : startsNumber first) {more fraction : List Char}
    (hpoint : '.' ∉ first :: more) (hfraction : ∀ c ∈ fraction, c.isDigit) {rest : List Char}
    (hends : Ends rest) :
    scan (first :: more) ('.' :: fraction ++ rest) =
      .number (String.ofList (first :: (more ++ '.' :: fraction))) :: scan [] rest := by
  have hcontinuesPoint : continues (first :: more) '.' = true := by
    simp [continues, hfirst, hpoint]
  have hcontinues (c : Char) (hc : c.isDigit) (before : List Char) :
      continues (first :: before) c = true := by
    simp [continues, hfirst, hc]
  have hstops (c : Char) (hc : c ∈ rest.head?) :
      continues (first :: (more ++ '.' :: fraction)) c = false := by
    have hnotDigit : c.isDigit = false := by
      have hnotIdent := hends c hc
      simp only [Text.isIdentChar, Char.isAlphanum, Bool.or_eq_false_iff] at hnotIdent
      exact hnotIdent.1.2
    simp [continues, hfirst, hnotDigit]
  rw [List.cons_append, scan, if_pos hcontinuesPoint, List.cons_append,
    scan_append (fun c hc => hcontinues c (hfraction c hc)), List.append_assoc,
    List.singleton_append, scan_of_ends hstops]
  simp [ofPending, hfirst]

theorem scan_number {text : String} (hnumeral : Numeral text.toList) {rest : List Char}
    (hends : Ends rest) :
    scan [] (text.toList ++ rest) = .number text :: scan [] rest := by
  have htext : text = String.ofList text.toList := String.ofList_toList.symm
  revert htext
  generalize text.toList = chars at hnumeral
  rintro rfl
  obtain ⟨sign, whole, fraction, hsign, hwhole, hwholeDigits, -, hfractionDigits⟩ := hnumeral
  have hnotPoint : '.' ∉ whole := fun hpoint => absurd (hwholeDigits '.' hpoint) (by decide)
  have hcontinues {first : Char} (hfirst : startsNumber first) {digits : List Char}
      (hdigits : ∀ c ∈ digits, c.isDigit) (c : Char) (hc : c ∈ digits) (before : List Char) :
      continues (first :: before) c = true := by
    simp [continues, hfirst, hdigits c hc]
  rcases hsign with rfl | rfl
  · obtain ⟨first, more, rfl⟩ := List.exists_cons_of_ne_nil hwhole
    rw [List.forall_mem_cons] at hwholeDigits
    have hfirst : startsNumber first := by simp [startsNumber, hwholeDigits.1]
    rw [List.nil_append, List.append_assoc, List.cons_append,
      scan_start (.inl (isIdentChar_of_isDigit hwholeDigits.1)),
      scan_append (hcontinues hfirst hwholeDigits.2), List.nil_append,
      scan_digits hfirst hnotPoint hfractionDigits hends]
    rfl
  · rw [List.append_assoc, List.append_assoc, List.singleton_append, scan_start (.inr rfl),
      scan_append (hcontinues rfl hwholeDigits), List.nil_append,
      scan_digits rfl (by simpa using hnotPoint) hfractionDigits hends]
    rfl

end Token

/-! Swizzles are written with letters that make an identifier. -/

theorem Alphabet.isAlpha_letter (alphabet : Alphabet) (i : Fin 4) :
    (alphabet.letter i).isAlpha = true ∧ alphabet.letter i ≠ 'l' := by
  cases alphabet <;> revert i <;> decide

theorem Swizzle.isIdentifier_text (getter : Swizzle) : Text.isIdentifier getter.text.toList := by
  obtain ⟨alphabet, components, hne, hle⟩ := getter
  obtain ⟨first, more, rfl⟩ := List.exists_cons_of_ne_nil hne
  have hmore : ∀ c ∈ more.map alphabet.letter, Text.isIdentChar c := by
    intro c hc
    obtain ⟨i, -, rfl⟩ := List.mem_map.mp hc
    simp [Text.isIdentChar, Char.isAlphanum, (alphabet.isAlpha_letter i).1]
  have hreserved : Text.isReserved ((first :: more).map alphabet.letter) = false := by
    cases more with
    | nil => simp [Text.isReserved, List.isPrefixOf]
    | cons second rest =>
        simp [Text.isReserved, List.isPrefixOf, (alphabet.isAlpha_letter second).2.symm]
  rw [Swizzle.text, String.toList_ofList, List.map_cons, Text.isIdentifier]
  rw [List.map_cons] at hreserved
  simp only [Bool.and_eq_true, Bool.or_eq_true, List.all_eq_true]
  exact ⟨⟨.inl (alphabet.isAlpha_letter first).1, hmore⟩, by rw [hreserved]; rfl⟩

namespace Expr

mutual

def tokens : Expr → List Token
  | .literal value => [.number value.literal]
  | .name text => [.word text]
  | .call t args => .word t.symbol :: .left :: (tokensList args ++ [.right])
  | .vector type parts => .word type.glsl :: .left :: (tokensList parts ++ [.right])
  | .swizzle value getter => tokens value ++ [.dot, .word getter.text]

def tokensList : List Expr → List Token
  | [] => []
  | [e] => tokens e
  | e :: rest => tokens e ++ .comma :: tokensList rest

end

def Spelled (e : Expr) : Prop :=
  e.Only (fun t => Text.isIdentifier t.symbol.toList) (fun n => Text.isIdentifier n.toList)

theorem isIdentifier_glsl (type : Numeric) : Text.isIdentifier type.glsl.toList := by
  cases type <;> decide +kernel

open Token

theorem scan_application {symbol : String} (hident : Text.isIdentifier symbol.toList)
    {inner : List Char} {tokens : List Token}
    (hinner : ∀ rest, Ends rest → scan [] (inner ++ rest) = tokens ++ scan [] rest)
    (rest : List Char) :
    scan [] (symbol.toList ++ '(' :: (inner ++ ')' :: rest)) =
      .word symbol :: .left :: (tokens ++ .right :: scan [] rest) := by
  rw [scan_word hident (by simp [Ends]; rfl), scan_mark rfl, hinner _ (by simp [Ends]; rfl),
    scan_mark rfl]

mutual

/-- The tokens of an expression are found in its text, whatever follows it. -/
theorem scan_render : ∀ (e : Expr), Spelled e → ∀ rest, Ends rest →
    scan [] (e.render.toList ++ rest) = e.tokens ++ scan [] rest
  | .literal value, _, rest, hends => by
      simpa [render, tokens] using scan_number value.numeral_literal hends
  | .name text, hspelled, rest, hends => by
      have hident := (only_name text).mp hspelled
      simpa [render, tokens] using scan_word hident hends
  | .call t args, hspelled, rest, _ => by
      obtain ⟨hident, hargs⟩ := (only_call t args).mp hspelled
      have hscan := scan_application hident (scan_renderList args hargs) rest
      simpa [render, tokens] using hscan
  | .vector type parts, hspelled, rest, _ => by
      have hscan := scan_application (isIdentifier_glsl type)
        (scan_renderList parts ((only_vector type parts).mp hspelled)) rest
      simpa [render, tokens] using hscan
  | .swizzle value getter, hspelled, rest, hends => by
      have hgetter := scan_word getter.isIdentifier_text hends
      have hvalue := scan_render value hspelled ('.' :: (getter.text.toList ++ rest))
        (by simp [Ends]; rfl)
      rw [scan_mark rfl, hgetter] at hvalue
      simpa [render, tokens] using hvalue

theorem scan_renderList : ∀ (args : List Expr), (∀ e ∈ args, Spelled e) → ∀ rest, Ends rest →
    scan [] ((renderList args).toList ++ rest) = tokensList args ++ scan [] rest
  | [], _, rest, _ => by
      simp [renderList, tokensList]
  | [e], hspelled, rest, hends => by
      simpa [renderList, tokensList] using scan_render e (hspelled e (by simp)) rest hends
  | e :: next :: more, hspelled, rest, hends => by
      obtain ⟨hfirst, hrest⟩ := List.forall_mem_cons.mp hspelled
      have htail := scan_renderList (next :: more) hrest rest hends
      have hhead := scan_render e hfirst
        (',' :: ' ' :: ((renderList (next :: more)).toList ++ rest)) (by simp [Ends]; rfl)
      rw [scan_mark rfl, scan_blank, htail] at hhead
      simpa [renderList, tokensList] using hhead

end

end Expr

end ShaderChain

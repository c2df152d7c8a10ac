import ShaderChain.Proofs.Expr.Token
import ShaderChain.Proofs.Expr.Value

/-! Reading the text of an expression. Constructors of vectors look like calls, so what is read
tells them apart by their names only. -/

namespace ShaderChain

inductive Term where
  | number (text : String)
  | name (text : String)
  | call (symbol : String) (args : List Term)
  | select (value : Term) (getter : Swizzle)

def isNumeral (text : List Char) : Bool :=
  let unsigned := if text.head? = some '-' then text.tail else text
  match unsigned.dropWhile Char.isDigit with
  | '.' :: fraction =>
      unsigned.head?.any Char.isDigit && !fraction.isEmpty && fraction.all Char.isDigit
  | _ => false

theorem isNumeral_of_numeral {text : List Char} (hnumeral : Numeral text) : isNumeral text := by
  obtain ⟨sign, whole, fraction, hsign, hwhole, hwholeDigits, hfraction, hfractionDigits⟩ :=
    hnumeral
  obtain ⟨first, more, rfl⟩ := List.exists_cons_of_ne_nil hwhole
  rw [List.forall_mem_cons] at hwholeDigits
  obtain ⟨hfirst, hmore⟩ := hwholeDigits
  have hdrop : (more ++ '.' :: fraction).dropWhile Char.isDigit = '.' :: fraction := by
    rw [List.dropWhile_append_of_pos hmore]
    rfl
  have hnotMinus : first ≠ '-' := by
    rintro rfl
    revert hfirst
    decide
  rcases hsign with rfl | rfl
  · simpa [isNumeral, hnotMinus, hdrop, hfirst, hfraction] using hfractionDigits
  · simpa [isNumeral, hdrop, hfirst, hfraction] using hfractionDigits

namespace Term

/-- A call whose arguments are not all read yet. -/
structure Frame where
  symbol : String
  args : List Term

/-- Reads tokens to their end. `current` is the expression just read, if there is one, and the
frames are the calls around it from the innermost on. -/
def readTokens (frames : List Frame) (current : Option Term) : List Token → Option Term
  | [] =>
      match frames, current with
      | [], some term => some term
      | _, _ => none
  | .number text :: rest =>
      match current with
      | none =>
          if isNumeral text.toList then readTokens frames (some (.number text)) rest else none
      | some _ => none
  | .word symbol :: .left :: rest =>
      match current with
      | none =>
          if Text.isIdentifier symbol.toList then readTokens (⟨symbol, []⟩ :: frames) none rest
          else none
      | some _ => none
  | .word text :: rest =>
      match current with
      | none =>
          if Text.isIdentifier text.toList then readTokens frames (some (.name text)) rest
          else none
      | some _ => none
  | .dot :: .word letters :: rest =>
      match current, Swizzle.parse? letters with
      | some term, some getter => readTokens frames (some (.select term getter)) rest
      | _, _ => none
  | .comma :: rest =>
      match frames, current with
      | ⟨symbol, args⟩ :: frames, some term =>
          readTokens (⟨symbol, args ++ [term]⟩ :: frames) none rest
      | _, _ => none
  | .right :: rest =>
      match frames, current with
      | ⟨symbol, args⟩ :: frames, some term =>
          readTokens frames (some (.call symbol (args ++ [term]))) rest
      | ⟨symbol, []⟩ :: frames, none => readTokens frames (some (.call symbol [])) rest
      | _, _ => none
  | _ => none

def read? (text : String) : Option Term :=
  readTokens [] none (Token.scan [] text.toList)

mutual

def eval (I : Interpretation σ) (base : Value σ) : Term → Value σ
  | .number text => .vector [I.number text]
  | .name text => if text = "st" then base else I.uniform text
  | .call symbol args => I.call symbol (evalList I base args)
  | .select value getter => (eval I base value).select getter

def evalList (I : Interpretation σ) (base : Value σ) : List Term → List (Value σ)
  | [] => []
  | term :: rest => eval I base term :: evalList I base rest

end

theorem readTokens_name (frames : List Frame) {text : String} {rest : List Token}
    (hident : Text.isIdentifier text.toList) (hleft : rest.head? ≠ some .left) :
    readTokens frames none (.word text :: rest) =
      readTokens frames (some (.name text)) rest := by
  cases rest with
  | nil => simp [readTokens, hident]
  | cons token rest =>
      cases token with
      | left => simp at hleft
      | _ => simp [readTokens, hident]

end Term

theorem Alphabet.component?_letter_of_ne (i : Fin 4) :
    Alphabet.xyzw.component? (Alphabet.rgba.letter i) = none := by
  revert i
  decide

theorem Swizzle.inAlphabet?_letters (getter : Swizzle) :
    Swizzle.inAlphabet? getter.text.toList getter.alphabet = some getter := by
  have hletters : (getter.components.map getter.alphabet.letter).mapM getter.alphabet.component? =
      some getter.components := by
    generalize getter.components = components
    induction components with
    | nil => rfl
    | cons i rest ih => simp [getter.alphabet.component?_letter, ih]
  obtain ⟨alphabet, components, hne, hle⟩ := getter
  simp only at hletters
  simp [Swizzle.inAlphabet?, Swizzle.text, hletters, Swizzle.ofComponents?, hne, hle]

theorem Swizzle.parse?_text (getter : Swizzle) : Swizzle.parse? getter.text = some getter := by
  have hown := getter.inAlphabet?_letters
  unfold Swizzle.parse?
  cases halphabet : getter.alphabet with
  | xyzw =>
      rw [halphabet] at hown
      rw [hown]
      rfl
  | rgba =>
      rw [halphabet] at hown
      have hother : Swizzle.inAlphabet? getter.text.toList .xyzw = none := by
        obtain ⟨alphabet, components, hne, hle⟩ := getter
        obtain ⟨first, more, rfl⟩ := List.exists_cons_of_ne_nil hne
        simp only at halphabet
        subst halphabet
        simp [Swizzle.inAlphabet?, Swizzle.text, Alphabet.component?_letter_of_ne]
      rw [hother, hown]
      rfl

namespace Expr

mutual

def term : Expr → Term
  | .literal value => .number value.literal
  | .name text => .name text
  | .call t args => .call t.symbol (termList args)
  | .vector type parts => .call type.glsl (termList parts)
  | .swizzle value getter => .select (term value) getter

def termList : List Expr → List Term
  | [] => []
  | e :: rest => term e :: termList rest

end

open Term

mutual

theorem readTokens_tokens : ∀ (e : Expr), Spelled e → ∀ frames rest, rest.head? ≠ some .left →
    readTokens frames none (e.tokens ++ rest) = readTokens frames (some e.term) rest
  | .literal value, _, frames, rest, _ => by
      simp [tokens, term, readTokens, isNumeral_of_numeral value.numeral_literal]
  | .name text, hspelled, frames, rest, hleft => by
      have hident := (only_name text).mp hspelled
      exact readTokens_name frames hident hleft
  | .call t args, hspelled, frames, rest, _ => by
      obtain ⟨hident, hargs⟩ := (only_call t args).mp hspelled
      have hread := readTokens_tokensList args hargs t.symbol [] (fun _ => rfl) frames rest
      simpa [tokens, term, readTokens, hident] using hread
  | .vector type parts, hspelled, frames, rest, _ => by
      have hread := readTokens_tokensList parts ((only_vector type parts).mp hspelled) type.glsl []
        (fun _ => rfl) frames rest
      simpa [tokens, term, readTokens, isIdentifier_glsl type] using hread
  | .swizzle value getter, hspelled, frames, rest, _ => by
      have hvalue := readTokens_tokens value hspelled frames
        (.dot :: .word getter.text :: rest) (by simp)
      simpa [tokens, term, readTokens, getter.parse?_text] using hvalue

theorem readTokens_tokensList : ∀ (args : List Expr), (∀ e ∈ args, Spelled e) →
    ∀ (symbol : String) (done : List Term), (args = [] → done = []) → ∀ frames rest,
      readTokens (⟨symbol, done⟩ :: frames) none (tokensList args ++ .right :: rest) =
        readTokens frames (some (.call symbol (done ++ termList args))) rest
  | [], _, symbol, done, hdone, frames, rest => by
      simp [hdone rfl, tokensList, termList, readTokens]
  | [e], hspelled, symbol, done, _, frames, rest => by
      have hread := readTokens_tokens e (hspelled e (by simp)) (⟨symbol, done⟩ :: frames)
        (.right :: rest) (by simp)
      simpa [tokensList, termList, readTokens] using hread
  | e :: next :: more, hspelled, symbol, done, _, frames, rest => by
      obtain ⟨hfirst, hrest⟩ := List.forall_mem_cons.mp hspelled
      have hhead := readTokens_tokens e hfirst (⟨symbol, done⟩ :: frames)
        (.comma :: (tokensList (next :: more) ++ .right :: rest)) (by simp)
      have htail := readTokens_tokensList (next :: more) hrest symbol (done ++ [e.term])
        (by simp) frames rest
      rw [readTokens] at hhead
      simpa [tokensList, termList, htail] using hhead

end

theorem read?_render {e : Expr} (hspelled : Spelled e) : Term.read? e.render = some e.term := by
  have hscan := scan_render e hspelled [] (by simp [Token.Ends])
  have hread := readTokens_tokens e hspelled [] [] (by simp)
  rw [List.append_nil] at hscan hread
  rw [Term.read?, hscan]
  simpa [Token.scan, Token.ofPending, readTokens] using hread

mutual

theorem eval_term (I : Interpretation σ) (base : Value σ) :
    ∀ e : Expr, e.term.eval I base = e.eval I base
  | .literal value => rfl
  | .name text => rfl
  | .call t args => by
      simp only [term, Term.eval, eval, evalList_termList I base args]
  | .vector type parts => by
      simp only [term, Term.eval, eval, evalList_termList I base parts, Interpretation.call,
        Numeric.ofGlsl?_glsl]
  | .swizzle value getter => by
      simp only [term, Term.eval, eval, eval_term I base value]

theorem evalList_termList (I : Interpretation σ) (base : Value σ) :
    ∀ args : List Expr, Term.evalList I base (termList args) = evalList I base args
  | [] => rfl
  | e :: rest => by
      simp only [termList, Term.evalList, evalList, eval_term I base e,
        evalList_termList I base rest]

end

end Expr

end ShaderChain

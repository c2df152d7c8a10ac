import ShaderChain.Proofs.Expr.Reading

/-! What an expression mentions, and how composing fields adds to it. -/

namespace ShaderChain

inductive Mention where
  | call (transform : Transform)
  | name (text : String)
  | vector (type : Numeric)

/-- Mentions that do not come with composing and padding alone, which use the base coordinate and
the constructors of types with several components. -/
def Mention.Proper : Mention → Prop
  | .call _ => True
  | .name text => text ≠ "st"
  | .vector type => type = .float

namespace Expr

mutual

def vectors : Expr → List Numeric
  | .literal _ => []
  | .name _ => []
  | .call _ args => vectorsList args
  | .vector type parts => type :: vectorsList parts
  | .swizzle value _ => vectors value

def vectorsList : List Expr → List Numeric
  | [] => []
  | e :: rest => vectors e ++ vectorsList rest

end

def Mentions (e : Expr) : Mention → Prop
  | .call t => t ∈ e.calls
  | .name text => text ∈ e.names
  | .vector type => type ∈ e.vectors

theorem mem_vectorsList {type : Numeric} {args : List Expr} :
    type ∈ vectorsList args ↔ ∃ e ∈ args, type ∈ e.vectors := by
  induction args with
  | nil => simp [vectorsList]
  | cons e rest ih => simp [vectorsList, ih]

variable {m : Mention}

@[simp] theorem mentions_literal (value : Binary64) : ¬(literal value).Mentions m := by
  cases m <;> simp [Mentions, calls, names, vectors]

@[simp] theorem mentions_name (text : String) : (name text).Mentions m ↔ m = .name text := by
  cases m <;> simp [Mentions, calls, names, vectors]

@[simp] theorem mentions_call (t : Transform) (args : List Expr) :
    (call t args).Mentions m ↔ m = .call t ∨ ∃ e ∈ args, e.Mentions m := by
  cases m with
  | call u => simp [Mentions, calls, mem_callsList]
  | name text => simp [Mentions, names, mem_namesList]
  | vector type => simp [Mentions, vectors, mem_vectorsList]

@[simp] theorem mentions_vector (type : Numeric) (parts : List Expr) :
    (vector type parts).Mentions m ↔ m = .vector type ∨ ∃ e ∈ parts, e.Mentions m := by
  cases m with
  | call t => simp [Mentions, calls, mem_callsList]
  | name text => simp [Mentions, names, mem_namesList]
  | vector other => simp [Mentions, vectors, mem_vectorsList]

@[simp] theorem mentions_swizzle (value : Expr) (getter : Swizzle) :
    (swizzle value getter).Mentions m ↔ value.Mentions m := by
  cases m <;> rfl

theorem not_mentions_padding {e : Expr} {width : Nat} {type : Numeric} {fill : Binary64}
    (he : e ∈ padding width type fill) : ¬e.Mentions m := by
  obtain ⟨value, rfl⟩ := literal_of_mem_padding he
  exact mentions_literal value

theorem mentions_pad (hm : m.Proper) (e : Expr) (source target : Numeric) (fill : Binary64) :
    (e.pad source target fill).Mentions m ↔ e.Mentions m := by
  unfold pad
  split
  · rename_i hwidth
    have hne : m ≠ .vector target := by
      rintro rfl
      have hfloat : target = .float := hm
      subst hfloat
      cases source <;> simp [Numeric.width] at hwidth
    rw [mentions_vector]
    constructor
    · rintro (hvector | ⟨part, hpart, hmentions⟩)
      · exact absurd hvector hne
      · rcases List.mem_cons.mp hpart with rfl | hpart
        · exact hmentions
        · exact absurd hmentions (not_mentions_padding hpart)
    · intro hmentions
      exact .inr ⟨e, List.mem_cons_self, hmentions⟩
  · rfl

end Expr

namespace Typed

variable {m : Mention}

theorem mentions_widen (hm : m.Proper) (v : Typed) (target : ValueType) :
    (v.widen target).expr.Mentions m ↔ v.expr.Mentions m := by
  cases target with
  | numeric target => exact Expr.mentions_pad hm _ _ _ _
  | texture => rfl

theorem mentions_narrow (v : Typed) (target : ValueType) :
    (v.narrow target).expr.Mentions m ↔ v.expr.Mentions m := by
  cases target with
  | numeric target =>
      simp only [narrow]
      split
      · exact Expr.mentions_swizzle _ _
      · rfl
  | texture => rfl

theorem mentions_fit (hm : m.Proper) (v : Typed) (getter : Option Swizzle) (target : ValueType) :
    (v.fit getter target).expr.Mentions m ↔ v.expr.Mentions m := by
  cases getter with
  | some getter => exact (mentions_widen hm _ target).trans (Expr.mentions_swizzle _ _)
  | none => exact (mentions_widen hm _ target).trans (mentions_narrow v target)

theorem mentions_finish (hm : m.Proper) (v : Typed) (getter : Option Swizzle)
    (target : ValueType) :
    (v.finish getter target).expr.Mentions m ↔ v.expr.Mentions m := by
  cases getter with
  | some getter => exact (mentions_widen hm _ target).trans (Expr.mentions_swizzle _ _)
  | none => exact mentions_widen hm v target

end Typed

namespace Field

/-- A field mentions what its coordinate does, and besides that something if `added` holds. -/
def Adds (m : Mention) (f : Field) (added : Prop) : Prop :=
  ∀ e, (f.value e).Mentions m ↔ e.Mentions m ∨ added

variable {m : Mention} {f : Field}

theorem adds_identity : Field.identity.Adds m False := by
  intro e
  simp [identity]

/-- A transform that resets drops all that was there before, and adds itself and its arguments. -/
theorem Adds.compose {before inOperand inArgs : Prop} (hm : m.Proper) (hf : f.Adds m before)
    (t : Transform) {operand : Expr → Expr} {args : List Expr}
    (hoperand : t.category.hasOperand →
      ∀ e, (operand e).Mentions m ∨ e.Mentions m ↔ e.Mentions m ∨ inOperand)
    (hargs : (∃ e ∈ args, e.Mentions m) ↔ inArgs) :
    (f.compose t operand args).Adds m
      ((before ∧ ¬t.category.resets) ∨
        m = .call t ∨ (t.category.hasOperand ∧ inOperand) ∨ inArgs) := by
  intro e
  have hcolor : (f.colorAt e).Mentions m ↔ e.Mentions m ∨ before :=
    (Typed.mentions_widen hm _ _).trans (hf e)
  unfold Field.compose
  cases hcategory : t.category with
  | source | vertex | raw =>
      simp only [Expr.mentions_call, List.mem_cons, exists_eq_or_imp, hargs, Category.resets,
        Category.hasOperand]
      grind
  | coordinate =>
      simp only [hf _, Expr.mentions_call, List.mem_cons, exists_eq_or_imp, hargs, Category.resets,
        Category.hasOperand]
      grind
  | color =>
      simp only [Expr.mentions_call, List.mem_cons, exists_eq_or_imp, hcolor, hargs,
        Category.resets, Category.hasOperand]
      grind
  | combine =>
      have hoperand := hoperand (by rw [hcategory]; rfl) e
      simp only [Expr.mentions_call, List.mem_cons, exists_eq_or_imp, hcolor, hargs,
        Category.resets, Category.hasOperand]
      grind
  | combineCoordinate =>
      have hoperand := hoperand (by rw [hcategory]; rfl) e
      simp only [hf _, Expr.mentions_call, List.mem_cons, exists_eq_or_imp, hargs, Category.resets,
        Category.hasOperand]
      grind

end Field

/-! What is read from a text has the same names in it. -/

namespace Term

mutual

def symbols : Term → List String
  | .number _ => []
  | .name _ => []
  | .call symbol args => symbol :: symbolsList args
  | .select value _ => symbols value

def symbolsList : List Term → List String
  | [] => []
  | term :: rest => symbols term ++ symbolsList rest

end

mutual

def names : Term → List String
  | .number _ => []
  | .name text => [text]
  | .call _ args => namesList args
  | .select value _ => names value

def namesList : List Term → List String
  | [] => []
  | term :: rest => names term ++ namesList rest

end

end Term

namespace Expr

mutual

theorem names_term : ∀ e : Expr, e.term.names = e.names
  | .literal _ => rfl
  | .name _ => rfl
  | .call _ args => namesList_termList args
  | .vector _ parts => namesList_termList parts
  | .swizzle value _ => names_term value

theorem namesList_termList : ∀ args : List Expr, Term.namesList (termList args) = namesList args
  | [] => rfl
  | e :: rest => by
      simp only [termList, Term.namesList, namesList, names_term e, namesList_termList rest]

end

mutual

theorem mem_symbols_term {symbol : String} : ∀ e : Expr,
    symbol ∈ e.term.symbols ↔
      (∃ t ∈ e.calls, t.symbol = symbol) ∨ ∃ type ∈ e.vectors, type.glsl = symbol
  | .literal _ => by simp [term, Term.symbols, calls, vectors]
  | .name _ => by simp [term, Term.symbols, calls, vectors]
  | .call t args => by
      simp [term, Term.symbols, calls, vectors, mem_symbolsList_termList args, eq_comm, or_assoc]
  | .vector type parts => by
      simp [term, Term.symbols, calls, vectors, mem_symbolsList_termList parts, eq_comm,
        or_left_comm]
  | .swizzle value _ => mem_symbols_term value

theorem mem_symbolsList_termList {symbol : String} : ∀ args : List Expr,
    symbol ∈ Term.symbolsList (termList args) ↔
      (∃ t ∈ callsList args, t.symbol = symbol) ∨ ∃ type ∈ vectorsList args, type.glsl = symbol
  | [] => by simp [termList, Term.symbolsList, callsList, vectorsList]
  | e :: rest => by
      simp only [termList, Term.symbolsList, callsList, vectorsList, List.mem_append,
        mem_symbols_term e, mem_symbolsList_termList rest]
      grind

end

end Expr

end ShaderChain

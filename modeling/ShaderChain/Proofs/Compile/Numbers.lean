import ShaderChain.Proofs.Compile.Preservation
import ShaderChain.Proofs.Number.Reading

/-! The numbers in a compiled chain. Where literals are read as doubles, the number of an argument
means itself, and one that no literal can write means zero. -/

namespace ShaderChain

namespace Interpretation

/-- Literals are read as the doubles nearest to them, and doubles have the given values. -/
def ofDoubles (number : Binary64 → σ) (uniform : String → Value σ)
    (function : String → List (Value σ) → Value σ) : Interpretation σ where
  number text := number ((Binary64.read? text).getD 0.0)
  uniform := uniform
  function := function

variable (number : Binary64 → σ) (uniform : String → Value σ)
  (function : String → List (Value σ) → Value σ)

theorem number_of_read? {text : String} {x : Binary64} (hx : Binary64.read? text = some x) :
    (ofDoubles number uniform function).number text = number x := by
  simp [ofDoubles, hx]

theorem literal_of_finite {x : Binary64} (hfinite : x.isFinite) :
    (ofDoubles number uniform function).literal x = .vector [number x] := by
  rw [literal, number_of_read? number uniform function (Binary64.read?_literal hfinite)]

theorem zero_ofDoubles : (ofDoubles number uniform function).zero = number 0.0 := by
  have hread : Binary64.read? (0.0 : Binary64).literal = some 0.0 :=
    Binary64.read?_literal (by decide)
  rw [literal_zero] at hread
  exact number_of_read? number uniform function hread

theorem literal_of_not_finite {x : Binary64} (hfinite : ¬x.isFinite) :
    (ofDoubles number uniform function).literal x = .vector [number 0.0] := by
  have htext : x.literal = "0.0" := by
    rw [Binary64.literal, if_neg hfinite]
  rw [literal, htext, ← zero_ofDoubles number uniform function]
  rfl

end Interpretation

/-- The text of a compiled chain has the value that the chain means. In this meaning a finite number
stands for itself, every other one for zero, and padding is zero too. -/
theorem Chain.text_means_doubles {registry : Registry} {c : Chain} {target : ValueType}
    {out : Compiled} (hout : c.compile registry target = .ok out) (hbuilt : registry.Built)
    (number : Binary64 → σ) (uniform : String → Value σ)
    (function : String → List (Value σ) → Value σ) :
    let I := Interpretation.ofDoubles number uniform function
    (∃ term, Term.read? out.body.render = some term ∧
        ∀ p, term.eval I p = c.meaning I registry target p) ∧
      (∀ x : Binary64, x.isFinite → I.literal x = .vector [number x]) ∧
      (∀ x : Binary64, ¬x.isFinite → I.literal x = .vector [number 0.0]) ∧
      I.zero = number 0.0 := by
  intro I
  refine ⟨⟨_, Chain.read?_body hout hbuilt, fun p => ?_⟩,
    fun x => Interpretation.literal_of_finite number uniform function,
    fun x => Interpretation.literal_of_not_finite number uniform function,
    Interpretation.zero_ofDoubles number uniform function⟩
  rw [Expr.eval_term]
  exact Chain.eval_body hout I p

end ShaderChain

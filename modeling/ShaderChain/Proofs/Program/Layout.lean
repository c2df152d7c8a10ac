import ShaderChain.Proofs.Program.Definitions

/-! The layout of the functions in a program: the helpers that they need, and one function for each
symbol. -/

namespace ShaderChain

/-- The texts that may stand for a function, the best one first. -/
def Variants.candidates (v : Variants α) (stage : Stage) (version : Version) : List α :=
  (if stage = .vertex then v.vertex.toList else []) ++
    (if version = .es300 then v.es300.toList else []) ++ [v.main]

theorem Variants.head?_candidates (v : Variants α) (stage : Stage) (version : Version) :
    (v.candidates stage version).head? = some (v.select stage version) := by
  obtain ⟨main, es300, vertex⟩ := v
  cases stage <;> cases version <;> cases es300 <;> cases vertex <;> rfl

namespace Transform

/-- The transforms with a symbol that none before them has. -/
def withNewSymbol (ts : List Transform) : List Transform :=
  (ts.zipIdx.filter fun (t, i) => (ts.take i).all (·.symbol != t.symbol)).map Prod.fst

/-- `before` are the transforms whose symbols are taken. -/
theorem firstOfSymbols_eq_filter {before : List Transform} {taken : List String}
    (htaken : ∀ symbol, symbol ∈ taken ↔ ∃ t ∈ before, t.symbol = symbol) (ts : List Transform) :
    firstOfSymbols taken ts =
      ((ts.zipIdx before.length).filter fun (t, i) =>
        ((before ++ ts).take i).all (·.symbol != t.symbol)).map Prod.fst := by
  induction ts generalizing before taken with
  | nil => rfl
  | cons t rest ih =>
      have hfirst : (before ++ t :: rest).take before.length = before := List.take_left
      have hrest : before ++ t :: rest = (before ++ [t]) ++ rest := by simp
      have hlength : before.length + 1 = (before ++ [t]).length := by simp
      have hnew : before.all (·.symbol != t.symbol) = true ↔ t.symbol ∉ taken := by
        rw [htaken]
        simp
      have hsnoc (symbol : String) :
          (∃ u ∈ before ++ [t], u.symbol = symbol) ↔ symbol ∈ taken ∨ t.symbol = symbol := by
        simp only [htaken, List.mem_append, List.mem_singleton, or_and_right, exists_or,
          exists_eq_left]
      rw [List.zipIdx_cons, firstOfSymbols, List.filter_cons]
      simp only [hfirst, hnew]
      by_cases hmem : t.symbol ∈ taken
      · rw [if_pos hmem, if_neg (not_not_intro hmem), hrest, hlength]
        apply ih
        intro symbol
        rw [hsnoc, iff_self_or]
        intro heq
        exact heq ▸ hmem
      · rw [if_neg hmem, if_pos hmem, List.map_cons, hrest, hlength]
        congr 1
        apply ih
        intro symbol
        rw [hsnoc, List.mem_cons, or_comm, eq_comm]

theorem firstOfSymbols_eq (ts : List Transform) : firstOfSymbols [] ts = withNewSymbol ts := by
  have hnone (symbol : String) :
      symbol ∈ [] ↔ ∃ t ∈ ([] : List Transform), t.symbol = symbol := by simp
  exact firstOfSymbols_eq_filter hnone ts

end Transform

namespace Compiled

/-- How the functions of a program are laid out: the helpers and then the transforms, each by its
text. -/
structure LaidOut (out : Compiled) (stage : Stage) (version : Version) (helpers : List Helper)
    (transforms : List Transform) (texts : List String) : Prop where
  block : out.functionBlock stage version =
    String.join ((helpers.map Helper.text ++ texts).map (· ++ "\n"))
  arranged : Helper.Arranged texts helpers
  newSymbols : transforms = Transform.withNewSymbol out.functions
  earliest : ∀ symbol, transforms.filter (·.symbol == symbol) =
    (out.functions.find? (·.symbol == symbol)).toList
  selected : texts.map some = transforms.map fun t => (t.texts.candidates stage version).head?

theorem laidOut (out : Compiled) (stage : Stage) (version : Version) :
    out.LaidOut stage version (Helper.needed (out.functionTexts stage version))
      (Transform.firstOfSymbols [] out.functions) (out.functionTexts stage version) where
  block := rfl
  arranged := Helper.arranged_needed _
  newSymbols := Transform.firstOfSymbols_eq out.functions
  earliest _ := Transform.filter_firstOfSymbols List.not_mem_nil out.functions
  selected := by
    simp only [Variants.head?_candidates]
    rw [functionTexts, List.map_map]
    rfl

/-- The functions of a program are the helpers, in the order of their table, and the first transform
of each symbol. The helpers are the fewest that have all those in the texts, for any texts and
however often and in which order these are given. -/
theorem functionBlock_laidOut (out : Compiled) (stage : Stage) (version : Version) :
    (∃ helpers transforms texts, out.LaidOut stage version helpers transforms texts) ∧
      ∀ texts, Helper.Arranged texts (Helper.needed texts) ∧
        ∀ others, (∀ text, text ∈ texts ↔ text ∈ others) →
          Helper.needed texts = Helper.needed others :=
  ⟨⟨_, _, _, out.laidOut stage version⟩, fun texts =>
    ⟨Helper.arranged_needed texts, fun _ => Helper.needed_congr⟩⟩

end Compiled

end ShaderChain

/-! Changes of a state in place, as calls make them that may fail. -/

namespace ShaderChain

/-- Computations that change a state in place. A failure does not undo what was changed before. -/
abbrev Update (ε σ : Type) :=
  ExceptT ε (StateM σ)

namespace Update

/-- The state that an update leaves behind, unless it fails. -/
def on (update : Update ε σ α) (s : σ) : Except ε σ :=
  match update.run s with
  | (.ok _, next) => .ok next
  | (.error e, _) => .error e

/-- Makes an update for every item. The errors are returned, and none of them stops the others. -/
def collect (update : δ → Update ε σ α) : List δ → StateM σ (List ε)
  | [] => return []
  | d :: rest => do
      match ← (update d).run with
      | .ok _ => collect update rest
      | .error e => return e :: (← collect update rest)

end Update

end ShaderChain

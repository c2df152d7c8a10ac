import ShaderChain.Glsl.Type

/-! Selections of components, such as `xy` or `rgba`. -/

namespace ShaderChain

/-- The letters that name the four components of a vector. -/
inductive Alphabet where
  | xyzw
  | rgba
deriving DecidableEq

namespace Alphabet

def letter : Alphabet → Fin 4 → Char
  | .xyzw, 0 => 'x'
  | .xyzw, 1 => 'y'
  | .xyzw, 2 => 'z'
  | .xyzw, 3 => 'w'
  | .rgba, 0 => 'r'
  | .rgba, 1 => 'g'
  | .rgba, 2 => 'b'
  | .rgba, 3 => 'a'

def component? : Alphabet → Char → Option (Fin 4)
  | .xyzw, 'x' | .rgba, 'r' => some 0
  | .xyzw, 'y' | .rgba, 'g' => some 1
  | .xyzw, 'z' | .rgba, 'b' => some 2
  | .xyzw, 'w' | .rgba, 'a' => some 3
  | _, _ => none

theorem component?_letter (alphabet : Alphabet) (i : Fin 4) :
    alphabet.component? (alphabet.letter i) = some i := by
  cases alphabet <;> revert i <;> decide

end Alphabet

/-- One to four components, all named in one alphabet. -/
structure Swizzle where
  alphabet : Alphabet
  components : List (Fin 4)
  components_ne_nil : components ≠ []
  length_le_four : components.length ≤ 4
deriving DecidableEq

namespace Swizzle

def ofComponents? (alphabet : Alphabet) (components : List (Fin 4)) : Option Swizzle :=
  if h : components ≠ [] ∧ components.length ≤ 4 then
    some ⟨alphabet, components, h.1, h.2⟩
  else none

def inAlphabet? (letters : List Char) (alphabet : Alphabet) : Option Swizzle := do
  ofComponents? alphabet (← letters.mapM alphabet.component?)

def parse? (text : String) : Option Swizzle :=
  inAlphabet? text.toList .xyzw <|> inAlphabet? text.toList .rgba

def text (s : Swizzle) : String :=
  String.ofList (s.components.map s.alphabet.letter)

/-- The type of what is selected. -/
def type (s : Swizzle) : Numeric :=
  match s.components with
  | [] | [_] => .float
  | [_, _] => .vec2
  | [_, _, _] => .vec3
  | _ => .vec4

theorem width_type (s : Swizzle) : s.type.width = s.components.length := by
  obtain ⟨_, components, hne, hle⟩ := s
  match components with
  | [] => exact absurd rfl hne
  | [_] | [_, _] | [_, _, _] | [_, _, _, _] => rfl
  | _ :: _ :: _ :: _ :: _ :: rest =>
      simp only [List.length_cons] at hle
      omega

/-- The first components, as many as a value of the type has. -/
def leading : Numeric → Swizzle
  | .float => ⟨.xyzw, [0], by simp, by simp⟩
  | .vec2 => ⟨.xyzw, [0, 1], by simp, by simp⟩
  | .vec3 => ⟨.xyzw, [0, 1, 2], by simp, by simp⟩
  | .vec4 => ⟨.xyzw, [0, 1, 2, 3], by simp, by simp⟩

end Swizzle

end ShaderChain

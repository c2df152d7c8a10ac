/-! White space, trimming and the division of a text into lines. -/

namespace ShaderChain.Text

/-- The characters with the Unicode property White_Space. -/
def isBlank (c : Char) : Bool :=
  let n := c.toNat
  (0x09 ≤ n && n ≤ 0x0D) || n == 0x20 || n == 0x85 || n == 0xA0 || n == 0x1680 ||
    (0x2000 ≤ n && n ≤ 0x200A) || n == 0x2028 || n == 0x2029 || n == 0x202F ||
    n == 0x205F || n == 0x3000

theorem isBlank_of_isWhitespace {c : Char} (h : c.isWhitespace = true) : isBlank c = true := by
  simp only [Char.isWhitespace, Bool.or_eq_true, decide_eq_true_eq] at h
  rcases h with ((rfl | rfl) | rfl) | rfl <;> rfl

def trimEnd (cs : List Char) : List Char :=
  (cs.reverse.dropWhile isBlank).reverse

def trim (cs : List Char) : List Char :=
  trimEnd (cs.dropWhile isBlank)

/-! A line ends before a line feed, or before a carriage return and a line feed. What follows
the last line feed is a line only if it is not empty. -/

/-- Ends the line that `seen` holds, latest character first. -/
def endLine : List Char → List Char
  | '\r' :: seen => seen.reverse
  | seen => seen.reverse

def linesFrom (seen : List Char) : List Char → List (List Char)
  | [] => if seen.isEmpty then [] else [seen.reverse]
  | '\n' :: rest => endLine seen :: linesFrom [] rest
  | c :: rest => linesFrom (c :: seen) rest

def lines (cs : List Char) : List (List Char) :=
  linesFrom [] cs

end ShaderChain.Text

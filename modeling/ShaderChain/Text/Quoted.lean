import ShaderChain.Text.Printable

/-! Quoted texts in diagnostics. -/

namespace ShaderChain.Text

/-- A character in a quoted text. One that cannot be shown is written by its code point. -/
def quoteChar (c : Char) : List Char :=
  match c with
  | '\x00' => ['\\', '0']
  | '\t' => ['\\', 't']
  | '\n' => ['\\', 'n']
  | '\r' => ['\\', 'r']
  | '\\' => ['\\', '\\']
  | '\x22' => ['\\', '\x22']
  | c =>
      if isPrintable c then [c]
      else ['\\', 'u', '\x7b'] ++ Nat.toDigits 16 c.toNat ++ ['\x7d']

def quote (s : String) : String :=
  String.ofList ('\x22' :: s.toList.flatMap quoteChar ++ ['\x22'])

end ShaderChain.Text

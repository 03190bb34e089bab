import EffectGraph.Text.Visible

/-!
# `Text.Quoted` — strings in messages

A message shows a string in quotes on one line: quotes, backslashes and line ends are escaped, and a
character that is not visible is given by its code point.
-/

namespace EffectGraph.Text

/-- A character inside the quotes. -/
def quotedChar (c : Char) : List Char :=
  match c with
  | '"' => ['\\', '"']
  | '\\' => ['\\', '\\']
  | '\n' => ['\\', 'n']
  | '\r' => ['\\', 'r']
  | '\t' => ['\\', 't']
  | '\x00' => ['\\', '0']
  | c =>
    if isVisible c then [c]
    else ['\\', 'u', '\x7b'] ++ Nat.toDigits 16 c.toNat ++ ['\x7d']

/-- A string in quotes. -/
def quoted (s : String) : String :=
  "\"" ++ String.ofList (s.toList.flatMap quotedChar) ++ "\""

/-- A name between single backward quotes. -/
def ticked (s : String) : String :=
  "`" ++ s ++ "`"

end EffectGraph.Text

import Jvm.Text.GraphemeExtend
import Jvm.Text.Hex
import Jvm.Text.Unprintable

/-! Text in double quotes, as messages show it: what cannot be seen, what would join the quote
before it, and what would end the text early is escaped. -/

namespace Jvm.Quoted

/-- One character between the quotes. -/
def escape (c : Char) : String :=
  match c with
  | '\x00' => "\\0"
  | '\t' => "\\t"
  | '\n' => "\\n"
  | '\r' => "\\r"
  | '"' => "\\\""
  | '\\' => "\\\\"
  | c =>
    if extendsGrapheme c || isUnprintable c then "\\u\x7b" ++ Hex.digits c.toNat ++ "\x7d"
    else String.singleton c

/-- The text in quotes. -/
def quote (text : String) : String := "\"" ++ String.join (text.toList.map escape) ++ "\""

end Jvm.Quoted

import TextReveal.Text.Case
import TextReveal.Text.HiddenTable
/-!
Texts between double quotes, with every character that has no visible form of its own written as an
escape.
-/
namespace TextReveal.Text

/-- Digits of `n` in base sixteen, lower case, without leading zeros. -/
def hex (n : Nat) : String :=
  String.ofList (Nat.toDigits 16 n)

def isHidden (c : Char) : Bool :=
  inRanges hiddenRanges c

def quoteChar (c : Char) : String :=
  match c with
  | '"' => "\\\""
  | '\\' => "\\\\"
  | '\n' => "\\n"
  | '\r' => "\\r"
  | '\t' => "\\t"
  | '\x00' => "\\0"
  | _ => if isHidden c then "\\u\x7b" ++ hex c.toNat ++ "\x7d" else c.toString

def quote (s : String) : String :=
  "\"" ++ String.join (s.toList.map quoteChar) ++ "\""

end TextReveal.Text

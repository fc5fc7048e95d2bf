import MarkovDecision.Text.Printable

/-!
# Quoted text

A quoted text stands between double quotes.  Quotes, backslashes and the common control
characters have a two-character escape; other characters that are not printable are written by
their code in hexadecimal.
-/

namespace MarkovDecision

def quotedChar (c : Char) : List Char :=
  match c with
  | '\x00' => ['\\', '0']
  | '\t' => ['\\', 't']
  | '\r' => ['\\', 'r']
  | '\n' => ['\\', 'n']
  | '"' => ['\\', '"']
  | '\\' => ['\\', '\\']
  | c =>
    if isPrintable c then [c]
    else ['\\', 'u', '\x7b'] ++ Nat.toDigits 16 c.toNat ++ ['\x7d']

def quoted (text : String) : String :=
  String.ofList ('"' :: (text.toList.flatMap quotedChar ++ ['"']))

end MarkovDecision

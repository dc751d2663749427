import TieredCache.Text.Unprintable

/-!
# Quoted texts in messages

A text that a user wrote is shown in double quotes, so that blanks at its ends
and characters without a printed form can be seen.
-/

namespace TieredCache.Text

def hexadecimal (n : Nat) : List Char := Nat.toDigits 16 n

def quoteChar (c : Char) : List Char :=
  match c with
  | '\x00' => ['\\', '0']
  | '\t' => ['\\', 't']
  | '\r' => ['\\', 'r']
  | '\n' => ['\\', 'n']
  | '"' => ['\\', '"']
  | '\\' => ['\\', '\\']
  | c =>
      if isUnprintable c then
        ['\\', 'u', '\x7b'] ++ hexadecimal c.toNat ++ ['\x7d']
      else [c]

def quote (text : String) : String :=
  String.ofList ('"' :: text.toList.flatMap quoteChar ++ ['"'])

end TieredCache.Text

import ClaimTables.Text.Unseen

/-!
Texts quoted for diagnostics: quotes and backslashes are escaped, and a character that would not be
seen is written by its code point.
-/

namespace ClaimTables.Text

def hexadecimal (n : Nat) : List Char :=
  Nat.toDigits 16 n

def isPlain (c : Char) : Bool :=
  if c.toNat < 0x80 then 0x20 ≤ c.toNat && c.toNat < 0x7F else !isUnseen c

def quotedChar (c : Char) : List Char :=
  match c with
  | '"' => ['\\', '"']
  | '\\' => ['\\', '\\']
  | '\n' => ['\\', 'n']
  | '\r' => ['\\', 'r']
  | '\t' => ['\\', 't']
  | '\x00' => ['\\', '0']
  | c => if isPlain c then [c] else '\\' :: 'u' :: '\x7b' :: hexadecimal c.toNat ++ ['\x7d']

def quoted (s : String) : String :=
  String.ofList ('"' :: s.toList.flatMap quotedChar ++ ['"'])

def bracketed (texts : List String) : String :=
  "[" ++ ", ".intercalate texts ++ "]"

end ClaimTables.Text

import ClaimTables.Exchange.Request
import ClaimTables.Json.Printer

/-!
Parameters as a form: names and values in which letters, digits and `*-._` stand for themselves, a blank is
a plus sign, and every other byte is written with a per cent sign and two hexadecimal digits.
-/

namespace ClaimTables.Http.Form

def isRaw (b : UInt8) : Bool :=
  let c := Char.ofNat b.toNat
  b < 128 && (c.isAlphanum || c = '*' || c = '-' || c = '.' || c = '_')

def digit (n : Nat) : Char :=
  if n < 10 then Char.ofNat (48 + n) else Char.ofNat (55 + n)

def encodeByte (b : UInt8) : List Char :=
  if isRaw b then [Char.ofNat b.toNat]
  else if b = 32 then ['+']
  else ['%', digit (b.toNat / 16), digit (b.toNat % 16)]

def encode (s : String) : String :=
  String.ofList (s.toUTF8.toList.flatMap encodeByte)

def valueText : ParameterValue → String
  | .text s => s
  | .json document => document.compact

def pair (p : String × ParameterValue) : String :=
  encode p.1 ++ "=" ++ encode (valueText p.2)

def text (ps : Parameters) : String :=
  "&".intercalate (ps.map pair)

end ClaimTables.Http.Form

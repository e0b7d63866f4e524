/-!
Names made of 128 random bits: 32 hexadecimal digits in five groups, six of whose bits tell how they were
made.
-/

namespace ClaimTables.Text

def hexDigits (count n : Nat) : List Char :=
  let digits := Nat.toDigits 16 (n % Nat.pow 16 count)
  List.replicate (count - digits.length) '0' ++ digits

def uniqueName (n : Nat) : String :=
  "-".intercalate ([hexDigits 8 (n >>> 96), hexDigits 4 (n >>> 80), '4' :: hexDigits 3 (n >>> 64),
    hexDigits 4 (0x8000 + (n >>> 48) % 0x4000), hexDigits 12 n].map String.ofList)

end ClaimTables.Text

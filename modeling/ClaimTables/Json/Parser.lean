import ClaimTables.Json.Number

/-!
Reading JSON. Of two entries with one key the later stays, and a text nested deeper than 127 levels is
refused.
-/

namespace ClaimTables.Json

def isSpace (c : Char) : Bool :=
  c = ' ' || c = '\t' || c = '\n' || c = '\r'

def skip (cs : List Char) : List Char :=
  cs.dropWhile isSpace

def hexDigit? (c : Char) : Option Nat :=
  if c.isDigit then some (c.toNat - 48)
  else if 'a' ≤ c ∧ c ≤ 'f' then some (c.toNat - 87)
  else if 'A' ≤ c ∧ c ≤ 'F' then some (c.toNat - 55)
  else none

def unit? : List Char → Option (Nat × List Char)
  | a :: b :: c :: d :: cs => do
    let a ← hexDigit? a
    let b ← hexDigit? b
    let c ← hexDigit? c
    let d ← hexDigit? d
    some (((a * 16 + b) * 16 + c) * 16 + d, cs)
  | _ => none

def codePoint? (cs : List Char) : Option (Char × List Char) := do
  let (high, rest) ← unit? cs
  if 0xD800 ≤ high ∧ high < 0xDC00 then
    match rest with
    | '\\' :: 'u' :: rest => do
      let (low, rest) ← unit? rest
      if 0xDC00 ≤ low ∧ low < 0xE000 then
        some (Char.ofNat (0x10000 + (high - 0xD800) * 0x400 + (low - 0xDC00)), rest)
      else none
    | _ => none
  else if 0xDC00 ≤ high ∧ high < 0xE000 then none
  else some (Char.ofNat high, rest)

def letterEscape? (c : Char) : Option Char :=
  match c with
  | '"' => some '"'
  | '\\' => some '\\'
  | '/' => some '/'
  | 'b' => some '\x08'
  | 'f' => some '\x0c'
  | 'n' => some '\n'
  | 'r' => some '\r'
  | 't' => some '\t'
  | _ => none

def stringRest? : (fuel : Nat) → (seen : List Char) → List Char → Option (String × List Char)
  | _, seen, '"' :: cs => some (String.ofList seen.reverse, cs)
  | fuel + 1, seen, '\\' :: 'u' :: cs =>
    match codePoint? cs with
    | some (c, rest) => stringRest? fuel (c :: seen) rest
    | none => none
  | fuel + 1, seen, '\\' :: e :: cs =>
    match letterEscape? e with
    | some c => stringRest? fuel (c :: seen) cs
    | none => none
  | fuel + 1, seen, c :: cs => if c.toNat < 0x20 ∨ c = '\\' then none else stringRest? fuel (c :: seen) cs
  | _, _, _ => none

def string? (cs : List Char) : Option (String × List Char) :=
  stringRest? cs.length [] cs

def word (expected : String) (value : Json) (cs : List Char) : Option (Json × List Char) :=
  if cs.take expected.length = expected.toList then some (value, cs.drop expected.length) else none

mutual

def value? : (fuel depth : Nat) → List Char → Option (Json × List Char)
  | 0, _, _ => none
  | fuel + 1, depth, cs =>
    match skip cs with
    | '"' :: cs => (string? cs).map fun (s, rest) => (.string s, rest)
    | '[' :: cs =>
      match depth with
      | 0 => none
      | depth + 1 =>
        match skip cs with
        | ']' :: rest => some (.array [], rest)
        | cs => (itemList? fuel depth cs).map fun (items, rest) => (.array items, rest)
    | '\x7b' :: cs =>
      match depth with
      | 0 => none
      | depth + 1 =>
        match skip cs with
        | '\x7d' :: rest => some (.object [], rest)
        | cs => (entryList? fuel depth cs).map fun (entries, rest) => (ofEntries entries, rest)
    | 'n' :: cs => word "ull" .null cs
    | 't' :: cs => word "rue" (.bool true) cs
    | 'f' :: cs => word "alse" (.bool false) cs
    | cs => (number? (cs.takeWhile isNumberChar)).map fun j => (j, cs.dropWhile isNumberChar)

def itemList? : (fuel depth : Nat) → List Char → Option (List Json × List Char)
  | 0, _, _ => none
  | fuel + 1, depth, cs =>
    match value? fuel depth cs with
    | none => none
    | some (item, rest) =>
      match skip rest with
      | ']' :: rest => some ([item], rest)
      | ',' :: rest => (itemList? fuel depth rest).map fun (items, rest) => (item :: items, rest)
      | _ => none

def entryList? : (fuel depth : Nat) → List Char → Option (List (String × Json) × List Char)
  | 0, _, _ => none
  | fuel + 1, depth, cs =>
    match skip cs with
    | '"' :: cs =>
      match string? cs with
      | none => none
      | some (key, rest) =>
        match skip rest with
        | ':' :: rest =>
          match value? fuel depth rest with
          | none => none
          | some (item, rest) =>
            match skip rest with
            | '\x7d' :: rest => some ([(key, item)], rest)
            | ',' :: rest =>
              (entryList? fuel depth rest).map fun (entries, rest) => ((key, item) :: entries, rest)
            | _ => none
        | _ => none
    | _ => none

end

def parse? (s : String) : Option Json :=
  let cs := s.toList
  match value? (2 * cs.length + 2) 127 cs with
  | some (j, rest) => if (skip rest).isEmpty then some j else none
  | none => none

end ClaimTables.Json

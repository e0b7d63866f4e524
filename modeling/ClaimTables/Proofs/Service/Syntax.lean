import ClaimTables.Calendar.Timestamp
import ClaimTables.Proofs.Binary64.Shortest
import ClaimTables.Proofs.Service.Algebra
import ClaimTables.Sparql.Literal
import ClaimTables.Text.Search

/-!
How the query service reads what stands between the braces of a query: an element a line, with short names for
items and properties. A reader takes what it reads off the front of a text.
-/

namespace ClaimTables

namespace Service

def isNameChar (c : Char) : Bool :=
  c.isAlphanum || c = '_'

def name? : List Char → Option (String × List Char)
  | '?' :: cs => some (String.ofList (cs.takeWhile isNameChar), cs.dropWhile isNameChar)
  | _ => none

def word? (cs : List Char) : Option (UInt64 × List Char) :=
  (Text.word? (cs.takeWhile Char.isDigit)).map fun n => (n, cs.dropWhile Char.isDigit)

def property? (cs : List Char) : Option (PropertyId × List Char) := do
  let cs ← Text.afterFront? "wdt:P".toList cs
  let (n, cs) ← word? cs
  some (⟨n⟩, cs)

def item? (cs : List Char) : Option (ItemId × List Char) := do
  let cs ← Text.afterFront? "wd:Q".toList cs
  let (n, cs) ← word? cs
  some (⟨n⟩, cs)

def isNumberChar (c : Char) : Bool :=
  c.isDigit || c = '.'

def unsigned? (cs : List Char) : Option (ℚ × List Char) :=
  (Decimal.ofList? (cs.takeWhile isNumberChar)).map fun d => (d.value, cs.dropWhile isNumberChar)

def number? : List Char → Option (ℚ × List Char)
  | '-' :: cs => (unsigned? cs).map fun (q, rest) => (-q, rest)
  | cs => unsigned? cs

def literal? (cs : List Char) : Option (Node × List Char) := do
  let (text, rest) ← Sparql.Literal.rest? cs
  match Text.afterFront? "^^xsd:dateTime".toList rest with
  | some rest => (Timestamp.ofQueried? (String.ofList text)).map fun d => (.date d, rest)
  | none => some (.text (String.ofList text), rest)

def constant? : List Char → Option (Node × List Char)
  | '"' :: cs => literal? cs
  | 'w' :: cs => (item? ('w' :: cs)).map fun (i, rest) => (.item i, rest)
  | cs => (number? cs).map fun (q, rest) => (.number q, rest)

def slot? : List Char → Option (Slot × List Char)
  | '?' :: cs => (name? ('?' :: cs)).map fun (v, rest) => (.variable v, rest)
  | cs => (constant? cs).map fun (x, rest) => (.constant x, rest)

def object? (cs : List Char) : Option (Slot × List Char) := do
  let cs ← Text.afterFront? " ".toList cs
  let (object, cs) ← slot? cs
  let cs ← Text.afterFront? " .".toList cs
  some (object, cs)

def edge? (cs : List Char) : Option (Edge × List Char) := do
  let (subject, cs) ← slot? cs
  let cs ← Text.afterFront? " ".toList cs
  let (property, cs) ← property? cs
  let (object, cs) ← object? cs
  some (⟨subject, property, object⟩, cs)

def path? (cs : List Char) : Option (Element × List Char) := do
  let (subject, cs) ← slot? cs
  let cs ← Text.afterFront? " ".toList cs
  let (first, cs) ← property? cs
  let cs ← Text.afterFront? "/".toList cs
  let (rest, cs) ← property? cs
  let cs ← Text.afterFront? "* ".toList cs
  let (goal, cs) ← constant? cs
  let cs ← Text.afterFront? " .".toList cs
  some (.path subject first rest goal, cs)

def comparison? : String → Option Comparison
  | "=" => some .equal
  | "!=" => some .different
  | "<" => some .less
  | "<=" => some .atMost
  | ">" => some .greater
  | ">=" => some .atLeast
  | _ => none

def more? : (fuel : Nat) → List Char → Option (List Slot × List Char)
  | 0, _ => none
  | fuel + 1, cs =>
    match Text.afterFront? ", ".toList cs with
    | none => some ([], cs)
    | some cs => do
      let (t, cs) ← slot? cs
      let (ts, cs) ← more? fuel cs
      some (t :: ts, cs)

def terms? (cs : List Char) : Option (List Slot × List Char) := do
  let (t, cs) ← slot? cs
  let (ts, cs) ← more? cs.length cs
  some (t :: ts, cs)

def bound? (cs : List Char) : Option (Expression × List Char) := do
  let cs ← Text.afterFront? "BOUND(".toList cs
  let (v, cs) ← name? cs
  let cs ← Text.afterFront? ")".toList cs
  some (.bound v, cs)

def relation? (cs : List Char) : Option (Expression × List Char) := do
  let (left, cs) ← slot? cs
  let cs ← Text.afterFront? " ".toList cs
  match Text.afterFront? "IN (".toList cs with
  | some cs => do
    let (terms, cs) ← terms? cs
    let cs ← Text.afterFront? ")".toList cs
    some (.isIn left terms, cs)
  | none => do
    let comparison ← comparison? (String.ofList (cs.takeWhile (· ≠ ' ')))
    let cs ← Text.afterFront? " ".toList (cs.dropWhile (· ≠ ' '))
    let (right, cs) ← slot? cs
    some (.compare comparison left right, cs)

def expression? : List Char → Option (Expression × List Char)
  | 'f' :: cs => (Text.afterFront? "alse".toList cs).map fun cs => (.truth false, cs)
  | 'B' :: cs => bound? ('B' :: cs)
  | '!' :: cs => (bound? cs).map fun (e, cs) => (.not e, cs)
  | cs => relation? cs

def braced? (cs : List Char) : Option (Edge × List Char) := do
  let cs ← Text.afterFront? " \x7b ".toList cs
  let (e, cs) ← edge? cs
  let cs ← Text.afterFront? " \x7d".toList cs
  some (e, cs)

def filter? (cs : List Char) : Option (Element × List Char) :=
  match Text.afterFront? "(".toList cs with
  | some cs => do
    let (e, cs) ← expression? cs
    let cs ← Text.afterFront? ")".toList cs
    some (.filter e, cs)
  | none => do
    let cs ← Text.afterFront? " NOT EXISTS".toList cs
    let (e, cs) ← braced? cs
    some (.notExists e, cs)

def element? : List Char → Option (Element × List Char)
  | 'O' :: cs => do
    let cs ← Text.afterFront? "PTIONAL".toList cs
    let (e, cs) ← braced? cs
    some (.optional e, cs)
  | 'F' :: cs => do
    let cs ← Text.afterFront? "ILTER".toList cs
    filter? cs
  | cs => path? cs <|> (edge? cs).map fun (e, cs) => (.edge e, cs)

def lines? : (fuel : Nat) → List Char → Option (List Element)
  | _, [] => some []
  | 0, _ => none
  | fuel + 1, cs => do
    let cs ← Text.afterFront? "  ".toList cs
    let (e, cs) ← element? cs
    let cs ← Text.afterFront? "\n".toList cs
    let es ← lines? fuel cs
    some (e :: es)

def group? (block : String) : Option (List Element) :=
  lines? block.toList.length block.toList

end Service

end ClaimTables

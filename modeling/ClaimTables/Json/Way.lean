import ClaimTables.Json
import ClaimTables.Text.Digits

/-!
Ways into a document. A way is written as a key, then more keys behind points and places in arrays between
brackets; keys count in lower case. Where a way leads through a value of another kind, a new object or
array takes that value's place.
-/

namespace ClaimTables.Json

inductive Step where
  | key (name : String)
  | place (index : Int)
deriving DecidableEq

def lowerChar (c : Char) : Char :=
  -- The Kelvin sign, the only letter beyond ASCII whose lower case is in ASCII.
  if c = '\u212A' then 'k' else c.toLower

def lowerKey (key : String) : String :=
  String.ofList (key.toList.map lowerChar)

namespace Step

def isKeyChar (c : Char) : Bool :=
  c.isAlphanum || c = ' ' || c = '_' || c = '-'

def index? (cs : List Char) : Option (Int × List Char) :=
  let isGap (c : Char) : Bool := c = ' ' || c = '\t'
  let signed := cs.dropWhile isGap
  let negative := signed.head? = some '-'
  let number := if negative then signed.drop 1 else signed
  (Text.numeral? (number.takeWhile Char.isDigit)).bind fun n =>
    let index : Int := if negative then -n else n
    if Int64.minValue.toInt ≤ index ∧ index ≤ Int64.maxValue.toInt then
      some (index, (number.dropWhile Char.isDigit).dropWhile isGap)
    else none

def listRest? : (count : Nat) → List Char → Option (List Step)
  | _, [] => some []
  | count + 1, '.' :: cs =>
    let name := cs.takeWhile isKeyChar
    if name.isEmpty then none
    else (listRest? count (cs.dropWhile isKeyChar)).map (.key (String.ofList name) :: ·)
  | count + 1, '[' :: cs =>
    match index? cs with
    | some (index, ']' :: rest) => (listRest? count rest).map (.place index :: ·)
    | _ => none
  | _, _ => none

def list? (cs : List Char) : Option (List Step) :=
  let name := cs.takeWhile isKeyChar
  if name.isEmpty then none
  else (listRest? cs.length (cs.dropWhile isKeyChar)).map (.key (String.ofList name) :: ·)

def ofKey (key : String) : List Step :=
  let key := lowerKey key
  (list? key.toList).getD [.key key]

end Step

def entries : Json → List (String × Json)
  | .object entries => entries
  | _ => []

mutual

def overlay : (value : Json) → (old : Option Json) → Json
  | .object news, old => overlayAll news (old.getD (.object []))
  | value, _ => value

def overlayAll : List (String × Json) → (target : Json) → Json
  | [], target => target
  | (key, value) :: rest, target =>
    let key := lowerKey key
    overlayAll rest (.object (Keyed.insert key (overlay value (target.entries.lookup key)) target.entries))

end

def reach (items : List Json) : (index : Int) → List Json × Nat
  | .ofNat n => (items ++ List.replicate (n + 1 - items.length) .null, n)
  | .negSucc n => (List.replicate (n + 1 - items.length) .null ++ items, items.length - (n + 1))

def put (value : Json) : List Step → (old : Option Json) → Json
  | [], old => overlay value old
  | .key key :: way, old =>
    let entries := (old.getD .null).entries
    .object (Keyed.insert key (put value way (entries.lookup key)) entries)
  | .place index :: way, old =>
    let (items, place) := reach (old.getD .null).items index
    .array (items.set place (if way.isEmpty then value else put value way items[place]?))

end ClaimTables.Json

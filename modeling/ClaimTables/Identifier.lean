import ClaimTables.Text.Digits

/-!
Identifiers of the store: `P` and a number for a property, `Q` and a number for an item. A written
identifier reads back; reading also takes a plus sign and leading zeros, which are lost.
-/

namespace ClaimTables

structure PropertyId where
  number : UInt64
deriving DecidableEq

structure ItemId where
  number : UInt64
deriving DecidableEq

namespace PropertyId

def text (p : PropertyId) : String :=
  String.ofList ('P' :: Text.digits p.number.toNat)

def ofText? (s : String) : Option PropertyId :=
  match s.toList with
  | 'P' :: cs => (Text.word? cs).map PropertyId.mk
  | _ => none

theorem ofText?_text (p : PropertyId) : ofText? p.text = some p := by
  simp [ofText?, text, Text.word?_digits]

end PropertyId

namespace ItemId

def text (i : ItemId) : String :=
  String.ofList ('Q' :: Text.digits i.number.toNat)

def ofText? (s : String) : Option ItemId :=
  match s.toList with
  | 'Q' :: cs => (Text.word? cs).map ItemId.mk
  | _ => none

def ofIri? (iri : String) : Option ItemId :=
  match (iri.toList.splitOn '/').getLast? with
  | some last => ofText? (String.ofList last)
  | none => none

theorem ofText?_text (i : ItemId) : ofText? i.text = some i := by
  simp [ofText?, text, Text.word?_digits]

theorem text_injective {i j : ItemId} (h : i.text = j.text) : i = j := by
  have := congrArg ofText? h
  simpa [ofText?_text] using this

end ItemId

end ClaimTables

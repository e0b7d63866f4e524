import ClaimTables.Claim.Decoding

/-!
The claims that an entity has in the store, by property.
-/

namespace ClaimTables

/-- One claim of an entity. A claim may have no value: the store knows claims of no value and of some unknown one. -/
structure StoredClaim where
  guid : String
  datavalue : Option Json

/-- The claims of one entity by property; the first entry of a property counts. -/
structure ClaimSet where
  entries : List (PropertyId × List StoredClaim)

namespace StoredClaim

def ofJson? (j : Json) : Option StoredClaim :=
  (j.get "id").text?.map fun guid => ⟨guid, (j.get "mainsnak").get? "datavalue"⟩

def holds (s : String) (c : StoredClaim) : Bool :=
  match c.datavalue with
  | some d => (d.get "value").text? = some s
  | none => false

def item? (c : StoredClaim) : Option ItemId :=
  c.datavalue.bind fun d => Claim.item? (d.get "value")

end StoredClaim

namespace ClaimSet

def ofJson : Json → ClaimSet
  | .object entries =>
    ⟨(entries.filterMap fun (key, claims) =>
      -- Keys that are no properties are passed over.
      (PropertyId.ofText? key).map fun p => (p, claims.items.filterMap StoredClaim.ofJson?)).reverse⟩
  | _ => ⟨[]⟩

def get (s : ClaimSet) (p : PropertyId) : List StoredClaim :=
  (s.entries.lookup p).getD []

def hasString (s : ClaimSet) (p : PropertyId) (expected : String) : Bool :=
  (s.get p).any (StoredClaim.holds expected)

def items (s : ClaimSet) (p : PropertyId) : List ItemId :=
  (s.get p).filterMap StoredClaim.item?

end ClaimSet

end ClaimTables

import ClaimTables.Claim.Stored
import ClaimTables.Client.Requests

/-!
What a client asks of the edit API: to look up labels and claims, and to make entities and change claims.
-/

namespace ClaimTables

inductive EntityKind where
  | item
  | property
deriving DecidableEq

namespace EntityKind

def name : EntityKind → String
  | .item => "item"
  | .property => "property"

end EntityKind

namespace Client

def exactHits (label : String) (body : Json) : List String :=
  (body.get "search").items.filterMap fun hit =>
    if (hit.get "label").text? = some label then (hit.get "id").text? else none

def searchExact (c : Client) (label : String) (kind : EntityKind) : Action (List String) := do
  let body ← c.read (.ofTexts [("action", "wbsearchentities"), ("search", label),
    ("language", c.language), ("type", kind.name), ("limit", "50")])
  pure (exactHits label body)

def claimsIn (id : String) (body : Json) : Option ClaimSet :=
  let entity := (body.get "entities").get id
  if entity.isNull || (entity.get? "missing").isSome then none
  else some (ClaimSet.ofJson (entity.get "claims"))

def getClaims (c : Client) (id : String) : Action (Option ClaimSet) := do
  match ← (c.read (.ofTexts [("action", "wbgetentities"), ("ids", id), ("props", "claims")])).outcome with
  | .ok body => pure (claimsIn id body)
  | .error (.api action code info) =>
    if code = "no-such-entity" then pure none else throw (.api action code info)
  | .error e => throw e

def withoutEndSlashes (s : String) : String :=
  String.ofList (s.toList.reverse.dropWhile (· = '/')).reverse

def siteAddress (s : String) : String :=
  withoutEndSlashes (match s.toList with
    | '/' :: '/' :: rest => "https://" ++ String.ofList rest
    | _ => s)

def siteServer (c : Client) : Action String := do
  let body ← c.read (.ofTexts [("action", "query"), ("meta", "siteinfo")])
  match textAt ["query", "general", "server"] body with
  | some server => pure (siteAddress server)
  | none => throw (.configuration "site info carries no server URL")

def onEntity {α : Type} (id : String) (x : Action α) : Action α := do
  match ← x.outcome with
  | .ok a => pure a
  | .error e => throw (e.withEntity id)

def createEntityParameters (kind : EntityKind) (data : Json) : Parameters :=
  [("action", .text "wbeditentity"), ("new", .text kind.name), ("data", .json data)]

def createEntity (c : Client) (kind : EntityKind) (data : Json) : Action String := do
  let body ← c.write (createEntityParameters kind data)
  match textAt ["entity", "id"] body with
  | some id => pure id
  | none => throw (.remoteWrite none "no-entity-id" (kind.name ++ " creation returned no id"))

def createClaimParameters (id property : String) (value : Json) : Parameters :=
  [("action", .text "wbcreateclaim"), ("entity", .text id), ("property", .text property),
    ("snaktype", .text "value"), ("value", .json value)]

def createClaim (c : Client) (id property : String) (value : Json) : Action String := do
  let body ← onEntity id (c.write (createClaimParameters id property value))
  -- The store may leave the identifier out.
  pure ((textAt ["claim", "id"] body).getD "")

def setClaimValueParameters (guid : String) (value : Json) : Parameters :=
  [("action", .text "wbsetclaimvalue"), ("claim", .text guid), ("snaktype", .text "value"),
    ("value", .json value)]

def setClaimValue (c : Client) (id guid : String) (value : Json) : Action Unit := do
  let _ ← onEntity id (c.write (setClaimValueParameters guid value))

def removeClaimsParameters (guids : List String) : Parameters :=
  .ofTexts [("action", "wbremoveclaims"), ("claim", "|".intercalate guids)]

def removeClaims (c : Client) (id : String) (guids : List String) : Action Unit := do
  if guids.isEmpty then pure ()
  else
    let _ ← onEntity id (c.write (removeClaimsParameters guids))

def deletePageParameters (title : String) : Parameters :=
  .ofTexts [("action", "delete"), ("title", title), ("reason", "deleted through wikigraph")]

def deletePage (c : Client) (id title : String) : Action Bool := do
  match ← (c.write (deletePageParameters title)).outcome with
  | .ok _ => pure true
  | .error (.remoteWrite entity code info) =>
    if code = "missingtitle" then pure false
    else throw ((Error.remoteWrite entity code info).withEntity id)
  | .error e => throw (e.withEntity id)

end Client

end ClaimTables

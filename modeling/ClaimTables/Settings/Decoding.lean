import ClaimTables.Json.Reading
import ClaimTables.Settings

/-!
Reading settings from JSON documents.
-/

namespace ClaimTables

namespace Settings

def ofJson? (r : Reading) (j : Json) : Option Settings := do
  let text (key : String) (place : Nat) (value : String) : Option String :=
    Reading.orElse value r.text? (Reading.member? key place j)
  let word (key : String) (place : Nat) (value : UInt64) : Option UInt64 :=
    Reading.orElse value r.word? (Reading.member? key place j)
  if r.isRecord 14 j then
    let apiUrl ← text "api_url" 0 default.apiUrl
    let sparqlUrl ← text "sparql_url" 1 default.sparqlUrl
    let botUsername ← text "bot_username" 2 default.botUsername
    let botPassword ← text "bot_password" 3 default.botPassword
    let instanceOf ← word "instance_of_property_id" 4 default.instanceOf
    let subclassOf ← word "subclass_of_property_id" 5 default.subclassOf
    let charset ← text "charset" 6 default.charset
    let namespaceTag ← text "namespace" 7 default.namespaceTag
    let conceptBase ← Reading.optional r.text? (Reading.member? "concept_base_uri" 8 j)
    let timeoutSeconds ← word "timeout_secs" 9 default.timeoutSeconds
    let maxRetries ← Reading.orElse default.maxRetries r.half? (Reading.member? "max_retries" 10 j)
    let hardDelete ← Reading.orElse default.hardDelete r.flag? (Reading.member? "hard_delete" 11 j)
    let itemPageStart ← text "item_page_prefix" 12 default.itemPageStart
    let language ← text "language" 13 default.language
    some { apiUrl, sparqlUrl, botUsername, botPassword, instanceOf, subclassOf, charset, namespaceTag,
           conceptBase, timeoutSeconds, maxRetries, hardDelete, itemPageStart, language }
  else none

def keys : List String :=
  ["api_url", "sparql_url", "bot_username", "bot_password", "instance_of_property_id",
    "subclass_of_property_id", "charset", "namespace", "concept_base_uri", "timeout_secs", "max_retries",
    "hard_delete", "item_page_prefix", "language"]

def toJson (s : Settings) : Json :=
  .ofEntries [("api_url", .string s.apiUrl), ("sparql_url", .string s.sparqlUrl),
    ("bot_username", .string s.botUsername), ("bot_password", .string s.botPassword),
    ("instance_of_property_id", .natural s.instanceOf.toNat),
    ("subclass_of_property_id", .natural s.subclassOf.toNat), ("charset", .string s.charset),
    ("namespace", .string s.namespaceTag),
    ("concept_base_uri", (s.conceptBase.map Json.string).getD .null),
    ("timeout_secs", .natural s.timeoutSeconds.toNat), ("max_retries", .natural s.maxRetries.toNat),
    ("hard_delete", .bool s.hardDelete), ("item_page_prefix", .string s.itemPageStart),
    ("language", .string s.language)]

end Settings

structure Logging where
  level : String
  json : Bool
deriving DecidableEq

namespace Logging

def default : Logging := ⟨"info", true⟩

def ofJson? (r : Reading) (j : Json) : Option Logging := do
  if r.isRecord 2 j then
    let level ← Reading.orElse default.level r.text? (Reading.member? "level" 0 j)
    let json ← Reading.orElse default.json r.flag? (Reading.member? "json" 1 j)
    some ⟨level, json⟩
  else none

end Logging

end ClaimTables

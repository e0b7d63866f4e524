import ClaimTables.Error
import ClaimTables.Text.Blank

/-!
The settings of a connection to one Wikibase instance.
-/

namespace ClaimTables

structure Settings where
  apiUrl : String
  sparqlUrl : String
  botUsername : String
  botPassword : String
  instanceOf : UInt64
  subclassOf : UInt64
  charset : String
  namespaceTag : String
  /-- Where the names of entities and properties begin; asked of the site when absent. -/
  conceptBase : Option String
  timeoutSeconds : UInt64
  maxRetries : UInt32
  hardDelete : Bool
  itemPageStart : String
  language : String
deriving DecidableEq

namespace Settings

def default : Settings where
  apiUrl := ""
  sparqlUrl := ""
  botUsername := ""
  botPassword := ""
  instanceOf := 0
  subclassOf := 0
  charset := ""
  namespaceTag := ""
  conceptBase := none
  timeoutSeconds := 30
  maxRetries := 5
  hardDelete := false
  itemPageStart := "Item:"
  language := "en"

def required (s : Settings) : List (String × Bool) :=
  [("api_url", Text.isBlankText s.apiUrl), ("sparql_url", Text.isBlankText s.sparqlUrl),
    ("bot_username", Text.isBlankText s.botUsername), ("bot_password", Text.isBlankText s.botPassword),
    ("charset", Text.isBlankText s.charset), ("namespace", Text.isBlankText s.namespaceTag),
    ("instance_of_property_id", s.instanceOf == 0), ("subclass_of_property_id", s.subclassOf == 0)]

def missing (s : Settings) : List String :=
  (s.required.filter (·.2)).map (·.1)

def charsets : List (List Char) :=
  ["utf-8".toList, "utf8".toList, "utf_8".toList]

def validate (s : Settings) : Except Error Unit :=
  if !s.missing.isEmpty then
    .error (.configuration ("missing required settings: " ++ ", ".intercalate s.missing))
  else if !charsets.contains (s.charset.toList.map Char.toLower) then
    .error (.configuration
      ("unsupported charset " ++ s.charset ++ ": the edit API and SPARQL endpoint exchange UTF-8"))
  else if s.instanceOf = s.subclassOf then
    .error (.configuration "instance_of_property_id and subclass_of_property_id must differ")
  else if s.timeoutSeconds = 0 then .error (.configuration "timeout_secs must be positive")
  else .ok ()

theorem validate_eq_ok_iff {s : Settings} :
    s.validate = .ok () ↔ s.missing = [] ∧ charsets.contains (s.charset.toList.map Char.toLower) = true ∧
      s.instanceOf ≠ s.subclassOf ∧ s.timeoutSeconds ≠ 0 := by
  unfold validate
  cases hm : s.missing with
  | cons name rest => simp
  | nil =>
    cases hc : charsets.contains (s.charset.toList.map Char.toLower) <;>
      by_cases hi : s.instanceOf = s.subclassOf <;> by_cases ht : s.timeoutSeconds = 0 <;>
      simp [hi, ht]

end Settings

end ClaimTables

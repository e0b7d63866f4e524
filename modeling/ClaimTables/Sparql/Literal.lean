/-!
String literals of SPARQL: what stands between two quotes, with quotes, backslashes, tabs and line ends
behind a backslash. Reading a literal at the front of a text takes it off exactly and gives its text back.
-/

namespace ClaimTables.Sparql.Literal

def escaped (c : Char) : List Char :=
  match c with
  | '"' => ['\\', '"']
  | '\\' => ['\\', '\\']
  | '\n' => ['\\', 'n']
  | '\r' => ['\\', 'r']
  | '\t' => ['\\', 't']
  | c => [c]

def body (cs : List Char) : List Char :=
  cs.flatMap escaped

def encode (s : String) : String :=
  String.ofList ('"' :: body s.toList ++ ['"'])

def unescape? (c : Char) : Option Char :=
  match c with
  | '"' => some '"'
  | '\\' => some '\\'
  | '\'' => some '\''
  | 'n' => some '\n'
  | 'r' => some '\r'
  | 't' => some '\t'
  | 'b' => some '\x08'
  | 'f' => some '\x0c'
  | _ => none

def rest? : List Char → Option (List Char × List Char)
  | [] => none
  | '"' :: cs => some ([], cs)
  | '\\' :: e :: cs =>
    match unescape? e with
    | some c => (rest? cs).map fun (text, rest) => (c :: text, rest)
    | none => none
  | c :: cs =>
    if c = '\\' ∨ c = '\n' ∨ c = '\r' then none
    else (rest? cs).map fun (text, rest) => (c :: text, rest)

def scan? : List Char → Option (List Char × List Char)
  | '"' :: cs => rest? cs
  | _ => none

theorem rest?_escaped (c : Char) (cs : List Char) :
    rest? (escaped c ++ cs) = (rest? cs).map fun (text, rest) => (c :: text, rest) := by
  unfold escaped
  split
  · simp [rest?, unescape?]
  · simp [rest?, unescape?]
  · simp [rest?, unescape?]
  · simp [rest?, unescape?]
  · simp [rest?, unescape?]
  · next h1 h2 h3 h4 h5 =>
    have : ¬ (c = '\\' ∨ c = '\n' ∨ c = '\r') := by
      rintro (h | h | h)
      · exact h2 h
      · exact h3 h
      · exact h4 h
    rw [List.singleton_append, rest?, if_neg this]
    · exact fun h => h1 h
    · exact fun _ _ h _ => h2 h

theorem rest?_body (cs rest : List Char) : rest? (body cs ++ '"' :: rest) = some (cs, rest) := by
  induction cs with
  | nil => simp [body, rest?]
  | cons c cs ih =>
    have : body (c :: cs) = escaped c ++ body cs := rfl
    rw [this, List.append_assoc, rest?_escaped, ih]
    rfl

end ClaimTables.Sparql.Literal

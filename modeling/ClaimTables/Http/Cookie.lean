import ClaimTables.Http.Message
import ClaimTables.Text.Blank
import ClaimTables.Text.Digits
import ClaimTables.Text.Search

/-!
The cookies of a session. A cookie that is set again is replaced, and one that is set with no time to live is
removed.
-/

namespace ClaimTables.Http

structure Jar where
  cookies : List (String × String)

namespace Jar

def empty : Jar := ⟨[]⟩

def pair? (cs : List Char) : Option (String × String) :=
  (Text.cut? ['='] cs).map fun (name, value) =>
    (String.ofList (Text.trimList name), String.ofList (Text.trimList value))

def isEnd (part : List Char) : Bool :=
  match pair? part with
  | some (name, value) =>
    name.toList.map Char.toLower = "max-age".toList
      && (value.startsWith "-" || (Text.numeral? value.toList).any (· = 0))
  | none => false

def put (name value : String) : List (String × String) → List (String × String)
  | [] => [(name, value)]
  | entry :: rest => if entry.1 = name then (name, value) :: rest else entry :: put name value rest

def set (j : Jar) (header : String) : Jar :=
  match header.toList.splitOn ';' with
  | [] => j
  | first :: parts =>
    match pair? first with
    | none => j
    | some (name, value) =>
      if parts.any isEnd then ⟨j.cookies.filter (·.1 ≠ name)⟩ else ⟨put name value j.cookies⟩

def receive (j : Jar) (r : Response) : Jar :=
  (r.headers.filter fun h => h.1.toList.map Char.toLower = "set-cookie".toList).foldl
    (fun j h => j.set h.2) j

def attach (j : Jar) (m : Message) : Message :=
  if j.cookies.isEmpty then m
  else
    let text := "; ".intercalate (j.cookies.map fun (name, value) => name ++ "=" ++ value)
    { m with headers := m.headers ++ [("cookie", text)] }

end Jar

end ClaimTables.Http

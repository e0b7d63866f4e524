import ClaimTables.Text.Digits
import ClaimTables.Text.Search

/-!
The arguments of the program. Options may stand anywhere among the others; an option's value follows it, or is
attached to it, and may begin with a hyphen only if it is attached. Two hyphens end the options.
-/

namespace ClaimTables.Command

structure Selection where
  model : String
  filters : List String
  order : List String
  limit : Option UInt64
  offset : Option UInt64
deriving DecidableEq

inductive Job where
  | query (s : Selection)
  | sparql (s : Selection)
  | count (s : Selection)
  | models
  | get (model id : String)
  | create (model : String) (values : List String) (key : Option String)
  | update (model id : String) (values : List String)
  | delete (id : String)
deriving DecidableEq

structure Arguments where
  config : String
  schema : String
  job : Job
deriving DecidableEq

inductive Refusal where
  | usage
  | help
deriving DecidableEq

structure OptionForm where
  name : String
  letter : Option Char
  repeats : Bool
  accepts : String → Bool

structure Usage where
  options : List OptionForm
  room : Option Nat
  isCommand : String → Bool

structure Given where
  options : List (String × String)
  words : List String

inductive Shape where
  | separator
  | long (name : String) (value : Option String)
  | short (letter : Char) (attached : List Char)
  | word

def Shape.of (s : String) : Shape :=
  match s.toList with
  | ['-', '-'] => .separator
  | '-' :: '-' :: cs =>
    match Text.cut? ['='] cs with
    | some (name, value) => .long (String.ofList name) (some (String.ofList value))
    | none => .long (String.ofList cs) none
  | '-' :: c :: cs => .short c cs
  | _ => .word

def isWord (s : String) : Bool :=
  match Shape.of s with
  | .word => true
  | _ => false

def attachedValue : List Char → Option String
  | [] => none
  | '=' :: cs => some (String.ofList cs)
  | cs => some (String.ofList cs)

namespace Given

def empty : Given := ⟨[], []⟩

def all (g : Given) (name : String) : List String :=
  (g.options.filter (·.1 = name)).map (·.2)

def takeWord (u : Usage) (g : Given) (word : String) : Except Refusal Given :=
  match u.room with
  | some room =>
    if g.words.length < room then .ok { g with words := g.words ++ [word] } else .error .usage
  | none => .ok { g with words := g.words ++ [word] }

def takeOption (g : Given) (f : OptionForm) (value : String) : Except Refusal Given :=
  if !f.repeats && g.options.any (·.1 = f.name) then .error .usage
  else if f.accepts value then .ok { g with options := g.options ++ [(f.name, value)] }
  else .error .usage

end Given

namespace Usage

def option? (u : Usage) : Shape → Option (OptionForm × Option String)
  | .long name value => (u.options.find? (·.name = name)).map fun f => (f, value)
  | .short letter cs => (u.options.find? (·.letter = some letter)).map fun f => (f, attachedValue cs)
  | _ => none

def asksForHelp : Shape → Bool
  | .long "help" none => true
  | .short 'h' _ => true
  | _ => false

def read (u : Usage) : Given → List String → Except Refusal (Given × List String)
  | g, [] => .ok (g, [])
  | g, argument :: rest =>
    if u.isCommand argument then .ok (g, argument :: rest)
    else match Shape.of argument with
      | .separator => (rest.foldlM (Given.takeWord u) g).map fun g => (g, [])
      | .word => do
        let g ← g.takeWord u argument
        u.read g rest
      | shape =>
        if asksForHelp shape then .error .help
        else match u.option? shape, rest with
          | some (f, some value), rest => do
            let g ← g.takeOption f value
            u.read g rest
          | some (f, none), value :: rest =>
            if isWord value then do
              let g ← g.takeOption f value
              u.read g rest
            else .error .usage
          | _, _ => .error .usage
termination_by _ arguments => arguments.length

def readAll (u : Usage) (arguments : List String) : Except Refusal Given :=
  (u.read .empty arguments).map (·.1)

end Usage

namespace Job

def isCount (s : String) : Bool :=
  (Text.word? s.toList).isSome

def selecting : Usage where
  options := [⟨"where", some 'w', true, fun _ => true⟩, ⟨"order", some 'o', true, fun _ => true⟩,
    ⟨"limit", none, false, isCount⟩, ⟨"offset", none, false, isCount⟩]
  room := some 1
  isCommand _ := false

def words (room : Option Nat) : Usage where
  options := []
  room := room
  isCommand _ := false

def creating : Usage where
  options := [⟨"key", none, false, fun _ => true⟩]
  room := none
  isCommand _ := false

def count? (g : Given) (name : String) : Option UInt64 :=
  (g.all name).head?.bind fun s => Text.word? s.toList

def selection (arguments : List String) : Except Refusal Selection := do
  let g ← selecting.readAll arguments
  match g.words with
  | [model] => .ok ⟨model, g.all "where", g.all "order", count? g "limit", count? g "offset"⟩
  | _ => .error .usage

def names : List String :=
  ["query", "translate", "count", "models", "get", "create", "update", "delete"]

def read (name : String) (arguments : List String) : Except Refusal Job := do
  match name with
  | "query" => .query <$> selection arguments
  | "translate" => .sparql <$> selection arguments
  | "count" => .count <$> selection arguments
  | "models" =>
    let _ ← (words (some 0)).readAll arguments
    .ok .models
  | "get" =>
    match (← (words (some 2)).readAll arguments).words with
    | [model, id] => .ok (.get model id)
    | _ => .error .usage
  | "create" =>
    let g ← creating.readAll arguments
    match g.words with
    | model :: values => .ok (.create model values (g.all "key").head?)
    | _ => .error .usage
  | "update" =>
    match (← (words none).readAll arguments).words with
    | model :: id :: values => .ok (.update model id values)
    | _ => .error .usage
  | "delete" =>
    match (← (words (some 1)).readAll arguments).words with
    | [id] => .ok (.delete id)
    | _ => .error .usage
  | _ => .error .usage

end Job

namespace Arguments

def usage : Usage where
  options := [⟨"config", some 'c', false, fun _ => true⟩, ⟨"schema", some 's', false, fun _ => true⟩]
  room := some 0
  isCommand s := s = "help" || Job.names.contains s

def help (arguments : List String) : Refusal :=
  match arguments with
  | [] => .help
  | [name] => if name = "help" || Job.names.contains name then .help else .usage
  | _ => .usage

def read (arguments : List String) : Except Refusal Arguments := do
  let (g, rest) ← usage.read .empty arguments
  match rest with
  | [] => .error .usage
  | name :: rest =>
    if name = "help" then .error (help rest)
    else
      let job ← Job.read name rest
      .ok ⟨(g.all "config").head?.getD "wikigraph", (g.all "schema").head?.getD "schema.toml", job⟩

end Arguments

end ClaimTables.Command

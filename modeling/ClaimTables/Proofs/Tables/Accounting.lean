import ClaimTables.Proofs.Row.Faults
import ClaimTables.Proofs.Tables.Again
import ClaimTables.Proofs.Tables.Batches

/-!
What an update accounts for. Main statement: it edits nothing until the values, the row, the unique values and the
properties of all given fields have passed; then it attempts each given field once, in the order of the model's fields,
and its result tells which of them took an edit and which failed.
-/

namespace ClaimTables.Tables

open Tables.Action

variable {t : Tables} {c : Client} {model id : String} {claims : ClaimSet} {changes : List Change}

/--
Changes for the fields that values are given for, each once and in the order of the model's fields, with the properties
that are known of these.
-/
structure Accounts (s : Schema) (model : String) (values : Values) (m : Mappings) (changes : List Change) : Prop where
  ordered : ∃ fields, s.fields model = .ok fields ∧ changes.map (fun change => (change.field, change.value)) =
    fields.filterMap fun f => (values.given f).map fun v => (f, v)
  resolved : ∀ change ∈ changes, m.fields.lookup change.field.key = some change.property
  all : ∀ name ∈ values.map (·.1), name ∈ changes.map (·.field.field.name)
  once : (changes.map (·.field.field.name)).Nodup

/-- Changes that are attempted in turn, whether they fail or not, with what is exchanged for them and how they end. -/
inductive Attempted (c : Client) (model id : String) (claims : ClaimSet) :
    List Change → Session → List Exchange → List (String × Except Error Bool) → Session → Prop
  | nil (s : Session) : Attempted c model id claims [] s [] [] s
  | cons {change : Change} {rest : List Change} {s s₁ s' : Session} {first more : List Exchange} {r : Except Error Bool}
    {results : List (String × Except Error Bool)} (h : (applyChange c model id claims change).Goes s first r s₁)
    (hrest : Attempted c model id claims rest s₁ more results s') :
    Attempted c model id claims (change :: rest) s (first ++ more) ((change.field.field.name, r) :: results) s'

/-- The fields that took an edit and those that failed with the reasons, both in the order of the attempts. -/
structure Sorted (results : List (String × Except Error Bool)) (edited : List String) (failed : List (String × String)) :
    Prop where
  edited_order : edited.Sublist (results.map (·.1))
  failed_order : (failed.map (·.1)).Sublist (results.map (·.1))
  mem_edited : ∀ name, name ∈ edited ↔ (name, .ok true) ∈ results
  mem_failed : ∀ name reason, (name, reason) ∈ failed ↔ ∃ e, (name, .error e) ∈ results ∧ e.message = reason
  disjoint : edited.Disjoint (failed.map (·.1))
  together : ∀ name, (name ∈ edited ∨ name ∈ failed.map (·.1)) ↔ ∃ r, (name, r) ∈ results ∧ r ≠ .ok false

inductive Reports (id : String) (results : List (String × Except Error Bool)) : Except Error (List String) → Prop
  | success {edited : List String} (h : Sorted results edited []) : Reports id results (.ok edited)
  | partly {edited : List String} {failed : List (String × String)} (h : Sorted results edited failed)
    (hedited : edited ≠ []) (hfailed : failed ≠ []) : Reports id results (.error (.partialWrite id edited failed))
  | failure {failed : List (String × String)} {before after : List (String × Except Error Bool)} {name : String} {e : Error}
    (h : Sorted results [] failed) (hresults : results = before ++ (name, .error e) :: after)
    (hbefore : ∀ a ∈ before, a.2 = .ok false) : Reports id results (.error e)

section Reporting

variable {results : List (String × Except Error Bool)}

theorem mem_applied {name : String} : name ∈ applied results ↔ (name, .ok true) ∈ results := by
  rw [applied, List.mem_filterMap]
  constructor
  · rintro ⟨⟨name', _ | _ | _⟩, hmem, h⟩
    · cases h
    · cases h
    · obtain rfl := Option.some.inj h
      exact hmem
  · exact fun hmem => ⟨_, hmem, rfl⟩

theorem mem_failures {name : String} {e : Error} : (name, e) ∈ failures results ↔ (name, .error e) ∈ results := by
  rw [failures, List.mem_filterMap]
  constructor
  · rintro ⟨⟨name', _ | _⟩, hmem, h⟩
    · obtain ⟨rfl, rfl⟩ := Prod.mk.inj (Option.some.inj h)
      exact hmem
    · cases h
  · exact fun hmem => ⟨_, hmem, rfl⟩

theorem sublist_results (results : List (String × Except Error Bool)) :
    (applied results).Sublist (results.map (·.1)) ∧ ((failures results).map (·.1)).Sublist (results.map (·.1)) := by
  induction results with
  | nil => exact ⟨.slnil, .slnil⟩
  | cons a rest ih =>
    obtain ⟨name, _ | _ | _⟩ := a
    · exact ⟨ih.1.cons name, ih.2.cons_cons name⟩
    · exact ⟨ih.1.cons name, ih.2.cons name⟩
    · exact ⟨ih.1.cons_cons name, ih.2.cons name⟩

theorem sorted_results (hnodup : (results.map (·.1)).Nodup) :
    Sorted results (applied results) ((failures results).map fun e => (e.1, e.2.message)) := by
  have hnames : ((failures results).map fun e => (e.1, e.2.message)).map (·.1) = (failures results).map (·.1) :=
    List.map_map
  have hfailed (name : String) : name ∈ (failures results).map (·.1) ↔ ∃ e, (name, .error e) ∈ results := by
    simp only [List.mem_map, Prod.exists, exists_and_right, exists_eq_right, mem_failures]
  -- Names come once, so no field can be among those that took an edit and those that failed.
  refine ⟨(sublist_results results).1, hnames ▸ (sublist_results results).2, fun name => mem_applied, ?_, ?_, ?_⟩
  · intro name reason
    simp only [List.mem_map, Prod.exists, Prod.mk.injEq, mem_failures]
    constructor
    · rintro ⟨_, e, hmem, rfl, rfl⟩
      exact ⟨e, hmem, rfl⟩
    · rintro ⟨e, hmem, rfl⟩
      exact ⟨name, e, hmem, rfl, rfl⟩
  · intro name hedited hname
    rw [hnames, hfailed] at hname
    obtain ⟨e, he⟩ := hname
    cases List.inj_on_of_nodup_map hnodup (mem_applied.1 hedited) he rfl
  · intro name
    rw [hnames, hfailed, mem_applied]
    constructor
    · rintro (hmem | ⟨e, hmem⟩)
      · exact ⟨_, hmem, by simp⟩
      · exact ⟨_, hmem, by simp⟩
    · rintro ⟨_ | _ | _, hmem, hne⟩
      · exact .inr ⟨_, hmem⟩
      · exact absurd rfl hne
      · exact .inl hmem

theorem exists_first_failure {name : String} {e : Error} {more : List (String × Error)}
    (h : failures results = (name, e) :: more) :
    ∃ before after, results = before ++ (name, .error e) :: after ∧ ∀ a ∈ before, ∃ flag, a.2 = .ok flag := by
  induction results with
  | nil => cases h
  | cons a rest ih =>
    obtain ⟨name', e' | flag⟩ := a
    · obtain ⟨hfirst, -⟩ := List.cons.inj h
      obtain ⟨rfl, rfl⟩ := Prod.mk.inj hfirst
      exact ⟨[], rest, rfl, List.forall_mem_nil _⟩
    · obtain ⟨before, after, rfl, hbefore⟩ := ih h
      exact ⟨(name', .ok flag) :: before, after, rfl, List.forall_mem_cons.2 ⟨⟨flag, rfl⟩, hbefore⟩⟩

theorem reports_updateResult (id : String) (hnodup : (results.map (·.1)).Nodup) :
    Reports id results (updateResult id results) := by
  have hsorted := sorted_results hnodup
  unfold updateResult
  split
  · next hnone =>
    rw [hnone] at hsorted
    exact .success hsorted
  · next name e more hfailures =>
    rw [hfailures] at hsorted
    split
    · next hempty =>
      rw [List.isEmpty_iff.1 hempty] at hsorted
      obtain ⟨before, after, hresults, hbefore⟩ := exists_first_failure hfailures
      -- No field took an edit, so those before the first that failed had nothing to change.
      refine .failure hsorted hresults fun a ha => ?_
      obtain ⟨flag, hflag⟩ := hbefore a ha
      cases flag with
      | false => exact hflag
      | true =>
        have hmem : (a.1, .ok true) ∈ results := by
          rw [hresults, ← hflag]
          exact List.mem_append_left _ ha
        exact absurd ((hsorted.mem_edited a.1).2 hmem) List.not_mem_nil
    · next hne => exact .partly hsorted (by simpa using hne) (List.cons_ne_nil _ _)

end Reporting

theorem Attempted.names {s s' : Session} {exchanged : List Exchange} {results : List (String × Except Error Bool)}
    (h : Attempted c model id claims changes s exchanged results s') :
    results.map (·.1) = changes.map (·.field.field.name) := by
  induction h with
  | nil s => rfl
  | cons _ _ ih => rw [List.map_cons, List.map_cons, ih]

theorem applyChanges_attempted {s s' : Session} {exchanged : List Exchange}
    {r : Except Error (List (String × Except Error Bool))}
    (h : (applyChanges c model id claims changes).Goes s exchanged r s') :
    ∃ results, r = .ok results ∧ Attempted c model id claims changes s exchanged results s' := by
  induction changes generalizing s exchanged r with
  | nil =>
    obtain ⟨rfl, rfl, rfl⟩ := Client.Action.goes_pure.1 h
    exact ⟨[], rfl, .nil _⟩
  | cons change rest ih =>
    rcases Client.Action.goes_bind.1 h with ⟨r₁, s₁, first, more, hfirst, hmore, rfl⟩ | ⟨e, hfailed, -⟩
    · obtain ⟨r₁, hfirst, ⟨⟩⟩ := Client.Action.goes_outcome.1 hfirst
      rcases Client.Action.goes_bind.1 hmore with ⟨results, s₂, more, last, hmore, hlast, rfl⟩ | ⟨e, hfailed, -⟩
      · obtain ⟨rfl, rfl, rfl⟩ := Client.Action.goes_pure.1 hlast
        obtain ⟨results, ⟨⟩, hattempted⟩ := ih hmore
        rw [List.append_nil]
        exact ⟨_, rfl, .cons hfirst hattempted⟩
      · obtain ⟨results, hok, -⟩ := ih hfailed
        cases hok
    · obtain ⟨r', -, hok⟩ := Client.Action.goes_outcome.1 hfailed
      cases hok

theorem update_goes {m m' : Mappings} {s s' : Session} {exchanged : List Exchange} {values : Values}
    {r : Except Error (List String)} (h : (t.update model id values).Goes m s exchanged r m' s') :
    (∃ e, (t.changesFor model id values).Goes m s exchanged (.error e) m' s' ∧ r = .error e) ∨
    ∃ claims changes s₁ before after results, (t.changesFor model id values).Goes m s before (.ok (claims, changes)) m' s₁ ∧
      Attempted t.client model id claims changes s₁ after results s' ∧ r = updateResult id results ∧
      exchanged = before ++ after := by
  rw [update_eq] at h
  rcases goes_bind.1 h with ⟨⟨claims, changes⟩, m₁, s₁, before, rest, hfound, hrest, rfl⟩ | hfailed
  · rcases goes_bind.1 hrest with ⟨results, m₂, s₂, after, last, hsent, hlast, rfl⟩ | ⟨e, hfailed, -⟩
    · obtain ⟨hclient, rfl⟩ := goes_ofClient.1 hsent
      obtain ⟨results, ⟨⟩, hattempted⟩ := applyChanges_attempted hclient
      obtain ⟨rfl, rfl, rfl, rfl⟩ := goes_ofExcept.1 hlast
      exact .inr ⟨claims, changes, s₁, before, after, results, hfound, hattempted, rfl, by simp⟩
    · obtain ⟨results, hok, -⟩ := applyChanges_attempted (goes_ofClient.1 hfailed).1
      cases hok
  · exact .inl hfailed

section Preparing

variable {m m' : Mappings} {s s' : Session} {exchanged : List Exchange} {values : Values}

theorem changesFor_asks {r : Except Error (ClaimSet × List Change)}
    (h : (t.changesFor model id values).Goes m s exchanged r m' s') :
    ∀ y ∈ exchanged, y.request = .get (claimsParameters id) ∨ t.Prepares y.request := by
  let P (r : Request) : Prop := r = .get (claimsParameters id) ∨ t.Prepares r
  have hsteady : t.Steady World.noting fun _ trace => ∀ y ∈ trace, P y.request := steady_of_prepares fun _ => Or.inr
  have hasks := hsteady.changesFor model id values fun _ => keeps_of_sends (sends_getClaims t.client (.inl rfl))
  exact (Ensures.goes (hasks m s [] (List.forall_mem_nil _)) h).1

theorem Prepares.resolves {r : Request} (h : t.Prepares r) : Resolves r := by
  cases h with
  | session h => exact .session h
  | search label kind => exact .search _ _ _
  | property | type => exact .make _ _ _
  | query text => exact .query text

theorem gains_changesFor (t : Tables) (model id : String) (values : Values) :
    (t.changesFor model id values).Gains World.noting m s [] fun e m' => ∃ checked,
      values.validate t.schema model false = .ok checked ∧
      e.2.map (fun change => (change.field, change.value)) = checked ∧
      ∀ change ∈ e.2, m'.fields.lookup change.field.key = some change.property := by
  refine (Gains.of_except _).bind fun checked _ _ _ _ hvalid => ?_
  rw [ownedClaims_eq, bind_assoc]
  refine (Gains.of_client _).bind fun found _ _ _ _ _ => ?_
  refine ((t.closed_gains .noting).checkOwned model id found _ _ _).bind fun claims _ _ _ _ _ => ?_
  refine ((t.closed_gains .noting).checkUnique (some id) checked _ _ _).bind fun _ _ _ _ _ _ => ?_
  refine (gains_changes checked).bind fun changes _ _ _ _ hchanges => ?_
  exact .of_pure ⟨checked, hvalid.1, hchanges.1, fun change hchange => (hchanges.2 change hchange).1⟩

theorem changesFor_accounts (hschema : t.schema.Valid)
    (h : (t.changesFor model id values).Goes m s exchanged (.ok (claims, changes)) m' s') :
    Accounts t.schema model values m' changes := by
  obtain ⟨_, hvalid, rfl, hresolved⟩ := (Ensures.goes (t.gains_changesFor model id values) h).2 _ rfl
  obtain ⟨fields, hfields, hchanges, -⟩ := Values.validate_eq_ok hvalid
  have hnames : changes.map (·.field.field.name) =
      ((changes.map fun change => (change.field, change.value)).map (·.1)).map (·.field.name) := by
    rw [List.map_map, List.map_map]
    rfl
  refine ⟨⟨fields, hfields, hchanges⟩, hresolved, fun name hname => ?_, ?_⟩
  · obtain ⟨f, hf, rfl⟩ := List.mem_map.1 (Values.names_of_validate hvalid hfields name hname)
    obtain ⟨v, hv⟩ : ∃ v, values.given f = some v := by
      obtain ⟨e, he, hkey⟩ := List.mem_map.1 hname
      refine Option.ne_none_iff_exists'.1 fun hnone => ?_
      simpa [hkey] using List.lookup_eq_none_iff.1 hnone e he
    have hmem : (f, v) ∈ fields.filterMap fun f => (values.given f).map fun v => (f, v) :=
      List.mem_filterMap.2 ⟨f, hf, Option.map_eq_some_iff.2 ⟨v, hv, rfl⟩⟩
    rw [hnames, hchanges]
    exact List.mem_map_of_mem (List.mem_map_of_mem hmem)
  · rw [hnames, hchanges]
    exact ((sublist_checked values fields).map _).nodup (hschema.nodup hfields)

end Preparing

/--
However the store answers, an update first checks the values, the row and the unique values and finds the properties of
all given fields; until then nothing is altered, and if one of these fails, so does the update. Then it attempts the
change of each given field, once, in the order of the model's fields and whether others failed or not, and it reports
which of them took an edit and which failed.
-/
theorem update_accounts (t : Tables) {models : List Model} (hschema : Schema.ofModels models = .ok t.schema)
    (model id : String) (values : Values) (m : Mappings) (s : Session) :
    (t.update model id values).Ensures .noting m s [] fun r m' s' trace =>
      ∃ before after found s₁, trace = before ++ after ∧ (t.changesFor model id values).Goes m s before found m' s₁ ∧
        (∀ x ∈ before, x.request = .get (claimsParameters id) ∨ t.Prepares x.request) ∧ (∀ x ∈ before, ¬Alters x.request) ∧
        match found with
        | .error e => after = [] ∧ r = .error e
        | .ok (claims, changes) => Accounts t.schema model values m' changes ∧ ∃ results,
          Attempted t.client model id claims changes s₁ after results s' ∧ Reports id results r := by
  refine ensures_of_goes fun trace r m' s' hgoes => ?_
  have hquiet {exchanged : List Exchange} (hasks : ∀ x ∈ exchanged, x.request = .get (claimsParameters id) ∨
      t.Prepares x.request) : ∀ x ∈ exchanged, ¬Alters x.request := by
    intro x hx
    rcases hasks x hx with hread | hprepares
    · rw [hread]
      exact fun h => h
    · exact hprepares.resolves.not_alters
  rcases update_goes hgoes with ⟨e, hfailed, rfl⟩ | ⟨claims, changes, s₁, before, after, results, hfound, hattempted, rfl, rfl⟩
  · have hasks := changesFor_asks hfailed
    exact ⟨trace, [], _, _, by simp, hfailed, hasks, hquiet hasks, rfl, rfl⟩
  · have hasks := changesFor_asks hfound
    have haccounts := changesFor_accounts (Schema.valid_of_ofModels hschema) hfound
    have hreports := reports_updateResult id (hattempted.names ▸ haccounts.once)
    exact ⟨before, after, _, s₁, by simp, hfound, hasks, hquiet hasks, haccounts, results, hattempted, hreports⟩

section Scripted

def titledPerson : Tables :=
  personTables [⟨"name", .text, false, false⟩, ⟨"note", .text, true, false⟩, ⟨"title", .text, true, false⟩]

@[irreducible]
def untitled : Values := [("name", .text "Ada L."), ("note", .text "countess"), ("title", .null)]

/-- The name is replaced, the note is as it is to be, and the removal of the title is turned down. -/
def titleKept : Conversation :=
  .start ([personReply "Q7" [("P5", [claimJson "Q7$c" (Claim.stringDatavalue "Ada")]),
      ("P6", [claimJson "Q7$d" (Claim.stringDatavalue "countess")]),
      ("P7", [claimJson "Q7$e" (Claim.stringDatavalue "Lady")])],
    foundReply "Q10" "Person in test", foundReply "P5" "Person.name in test", foundReply "P6" "Person.note in test",
    foundReply "P7" "Person.title in test"] ++ loginReplies ++
    [successReply, errorReply "modification-failed" "Malformed"]) 0 ""

def onlyRenamed : Except Error (List String) :=
  .error (.partialWrite "Q7" ["name"] [("title", "Store rejected edit (Q7): modification-failed: Malformed")])

theorem update_accounts_untitled : Schema.ofModels titledPerson.schema.models = .ok titledPerson.schema ∧
    ∃ before after claims changes m' s₁ s' results,
      (titledPerson.update "Person" "Q7" untitled).follow .empty .fresh titleKept = (onlyRenamed, before ++ after) ∧
      (titledPerson.changesFor "Person" "Q7" untitled).Goes .empty .fresh before (.ok (claims, changes)) m' s₁ ∧
      (∀ x ∈ before, ¬Alters x.request) ∧ Accounts titledPerson.schema "Person" untitled m' changes ∧
      Attempted titledPerson.client "Person" "Q7" claims changes s₁ after results s' ∧
      Reports "Q7" results onlyRenamed := by
  have hschema : Schema.ofModels titledPerson.schema.models = .ok titledPerson.schema := rfl
  have hrun := (update_accounts titledPerson hschema "Person" "Q7" untitled .empty .fresh).followed titleKept
  have hresult : ((titledPerson.update "Person" "Q7" untitled).follow .empty .fresh titleKept).1 = onlyRenamed := by
    decide +kernel
  have haccepted : ∃ x ∈ ((titledPerson.update "Person" "Q7" untitled).follow .empty .fresh titleKept).2, Accepted x := by
    decide +kernel
  generalize (titledPerson.update "Person" "Q7" untitled).follow .empty .fresh titleKept = run at hrun hresult haccepted ⊢
  obtain ⟨r, trace⟩ := run
  obtain rfl : r = onlyRenamed := hresult
  obtain ⟨m', s', before, after, found, s₁, htrace, hfound, -, hquiet, hends⟩ := hrun
  obtain rfl : trace = before ++ after := htrace
  cases found with
  | error e =>
    obtain ⟨rfl, -⟩ := hends
    obtain ⟨x, hx, hxa⟩ := haccepted
    exact absurd hxa.alters (hquiet x (by simpa using hx))
  | ok found =>
    obtain ⟨claims, changes⟩ := found
    obtain ⟨haccounts, results, hattempted, hreports⟩ := hends
    exact ⟨hschema, before, after, claims, changes, m', s₁, s', results, rfl, hfound, hquiet, haccounts, hattempted,
      hreports⟩

end Scripted

end ClaimTables.Tables

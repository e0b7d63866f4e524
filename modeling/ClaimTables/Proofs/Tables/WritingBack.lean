import ClaimTables.Proofs.Row.Exact
import ClaimTables.Proofs.Row.Faults
import ClaimTables.Proofs.Tables.Settling

/-!
Rows that were read are written back. Whatever the solutions of an answer hold, what is read of them lies within what may be
written. Main statement: the values of a row pass the checks for a new row and for an update alike, and where the claims of a
field are read as what the row shows, writing the field sends nothing.
-/

namespace ClaimTables

open Sparql (Binding Solution Solutions)

theorem Keyed.lookup_of_mem {α : Type} {entries : List (String × α)} (hnodup : (entries.map (·.1)).Nodup) {key : String}
    {value : α} (h : (key, value) ∈ entries) : (ofList entries).lookup key = some value := by
  obtain ⟨before, after, hentries⟩ := List.append_of_mem (List.mem_reverse.2 h)
  rw [lookup_ofList, hentries, List.lookup_eq_some_iff]
  refine ⟨before, after, rfl, fun e he => bne_iff_ne.2 ?_⟩
  have hreversed : ((before ++ (key, value) :: after).map (·.1)).Nodup := by
    rw [← hentries, List.map_reverse]
    exact List.nodup_reverse.2 hnodup
  rw [List.map_append, List.nodup_append] at hreversed
  exact (hreversed.2.2 _ (List.mem_map_of_mem he) _ (by simp)).symm

namespace Value

theorem Storable.of_equals {v current : Value} (hcurrent : current.Storable) (h : current.equals v = true) : v.Storable := by
  cases current with
  | number x =>
    cases v with
    | number y =>
      cases x with
      | finite =>
        cases y with
        | finite => exact rfl
        | infinite | nan => cases h
      | infinite | nan => cases hcurrent
    | null | boolean _ | date _ | reference _ | text _ => exact nomatch h
  | _ => exact of_decide_eq_true h ▸ hcurrent

end Value

theorem Sparql.Binding.storable_of_decode? {type : FieldType} {b : Binding} {v : Value} (h : b.decode? type = some v) :
    v.Storable := by
  cases type with
  | text => exact Option.some.inj h ▸ True.intro
  | boolean =>
    obtain ⟨x, rfl⟩ := Value.exists_of_boolean? h
    exact True.intro
  | number =>
    obtain ⟨x, hx, rfl⟩ := Option.map_eq_some_iff.1 h
    exact Binary64.isFinite_of_finite? hx
  | date =>
    obtain ⟨d, -, rfl⟩ := Option.map_eq_some_iff.1 h
    exact True.intro
  | reference target =>
    obtain ⟨i, -, rfl⟩ := Option.map_eq_some_iff.1 h
    exact ⟨i, ItemId.ofText?_text i⟩

theorem RowStream.Gives.allowed {solution : Solution} {f : ResolvedField} {v : Value} (h : Gives solution f.field v) :
    Values.Allowed f v := by
  rcases h with ⟨b, -, hdecode⟩ | ⟨-, hnullable, rfl⟩
  · exact .inr ⟨Binding.fits_of_decode? hdecode, Claim.exists_datavalue_iff.2 (Binding.storable_of_decode? hdecode)⟩
  · exact .inl ⟨rfl, hnullable⟩

namespace Values

variable {s : Schema} {model : String} {values : Values} {creating : Bool} {checked : CheckedValues} {f : ResolvedField}
  {v : Value}

theorem check_of_allowed (h : Allowed f v) : check model f v = .ok () := by
  cases hcheck : check model f v with
  | ok => rfl
  | error e =>
    obtain ⟨reason, hunfit, -⟩ := unfit_of_check hcheck
    exact absurd h hunfit.not_allowed

theorem checkFields_of_given (h : ∀ e ∈ checked, values.given e.1 = some e.2 ∧ Allowed e.1 e.2) :
    values.checkFields model creating (checked.map (·.1)) = .ok checked := by
  induction checked with
  | nil => rfl
  | cons e rest ih =>
    rw [List.forall_mem_cons] at h
    have hgiven : values.lookup e.1.field.name = some e.2 := h.1.1
    rw [List.map_cons, checkFields, hgiven]
    dsimp only
    rw [check_of_allowed h.1.2, ih h.2]
    rfl

theorem validate_of_given (hfields : s.fields model = .ok (checked.map (·.1)))
    (hnames : ∀ name ∈ values.map (·.1), name ∈ checked.map (·.1.field.name))
    (h : ∀ e ∈ checked, values.given e.1 = some e.2 ∧ Allowed e.1 e.2) : values.validate s model creating = .ok checked := by
  have hunknown : values.unknown? (checked.map (·.1)) = none := by
    refine List.find?_eq_none.2 fun name hname => ?_
    obtain ⟨e, he, rfl⟩ := List.mem_map.1 (hnames name hname)
    simpa using ⟨e.1, ⟨e.2, he⟩, rfl⟩
  rw [validate, hfields]
  dsimp only
  rw [hunknown]
  exact checkFields_of_given h

theorem exists_checked {P : ResolvedField → Value → Prop} {fields : List ResolvedField} {entries : List (String × Value)}
    (h : List.Forall₂ (fun f e => e.1 = f.field.name ∧ P f e.2) fields entries) :
    ∃ checked : CheckedValues, checked.map (·.1) = fields ∧ checked.map (fun e => (e.1.field.name, e.2)) = entries ∧
      ∀ e ∈ checked, P e.1 e.2 := by
  induction h with
  | nil => exact ⟨[], rfl, rfl, List.forall_mem_nil _⟩
  | @cons f e fields entries hfirst _ ih =>
    obtain ⟨checked, rfl, rfl, hchecked⟩ := ih
    obtain ⟨name, v⟩ := e
    obtain ⟨rfl, hv⟩ := hfirst
    exact ⟨(f, v) :: checked, rfl, rfl, List.forall_mem_cons.2 ⟨hv, hchecked⟩⟩

theorem validate_of_shown (hs : s.Valid) (hfields : s.fields model = .ok (checked.map (·.1)))
    (hallowed : ∀ e ∈ checked, Allowed e.1 e.2) :
    validate s model (Keyed.ofList (checked.map fun e => (e.1.field.name, e.2))) creating = .ok checked := by
  have hkeys : (checked.map fun e => (e.1.field.name, e.2)).map (·.1) = (checked.map (·.1)).map (·.field.name) := by
    rw [List.map_map, List.map_map]
    rfl
  have hnodup := hkeys ▸ hs.nodup hfields
  refine validate_of_given hfields (fun name hname => ?_) fun e he => ⟨?_, hallowed e he⟩
  · rw [((Keyed.perm_ofList hnodup).map _).mem_iff, hkeys, List.map_map] at hname
    exact hname
  · exact Keyed.lookup_of_mem hnodup (List.mem_map.2 ⟨e, he, rfl⟩)

end Values

namespace ClaimEdit

/-- That the claims of a property say what is shown of a field: there is none for null, and else one that is read as the value. -/
inductive Says (type : FieldType) : Value → List StoredClaim → Prop
  | nothing : Says type .null []
  | value (guid : String) {document : Json} {current v : Value} (hread : Claim.ofDatavalue? type document = some current)
    (hequals : current.equals v = true) : Says type v [⟨guid, some document⟩]

theorem plan_eq_nil_iff {type : FieldType} {v : Value} {stored : List StoredClaim} :
    plan type v stored = .ok [] ↔ Says type v stored := by
  rw [plan_eq_ok]
  constructor
  · rintro (⟨hnull, hnothing⟩ | ⟨hnull, snak, -, hnothing⟩)
    · obtain rfl := Value.eq_null_of_isNull hnull
      cases stored with
      | nil => exact .nothing
      | cons first rest => cases hnothing
    · -- A plan that sets a value is empty only if the first claim has the value, and is the only one.
      cases stored with
      | nil => cases hnothing
      | cons first extra =>
        rw [setting] at hnothing
        obtain ⟨hfirst, hextra⟩ := List.append_eq_nil_iff.1 hnothing.symm
        split at hfirst
        · next hcurrent =>
          obtain ⟨document, current, hdocument, hread, hequals⟩ := isCurrent_eq_true.1 hcurrent
          obtain ⟨guid, datavalue⟩ := first
          obtain rfl : datavalue = some document := hdocument
          cases extra with
          | nil => exact .value guid hread hequals
          | cons second rest => cases hextra
        · cases hfirst
  · rintro (_ | ⟨guid, hread, hequals⟩)
    · exact .inl ⟨rfl, rfl⟩
    · have hstorable := (Claim.storable_of_ofDatavalue? hread).1.of_equals hequals
      obtain ⟨snak, hsnak⟩ := Claim.exists_snak_iff.2 hstorable
      refine .inr ⟨?_, snak, hsnak, (setting_of_current (isCurrent_eq_true.2 ⟨_, _, rfl, hread, hequals⟩) snak).symm⟩
      cases v with
      | null => cases hstorable
      | _ => rfl

end ClaimEdit

namespace Tables

theorem applyChange_of_says (c : Client) (model id : String) {claims : ClaimSet} {change : Change}
    (h : ClaimEdit.Says change.field.field.type change.value (claims.get change.property)) :
    applyChange c model id claims change = pure false := by
  rw [applyChange, ClaimEdit.plan_eq_nil_iff.2 h]
  rfl

/--
The values of every row that is read of an answer pass the checks of its model, for a new row and for an update, and those that
are written are the ones that the row shows, in its order. Where the claims of a field are none for a null, or a single one that
is read as the value, writing the field sends no request and tells that it took no edit.
-/
theorem rows_written_back {models : List Model} {s : Schema} (hschema : Schema.ofModels models = .ok s) {model : String}
    {answer : Solutions} {stream : RowStream} (hstream : RowStream.ofSolutions s model answer = .ok stream) {row : Row}
    (hrow : .ok row ∈ stream.toList) :
    ∃ checked : CheckedValues, (∀ creating, Values.validate s model (Keyed.ofList row.values) creating = .ok checked) ∧
      checked.map (fun e => (e.1.field.name, e.2)) = row.values ∧
      ∀ e ∈ checked, ∀ (claims : ClaimSet) (p : PropertyId), ClaimEdit.Says e.1.field.type e.2 (claims.get p) →
        ∀ (c : Client) (id : String), applyChange c model id claims ⟨e.1, p, e.2⟩ = pure false := by
  have hs := Schema.valid_of_ofModels hschema
  cases hfields : s.fields model with
  | error e =>
    rw [RowStream.ofSolutions, hfields] at hstream
    cases hstream
  | ok fields =>
    rw [RowStream.ofSolutions, hfields] at hstream
    obtain rfl := Except.ok.inj hstream
    obtain ⟨n, hn⟩ := List.getElem?_of_mem hrow
    obtain ⟨solution, -, hmakes⟩ := RowStream.exists_makes rfl hn
    have hallowed : List.Forall₂ (fun f e => e.1 = f.field.name ∧ Values.Allowed f e.2) fields row.values :=
      (List.forall₂_map_left_iff.1 hmakes.values).imp fun f e h => ⟨h.1, h.2.allowed⟩
    obtain ⟨checked, rfl, hshown, hchecked⟩ := Values.exists_checked hallowed
    refine ⟨checked, fun creating => ?_, hshown, fun e _ claims p hsaid c id => applyChange_of_says c model id hsaid⟩
    rw [← hshown]
    exact Values.validate_of_shown hs hfields hchecked

section Scripted

def listedSchema : Schema :=
  ⟨[⟨"Person", none, [⟨"name", .text, false, false⟩, ⟨"age", .number, false, false⟩, ⟨"active", .boolean, false, false⟩,
    ⟨"born", .date, true, false⟩, ⟨"boss", .reference "Person", true, false⟩, ⟨"nick", .text, true, false⟩]⟩]⟩

def listedSolution : Solution :=
  [("item", ⟨"uri", "https://wiki.test/entity/Q007", none, none⟩), ("f_name", .literal "null"), ("f_age", .literal "++007.50"),
    ("f_active", .literal "true"), ("f_born", .literal "-0044-03-15T00:00:00Z"),
    ("f_boss", ⟨"uri", "https://wiki.test/entity/Q09", none, none⟩)]

def listedRow : Row :=
  ⟨"Q7", [("name", .text "null"), ("age", .number (.ofDecimal false ⟨75, -1⟩)), ("active", .boolean true),
    ("born", .date ⟨-44, 3, 15, by decide⟩), ("boss", .reference "Q9"), ("nick", .null)]⟩

def listedClaims : ClaimSet :=
  ⟨[(⟨6⟩, [⟨"Q7$a", some (Claim.typed "quantity" (.ofEntries [("amount", .string "+7.50")]))⟩]),
    (⟨9⟩, [⟨"Q7$b", some (Claim.itemDatavalue ⟨9⟩)⟩])]⟩

def listedChanges : List Change :=
  [⟨⟨"Person", ⟨"age", .number, false, false⟩⟩, ⟨6⟩, .number (.ofDecimal false ⟨75, -1⟩)⟩,
    ⟨⟨"Person", ⟨"boss", .reference "Person", true, false⟩⟩, ⟨9⟩, .reference "Q9"⟩,
    ⟨⟨"Person", ⟨"nick", .text, true, false⟩⟩, ⟨10⟩, .null⟩]

theorem rows_written_back_listed : Schema.ofModels listedSchema.models = .ok listedSchema ∧
    (∃ stream, RowStream.ofSolutions listedSchema "Person" ⟨[], [listedSolution]⟩ = .ok stream ∧
      stream.toList = [.ok listedRow]) ∧
    (∀ creating, (Values.validate listedSchema "Person" (Keyed.ofList listedRow.values) creating).isOk = true) ∧
    ∀ change ∈ listedChanges, ∀ (c : Client) (id : String), applyChange c "Person" id listedClaims change = pure false := by
  have hschema : Schema.ofModels listedSchema.models = .ok listedSchema := rfl
  have hstream : RowStream.ofSolutions listedSchema "Person" ⟨[], [listedSolution]⟩ =
      .ok ⟨"Person", (listedSchema.models.flatMap Schema.declared).map (·.field), [listedSolution], []⟩ := rfl
  have hrows : RowStream.toList
      ⟨"Person", (listedSchema.models.flatMap Schema.declared).map (·.field), [listedSolution], []⟩ = [.ok listedRow] := by
    decide +kernel
  obtain ⟨checked, hvalid, -, hwrites⟩ := rows_written_back hschema hstream (hrows ▸ List.mem_singleton_self _)
  have hchecked : Values.validate listedSchema "Person" (Keyed.ofList listedRow.values) true =
      .ok ((listedSchema.models.flatMap Schema.declared).zip (listedRow.values.map (·.2))) := by decide +kernel
  obtain rfl := Except.ok.inj ((hvalid true).symm.trans hchecked)
  have hmem : ∀ change ∈ listedChanges, (change.field, change.value) ∈
      (listedSchema.models.flatMap Schema.declared).zip (listedRow.values.map (·.2)) := by decide +kernel
  have hage : Claim.ofDatavalue? .number (Claim.typed "quantity" (.ofEntries [("amount", .string "+7.50")])) =
      some (.number (.ofDecimal false ⟨75, -1⟩)) := by decide +kernel
  have hboss : Claim.ofDatavalue? (.reference "Person") (Claim.itemDatavalue ⟨9⟩) = some (.reference "Q9") := by decide +kernel
  have hsaid : ∀ change ∈ listedChanges,
      ClaimEdit.Says change.field.field.type change.value (listedClaims.get change.property) :=
    List.forall_mem_cons.2 ⟨.value "Q7$a" hage (by decide +kernel),
      List.forall_mem_cons.2 ⟨.value "Q7$b" hboss (by decide +kernel), List.forall_mem_singleton.2 .nothing⟩⟩
  exact ⟨hschema, ⟨_, hstream, hrows⟩, fun creating => by rw [hvalid]; rfl, fun change hchange =>
    hwrites (change.field, change.value) (hmem change hchange) listedClaims change.property (hsaid change hchange)⟩

end Scripted

end Tables

end ClaimTables

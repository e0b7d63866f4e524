import ClaimTables.Proofs.Query.Twins
import ClaimTables.Proofs.Tables.Scoping

/-!
Queries cannot be broken out of: with all mappings known, two queries that differ in the tag and in texts that are
compared with text fields are answered alike, with an error or with texts whose tokens outside of literals are the same.
-/

namespace ClaimTables

/-- That the properties of all fields of a schema and the items of its models are known. -/
structure Mappings.Covers (m : Mappings) (s : Schema) : Prop where
  fields : ∀ f, s.Effective f → ∃ p, m.fields.lookup f.key = some p ∧ m.owners.lookup p = some f.key
  types : ∀ model ∈ s.models, ∃ i, m.types.lookup model.name = some i

namespace Tables

variable {α β : Type} {m : Mappings} {s : Session}

def Action.Gives (m : Mappings) (s : Session) (x : Action α) (r : Except Error α) : Prop :=
  (x.run.run m).run s = .done ((r, m), s)

namespace Action.Gives

variable {x : Action α} {f : α → Action β}

theorem of_pure (a : α) : Gives m s (pure a) (.ok a) := rfl

theorem of_throw (e : Error) : Gives m s (throw e : Action α) (.error e) := rfl

theorem of_except {given r : Except Error α} (h : given = r) : Gives m s (ofExcept given) r := by
  subst h
  cases given <;> rfl

theorem of_mappings : Gives m s mappings (.ok m) := rfl

theorem run_bind (x : Action α) (f : α → Action β) : ((x >>= f).run.run m).run s = (x.run.run m).run s >>= fun r =>
    match r.1.1 with
    | .ok a => ((f a).run.run r.1.2).run r.2
    | .error e => .done ((.error e, r.1.2), r.2) := by
  refine congrArg ((x.run.run m).run s >>= ·) (funext fun r => ?_)
  obtain ⟨⟨r, m'⟩, s'⟩ := r
  cases r <;> rfl

theorem bind {a : α} {r : Except Error β} (hx : x.Gives m s (.ok a)) (hf : (f a).Gives m s r) :
    (x >>= f).Gives m s r := by
  rw [Gives, run_bind, hx]
  exact hf

theorem bind_error {e : Error} (hx : x.Gives m s (.error e)) : (x >>= f).Gives m s (.error e) := by
  rw [Gives, run_bind, hx]
  rfl

theorem unique {r r' : Except Error α} (h : x.Gives m s r) (h' : x.Gives m s r') : r = r' := by
  rw [Gives, h] at h'
  cases h'
  rfl

theorem map {r : Except Error α} (hx : x.Gives m s r) (g : α → β) : (g <$> x).Gives m s (r.map g) := by
  rw [map_eq_pure_bind]
  cases r with
  | ok a => exact hx.bind (of_pure (g a))
  | error e => exact hx.bind_error

end Action.Gives

open Tables.Action

theorem gives_lookUpProperty {t : Tables} {f : ResolvedField} {p : PropertyId} (hp : m.fields.lookup f.key = some p) :
    (t.lookUpProperty f).Gives m s (.ok p) := by
  refine Gives.of_mappings.bind ?_
  rw [hp]
  exact .of_pure p

theorem gives_own {p : PropertyId} {key : FieldKey} (howner : m.owners.lookup p = some key) :
    (own p key).Gives m s (.ok ()) := by
  refine Gives.of_mappings.bind ?_
  rw [howner]
  dsimp only
  rw [if_neg (not_not_intro rfl)]
  exact .of_pure ()

theorem gives_propertyOf {t : Tables} {f : ResolvedField} {p : PropertyId} (hp : m.fields.lookup f.key = some p)
    (howner : m.owners.lookup p = some f.key) : (t.propertyOf f).Gives m s (.ok p) :=
  (gives_lookUpProperty hp).bind ((gives_own howner).bind (.of_pure p))

theorem gives_propertiesOf {fields : List ResolvedField}
    (h : ∀ f ∈ fields, ∃ p, m.fields.lookup f.key = some p ∧ m.owners.lookup p = some f.key) :
    ∃ ps, ∀ t : Tables, (t.propertiesOf fields).Gives m s (.ok ps) := by
  induction fields with
  | nil => exact ⟨[], fun t => .of_pure []⟩
  | cons f rest ih =>
    rw [List.forall_mem_cons] at h
    obtain ⟨⟨p, hp, howner⟩, hrest⟩ := h
    obtain ⟨ps, hps⟩ := ih hrest
    exact ⟨(f.key, p) :: ps, fun t => (gives_propertyOf hp howner).bind ((hps t).bind (.of_pure _))⟩

theorem gives_typeAlong {chain : List Model} (h : ∀ model ∈ chain, ∃ i, m.types.lookup model.name = some i)
    (parent : Option ItemId) : ∃ i, ∀ t : Tables, (t.typeAlong parent chain).Gives m s (.ok i) := by
  induction chain generalizing parent with
  | nil => exact ⟨parent, fun t => .of_pure parent⟩
  | cons first rest ih =>
    rw [List.forall_mem_cons] at h
    obtain ⟨⟨i, hi⟩, hrest⟩ := h
    obtain ⟨j, hj⟩ := ih hrest (some i)
    refine ⟨j, fun t => Gives.bind (a := i) ?_ (hj t)⟩
    refine Gives.of_mappings.bind ?_
    rw [hi]
    exact .of_pure i

theorem gives_typeItem {schema : Schema} (hm : m.Covers schema) (model : String) :
    ∃ r, ∀ t : Tables, t.schema = schema → (t.typeItem model).Gives m s r := by
  cases hchain : schema.ancestry model with
  | error e =>
    exact ⟨.error e, fun t ht => (Gives.of_except (ht ▸ hchain)).bind_error⟩
  | ok chain =>
    have hknown : ∀ m' ∈ chain, ∃ i, m.types.lookup m'.name = some i := fun m' hm' =>
      hm.types m' (List.mem_of_find?_eq_some (Schema.model_eq_ok (Schema.model_of_mem_ancestry hchain hm')).1)
    obtain ⟨i, hi⟩ := gives_typeAlong hknown none
    cases i with
    | none =>
      exact ⟨.error (.unknownModel model), fun t ht =>
        (Gives.of_except (ht ▸ hchain)).bind ((hi t).bind (.of_throw _))⟩
    | some i => exact ⟨.ok i, fun t ht => (Gives.of_except (ht ▸ hchain)).bind ((hi t).bind (.of_pure i))⟩

theorem gives_select {t : Tables} {model : String} {q : Query} {counting : Bool} {fields : List ResolvedField}
    {type : ItemId} {ps : List (FieldKey × PropertyId)} {o : Except Error Outline}
    (hfields : t.schema.fields model = .ok fields) (htype : (t.typeItem model).Gives m s (.ok type))
    (hps : (t.propertiesOf (q.mentions t.schema model fields counting)).Gives m s (.ok ps))
    (ho : q.outline t.schema model fields counting = o) :
    (t.select model q counting).Gives m s (o.map fun o =>
      if counting then o.count (t.vocabulary type ps) else o.rows (t.vocabulary type ps) q.limit q.offset) := by
  refine (Gives.of_except hfields).bind (htype.bind (hps.bind ?_))
  cases o with
  | error e => exact (Gives.of_except ho).bind_error
  | ok o => exact (Gives.of_except ho).bind (.of_pure _)

theorem select_twins {t : Tables} {models : List Model} (hschema : Schema.ofModels models = .ok t.schema)
    (hbase : '"' ∉ t.base.toList) (hm : m.Covers t.schema) (s : Session) (tag tag' : String) {model : String}
    {q q' : Query} (hq : Query.Twin t.schema model q q') (counting : Bool) :
    ∃ r r', ({ t with space := ⟨tag⟩ }.select model q counting).Gives m s r ∧
      ({ t with space := ⟨tag'⟩ }.select model q' counting).Gives m s r' ∧
      Alongside (Sparql.Select.Twin tag tag' (q.comparedTexts t.schema model) (q'.comparedTexts t.schema model)) r r' := by
  have hs := Schema.valid_of_ofModels hschema
  cases hfields : t.schema.fields model with
  | error e =>
    exact ⟨_, _, (Gives.of_except hfields).bind_error, (Gives.of_except hfields).bind_error, .error e e⟩
  | ok fields =>
    obtain ⟨type, htype⟩ := gives_typeItem (s := s) hm model
    have htype : ∀ tag, ({ t with space := ⟨tag⟩ }.typeItem model).Gives m s type := fun tag => htype _ rfl
    cases type with
    | error e =>
      exact ⟨_, _, (Gives.of_except hfields).bind (htype tag).bind_error,
        (Gives.of_except hfields).bind (htype tag').bind_error, .error e e⟩
    | ok type =>
      -- Both queries mention the same fields, of which the properties are known.
      have hknown : ∀ f ∈ q.mentions t.schema model fields counting, ∃ p, m.fields.lookup f.key = some p ∧
          m.owners.lookup p = some f.key := fun f hf => hm.fields f (Query.effective_of_mentions hfields hf)
      obtain ⟨ps, hps⟩ := gives_propertiesOf (s := s) hknown
      have hps' := hps
      rw [← hq.mentions fields counting] at hps'
      refine ⟨_, _, gives_select hfields (htype tag) (hps _) rfl, gives_select hfields (htype tag') (hps' _) rfl, ?_⟩
      -- The outlines are twins because what they read of the queries is.
      have houtline := hq.outline fields counting
      generalize ho : q.outline t.schema model fields counting = o at houtline ⊢
      generalize q'.outline t.schema model fields counting = o' at houtline
      cases houtline with
      | error e e' => exact .error e e'
      | ok htwin =>
        rw [hq.limit, hq.offset]
        exact .ok (htwin.select (v := { t with space := ⟨tag⟩ }.vocabulary type ps) hs hfields ho hbase tag' q.limit q.offset)

/--
Two queries that differ at most in texts that are compared with text fields, in two namespaces, are both refused or both
put into words, for rows as for their number. Then their texts have equally many tokens, of which only literals differ,
and these stand for the two tags or, in turn, for the texts that are compared.
-/
theorem queryText_twins {t : Tables} {models : List Model} (hschema : Schema.ofModels models = .ok t.schema)
    (hbase : '"' ∉ t.base.toList) (hm : m.Covers t.schema) (s : Session) (tag tag' : String) {model : String}
    {q q' : Query} (hq : Query.Twin t.schema model q q') (counting : Bool) :
    ∃ r r', ({ t with space := ⟨tag⟩ }.queryText model q counting).Gives m s r ∧
      ({ t with space := ⟨tag'⟩ }.queryText model q' counting).Gives m s r' ∧ r.isOk = r'.isOk ∧
      ∀ text text', r = .ok text → r' = .ok text' → ∃ tokens tokens', Sparql.tokens? text = some tokens ∧
        Sparql.tokens? text' = some tokens' ∧ tokens.length = tokens'.length ∧
        Sparql.Twin tag tag' (q.comparedTexts t.schema model) (q'.comparedTexts t.schema model) tokens tokens' := by
  obtain ⟨r, r', hr, hr', htwin⟩ := select_twins hschema hbase hm s tag tag' hq counting
  have htext : ∀ (t : Tables) (q : Query), t.queryText model q counting = Sparql.Select.text <$> t.select model q counting :=
    fun _ _ => by
      cases counting
      · rfl
      · rfl
  refine ⟨r.map Sparql.Select.text, r'.map Sparql.Select.text, ?_, ?_, ?_, ?_⟩
  · rw [htext]
    exact hr.map _
  · rw [htext]
    exact hr'.map _
  · exact (htwin.map (S := fun _ _ => True) fun _ _ _ => trivial).isOk_eq
  · intro text text' h h'
    cases htwin with
    | error => cases h
    | ok hselect =>
      obtain rfl := Except.ok.inj h
      obtain rfl := Except.ok.inj h'
      obtain ⟨tokens, tokens', hreads, hreads', hpair⟩ := hselect.alike
      exact ⟨tokens, tokens', hreads.tokens?, hreads'.tokens?, hpair.length_eq, hpair⟩

def hostileName : String := "\"\x7d ; DROP ?item # \\\n"

theorem queryText_twins_member : ∃ text text' tokens tokens',
    ({ memberTables with space := ⟨"club"⟩ }.queryText "Member" mentoredByAda false).Gives clubMappings Session.fresh
      (.ok text) ∧
    ({ memberTables with space := ⟨hostileName⟩ }.queryText "Member"
      { mentoredByAda with filters := [⟨"mentor.name", .compare .equal (.text hostileName)⟩] } false).Gives clubMappings
        Session.fresh (.ok text') ∧
    Sparql.tokens? text = some tokens ∧ Sparql.tokens? text' = some tokens' ∧ tokens.length = tokens'.length ∧
    Sparql.Twin "club" hostileName ["Ada"] [hostileName] tokens tokens' := by
  have hschema : Schema.ofModels [memberModel] = .ok memberTables.schema := rfl
  have hcovers : clubMappings.Covers memberTables.schema := by
    refine ⟨fun f hf => ?_, fun model hmodel => ?_⟩
    · obtain ⟨model, hmodel, hf⟩ := hf.declared
      obtain rfl := List.mem_singleton.1 hmodel
      obtain ⟨field, hfield, rfl⟩ := List.mem_map.1 hf
      simp only [memberModel, List.mem_cons, List.not_mem_nil, or_false] at hfield
      rcases hfield with rfl | rfl | rfl
      · exact ⟨⟨5⟩, rfl, rfl⟩
      · exact ⟨⟨6⟩, rfl, rfl⟩
      · exact ⟨⟨7⟩, rfl, rfl⟩
    · obtain rfl := List.mem_singleton.1 hmodel
      exact ⟨⟨1⟩, rfl⟩
  have htwin : Query.Twin memberTables.schema "Member" mentoredByAda
      { mentoredByAda with filters := [⟨"mentor.name", .compare .equal (.text hostileName)⟩] } := by
    refine ⟨.cons ⟨rfl, fun target htarget => ?_⟩ .nil, rfl, rfl, rfl⟩
    obtain rfl : Target.field .text = target := Except.ok.inj htarget
    exact .compare .equal (.inr ⟨rfl, "Ada", hostileName, rfl, rfl⟩)
  obtain ⟨r, r', hr, hr', -, htokens⟩ := queryText_twins hschema (by decide) hcovers Session.fresh "club" hostileName
    htwin false
  obtain ⟨tokens, tokens', h, h', hlength, hpair⟩ := htokens _ _ (Gives.unique hr rfl) (Gives.unique hr' rfl)
  exact ⟨_, _, tokens, tokens', rfl, rfl, h, h', hlength, hpair⟩

end Tables

end ClaimTables

import MarkupLowering.Proofs.Import.Tables

/-!
# MarkupLowering.Proofs.Import.MemberRows

**Whose signature a member row has.** A member is looked up by its identity, and an identity
covers less than a row says: neither the type of a field nor the return type of a method is part
of it. So a row says what it should about the member that came first (`Recorded`), and about a
later member with the same identity exactly if that one agrees with the first
(`describes_iff_agrees`).

Agreement does not mention the tables. A module tells its own types apart by their rows and all
others by identity (`TypeKey`), and tokens tell the same types apart.
-/

namespace MarkupLowering

/-! ### Telling types apart by their tokens -/

/-- What a module tells types apart by. -/
inductive TypeKey
  /-- A type of its own. -/
  | own (row : Nat)
  | foreign (identity : Identity)
  deriving DecidableEq

/-- The key of a type in module `unit`. -/
def TypeRef.keyIn (unit : Nat) (type : TypeRef) : TypeKey :=
  match ImportTables.ownRow? unit type with
  | some row => .own row
  | none => .foreign type.identity

namespace ImportTables

variable {unit : Nat} {t t' : ImportTables} {a b : TypeRef} {token : Token}

theorem token?_own {row : Nat} (h : a.keyIn unit = .own row) :
    t.token? unit a = some (.typeDef row) := by
  unfold TypeRef.keyIn at h
  split at h
  · rename_i hown
    cases h
    rw [token?, hown]
  · cases h

theorem token?_foreign {identity : Identity} (h : a.keyIn unit = .foreign identity) :
    t.token? unit a = t.find? (.type identity) := by
  unfold TypeRef.keyIn at h
  split at h
  · cases h
  · rename_i hown
    cases h
    rw [token?, hown]

/-- Types with one key have one token. -/
theorem token?_congr (h : a.keyIn unit = b.keyIn unit) : t.token? unit a = t.token? unit b := by
  cases hb : b.keyIn unit with
  | own row => rw [token?_own hb, token?_own (h.trans hb)]
  | foreign identity => rw [token?_foreign hb, token?_foreign (h.trans hb)]

theorem typeDef_ne_of_find? {identity : Identity} {row : Nat} (ht : Keyed t)
    (h : t.find? (.type identity) = some token) : token ≠ .typeDef row := by
  rintro rfl
  cases ht _ _ h

/-- Types with one token have one key. -/
theorem keyIn_inj (ht : Keyed t) (ha : t.token? unit a = some token)
    (hb : t.token? unit b = some token) : a.keyIn unit = b.keyIn unit := by
  cases hka : a.keyIn unit with
  | own row =>
    rw [token?_own hka] at ha
    cases hkb : b.keyIn unit with
    | own row' =>
      rw [token?_own hkb, ← ha] at hb
      cases hb
      rfl
    | foreign identity =>
      rw [token?_foreign hkb] at hb
      exact absurd (Option.some.inj ha).symm (typeDef_ne_of_find? ht hb)
  | foreign identity =>
    rw [token?_foreign hka] at ha
    cases hkb : b.keyIn unit with
    | own row =>
      rw [token?_own hkb] at hb
      exact absurd (Option.some.inj hb).symm (typeDef_ne_of_find? ht ha)
    | foreign identity' =>
      rw [token?_foreign hkb] at hb
      have hkey := (ht _ _ ha).unique (ht _ _ hb)
      cases hkey
      rfl

/-- Lists of types with one list of tokens have one list of keys. -/
theorem map_keyIn_inj (ht : Keyed t) {as bs : List TypeRef} {tokens : List Token}
    (ha : as.map (t.token? unit) = tokens.map some)
    (hb : bs.map (t.token? unit) = tokens.map some) :
    as.map (TypeRef.keyIn unit) = bs.map (TypeRef.keyIn unit) := by
  induction tokens generalizing as bs with
  | nil =>
    rw [List.map_nil, List.map_eq_nil_iff] at ha hb
    rw [ha, hb]
  | cons token tokens ih =>
    obtain ⟨a, as, rfl, ha, has⟩ := List.map_eq_cons_iff.mp ha
    obtain ⟨b, bs, rfl, hb, hbs⟩ := List.map_eq_cons_iff.mp hb
    rw [List.map_cons, List.map_cons, keyIn_inj ht ha hb, ih has hbs]

theorem map_token?_congr {as bs : List TypeRef}
    (h : as.map (TypeRef.keyIn unit) = bs.map (TypeRef.keyIn unit)) :
    as.map (t.token? unit) = bs.map (t.token? unit) := by
  induction as generalizing bs with
  | nil =>
    rw [List.map_nil, eq_comm, List.map_eq_nil_iff] at h
    rw [h]
  | cons a as ih =>
    obtain ⟨b, bs, rfl, hb, hbs⟩ := List.map_eq_cons_iff.mp h.symm
    rw [List.map_cons, List.map_cons, token?_congr hb.symm, ih hbs.symm]

/-- The same for a type that may be missing. -/
theorem optional_keyIn_inj (ht : Keyed t) {a b : Option TypeRef} {token : Option Token}
    (ha : a.map (t.token? unit) = token.map some) (hb : b.map (t.token? unit) = token.map some) :
    a.map (TypeRef.keyIn unit) = b.map (TypeRef.keyIn unit) := by
  cases token with
  | none =>
    rw [Option.map_none, Option.map_eq_none_iff] at ha hb
    rw [ha, hb]
  | some token =>
    obtain ⟨a, rfl, htoken⟩ := Option.map_eq_some_iff.mp ha
    obtain ⟨b, rfl, htoken'⟩ := Option.map_eq_some_iff.mp hb
    rw [Option.map_some, Option.map_some, keyIn_inj ht htoken htoken']

theorem optional_token?_congr {a b : Option TypeRef}
    (h : a.map (TypeRef.keyIn unit) = b.map (TypeRef.keyIn unit)) :
    a.map (t.token? unit) = b.map (t.token? unit) := by
  cases a with
  | none =>
    rw [Option.map_none, eq_comm, Option.map_eq_none_iff] at h
    rw [h]
  | some a =>
    obtain ⟨b, rfl, hb⟩ := Option.map_eq_some_iff.mp h.symm
    rw [Option.map_some, Option.map_some, token?_congr hb.symm]

/-- Tokens that types keep, one by one, are kept by lists of types. -/
theorem map_token?_mono {as : List TypeRef} {tokens : List Token}
    (hstay : ∀ a token, t.token? unit a = some token → t'.token? unit a = some token)
    (h : as.map (t.token? unit) = tokens.map some) : as.map (t'.token? unit) = tokens.map some := by
  induction tokens generalizing as with
  | nil =>
    rw [List.map_nil, List.map_eq_nil_iff] at h
    rw [h]
    rfl
  | cons token tokens ih =>
    obtain ⟨a, as, rfl, ha, has⟩ := List.map_eq_cons_iff.mp h
    rw [List.map_cons, List.map_cons, hstay a token ha, ih has]

theorem optional_token?_mono {a : Option TypeRef} {token : Option Token}
    (hstay : ∀ a token, t.token? unit a = some token → t'.token? unit a = some token)
    (h : a.map (t.token? unit) = token.map some) : a.map (t'.token? unit) = token.map some := by
  cases token with
  | none =>
    rw [Option.map_none, Option.map_eq_none_iff] at h
    rw [h]
    rfl
  | some token =>
    obtain ⟨a, rfl, htoken⟩ := Option.map_eq_some_iff.mp h
    rw [Option.map_some, Option.map_some, hstay a token htoken]

/-! ### What a row says -/

/-- The row says about a member what its handle says, in tokens. -/
structure Describes (t : ImportTables) (unit : Nat) (row : MemberRefRow) (m : ForeignMember) :
    Prop where
  name : row.name = m.name
  kind : row.kind = m.kind
  parent : t.token? unit m.declaring = some row.parent
  valueType : m.valueType.map (t.token? unit) = row.valueType.map some
  params : m.params.map (t.token? unit) = row.params.map some

end ImportTables

/-- Two members agree in all that a row says. -/
structure ForeignMember.Agrees (unit : Nat) (a b : ForeignMember) : Prop where
  name : a.name = b.name
  kind : a.kind = b.kind
  declaring : a.declaring.keyIn unit = b.declaring.keyIn unit
  valueType : a.valueType.map (TypeRef.keyIn unit) = b.valueType.map (TypeRef.keyIn unit)
  params : a.params.map (TypeRef.keyIn unit) = b.params.map (TypeRef.keyIn unit)

namespace ImportTables

/-- A row that describes one member describes another exactly if the two agree. -/
theorem describes_iff_agrees {unit : Nat} {t : ImportTables} {row : MemberRefRow}
    {first m : ForeignMember} (ht : Keyed t) (h : Describes t unit row first) :
    Describes t unit row m ↔ first.Agrees unit m := by
  constructor
  · intro hm
    exact ⟨h.name.symm.trans hm.name, h.kind.symm.trans hm.kind, keyIn_inj ht h.parent hm.parent,
      optional_keyIn_inj ht h.valueType hm.valueType, map_keyIn_inj ht h.params hm.params⟩
  · intro ha
    refine ⟨h.name.trans ha.name, h.kind.trans ha.kind, ?_, ?_, ?_⟩
    · rw [← token?_congr ha.declaring, h.parent]
    · rw [← optional_token?_congr ha.valueType, h.valueType]
    · rw [← map_token?_congr ha.params, h.params]

theorem Describes.mono {unit : Nat} {t t' : ImportTables} {row : MemberRefRow} {m : ForeignMember}
    (h : Describes t unit row m) (hext : Extends t t') : Describes t' unit row m where
  name := h.name
  kind := h.kind
  parent := hext.token? h.parent
  valueType := optional_token?_mono (fun _ _ => hext.token?) h.valueType
  params := map_token?_mono (fun _ _ => hext.token?) h.params

/-! ### Taking a row -/

/-- The tokens of a list of types are theirs. -/
theorem importTypes_tokens (unit : Nat) (types : List TypeRef) {t : ImportTables} (ht : Keyed t) :
    types.map ((importTypes unit types t).2.token? unit) =
      (importTypes unit types t).1.map some := by
  induction types generalizing t with
  | nil => rfl
  | cons type types ih =>
    have hhead := imports_importType unit type
    obtain ⟨hkeyed, -⟩ := hhead.grows t ht
    obtain ⟨-, hext⟩ := grows_importTypes unit types _ hkeyed
    have htoken := hext.token? (hhead.token? t ht)
    have htokens := ih hkeyed
    unfold importTypes
    exact List.cons_eq_cons.mpr ⟨htoken, htokens⟩

theorem importType?_token (unit : Nat) (type : Option TypeRef) {t : ImportTables} (ht : Keyed t) :
    type.map ((importType? unit type t).2.token? unit) = (importType? unit type t).1.map some := by
  cases type with
  | none => rfl
  | some type => exact congrArg some ((imports_importType unit type).token? t ht)

/-- A row for a member changes no type's token. -/
theorem token?_addMemberRef (t : ImportTables) (unit : Nat) (row : MemberRefRow) (a : TypeRef) :
    (addMemberRef row t).2.token? unit a = t.token? unit a := by
  unfold token?
  split
  · rfl
  · rw [(adds_memberRef row).find?, if_neg]
    exact fun h => by cases h

/-- The row that a member takes describes it. -/
theorem describes_takeRow (unit : Nat) (m : ForeignMember) {t : ImportTables} (ht : Keyed t) :
    ∃ k row, (m.takeRow unit t).1 = .memberRef k ∧
      (m.takeRow unit t).2.memberRefs[k]? = some row ∧
      Describes (m.takeRow unit t).2 unit row m := by
  -- the tables after each of the three imports
  have hdeclaring := imports_importType unit m.declaring
  obtain ⟨hkeyed₁, -⟩ := hdeclaring.grows t ht
  obtain ⟨hkeyed₂, hext₂⟩ := grows_importType? unit m.valueType _ hkeyed₁
  obtain ⟨hkeyed₃, hext₃⟩ := grows_importTypes unit m.params _ hkeyed₂
  have hparent := (hext₂.trans hext₃).token? (hdeclaring.token? t ht)
  have hvalue := optional_token?_mono (fun _ _ => hext₃.token?)
    (importType?_token unit m.valueType hkeyed₁)
  have hparams := importTypes_tokens unit m.params hkeyed₂
  refine ⟨_, _, rfl, Array.getElem?_push_size, rfl, rfl, ?_, ?_, ?_⟩
  · exact (token?_addMemberRef ..).trans hparent
  · exact optional_token?_mono (fun a _ => (token?_addMemberRef _ _ _ a).trans) hvalue
  · exact map_token?_mono (fun a _ => (token?_addMemberRef _ _ _ a).trans) hparams

/-! ### Members that stay unbound -/

/-- The step gives no member a token, apart from members with the given identities. -/
def Spares {α : Type} (except : Identity → Prop) (step : ImportM α) : Prop :=
  ∀ t identity, ¬ except identity →
    (step t).2.find? (.member identity) = t.find? (.member identity)

namespace Spares

variable {α β : Type} {except : Identity → Prop}

theorem pure (a : α) : Spares except (Pure.pure a : ImportM α) := fun _ _ _ => rfl

theorem bind {step : ImportM α} {next : α → ImportM β} (hstep : Spares except step)
    (hnext : ∀ a, Spares except (next a)) : Spares except (step >>= next) := by
  intro t identity hid
  exact (hnext _ _ identity hid).trans (hstep t identity hid)

theorem findOrAdd {key : ImportKey} {step : ImportM Token} (h : Spares except step) :
    Spares except (findOrAdd key step) := by
  intro t identity hid
  unfold ImportTables.findOrAdd
  split
  · rfl
  · exact h t identity hid

theorem of_adds {key : ImportKey} {add : ImportM Token} (h : Adds key add)
    (hkey : ∀ identity, key = .member identity → except identity) : Spares except add := by
  intro t identity hid
  rw [h.find?, if_neg]
  exact fun hk => hid (hkey identity hk)

end Spares

section

variable (unit : Nat) (except : Identity → Prop)

mutual

/-- Importing a type gives tokens to types only. -/
theorem spares_importType : ∀ type, Spares except (importType unit type)
  | .named name kind origin isRoot base declaring id => by
    unfold importType
    dsimp only
    split
    · exact .pure _
    · exact .findOrAdd (.of_adds (adds_typeRef ⟨_, _, _⟩) fun _ h => by cases h)
  | .generic definition arguments id => by
    unfold importType
    refine .findOrAdd (.bind (spares_importType definition) fun d => ?_)
    refine .bind (spares_importTypes arguments) fun as => ?_
    exact .of_adds (adds_typeSpec ⟨d, as, _⟩) fun _ h => by cases h

theorem spares_importTypes : ∀ types, Spares except (importTypes unit types)
  | [] => .pure _
  | type :: types => by
    unfold importTypes
    refine .bind (spares_importType type) fun token => ?_
    exact .bind (spares_importTypes types) fun tokens => .pure _

end

theorem spares_importType? (type : Option TypeRef) : Spares except (importType? unit type) := by
  cases type with
  | none => exact .pure _
  | some type => exact .bind (spares_importType unit except type) fun token => .pure _

end

end ImportTables

open ImportTables

theorem ForeignMember.spares_takeRow (unit : Nat) (m : ForeignMember) :
    Spares (· = m.identity) (m.takeRow unit) := by
  refine .bind (spares_importType unit _ m.declaring) fun parent => ?_
  refine .bind (spares_importType? unit _ m.valueType) fun value => ?_
  refine .bind (spares_importTypes unit _ m.params) fun tokens => ?_
  refine .of_adds (adds_memberRef ⟨parent, m.name, m.kind, value, tokens, m.identity⟩) ?_
  exact fun identity h => by cases h; rfl

theorem Import.Native.spares {unit : Nat} {i : Import} {step : ImportM Token}
    (h : Native unit i step) : Spares (fun _ => False) step := by
  cases h with
  | type t => exact spares_importType unit _ t
  | string text => exact .findOrAdd (.of_adds (adds_string text) fun _ h => by cases h)
  | own row _ => exact .pure _

/-! ### Histories -/

/-- The tables after imports in order, all of them from one module. -/
def importAll (unit : Nat) (log : List Import) (t : ImportTables) : ImportTables :=
  log.foldl (fun t i => (i.perform unit t).2) t

/-- The first member with an identity among those that module `unit` does not define itself. -/
def firstImported (unit : Nat) (log : List Import) (identity : Identity) : Option ForeignMember :=
  (log.filterMap (Import.foreign? unit)).find? (·.identity == identity)

/-- Every member key leads to a row for the first member with that identity. -/
structure Recorded (unit : Nat) (log : List Import) (t : ImportTables) : Prop where
  keyed : Keyed t
  unbound : ∀ identity, firstImported unit log identity = none →
    t.find? (.member identity) = none
  row : ∀ identity m, firstImported unit log identity = some m →
    ∃ k row, t.find? (.member identity) = some (.memberRef k) ∧ t.memberRefs[k]? = some row ∧
      Describes t unit row m

namespace Recorded

variable {unit : Nat} {log : List Import} {i : Import} {m : ForeignMember} {t : ImportTables}

theorem firstImported_native (h : i.foreign? unit = none) (identity : Identity) :
    firstImported unit (log ++ [i]) identity = firstImported unit log identity := by
  simp [firstImported, h]

theorem firstImported_foreign (h : i.foreign? unit = some m) (identity : Identity) :
    firstImported unit (log ++ [i]) identity =
      (firstImported unit log identity).or (if m.identity = identity then some m else none) := by
  rw [firstImported, List.filterMap_append, List.find?_append]
  simp only [List.filterMap_cons, h, List.filterMap_nil, List.find?_cons, List.find?_nil]
  by_cases hid : m.identity = identity
  · rw [if_pos hid, beq_iff_eq.mpr hid]
    rfl
  · rw [if_neg hid, beq_eq_false_iff_ne.mpr hid]
    rfl

theorem of_empty (unit : Nat) : Recorded unit [] .empty where
  keyed := keyed_empty
  unbound identity _ := by simp [find?, ImportTables.empty]
  row identity m h := by cases h

theorem native (h : Recorded unit log t) (hi : i.foreign? unit = none) :
    Recorded unit (log ++ [i]) (i.perform unit t).2 := by
  obtain ⟨hkeyed, hext⟩ := i.grows_perform unit t h.keyed
  have hspares := (Import.perform_native hi).spares
  refine ⟨hkeyed, fun identity hnone => ?_, fun identity m hm => ?_⟩
  · rw [firstImported_native hi] at hnone
    rw [hspares t identity id, h.unbound identity hnone]
  · rw [firstImported_native hi] at hm
    obtain ⟨k, row, hk, hrow, hdesc⟩ := h.row identity m hm
    exact ⟨k, row, hext.find? _ _ hk, hext.memberRefs _ _ hrow, hdesc.mono hext⟩

/-- A member whose identity was seen before takes no row. -/
theorem seen (h : Recorded unit log t) (hi : i.foreign? unit = some m) {first : ForeignMember}
    (hfirst : firstImported unit log m.identity = some first) :
    Recorded unit (log ++ [i]) (i.perform unit t).2 := by
  obtain ⟨k, row, hk, -, -⟩ := h.row m.identity first hfirst
  have hsame : (i.perform unit t).2 = t := by
    rw [Import.perform_foreign hi]
    unfold findOrAdd
    rw [hk]
  have hlog : ∀ identity, firstImported unit (log ++ [i]) identity =
      firstImported unit log identity := by
    intro identity
    rw [firstImported_foreign hi]
    by_cases hid : m.identity = identity
    · rw [← hid, hfirst]
      rfl
    · rw [if_neg hid, Option.or_none]
  rw [hsame]
  exact ⟨h.keyed, fun identity hnone => h.unbound identity (by rw [← hlog, hnone]),
    fun identity m hm => h.row identity m (by rw [← hlog, hm])⟩

/-- A member whose identity is new takes a row that describes it. -/
theorem unseen (h : Recorded unit log t) (hi : i.foreign? unit = some m)
    (hnew : firstImported unit log m.identity = none) :
    Recorded unit (log ++ [i]) (i.perform unit t).2 := by
  have hunbound := h.unbound m.identity hnew
  obtain ⟨hkeyed, hext⟩ := i.grows_perform unit t h.keyed
  have hperform : i.perform unit t = m.takeRow unit t := by
    rw [Import.perform_foreign hi]
    unfold findOrAdd
    rw [hunbound]
  have hfind := (m.makes_takeRow unit t t hunbound (.refl t) h.keyed).2.2
  rw [hperform] at hkeyed hext ⊢
  refine ⟨hkeyed, fun identity hnone => ?_, fun identity m' hm' => ?_⟩
  · rw [firstImported_foreign hi, Option.or_eq_none_iff] at hnone
    have hne : identity ≠ m.identity := by
      rintro rfl
      simp at hnone
    rw [m.spares_takeRow unit t identity hne, h.unbound identity hnone.1]
  · rw [firstImported_foreign hi] at hm'
    by_cases hid : m.identity = identity
    · subst hid
      rw [hnew, if_pos rfl] at hm'
      cases hm'
      obtain ⟨k, row, htoken, hrow, hdesc⟩ := describes_takeRow unit m h.keyed
      exact ⟨k, row, by rw [hfind, htoken], hrow, hdesc⟩
    · -- the rows of other members stay, and so do the tokens that they hold
      rw [if_neg hid, Option.or_none] at hm'
      obtain ⟨k, row, hk, hrow, hdesc⟩ := h.row identity m' hm'
      exact ⟨k, row, hext.find? _ _ hk, hext.memberRefs _ _ hrow, hdesc.mono hext⟩

/-- Every import keeps the rows as the history says. -/
theorem step (h : Recorded unit log t) (i : Import) :
    Recorded unit (log ++ [i]) (i.perform unit t).2 := by
  cases hi : i.foreign? unit with
  | none => exact h.native hi
  | some m =>
    cases hfirst : firstImported unit log m.identity with
    | none => exact h.unseen hi hfirst
    | some first => exact h.seen hi hfirst

theorem extend (h : Recorded unit log t) (later : List Import) :
    Recorded unit (log ++ later) (importAll unit later t) := by
  induction later generalizing log t with
  | nil =>
    rw [List.append_nil]
    exact h
  | cons i later ih =>
    have htail := ih (h.step i)
    rw [List.append_assoc] at htail
    exact htail

theorem of_log (unit : Nat) (log : List Import) :
    Recorded unit log (importAll unit log .empty) := (of_empty unit).extend log

end Recorded

/-- Later imports only add. -/
theorem extends_importAll (unit : Nat) {t : ImportTables} (ht : Keyed t) (log : List Import) :
    Extends t (importAll unit log t) := by
  induction log generalizing t with
  | nil => exact .refl t
  | cons i log ih =>
    obtain ⟨hkeyed, hext⟩ := i.grows_perform unit t ht
    exact hext.trans (ih hkeyed)

/-! ### Faithful rows -/

/-- The token of a member that module `unit` does not define leads, from its import on, to a row
for the first member imported with the same identity. -/
theorem memberRow_of_first {unit : Nat} (before after : List Import) {i : Import}
    {m : ForeignMember} (hm : i.foreign? unit = some m) :
    ∃ first k row,
      firstImported unit (before ++ [i]) m.identity = some first ∧
      (i.perform unit (importAll unit before .empty)).1 = .memberRef k ∧
      (importAll unit (before ++ i :: after) .empty).memberRefs[k]? = some row ∧
      Describes (importAll unit (before ++ i :: after) .empty) unit row first := by
  have hbefore := Recorded.of_log unit before
  have hnow := hbefore.step i
  -- some member has the identity, if only the imported one
  obtain ⟨first, hfirst⟩ : ∃ first, firstImported unit (before ++ [i]) m.identity = some first := by
    rw [Recorded.firstImported_foreign hm, if_pos rfl]
    cases firstImported unit before m.identity with
    | none => exact ⟨m, rfl⟩
    | some first => exact ⟨first, rfl⟩
  obtain ⟨k, row, hk, hrow, hdesc⟩ := hnow.row m.identity first hfirst
  have htoken : (i.perform unit (importAll unit before .empty)).1 = .memberRef k := by
    rw [Import.perform_foreign hm] at hk ⊢
    rw [(m.makes_takeRow unit).find? hbefore.keyed] at hk
    exact Option.some.inj hk
  have hext := extends_importAll unit hnow.keyed after
  have hlog : importAll unit after (i.perform unit (importAll unit before .empty)).2 =
      importAll unit (before ++ i :: after) .empty := by
    rw [importAll, importAll, importAll, List.foldl_append, List.foldl_cons]
  rw [hlog] at hext
  exact ⟨first, k, row, hfirst, htoken, hext.memberRefs _ _ hrow, hdesc.mono hext⟩

/-- The row behind the token of a member says what the handle says, name, kind, parent, value type
and parameters, exactly if the member agrees in these with the first one that was imported with
its identity. -/
theorem memberRow_describes_iff {unit : Nat} {before after : List Import} {i : Import}
    {m : ForeignMember} (hm : i.foreign? unit = some m) :
    ∃ first k row,
      firstImported unit (before ++ [i]) m.identity = some first ∧
      (i.perform unit (importAll unit before .empty)).1 = .memberRef k ∧
      (importAll unit (before ++ i :: after) .empty).memberRefs[k]? = some row ∧
      (Describes (importAll unit (before ++ i :: after) .empty) unit row m ↔
        first.Agrees unit m) := by
  obtain ⟨first, k, row, hfirst, htoken, hrow, hdesc⟩ := memberRow_of_first before after hm
  have hkeyed := (Recorded.of_log unit (before ++ i :: after)).keyed
  exact ⟨first, k, row, hfirst, htoken, hrow, describes_iff_agrees hkeyed hdesc⟩

/-! ### A return type that gets lost -/

mutual

/-- The names that the identity of a type is made of. -/
def TypeRef.names : TypeRef → List Ident
  | .named name _ _ _ _ _ _ => [name]
  | .generic definition arguments _ => definition.names ++ TypeRef.namesAll arguments

/-- The names that types are made of. -/
def TypeRef.namesAll : List TypeRef → List Ident
  | [] => []
  | t :: ts => t.names ++ TypeRef.namesAll ts

end

/-- The names that are involved in an import. -/
def Import.names : Import → List Ident
  | .type t => t.names
  | .field f => f.name :: f.declaring.names ++ f.type.names
  | .method m => m.name :: m.declaring.names ++ m.returns.names ++ TypeRef.namesAll m.params
  | .constructor c => c.declaring.names ++ TypeRef.namesAll c.params
  | .string _ => []

/-- No two names that are involved in some imports have one digest. -/
def NoCollisions (log : List Import) : Prop :=
  ∀ a ∈ log.flatMap Import.names, ∀ b ∈ log.flatMap Import.names, a.digest = b.digest → a = b

instance (log : List Import) : Decidable (NoCollisions log) :=
  inferInstanceAs (Decidable (∀ a ∈ log.flatMap Import.names, ∀ b ∈ log.flatMap Import.names,
    a.digest = b.digest → a = b))

/-- A value type of a finished assembly. -/
def libraryType (name : String) : TypeRef :=
  .named (.ofString name) .valueType (.assembly "Lib") false none none 0

/-- A conversion operator. It is overloaded by what it returns. -/
def conversion (target : String) : MethodRef where
  declaring := libraryType "Lib.Money"
  name := .ofString "op_Explicit"
  returns := libraryType target
  params := [libraryType "Lib.Money"]
  attributes := default
  definition := none

/-- All conversions have the identity of the first. -/
theorem firstImported_conversion (a b : String) (later : List Import) :
    firstImported 0 (.method (conversion a) :: later) (conversion b).identity =
      some (conversion a).foreign := by
  have hsame : ((conversion a).foreign.identity == (conversion b).identity) = true :=
    beq_iff_eq.mpr rfl
  exact List.find?_cons_of_pos hsame

/-- The first conversion gets a row of its own. -/
theorem memberRow_describes_iff_conversion :
    ∃ k row,
      ((Import.method (conversion "System.Int32")).perform 0 (importAll 0 [] .empty)).1 =
        .memberRef k ∧
      (importAll 0 [.method (conversion "System.Int32")] .empty).memberRefs[k]? = some row ∧
      Describes (importAll 0 [.method (conversion "System.Int32")] .empty) 0 row
        (conversion "System.Int32").foreign := by
  obtain ⟨first, k, row, hfirst, htoken, hrow, hiff⟩ :=
    @memberRow_describes_iff 0 [] [] (.method (conversion "System.Int32")) _ rfl
  cases (firstImported_conversion _ _ []).symm.trans hfirst
  exact ⟨k, row, htoken, hrow, hiff.mpr ⟨rfl, rfl, rfl, rfl, rfl⟩⟩

theorem conversion_not_agrees :
    ¬ (conversion "System.Int32").foreign.Agrees 0 (conversion "System.String").foreign := by
  intro h
  have hvalue : TypeKey.foreign (libraryType "System.Int32").identity =
      .foreign (libraryType "System.String").identity := Option.some.inj h.valueType
  have hne : (libraryType "System.Int32").identity ≠ (libraryType "System.String").identity := by
    decide +kernel
  cases hne (TypeKey.foreign.inj hvalue)

/-- Rows do not always say what the handle says, even where digests do not collide: of two
conversions to different types, the second gets the row of the first. -/
theorem memberRow_not_always_faithful :
    ¬ ∀ (unit : Nat) (before after : List Import) (i : Import) (m : ForeignMember),
      NoCollisions (before ++ i :: after) → i.foreign? unit = some m →
      ∃ k row,
        (i.perform unit (importAll unit before .empty)).1 = .memberRef k ∧
        (importAll unit (before ++ i :: after) .empty).memberRefs[k]? = some row ∧
        Describes (importAll unit (before ++ i :: after) .empty) unit row m := by
  intro hall
  let before : List Import := [.method (conversion "System.Int32")]
  let i : Import := .method (conversion "System.String")
  have hi : i.foreign? 0 = some (conversion "System.String").foreign := rfl
  have hnames : NoCollisions (before ++ [i]) := by decide +kernel
  obtain ⟨k, row, htoken, hrow, hdesc⟩ := hall 0 before [] i _ hnames hi
  obtain ⟨first, k', row', hfirst, htoken', hrow', hdesc'⟩ := memberRow_of_first before [] hi
  cases (firstImported_conversion _ _ [i]).symm.trans hfirst
  cases htoken.symm.trans htoken'
  cases hrow.symm.trans hrow'
  have hkeyed := (Recorded.of_log 0 (before ++ [i])).keyed
  exact conversion_not_agrees ((describes_iff_agrees hkeyed hdesc').mp hdesc)

end MarkupLowering

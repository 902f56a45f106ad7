import ResponseGraph.Proofs.Graph.Upgraded

/-!
Migrations of the root of queries.

A write that brings nothing but fields with arguments links their values and stores no data in the
root.  A root without data has no type, not even that of queries, so a migration does not come to
it.  The migrations declared for `Query` are made at a root that holds data, and at no other.
-/

namespace ResponseGraph

open NodeId

/-! ## Changed fields -/

theorem Value.member?_set_key (value new : Value) (name field : String) :
    (value.set [.key name] new).member? field =
      if name = field then some new else value.member? field := by
  have members (value : Value) : value.member? field = Entries.get? field value.members := by
    cases value <;> rfl
  rw [members value]
  exact Entries.get?_put name field new value.members

namespace Migrating

variable {changes : List (String × FieldChange)} {field : String}

theorem changeFields_cons (name : String) (change : FieldChange)
    (changes : List (String × FieldChange)) (data : Value) :
    changeFields ((name, change) :: changes) data =
      changeFields changes (data.set [.key name] (change (data.member? name))) := rfl

/-- Fields without a change keep their values. -/
theorem member?_changeFields_of_not_mem (apart : field ∉ changes.map Prod.fst) (data : Value) :
    (changeFields changes data).member? field = data.member? field := by
  induction changes generalizing data with
  | nil => rfl
  | cons head rest ih =>
    obtain ⟨other, others⟩ := not_or.mp (mt List.mem_cons.mpr apart)
    rw [changeFields_cons head.1 head.2, ih others, Value.member?_set_key, if_neg (Ne.symm other)]

/-- If every field is changed once, it is changed from the value that it had. -/
theorem member?_changeFields (distinct : (changes.map Prod.fst).Nodup) {change : FieldChange}
    (member : (field, change) ∈ changes) (data : Value) :
    (changeFields changes data).member? field = some (change (data.member? field)) := by
  induction changes generalizing data with
  | nil => cases member
  | cons head rest ih =>
    obtain ⟨fresh, distinct⟩ := List.nodup_cons.mp distinct
    rw [changeFields_cons head.1 head.2]
    rcases List.mem_cons.mp member with rfl | later
    · rw [member?_changeFields_of_not_mem fresh, Value.member?_set_key, if_pos rfl]
    · have other : head.1 ≠ field := fun same =>
        fresh (same ▸ List.mem_map_of_mem (f := Prod.fst) later)
      rw [ih distinct later, Value.member?_set_key, if_neg other]

end Migrating

namespace Migrations

/-- No type has two changes of one field. -/
def Distinct (migrations : Migrations) : Prop :=
  ∀ type, ((migrations.changesOf type).map Prod.fst).Nodup

theorem distinct_empty : empty.Distinct := fun _ => List.nodup_nil

/-- A field that is declared again takes the place of the first declaration. -/
theorem Distinct.addField {migrations : Migrations} (h : migrations.Distinct)
    (type field : String) (change : FieldChange) :
    (migrations.addField type field change).Distinct := by
  intro other
  unfold changesOf Migrations.addField
  rw [Table.get?_insert]
  split
  · exact Entries.nodup_put (h type) field change
  · exact h other

theorem Distinct.addSeed {migrations : Migrations} (h : migrations.Distinct) (type : String)
    (seed : Seed) : (migrations.addSeed type seed).Distinct := h

end Migrations

namespace Graph

variable {graph : Graph} {migrations : Migrations} {order : List (NodeId × String)}

/-- A root of queries that names no other type is migrated as a `Query` if it holds data.  If it
holds none, it stays as it is. -/
theorem Reached.query_root_migrated_if_data (h : Reached graph) (closed : migrations.Closed)
    (distinct : migrations.Distinct) (perm : order.Perm graph.typedEntities) {root : Node}
    (found : graph.node? queryRoot = some root)
    (untyped : ∀ data name, root.data = some data →
      data.member? "__typename" = some (.string name) → name = "Query") :
    ∃ state migrated, graph.migrateIn migrations order = (state, .ok ()) ∧
      state.graph.node? queryRoot = some migrated ∧
      (∀ data, root.data = some data →
        (∃ changed, migrated.data = some changed ∧
          (∀ field change, (field, change) ∈ migrations.changesOf "Query" →
            changed.member? field = some (change (data.member? field))) ∧
          ∀ field, field ∉ (migrations.changesOf "Query").map Prod.fst →
            changed.member? field = data.member? field) ∧
        ∀ seed ∈ migrations.seedsOf "Query", ∃ target, seed.address queryRoot = .ok target ∧
          ⟨target, seed.path⟩ ∈ migrated.outbound) ∧
      (root.data = none → migrated = root) := by
  obtain ⟨state, done, upgrade⟩ := h.sound.exists_upgrade closed perm
  cases given : root.data with
  | none =>
    have kept := upgrade.rest fun id node type present typed => by
      refine ⟨?_, fun seed _ address => Seed.not_whole_of_address address whole_queryRoot⟩
      rintro rfl
      obtain ⟨-, data, held, -⟩ := typed
      cases found.symm.trans present
      cases given.symm.trans held
    exact ⟨state, root, done, kept.trans found, fun _ held => (by cases held), fun _ => rfl⟩
  | some data =>
    have typed : root.HasType queryRoot "Query" := by
      refine ⟨(h.sound.kind _ root found).mpr whole_queryRoot, data, given, ?_⟩
      by_cases named : ∃ name, data.member? "__typename" = some (.string name)
      · obtain ⟨name, named⟩ := named
        exact Or.inl (untyped data name given named ▸ named)
      · exact Or.inr ⟨not_exists.mp named, rfl, rfl⟩
    obtain ⟨added, here, -⟩ := upgrade.entity found typed
    refine ⟨state, _, done, here, fun held same => ?_, fun missing => (by cases missing)⟩
    cases same
    refine ⟨⟨_, by rw [given, Option.map_some], ?_, ?_⟩, fun seed member => ?_⟩
    · exact fun field change member => Migrating.member?_changeFields (distinct "Query") member data
    · exact fun field apart => Migrating.member?_changeFields_of_not_mem apart data
    · obtain ⟨target, address, linked, -⟩ := upgrade.linked found typed member
      rw [Nodes.links_of_some here] at linked
      exact ⟨target, address, linked⟩

/-- The first write links the posts of the root, which holds no data then, and a migration for
`Query` passes it by.  A second write stores a version, and the same migration changes it. -/
theorem query_root_migrated_if_data_of_posts : ∃ migrations graph state root,
    Reached graph ∧ graph.migrateIn migrations graph.typedEntities = (state, .ok ()) ∧
      graph.node? queryRoot = some root ∧ state.graph.node? queryRoot = some root ∧
      ("version", FieldChange.set (.string "2")) ∈ migrations.changesOf "Query" ∧
    ∃ later state' root' data, Reached later ∧
      later.migrateIn migrations later.typedEntities = (state', .ok ()) ∧
      state'.graph.node? queryRoot = some root' ∧ root'.data = some data ∧
      data.member? "version" = some (.string "2") := by
  let cache := Cache.new .default
  let posts := Request.query "\x7b posts(first: 1) \x7b total \x7d \x7d"
  let version := Request.query "\x7b version \x7d"
  let first := Json.object [("posts", .object [("total", .nat 1)])]
  let second := Json.object [("version", .nat 1)]
  let change := FieldChange.set (.string "2")
  let migrations := (Migrations.empty.addField "Query" "version" change).addSeed "Query"
    ⟨[.key "feed"], [("page", .number (.int 3))], .null⟩
  have closed : migrations.Closed :=
    (Migrations.closed_empty.addField "Query" "version" change).addSeed "Query" (by decide)
  have declared : migrations.changesOf "Query" = [("version", change)] := rfl
  have distinct : migrations.Distinct :=
    (Migrations.distinct_empty.addField "Query" "version" change).addSeed "Query" _
  let rootData (graph : Graph) := (graph.node? queryRoot).map Node.data
  let bare (graph : Graph) := (rootData graph).any Option.isNone
  let unnamed (graph : Graph) := (rootData graph).any fun data =>
    data.any fun data => (data.member? "__typename").isNone
  let write (request : Request) (payload : Json) (passes : Graph → Bool) :=
    cache.test request payload (fun entry => decide (entry.Plain cache payload)) passes
  have test : write posts first (fun graph => bare graph && write version second unnamed graph)
      .empty := by
    decide +kernel
  obtain ⟨entry, outcome, prepared, plain, written, test⟩ := Cache.exists_of_test test
  obtain ⟨bare, test⟩ := (Bool.and_eq_true _ _).mp test
  obtain ⟨entry', outcome', prepared', plain', written', named⟩ := Cache.exists_of_test test
  have reached := Reached.step .empty (.write prepared (of_decide_eq_true plain) written)
  have later := Reached.step reached (.write prepared' (of_decide_eq_true plain') written')
  obtain ⟨nothing, held, missing⟩ := (Option.any_eq_true _ _).mp bare
  obtain ⟨root, found, same⟩ := Option.map_eq_some_iff.mp held
  have empty : root.data = none := same.trans (Option.isNone_iff_eq_none.mp missing)
  obtain ⟨state, migrated, done, here, -, kept⟩ := reached.query_root_migrated_if_data closed
    distinct (List.Perm.refl _) found (fun data _ given => by cases empty.symm.trans given)
  obtain ⟨something, held', given⟩ := (Option.any_eq_true _ _).mp named
  obtain ⟨data, rfl, untyped⟩ := (Option.any_eq_true _ _).mp given
  obtain ⟨root', found', same'⟩ := Option.map_eq_some_iff.mp held'
  obtain ⟨state', migrated', done', here', changed, -⟩ := later.query_root_migrated_if_data closed
    distinct (List.Perm.refl _) found' (fun other name given typed => by
      cases same'.symm.trans given
      rw [Option.isNone_iff_eq_none.mp untyped] at typed
      cases typed)
  obtain ⟨⟨data', given', each, -⟩, -⟩ := changed data same'
  have member : ("version", change) ∈ migrations.changesOf "Query" := by
    rw [declared]
    exact List.mem_cons_self
  exact ⟨migrations, _, state, root, reached, done, found, kept empty ▸ here, member, _, state',
    migrated', data', later, done', here', given', each _ _ member⟩

end Graph
end ResponseGraph

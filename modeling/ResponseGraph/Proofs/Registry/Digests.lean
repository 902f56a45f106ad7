import Mathlib.Data.List.Nodup
import ResponseGraph.Proofs.Registry.Encoding
import ResponseGraph.Proofs.Registry.Transparent

/-!
Registries that file under digests.

A registry need not keep the documents of its requests.  It may file plans and operations under
digests of the keys, and give out objects that are shared: an operation that is found is the one
that was given before, and operations of one document have one plan.  Each object has a number of
its own, so that equal objects are one object.

If no two keys of the requests have one digest, then filing under digests comes to the same as
filing under the keys (`Mirrors`), and what is shared is what the requests agree on.
-/

namespace ResponseGraph

/-- A plan that is kept. -/
structure SharedPlan where
  number : Nat
  plan : Plan

/-- An operation that is kept, with the plan it was made of. -/
structure SharedOperation where
  number : Nat
  plan : SharedPlan
  root : NodeId
  selection : FieldSet
  bindings : Bindings

def SharedOperation.operation (shared : SharedOperation) : Operation :=
  ⟨shared.root, shared.plan.plan, shared.selection, shared.bindings⟩

theorem SharedOperation.eq_of_operation {a b : SharedOperation} (number : a.number = b.number)
    (plan : a.plan = b.plan) (operation : a.operation = b.operation) : a = b := by
  obtain ⟨_, _, _, _, _⟩ := a
  obtain ⟨_, _, _, _, _⟩ := b
  cases number
  cases plan
  cases operation
  rfl

/-- Plans and operations, each under the digest of a key. -/
structure DigestRegistry (δ : Type) where
  plans : List (δ × SharedPlan)
  operations : List (δ × SharedOperation)

namespace DigestRegistry

section

variable {δ : Type} [DecidableEq δ]

def empty : DigestRegistry δ := ⟨[], []⟩

def plan? (filed : DigestRegistry δ) (digest : δ) : Option SharedPlan :=
  (filed.plans.find? fun entry => entry.1 = digest).map Prod.snd

/-- The plan for a document, made and kept unless there is one under its digest. -/
def plan (config : Config) (key : DocumentKey) (digest : δ) (filed : DigestRegistry δ) :
    Except DocumentError (SharedPlan × DigestRegistry δ) :=
  match filed.plan? digest with
  | some shared => .ok (shared, filed)
  | none => do
    let shared : SharedPlan := ⟨filed.plans.length, ← config.plan key⟩
    return (shared, { filed with plans := filed.plans ++ [(digest, shared)] })

def operation? (filed : DigestRegistry δ) (digest : δ) (root : NodeId) (bindings : Bindings) :
    Option SharedOperation :=
  (filed.operations.find? fun entry =>
    entry.1 = digest && entry.2.root == root && entry.2.bindings.same bindings).map Prod.snd

/-- The operation of a request, made and kept unless there is one under the digest. -/
def prepare (config : Config) (digest : List UInt8 → δ) (request : Request)
    (filed : DigestRegistry δ) : DigestRegistry δ × Except Error SharedOperation :=
  let filedUnder := digest request.key.bytes
  match filed.plan config request.key filedUnder with
  | .error e => (filed, .error (.document e))
  | .ok (shared, filed) =>
    let bindings := shared.plan.bindings request.bindings
    match filed.operation? filedUnder request.root bindings with
    | some operation => (filed, .ok operation)
    | none =>
      match shared.plan.root.instantiate bindings shared.plan.nextLabel with
      | .error e => (filed, .error (.variable e))
      | .ok selection =>
        let made := ⟨filed.operations.length, shared, request.root, selection, bindings⟩
        ({ filed with operations := filed.operations ++ [(filedUnder, made)] }, .ok made)

/-- Prepares requests one after another, and gives the answers. -/
def serve (config : Config) (digest : List UInt8 → δ) (filed : DigestRegistry δ) :
    List Request → DigestRegistry δ × List (Except Error SharedOperation)
  | [] => (filed, [])
  | request :: rest =>
    let later := serve config digest (filed.prepare config digest request).1 rest
    (later.1, (filed.prepare config digest request).2 :: later.2)

end

/-! ## Filing under digests and under keys -/

section

variable {δ : Type} {digest : List UInt8 → δ} {filed filed' : DigestRegistry δ}

/-- The shared object is the operation of another registry, and its plan is filed. -/
structure Stands (digest : List UInt8 → δ) (filed : DigestRegistry δ) (entry : Registered)
    (shared : SharedOperation) : Prop where
  number : shared.number = entry.serial
  operation : shared.operation = entry.operation
  plan : (digest entry.key.bytes, shared.plan) ∈ filed.plans

/-- A plan that is filed under the digest of a key. -/
structure FiledPlan (among : DocumentKey → Prop) (digest : List UInt8 → δ)
    (made : DocumentKey × Plan) (shared : δ × SharedPlan) : Prop where
  known : among made.1
  under : shared.1 = digest made.1.bytes
  plan : shared.2.plan = made.2

/-- An operation that is filed under the digest of its key. -/
structure FiledOperation (among : DocumentKey → Prop) (digest : List UInt8 → δ)
    (filed : DigestRegistry δ) (entry : Registered) (shared : δ × SharedOperation) : Prop where
  known : among entry.key
  under : shared.1 = digest entry.key.bytes
  stands : Stands digest filed entry shared.2

/-- What one registry keeps under keys, the other one keeps under their digests.  Every plan of it
has its position as its number and a digest of its own. -/
structure Mirrors (among : DocumentKey → Prop) (digest : List UInt8 → δ) (registry : Registry)
    (filed : DigestRegistry δ) : Prop where
  plans : List.Forall₂ (FiledPlan among digest) registry.plans filed.plans
  operations : List.Forall₂ (FiledOperation among digest filed) registry.operations
    filed.operations
  numbers : Numbered (fun shared : δ × SharedPlan => shared.2.number) filed.plans
  digests : (filed.plans.map Prod.fst).Nodup

theorem Stands.mono {entry : Registered} {shared : SharedOperation}
    (h : Stands digest filed entry shared) (more : filed.plans ⊆ filed'.plans) :
    Stands digest filed' entry shared := ⟨h.number, h.operation, more h.plan⟩

theorem rel_find? {α β : Type} {related : α → β → Prop} {p : α → Bool} {q : β → Bool}
    {xs : List α} {ys : List β} (h : List.Forall₂ related xs ys)
    (agree : ∀ x y, related x y → p x = q y) : Option.Rel related (xs.find? p) (ys.find? q) := by
  induction h with
  | nil => exact .none
  | cons here _ ih =>
    rw [List.find?_cons, List.find?_cons, agree _ _ here]
    split
    · exact .some here
    · exact ih

variable {among : DocumentKey → Prop} {registry : Registry} {key : DocumentKey}

theorem mirrors_empty : Mirrors among digest .empty (empty : DigestRegistry δ) :=
  ⟨.nil, .nil, .nil, List.nodup_nil⟩

theorem Mirrors.add_operation (h : Mirrors among digest registry filed) {entry : Registered}
    {shared : SharedOperation} (known : among entry.key)
    (stands : Stands digest filed entry shared) :
    Mirrors among digest ⟨registry.plans, registry.operations ++ [entry]⟩
      ⟨filed.plans, filed.operations ++ [(digest entry.key.bytes, shared)]⟩ where
  plans := h.plans
  operations := by
    refine List.rel_append (h.operations.imp fun _ _ here => ?_) (.cons ⟨known, rfl, ?_⟩ .nil)
    · exact ⟨here.known, here.under, here.stands.mono (List.Subset.refl _)⟩
    · exact stands.mono (List.Subset.refl _)
  numbers := h.numbers
  digests := h.digests

variable [DecidableEq δ]

/-- A plan that is new gets a number and a digest of its own. -/
theorem Mirrors.add_plan (h : Mirrors among digest registry filed) (known : among key)
    (absent : (filed.plans.find? fun entry => entry.1 = digest key.bytes) = none) (plan : Plan) :
    Mirrors among digest ⟨registry.plans ++ [(key, plan)], registry.operations⟩
      ⟨filed.plans ++ [(digest key.bytes, ⟨filed.plans.length, plan⟩)], filed.operations⟩ where
  plans := List.rel_append h.plans (.cons ⟨known, rfl, rfl⟩ .nil)
  operations := by
    refine h.operations.imp fun entry shared here => ?_
    exact ⟨here.known, here.under, here.stands.mono (List.subset_append_left _ _)⟩
  numbers := h.numbers.snoc rfl
  digests := by
    rw [List.map_append]
    refine List.nodup_append.mpr ⟨h.digests, List.nodup_singleton _, ?_⟩
    intro other old new last
    obtain ⟨entry, member, rfl⟩ := List.mem_map.mp old
    cases List.mem_singleton.mp last
    simpa using List.find?_eq_none.mp absent entry member

variable (free : ∀ key key', among key → among key' → digest key.bytes = digest key'.bytes →
  key = key')

include free

/-- Under a digest there is the plan that there is under the key. -/
theorem Mirrors.rel_plan (h : Mirrors among digest registry filed) (known : among key) :
    Option.Rel (FiledPlan among digest) (registry.plans.find? fun entry => entry.1 = key)
      (filed.plans.find? fun entry => entry.1 = digest key.bytes) := by
  refine rel_find? h.plans fun other shared here => ?_
  rw [here.under]
  exact decide_eq_decide.mpr ⟨fun same => by rw [same], free _ _ here.known known⟩

/-- Under a digest there is the operation that there is under the key. -/
theorem Mirrors.rel_operation (h : Mirrors among digest registry filed) (known : among key)
    (root : NodeId) (bindings : Bindings) :
    Option.Rel (FiledOperation among digest filed) (registry.operation? key root bindings)
      (filed.operations.find? fun entry => entry.1 = digest key.bytes &&
        entry.2.root == root && entry.2.bindings.same bindings) := by
  refine rel_find? h.operations fun entry operation here => ?_
  have keys : decide (entry.key = key) = decide (operation.1 = digest key.bytes) := by
    rw [here.under]
    exact decide_eq_decide.mpr ⟨fun same => by rw [same], free _ _ here.known known⟩
  rw [keys, ← here.stands.operation]
  rfl

variable (config : Config)

/-- The plan is kept under the digest if it is kept under the key, and it is made under neither or
under both. -/
theorem Mirrors.plan (h : Mirrors among digest registry filed) (known : among key) :
    Paired (fun (made : Plan × Registry) (kept : SharedPlan × DigestRegistry δ) =>
      kept.1.plan = made.1 ∧ Mirrors among digest made.2 kept.2 ∧
        filed.plans ⊆ kept.2.plans ∧ (digest key.bytes, kept.1) ∈ kept.2.plans)
      (registry.plan config key) (filed.plan config key (digest key.bytes)) := by
  unfold Registry.plan DigestRegistry.plan Registry.plan? plan?
  rcases exists_of_rel (h.rel_plan free known) with
    ⟨none, none'⟩ | ⟨x, y, found, found', here⟩
  · rw [none, none']
    refine (Paired.refl (config.plan key)).bind fun plan _ same => ?_
    cases same
    exact .ok ⟨rfl, h.add_plan known none' plan, List.subset_append_left _ _,
      List.mem_append_right _ List.mem_cons_self⟩
  · rw [found, found']
    have filedUnder : y.1 = digest key.bytes := by simpa using List.find?_some found'
    exact .ok ⟨here.plan, h, List.Subset.refl _, filedUnder ▸ List.mem_of_find?_eq_some found'⟩

/-- Requests with a key among these are answered alike: by the same error, or by an operation that
stands for the one of the other registry. -/
theorem Mirrors.prepare (h : Mirrors among digest registry filed) {request : Request}
    (known : among request.key) :
    Mirrors among digest (registry.prepare config request).1
        (filed.prepare config digest request).1 ∧
      filed.plans ⊆ (filed.prepare config digest request).1.plans ∧
      Paired (Stands digest (filed.prepare config digest request).1)
        (registry.prepare config request).2 (filed.prepare config digest request).2 := by
  have plans := h.plan free config known
  unfold Registry.prepare DigestRegistry.prepare
  dsimp only
  generalize registry.plan config request.key = made at plans ⊢
  generalize filed.plan config request.key (digest request.key.bytes) = kept at plans ⊢
  cases plans with
  | error e => exact ⟨h, List.Subset.refl _, .error _⟩
  | @ok made kept planned =>
    obtain ⟨plan, registry'⟩ := made
    obtain ⟨shared, filed'⟩ := kept
    obtain ⟨rfl, h', grows, filedUnder⟩ := planned
    dsimp only
    have found := h'.rel_operation free known request.root (shared.plan.bindings request.bindings)
    unfold DigestRegistry.operation?
    rcases exists_of_rel found with ⟨none, none'⟩ | ⟨x, y, found, found', here⟩
    · rw [none, none']
      unfold Operation.of
      cases shared.plan.root.instantiate (shared.plan.bindings request.bindings)
        shared.plan.nextLabel with
      | error e => exact ⟨h', grows, .error _⟩
      | ok selection =>
        have stands : Stands digest filed'
            ⟨registry'.operations.length, request.key, request.root, shared.plan, selection,
              shared.plan.bindings request.bindings⟩
            ⟨filed'.operations.length, shared, request.root, selection,
              shared.plan.bindings request.bindings⟩ :=
          ⟨h'.operations.length_eq.symm, rfl, filedUnder⟩
        exact ⟨h'.add_operation known stands, grows, .ok (stands.mono (List.Subset.refl _))⟩
    · rw [found, found']
      exact ⟨h', grows, .ok here.stands⟩

/-- A run under digests mirrors the run under keys to its end. -/
theorem Mirrors.serve (h : Mirrors among digest registry filed) {requests : List Request}
    (known : ∀ request ∈ requests, among request.key) :
    Mirrors among digest (registry.serve config requests).1
        (filed.serve config digest requests).1 ∧
      filed.plans ⊆ (filed.serve config digest requests).1.plans ∧
      List.Forall₂ (Paired (Stands digest (filed.serve config digest requests).1))
        (registry.serve config requests).2 (filed.serve config digest requests).2 := by
  induction requests generalizing registry filed with
  | nil => exact ⟨h, List.Subset.refl _, .nil⟩
  | cons first rest ih =>
    obtain ⟨mirrors, grows, here⟩ := h.prepare free config (known first List.mem_cons_self)
    obtain ⟨last, more, answers⟩ := ih mirrors fun request member =>
      known request (List.mem_cons_of_mem _ member)
    refine ⟨last, List.Subset.trans grows more, .cons ?_ answers⟩
    exact here.mono fun entry shared stands => stands.mono more

end

/-! ## What requests share -/

section

variable {δ : Type} {digest : List UInt8 → δ} {filed : DigestRegistry δ}
  {among : DocumentKey → Prop} {registry : Registry} {config : Config} {request : Request}

/-- An answer under digests to which one under keys corresponds. -/
def Answered (config : Config) (digest : List UInt8 → δ) (registry : Registry)
    (filed : DigestRegistry δ) (request : Request) (answer : Except Error SharedOperation) : Prop :=
  ∃ made, registry.Given config request made ∧ Paired (Stands digest filed) made answer

/-- What the operations of two requests have in common is what the requests agree on.  The objects
are told by their numbers. -/
structure Shares (r s : Request) (a b : SharedOperation) : Prop where
  of_number : a.number = b.number → a = b
  operation : a = b ↔ r.key = s.key ∧ r.root = s.root ∧
    (a.plan.plan.bindings r.bindings).same (b.plan.plan.bindings s.bindings)
  of_plan_number : a.plan.number = b.plan.number → a.plan = b.plan
  plan : a.plan = b.plan ↔ r.key = s.key

section

variable {r s : Request} {a b : SharedOperation} (mirrors : Mirrors among digest registry filed)
  (free : ∀ key key', among key → among key' → digest key.bytes = digest key'.bytes → key = key')
  (known : among r.key) (known' : among s.key)

include mirrors free known known'

/-- Plans are one plan exactly if they are of one document. -/
theorem Mirrors.plan_eq_iff (ha : (digest r.key.bytes, a.plan) ∈ filed.plans)
    (hb : (digest s.key.bytes, b.plan) ∈ filed.plans) : a.plan = b.plan ↔ r.key = s.key := by
  constructor
  · intro same
    have filedUnder := mirrors.numbers.eq_of_eq ha hb (congrArg _ same)
    exact free _ _ known known' (congrArg Prod.fst filedUnder)
  · intro same
    have digests : digest r.key.bytes = digest s.key.bytes := by rw [same]
    exact congrArg Prod.snd (List.inj_on_of_nodup_map mirrors.digests ha hb digests)

theorem Answered.shares (apart : registry.Apart config) (distinct : r.Distinct)
    (distinct' : s.Distinct) (ha : Answered config digest registry filed r (.ok a))
    (hb : Answered config digest registry filed s (.ok b)) : Shares r s a b := by
  obtain ⟨made, given, paired⟩ := ha
  obtain ⟨made', given', paired'⟩ := hb
  cases paired with
  | @ok entry _ stands =>
  cases paired' with
  | @ok entry' _ stands' =>
  obtain ⟨member, serves⟩ := given.kept entry rfl
  obtain ⟨member', serves'⟩ := given'.kept entry' rfl
  have plan := mirrors.plan_eq_iff free known known' (serves.key ▸ stands.plan)
    (serves'.key ▸ stands'.plan)
  have of_number : a.number = b.number → a = b := by
    intro same
    rw [stands.number, stands'.number] at same
    cases apart.serials.eq_of_eq member member' same
    have plans := plan.mpr (serves.key.symm.trans serves'.key)
    exact SharedOperation.eq_of_operation (stands.number.trans stands'.number.symm) plans
      (stands.operation.trans stands'.operation.symm)
  have matching := serves.matches_iff serves' distinct distinct' (apart.distinct _ member)
    (apart.distinct _ member')
  rw [← apart.serial_eq_iff member member', ← stands.number, ← stands'.number,
    ← stands.operation, ← stands'.operation] at matching
  refine ⟨of_number, ⟨fun same => matching.mp (congrArg _ same), fun agree => ?_⟩, fun same => ?_,
    plan⟩
  · exact of_number (matching.mpr agree)
  · exact congrArg Prod.snd (mirrors.numbers.eq_of_eq stands.plan stands'.plan same)

end

variable [DecidableEq δ]

theorem Answered.paired_fresh {answer : Except Error SharedOperation}
    (apart : registry.Apart config)
    (free : ∀ key key', among key → among key' → digest key.bytes = digest key'.bytes → key = key')
    (known : among request.key) (distinct : request.Distinct)
    (h : Answered config digest registry filed request answer) :
    Paired (fun shared fresh : SharedOperation => shared.operation.Same fresh.operation) answer
      (empty.prepare config digest request).2 := by
  obtain ⟨made, given, stands⟩ := h
  have same := given.answers.paired_fresh distinct fun entry prepared =>
    apart.distinct entry (given.kept entry prepared).1
  have fresh := (mirrors_empty.prepare free config known).2.2
  have first : Paired (fun (shared : SharedOperation) (alone : Registered) =>
      shared.operation.Same alone.operation) answer (Registry.empty.prepare config request).2 :=
    stands.symm.trans same fun shared entry alone here same => here.operation.symm ▸ same
  exact first.trans fresh fun shared alone fresh same here => here.operation.symm ▸ same

/-- A registry that files under digests is transparent, provided that no two keys of the requests
have one digest.  Every request is answered as by a registry of its own: by the same error or by an
operation that is the same.  What the operations share is what the requests agree on.  And they are
the operations of a registry that files under the keys. -/
theorem serve_transparent (config : Config) (digest : List UInt8 → δ) (requests : List Request)
    (bounded : ∀ request ∈ requests, request.key.Bounded)
    (distinct : ∀ request ∈ requests, request.Distinct)
    (free : ∀ r ∈ requests, ∀ s ∈ requests, digest r.key.bytes = digest s.key.bytes →
      r.key.bytes = s.key.bytes) :
    List.Forall₂ (fun request answer => Paired (fun shared fresh : SharedOperation =>
        shared.operation.Same fresh.operation) answer (empty.prepare config digest request).2)
      requests (empty.serve config digest requests).2 ∧
    (∀ r s a b, (r, .ok a) ∈ requests.zip (empty.serve config digest requests).2 →
      (s, .ok b) ∈ requests.zip (empty.serve config digest requests).2 → Shares r s a b) ∧
    List.Forall₂ (Paired fun (entry : Registered) (shared : SharedOperation) =>
        shared.number = entry.serial ∧ shared.operation = entry.operation)
      (Registry.empty.serve config requests).2 (empty.serve config digest requests).2 := by
  let among : DocumentKey → Prop := fun key => ∃ request ∈ requests, request.key = key
  have known : ∀ request ∈ requests, among request.key :=
    fun request member => ⟨request, member, rfl⟩
  have free : ∀ key key', among key → among key' → digest key.bytes = digest key'.bytes →
      key = key' := by
    rintro _ _ ⟨r, hr, rfl⟩ ⟨s, hs, rfl⟩ same
    exact DocumentKey.bytes_inj (bounded r hr) (bounded s hs) (free r hr s hs same)
  obtain ⟨apart, -, given⟩ := (Registry.apart_empty config).serve distinct
  obtain ⟨mirrors, -, stands⟩ := mirrors_empty.serve free config known
  have answered : List.Forall₂ (Answered config digest (Registry.empty.serve config requests).1
      (empty.serve config digest requests).1) requests (empty.serve config digest requests).2 :=
    forall₂_trans given stands fun _ made _ given stands => ⟨made, given, stands⟩
  refine ⟨?_, fun r s a b ha hb => ?_, stands.imp fun _ _ here => here.mono fun _ _ stands =>
    ⟨stands.number, stands.operation⟩⟩
  · refine List.forall₂_iff_zip.mpr ⟨answered.length_eq, fun member => ?_⟩
    have asked := (List.of_mem_zip member).1
    exact (List.forall₂_zip answered member).paired_fresh apart free (known _ asked)
      (distinct _ asked)
  · have hr := (List.of_mem_zip ha).1
    have hs := (List.of_mem_zip hb).1
    exact Answered.shares mirrors free (known r hr) (known s hs) apart (distinct r hr)
      (distinct s hs) (List.forall₂_zip answered ha) (List.forall₂_zip answered hb)

/-- With the default given or left out it is one operation, and another value gives another one of
the same plan.  A request that failed before is refused for itself only. -/
theorem serve_transparent_of_post :
    ∃ (missing bare given other : Request) (e : Error) (a b c : SharedOperation),
      (∀ request ∈ [missing, bare, given, other], request.key.Bounded) ∧
      (∀ request ∈ [missing, bare, given, other], request.Distinct) ∧
      (empty.serve .default id [missing, bare, given, other]).2 = [.error e, .ok a, .ok b, .ok c] ∧
      (empty.prepare .default id missing).2 = .error e ∧
      a = b ∧ (a.plan.plan.bindings bare.bindings).same (b.plan.plan.bindings given.bindings) ∧
      a ≠ c ∧ a.plan = c.plan := by
  let missing := Request.query "query ($of: ID!) \x7b post(of: $of) \x7b id \x7d \x7d"
  let bare := Request.query "query ($of: ID = \"p\") \x7b post(of: $of) \x7b id \x7d \x7d"
  let given := { bare with bindings := some (Table.ofList [("of", .string "p")]) }
  let other := { bare with bindings := some (Table.ofList [("of", .string "q")]) }
  have short : ∀ request ∈ [missing, bare, given, other],
      request.document.utf8ByteSize < Nat.pow 256 8 ∧ request.fragmentName = none := by
    decide +kernel
  have bounded : ∀ request ∈ [missing, bare, given, other], request.key.Bounded := by
    intro request member
    obtain ⟨text, unnamed⟩ := short request member
    exact ⟨text, fun name found => absurd (unnamed.symm.trans found) (by simp)⟩
  have once : ∀ request ∈ [missing, bare, given, other],
      request.bindings.all fun given => given.toJson.distinct := by
    decide +kernel
  have distinct : ∀ request ∈ [missing, bare, given, other], request.Distinct :=
    fun request member => Request.distinct_of_all (once request member)
  have test : (empty.serve .default id [missing, bare, given, other]).2.map
      (fun answer => answer.toOption.map SharedOperation.number) =
        [none, some 0, some 0, some 1] := by
    decide +kernel
  have run := serve_transparent .default id [missing, bare, given, other] bounded distinct
    fun _ _ _ _ same => same
  generalize served : (empty.serve .default id [missing, bare, given, other]).2 = answers
    at run test
  obtain ⟨x, xs, rfl, failed, test⟩ := List.map_eq_cons_iff.mp test
  obtain ⟨y, xs, rfl, first, test⟩ := List.map_eq_cons_iff.mp test
  obtain ⟨z, xs, rfl, second, test⟩ := List.map_eq_cons_iff.mp test
  obtain ⟨w, xs, rfl, third, test⟩ := List.map_eq_cons_iff.mp test
  cases List.map_eq_nil_iff.mp test
  obtain ⟨a, first, numberA⟩ := Option.map_eq_some_iff.mp first
  obtain ⟨b, second, numberB⟩ := Option.map_eq_some_iff.mp second
  obtain ⟨c, third, numberC⟩ := Option.map_eq_some_iff.mp third
  cases eq_ok_of_toOption first
  cases eq_ok_of_toOption second
  cases eq_ok_of_toOption third
  obtain ⟨fresh, shares, -⟩ := run
  have ab := shares bare given a b (by simp) (by simp)
  have ac := shares bare other a c (by simp) (by simp)
  have one := ab.of_number (numberA.trans numberB.symm)
  cases x with
  | ok => cases failed
  | error e =>
  have alone : (empty.prepare .default id missing).2 = .error e := by
    have paired := (List.forall₂_cons.mp fresh).1
    generalize (empty.prepare .default id missing).2 = answer at paired ⊢
    cases paired
    rfl
  refine ⟨missing, bare, given, other, e, a, b, c, bounded, distinct, served, alone, one,
    (ab.operation.mp one).2.2, fun same => ?_, ac.plan.mpr rfl⟩
  rw [← same, numberA] at numberC
  cases numberC

end

end DigestRegistry
end ResponseGraph

import ResponseGraph.Proofs.Document.Defaults
import ResponseGraph.Proofs.Field.Same
import ResponseGraph.Proofs.Field.Variables
import ResponseGraph.Proofs.Registry.Served

/-!
What a registry shares.

An operation that is found was made for another request with the same document and root, under
bindings that are the same, so it is the same as one that is made now.  No two operations that are
kept serve one request, so requests share an operation exactly if they agree on all of that.

Bindings are compared by their values.  Sameness of values is an equivalence where no object
repeats a name, which is why this is asked of the bindings of a caller.
-/

namespace ResponseGraph

/-- No object among the values that the caller gives repeats a name. -/
def Request.Distinct (request : Request) : Prop :=
  ∀ given, request.bindings = some given → given.Distinct

theorem Request.distinct_of_all {request : Request}
    (h : request.bindings.all fun given => given.toJson.distinct) : request.Distinct := by
  intro given found
  rw [found] at h
  exact Bindings.distinct_of_toJson h

theorem Plan.distinct_defaults {addTypename strict : Bool} {key : DocumentKey} {plan : Plan}
    (h : Plan.ofKey addTypename strict key = .ok plan) : plan.defaults.Distinct := by
  cases Plan.made_of_ofKey h with
  | fragment => exact fun name value found => nomatch found
  | operation => exact Plan.distinct_declaredDefaults _

theorem Plan.distinct_bindings {addTypename strict : Bool} {key : DocumentKey} {plan : Plan}
    {request : Request} (h : Plan.ofKey addTypename strict key = .ok plan)
    (distinct : request.Distinct) : (plan.bindings request.bindings).Distinct := by
  intro name value found
  have default := Plan.distinct_defaults h name value
  unfold Plan.bindings at found
  cases given : request.bindings with
  | none =>
    rw [given] at found
    exact default found
  | some given' =>
    rw [given] at found
    dsimp only at found
    rw [Table.get?_override] at found
    rcases Option.or_eq_some_iff.mp found with here | ⟨-, here⟩
    · exact distinct given' given name value here
    · exact default here

/-! ## Operations that are kept -/

/-- The two operations serve the same requests. -/
structure Registered.Matches (a b : Registered) : Prop where
  key : a.key = b.key
  root : a.operation.root = b.operation.root
  bindings : a.operation.bindings.same b.operation.bindings

/-- The operation is one of the request. -/
structure Registered.Serves (config : Config) (request : Request) (entry : Registered) : Prop where
  key : entry.key = request.key
  root : entry.operation.root = request.root
  plan : config.plan request.key = .ok entry.operation.plan
  bindings : entry.operation.bindings.same (entry.operation.plan.bindings request.bindings)

namespace Registry

variable {config : Config} {registry registry' : Registry} {request : Request}

/-- Every operation has its position as its number, and no two match. -/
structure Apart (config : Config) (registry : Registry) : Prop where
  derived : registry.Derived config
  distinct : ∀ entry ∈ registry.operations, entry.operation.bindings.Distinct
  serials : Numbered Registered.serial registry.operations
  apart : registry.operations.Pairwise fun a b => ¬ a.Matches b

theorem apart_empty (config : Config) : empty.Apart config :=
  ⟨derived_empty config, fun _ member => absurd member List.not_mem_nil, .nil, List.Pairwise.nil⟩

theorem operations_of_plan {key : DocumentKey} {plan : Plan}
    (planned : registry.plan config key = .ok (plan, registry')) :
    registry'.operations = registry.operations := by
  rcases plan_cases planned with ⟨-, rfl⟩ | ⟨-, -, rfl⟩ <;> rfl

theorem Apart.of_plan {key : DocumentKey} {plan : Plan} (h : registry.Apart config)
    (planned : registry.plan config key = .ok (plan, registry')) : registry'.Apart config := by
  have same := operations_of_plan planned
  exact ⟨(h.derived.plan planned).2, same ▸ h.distinct, same ▸ h.serials, same ▸ h.apart⟩

/-- An operation that none matches is kept with the next number. -/
theorem Apart.add {operation : Operation} {key : DocumentKey} (h : registry.Apart config)
    (derived : Derived config ⟨registry.plans,
      registry.operations ++ [⟨registry.operations.length, key, operation⟩]⟩)
    (distinct : operation.bindings.Distinct)
    (unmatched : ∀ entry ∈ registry.operations,
      ¬ entry.Matches ⟨registry.operations.length, key, operation⟩) :
    Apart config ⟨registry.plans,
      registry.operations ++ [⟨registry.operations.length, key, operation⟩]⟩ where
  derived := derived
  distinct entry member := by
    rcases List.mem_append.mp member with old | new
    · exact h.distinct entry old
    · rw [List.mem_singleton.mp new]
      exact distinct
  serials := h.serials.snoc rfl
  apart := by
    refine List.pairwise_append.mpr ⟨h.apart, List.pairwise_singleton _ _, ?_⟩
    intro entry member new last
    cases List.mem_singleton.mp last
    exact unmatched entry member

/-- An operation of the request, if there were one, would have been found. -/
theorem not_matches_of_operation? {operation : Operation} {key : DocumentKey} {serial : Nat}
    (absent : registry.operation? key operation.root operation.bindings = none) :
    ∀ entry ∈ registry.operations, ¬ entry.Matches ⟨serial, key, operation⟩ := by
  intro entry member matching
  have missed := List.find?_eq_none.mp absent entry member
  simp only [Bool.and_eq_true, decide_eq_true_eq, beq_iff_eq, not_and] at missed
  exact missed ⟨matching.key, matching.root⟩ matching.bindings

/-- Preparing a request keeps the operations apart, keeps those that there were, and keeps the one
that it gives. -/
theorem Apart.prepare (h : registry.Apart config) (distinct : request.Distinct) :
    (registry.prepare config request).1.Apart config ∧
      registry.operations ⊆ (registry.prepare config request).1.operations ∧
      ∀ entry, (registry.prepare config request).2 = .ok entry →
        entry ∈ (registry.prepare config request).1.operations ∧ entry.Serves config request := by
  have derived := (h.derived.prepare request).1
  have step := prepares config request registry
  generalize (registry.prepare config request).1 = later at step derived ⊢
  generalize (registry.prepare config request).2 = answer at step ⊢
  cases step with
  | refused failed => exact ⟨h, List.Subset.refl _, fun _ impossible => (nomatch impossible)⟩
  | known planned found =>
    have same := operations_of_plan planned
    refine ⟨h.of_plan planned, same ▸ List.Subset.refl _, fun entry e => ?_⟩
    cases e
    obtain ⟨member, key, root, bindings⟩ := of_operation? found
    have planned' := (h.derived.plan planned).1
    have plan := (derived.operations _ member).1
    rw [key, planned'] at plan
    cases plan
    exact ⟨member, key, root, planned', bindings⟩
  | unbound planned absent failed =>
    have same := operations_of_plan planned
    exact ⟨h.of_plan planned, same ▸ List.Subset.refl _, fun _ impossible => (nomatch impossible)⟩
  | @made plan middle operation planned absent made =>
    have same := operations_of_plan planned
    have planned' := (h.derived.plan planned).1
    have distinct' := Plan.distinct_bindings planned' distinct
    obtain ⟨rfl, root, bindings⟩ := Operation.parts_of made
    rw [← root, ← bindings] at absent
    rw [← bindings] at distinct'
    have added := (h.of_plan planned).add derived distinct' (not_matches_of_operation? absent)
    refine ⟨added, fun entry member => List.mem_append_left _ (same ▸ member), fun entry e => ?_⟩
    cases e
    refine ⟨List.mem_append_right _ List.mem_cons_self, rfl, root, planned', ?_⟩
    rw [← bindings]
    exact Bindings.same_refl distinct'

/-- Operations that are kept are one operation exactly if they match. -/
theorem Apart.serial_eq_iff (h : registry.Apart config) {a b : Registered}
    (ha : a ∈ registry.operations) (hb : b ∈ registry.operations) :
    a.serial = b.serial ↔ a.Matches b := by
  constructor
  · intro same
    cases h.serials.eq_of_eq ha hb same
    exact ⟨rfl, rfl, Bindings.same_refl (h.distinct _ hb)⟩
  · intro matching
    obtain ⟨i, found⟩ := List.mem_iff_getElem?.mp ha
    obtain ⟨j, found'⟩ := List.mem_iff_getElem?.mp hb
    obtain ⟨hi, rfl⟩ := List.getElem?_eq_some_iff.mp found
    obtain ⟨hj, rfl⟩ := List.getElem?_eq_some_iff.mp found'
    have apart := List.pairwise_iff_getElem.mp h.apart
    rcases Nat.lt_trichotomy i j with before | rfl | after
    · exact absurd matching (apart i j hi hj before)
    · rfl
    · refine absurd ⟨matching.key.symm, matching.root.symm, ?_⟩ (apart j i hj hi after)
      exact Bindings.same_symm (h.distinct _ ha) (h.distinct _ hb) matching.bindings

end Registry

/-- Operations of two requests match if the requests agree on the document, the root and the
bindings with the defaults. -/
theorem Registered.Serves.matches_iff {config : Config} {r s : Request} {a b : Registered}
    (ha : a.Serves config r) (hb : b.Serves config s) (hr : r.Distinct) (hs : s.Distinct)
    (da : a.operation.bindings.Distinct) (db : b.operation.bindings.Distinct) :
    a.Matches b ↔ r.key = s.key ∧ r.root = s.root ∧
      (a.operation.plan.bindings r.bindings).same (b.operation.plan.bindings s.bindings) := by
  have dr := Plan.distinct_bindings ha.plan hr
  have ds := Plan.distinct_bindings hb.plan hs
  constructor
  · intro h
    have back := Bindings.same_symm da dr ha.bindings
    exact ⟨ha.key.symm.trans (h.key.trans hb.key), ha.root.symm.trans (h.root.trans hb.root),
      Bindings.same_trans dr db ds (Bindings.same_trans dr da db back h.bindings) hb.bindings⟩
  · rintro ⟨key, root, bindings⟩
    have back := Bindings.same_symm db ds hb.bindings
    exact ⟨ha.key.trans (key.trans hb.key.symm), ha.root.trans (root.trans hb.root.symm),
      Bindings.same_trans da ds db (Bindings.same_trans da dr ds ha.bindings bindings) back⟩

namespace Registry

variable {config : Config} {request : Request}

/-! ## A registry of its own -/

/-- What a request comes to in a registry of its own. -/
theorem prepare_empty (config : Config) (request : Request) :
    (empty.prepare config request).2 =
      ((config.plan request.key).mapError .document).bind fun plan =>
        ((Operation.of plan request.root (plan.bindings request.bindings)).mapError
          .variable).map fun operation => ⟨0, request.key, operation⟩ := by
  have step := prepares config request empty
  generalize (empty.prepare config request).1 = later at step
  generalize (empty.prepare config request).2 = answer at step ⊢
  cases step with
  | refused failed =>
    rw [plan_eq_error failed]
    rfl
  | known planned found =>
    unfold operation? at found
    rw [operations_of_plan planned] at found
    cases found
  | unbound planned absent failed =>
    rw [((derived_empty config).plan planned).1]
    show _ = ((Operation.of _ _ _).mapError _).map _
    rw [failed]
    rfl
  | made planned absent made =>
    rw [((derived_empty config).plan planned).1, operations_of_plan planned]
    show _ = ((Operation.of _ _ _).mapError _).map _
    rw [made]
    rfl

/-- A request is answered as in a registry of its own: by the same error, or by an operation that
is the same. -/
theorem Answers.paired_fresh {answer : Except Error Registered}
    (h : Answers config request answer) (distinct : request.Distinct)
    (kept : ∀ entry, answer = .ok entry → entry.operation.bindings.Distinct) :
    Paired (fun entry fresh : Registered => entry.operation.Same fresh.operation) answer
      (empty.prepare config request).2 := by
  rw [prepare_empty]
  cases h with
  | refused failed =>
    rw [failed]
    exact .error _
  | unbound planned failed =>
    rw [planned]
    show Paired _ _ (((Operation.of _ _ _).mapError _).map _)
    rw [failed]
    exact .error _
  | @ok plan bindings entry planned key bound made =>
    rw [planned]
    show Paired _ _ (((Operation.of plan request.root
      (plan.bindings request.bindings)).mapError _).map _)
    have mine := kept entry rfl
    have same := (Operation.parts_of made).2.2
    rcases bound with rfl | bound
    · rw [made]
      exact .ok (.refl mine)
    · have outcome := Operation.sameOutcome_of plan request.root (same ▸ mine)
        (Plan.distinct_bindings planned distinct) bound
      rw [made] at outcome
      generalize Operation.of plan request.root (plan.bindings request.bindings) = fresh
        at outcome ⊢
      cases outcome with
      | ok same => exact .ok same

/-! ## Runs -/

/-- Prepares requests one after another, and gives the answers. -/
def serve (config : Config) (registry : Registry) :
    List Request → Registry × List (Except Error Registered)
  | [] => (registry, [])
  | request :: rest =>
    let later := serve config (registry.prepare config request).1 rest
    (later.1, (registry.prepare config request).2 :: later.2)

/-- The answer is the one of the request, and what it gives is kept. -/
structure Given (config : Config) (registry : Registry) (request : Request)
    (answer : Except Error Registered) : Prop where
  answers : Answers config request answer
  kept : ∀ entry, answer = .ok entry →
    entry ∈ registry.operations ∧ entry.Serves config request

/-- Every request of a run is answered, and the operations that are given are kept apart to the
end. -/
theorem Apart.serve {registry : Registry} {requests : List Request} (h : registry.Apart config)
    (distinct : ∀ request ∈ requests, request.Distinct) :
    (registry.serve config requests).1.Apart config ∧
      registry.operations ⊆ (registry.serve config requests).1.operations ∧
      List.Forall₂ (Given config (registry.serve config requests).1) requests
        (registry.serve config requests).2 := by
  induction requests generalizing registry with
  | nil => exact ⟨h, List.Subset.refl _, .nil⟩
  | cons first rest ih =>
    obtain ⟨apart, grows, given⟩ := h.prepare (distinct first List.mem_cons_self)
    obtain ⟨last, more, answers⟩ := ih apart fun request member =>
      distinct request (List.mem_cons_of_mem _ member)
    refine ⟨last, List.Subset.trans grows more, .cons ⟨?_, fun entry prepared => ?_⟩ answers⟩
    · exact (h.derived.prepare first).2
    · obtain ⟨kept, serves⟩ := given entry prepared
      exact ⟨more kept, serves⟩

end Registry
end ResponseGraph

import ResponseGraph.Proofs.Document.Defaults
import ResponseGraph.Proofs.Payload.Closed
import ResponseGraph.Proofs.Registry.Served

/-!
Values for variables.

An operation that is prepared has no variables left in its arguments, whichever of its fields are
excluded and whichever were passed over, so merging never meets one.  A request that is refused
for want of a variable wants one that its document uses, that the caller gives no value and that
has no default.  If what is used must be declared, it is enough to give a value to every variable
that is declared without a default.
-/

namespace ResponseGraph

namespace Request

/-- The caller gives a value for the variable. -/
def supplies (request : Request) (name : String) : Bool :=
  request.bindings.any fun given => given.contains name

/-- The caller gives a value for each variable that the document declares without a default. -/
def complete (request : Request) : Bool :=
  (Document.parse? request.document).all fun document =>
    document.operations.all fun operation =>
      operation.variableDefinitions.all fun definition =>
        definition.default.isSome || request.supplies definition.name

/-- In a complete request a declared variable has a default or a value. -/
theorem supplies_of_complete {request : Request} {document : Document}
    {operation : OperationDefinition} {definition : VariableDefinition} (h : request.complete)
    (parsed : Document.parse? request.document = some document)
    (member : operation ∈ document.operations)
    (declared : definition ∈ operation.variableDefinitions) (none : definition.default = none) :
    request.supplies definition.name := by
  unfold complete at h
  rw [parsed, Option.all_some, List.all_eq_true] at h
  have here := List.all_eq_true.mp (h operation member) definition declared
  rw [none] at here
  exact here

end Request

/-! ## Bindings -/

theorem Plan.get?_bindings_eq_none_iff {plan : Plan} {request : Request} {name : String} :
    (plan.bindings request.bindings).get? name = none ↔
      ¬ request.supplies name ∧ ¬ plan.defaults.contains name := by
  unfold Plan.bindings Request.supplies Table.contains
  cases request.bindings with
  | none => simp
  | some given => simp [Table.get?_override]

/-- Under strict variables what is used is declared. -/
theorem Plan.declared_of_used {operation : OperationDefinition} {used : List String}
    (h : Plan.checkVariables operation used = .ok ()) {name : String} (member : name ∈ used) :
    ∃ definition ∈ operation.variableDefinitions, definition.name = name := by
  unfold checkVariables at h
  split at h
  · next none =>
    have undeclared := List.map_eq_nil_iff.mp (List.append_eq_nil_iff.mp none).1
    have known := List.filter_eq_nil_iff.mp undeclared name member
    exact List.mem_map.mp (by simpa using known)
  · cases h

namespace Registry

variable {config : Config} {request : Request} {answer : Except Error Registered}

/-- The operation that answers a request has no variables. -/
theorem Answers.closed {entry : Registered} (h : Answers config request (.ok entry)) :
    entry.operation.selection.fields.All FieldHead.Closed := by
  cases h with
  | ok planned key bound made => exact (Operation.ends_of planned _ _).of_ok made

/-- A variable that is missing is used, and has neither a value nor a default. -/
theorem Answers.missing {name : String}
    (h : Answers config request (.error (.variable (.missing name)))) :
    ∃ plan, config.plan request.key = .ok plan ∧ name ∈ plan.used ∧ ¬ request.supplies name ∧
      ¬ plan.defaults.contains name := by
  cases h with
  | unbound planned failed =>
    obtain ⟨used, unbound⟩ := (Operation.ends_of planned _ _).of_error failed
    exact ⟨_, planned, used, Plan.get?_bindings_eq_none_iff.mp unbound⟩

/-- No variable is missing from a complete request for an operation under strict variables. -/
theorem Answers.not_missing {name : String}
    (h : Answers config request (.error (.variable (.missing name))))
    (strict : config.strictVariables) (operation : request.fragmentsOnly = false) :
    ¬ request.complete := by
  intro complete
  obtain ⟨plan, planned, used, unsupplied, noDefault⟩ := h.missing
  cases Plan.made_of_ofKey planned with
  | fragment _ only =>
    rw [Request.key, operation] at only
    cases only
  | @operation document defined resolved parsed _ sole _ checked =>
    have member : defined ∈ document.operations := sole ▸ List.mem_singleton.mpr rfl
    obtain ⟨definition, declared, rfl⟩ := Plan.declared_of_used (checked strict) used
    cases given : definition.default with
    | none => exact unsupplied (Request.supplies_of_complete complete parsed member declared given)
    | some literal =>
      have constant := Document.constant_parse? parsed defined member definition declared
      exact noDefault (Plan.contains_declaredDefaults declared constant given)

end Registry

/-- What a cache answers to a request with variables: an operation without variables at any depth,
which is merged without meeting one, or else a used variable is reported that has no value; and
there is none under strict variables if the request for an operation is complete. -/
theorem Cache.prepare_replaces_variables {cache : Cache}
    (served : cache.registry.Served cache.config) (request : Request) :
    (∀ entry, (cache.prepare request).2 = .ok entry →
      entry.operation.selection.fields.All FieldHead.Closed ∧
      ∀ (writer : Cache) (batch : Batch) (payload : Json) (name : String),
        batch.merge writer entry payload ≠ .error (.usage (.openVariable name))) ∧
    (∀ name, (cache.prepare request).2 = .error (.variable (.missing name)) →
      ∃ plan, cache.config.plan request.key = .ok plan ∧ name ∈ plan.used ∧
        ¬ request.supplies name ∧ ¬ plan.defaults.contains name) ∧
    (cache.config.strictVariables → request.fragmentsOnly = false → request.complete →
      ∀ name, (cache.prepare request).2 ≠ .error (.variable (.missing name))) := by
  have answers : Registry.Answers cache.config request (cache.prepare request).2 :=
    (served.derived.prepare request).2
  refine ⟨fun entry prepared => ?_, fun name failed => ?_,
    fun strict operation complete name failed => ?_⟩
  · have closed := (prepared ▸ answers).closed
    exact ⟨closed, fun writer batch payload name => Batch.merge_not_open closed writer payload batch
      name⟩
  · exact (failed ▸ answers).missing
  · exact (failed ▸ answers).not_missing strict operation complete

/-- The variable that an answer reports missing. -/
def Registry.missing? : Except Error Registered → Option String
  | .error (.variable (.missing name)) => some name
  | _ => none

theorem Registry.eq_error_of_missing? {answer : Except Error Registered} {name : String}
    (h : missing? answer = some name) : answer = .error (.variable (.missing name)) := by
  unfold missing? at h
  split at h
  · cases h
    rfl
  · cases h

/-- The argument of a field that is excluded is replaced all the same.  Without a value for its
condition there is no operation, and with one there is. -/
theorem Cache.prepare_replaces_variables_of_post :
    ∃ (cache : Cache) (entry : Registered) (full bare : Request),
      (cache.prepare full).2 = .ok entry ∧
      entry.operation.selection.fields.All FieldHead.Closed ∧
      (∀ (batch : Batch) payload name,
        batch.merge cache entry payload ≠ .error (.usage (.openVariable name))) ∧
      (cache.prepare bare).2 = .error (.variable (.missing "deep")) ∧
      ¬ bare.supplies "deep" ∧ ¬ bare.complete ∧ full.complete ∧
      ∀ name, (cache.prepare full).2 ≠ .error (.variable (.missing name)) := by
  let bare := Request.query ("query ($n: Int = 1, $deep: Boolean!) \x7b feed " ++
    "\x7b post(at: [$n]) @include(if: $deep) \x7b id \x7d \x7d \x7d")
  let full := { bare with bindings := some (Table.ofList [("deep", .bool false)]) }
  let cache := ((Cache.new .default).prepare bare).1
  have test : (cache.prepare full).2.toOption.isSome ∧ cache.config.strictVariables ∧
      full.complete ∧ Registry.missing? (cache.prepare bare).2 = some "deep" := by
    decide +kernel
  obtain ⟨prepared, strict, complete, missing⟩ := test
  obtain ⟨entry, prepared⟩ := Option.isSome_iff_exists.mp prepared
  have served : cache.registry.Served cache.config := Cache.served_prepare .empty _
  have prepared := eq_ok_of_toOption prepared
  have missing := Registry.eq_error_of_missing? missing
  obtain ⟨answered, -, never⟩ := prepare_replaces_variables served full
  obtain ⟨-, refused, unmissed⟩ := prepare_replaces_variables served bare
  obtain ⟨closed, merges⟩ := answered entry prepared
  obtain ⟨_, -, -, unsupplied, -⟩ := refused _ missing
  exact ⟨cache, entry, full, bare, prepared, closed, merges cache, missing, unsupplied,
    fun complete => unmissed strict rfl complete _ missing, complete, never strict rfl complete⟩

end ResponseGraph

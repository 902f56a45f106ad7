import ResponseGraph.Proofs.Payload.Trace

/-!
Positions that a walk comes to.

What a merge does with a position depends on the draft that the walk has made before it.
`Fields.Reaches` says that the walk over the members of an object comes to a position of a
field with a sub-selection, and with which draft: all that comes before the position was merged.
Nothing is said of what comes after it, so the walk may fail there or later.

A walk that comes to a position at which the merge fails fails with the same error
(`Fields.Reaches.error`).
-/

namespace ResponseGraph

namespace Walk

/-- A position of a field with a sub-selection, as a walk comes to it. -/
structure Arrival where
  place : Place
  set : Nat
  fields : Fields
  payload : Json
  walk : Walk

namespace Arrival

/-- What is stored at the place. -/
def stored? (arrival : Arrival) : Option Value := arrival.walk.stored? arrival.place

/-- What happens to the members of an object from there on. -/
def descend (identify : Json → Option NodeId) (arrival : Arrival) : Descent :=
  fun below members walk => Fields.merge identify below members arrival.fields walk

/-- The merge of what the payload holds there. -/
def merge (identify : Json → Option NodeId) (arrival : Arrival) : Except Error Walk :=
  value identify arrival.set (arrival.descend identify) arrival.place arrival.payload arrival.walk

end Arrival
end Walk

open Walk

/-- The walk over the members of an object comes to one of its fields. -/
inductive Fields.Arrives (identify : Json → Option NodeId) (place : Place)
    (members : List (String × Json)) (walk : Walk) : Fields → Arrival → Prop
  | field (before : Fields) {name : String} {label : Nat} {head : FieldHead} {traits : Traits}
    {set : Nat} {below : Fields} (after : Fields) {middle grown : Walk} {here : Place}
    (included : head.excluded = false)
    (merged : Fields.merge identify place members before walk = .ok middle)
    (located :
      (middle.member place name members).1.field place name head = .ok (grown, here)) :
    Fields.Arrives identify place members walk
      (before ++ (name, .composite label head traits set below) :: after)
      ⟨here, set, below, (middle.member place name members).2, grown⟩

/-- One position leads to another that is an item of it, or a field of it. -/
inductive Walk.Arrival.Leads (identify : Json → Option NodeId) (arrival : Arrival) :
    Arrival → Prop
  | item {before : List Json} {payload : Json} {after : List Json} {middle : Walk}
    (array : arrival.payload = .array (before ++ payload :: after))
    (stored : list? arrival.stored? = none → occupied arrival.stored? = false)
    (merged : items identify arrival.set (arrival.descend identify) arrival.place 0 before
      (arrival.walk.fit arrival.place (list? arrival.stored?) (before ++ payload :: after).length) =
        .ok middle) :
    Arrival.Leads identify arrival
      ⟨arrival.place.step (.index before.length), arrival.set, arrival.fields, payload, middle⟩
  | member {members : List (String × Json)} {entering : Walk} {below : Place} {next : Arrival}
    (object : arrival.payload = .object members) (noList : list? arrival.stored? = none)
    (entered : arrival.walk.object identify arrival.set arrival.place arrival.stored? members =
      .ok (entering, some below))
    (arrives : Fields.Arrives identify below members entering arrival.fields next) :
    Arrival.Leads identify arrival next

/-- The walk over the members of an object comes to a position at any depth. -/
inductive Fields.Reaches (identify : Json → Option NodeId) (place : Place)
    (members : List (String × Json)) (fields : Fields) (walk : Walk) : Arrival → Prop
  | field {arrival : Arrival}
    (arrives : Fields.Arrives identify place members walk fields arrival) :
    Fields.Reaches identify place members fields walk arrival
  | inside {arrival next : Arrival}
    (reached : Fields.Reaches identify place members fields walk arrival)
    (leads : arrival.Leads identify next) : Fields.Reaches identify place members fields walk next

/-! ## Errors -/

variable {identify : Json → Option NodeId} {place : Place} {members : List (String × Json)}
  {fields : Fields} {walk : Walk} {arrival next : Arrival} {e : Error}

theorem Fields.merge_append {before after : Fields} {middle : Walk}
    (merged : Fields.merge identify place members before walk = .ok middle) :
    Fields.merge identify place members (before ++ after) walk =
      Fields.merge identify place members after middle := by
  induction before generalizing walk with
  | nil =>
    cases merged
    rfl
  | cons entry before ih =>
    obtain ⟨name, field⟩ := entry
    rw [List.cons_append, Fields.merge]
    rw [Fields.merge] at merged
    split at merged
    · next excluded =>
      rw [if_pos excluded]
      exact ih merged
    · next included =>
      rw [if_neg included]
      obtain ⟨warnings, selected⟩ := walk.member_eq place name members
      rw [selected] at merged ⊢
      obtain ⟨⟨grown, here⟩, located, merged⟩ := exists_of_bind_eq_ok merged
      obtain ⟨between, first, later⟩ := exists_of_bind_eq_ok merged
      dsimp only
      rw [located]
      dsimp only [bind, Except.bind]
      rw [first]
      exact ih later

theorem Walk.items_append {set : Nat} {descend : Descent} {index : Nat} {before after : List Json}
    {middle : Walk} (merged : items identify set descend place index before walk = .ok middle) :
    items identify set descend place index (before ++ after) walk =
      items identify set descend place (index + before.length) after middle := by
  induction before generalizing index walk with
  | nil =>
    cases merged
    rfl
  | cons payload before ih =>
    rw [items] at merged
    obtain ⟨between, first, later⟩ := exists_of_bind_eq_ok merged
    rw [List.cons_append, items, first, List.length_cons, ← Nat.add_assoc, Nat.add_right_comm]
    exact ih later

theorem Fields.Arrives.error (h : Fields.Arrives identify place members walk fields arrival)
    (fails : arrival.merge identify = .error e) :
    Fields.merge identify place members fields walk = .error e := by
  obtain ⟨before, after, included, merged, located⟩ := h
  rename_i name label head traits set below middle grown here
  have inside : Field.merge identify here (middle.member place name members).2
      (.composite label head traits set below) grown = .error e := fails
  rw [Fields.merge_append merged, Fields.merge, Field.head, included, if_neg Bool.false_ne_true]
  dsimp only
  rw [located]
  dsimp only [bind, Except.bind]
  rw [inside]

theorem Walk.Arrival.Leads.error (h : arrival.Leads identify next)
    (fails : next.merge identify = .error e) : arrival.merge identify = .error e := by
  cases h with
  | @item before payload after middle array stored merged =>
    have admitted : ((list? arrival.stored?).isNone && occupied arrival.stored?) = false := by
      cases given : list? arrival.stored? with
      | none => rw [stored given, Bool.and_false]
      | some => rfl
    unfold Arrival.merge
    rw [array, value]
    rw [show arrival.walk.stored? arrival.place = arrival.stored? from rfl, admitted,
      if_neg Bool.false_ne_true, items_append merged, items]
    unfold Arrival.merge at fails
    rw [Nat.zero_add,
      show value identify arrival.set (arrival.descend identify) _ payload middle = _ from fails]
    rfl
  | @member members entering below _ object noList entered arrives =>
    unfold Arrival.merge
    rw [object, value]
    dsimp only
    rw [show arrival.walk.stored? arrival.place = arrival.stored? from rfl, noList, entered]
    exact arrives.error fails

/-- A walk that comes to a position at which the merge fails fails with the same error. -/
theorem Fields.Reaches.error (h : Fields.Reaches identify place members fields walk arrival)
    (fails : arrival.merge identify = .error e) :
    Fields.merge identify place members fields walk = .error e := by
  induction h with
  | field arrives => exact arrives.error fails
  | inside _ leads ih => exact ih (leads.error fails)

/-! ## Runs -/

/-- The arrival ends a run, and the place is inside what was seen. -/
structure Walk.Arrival.Ends (identify : Json → Option NodeId) (walk : Walk) (seen : List Visit)
    (arrival : Arrival) (seen' : List Visit) : Prop where
  run : Run identify walk seen arrival.walk seen'
  due : Due arrival.walk seen' arrival.place.site
  marked : arrival.walk.Marked seen'

theorem Fields.Arrives.run {seen : List Visit}
    (h : Fields.Arrives identify place members walk fields arrival)
    (opened : .brought place.site .object ∈ seen) (marked : walk.Marked seen) :
    ∃ seen', arrival.Ends identify walk seen seen' := by
  obtain ⟨before, after, included, merged, located⟩ := h
  rename_i name label head traits set below middle grown here
  obtain ⟨seen', traced, -⟩ := Fields.merge_traces before merged opened marked
  obtain ⟨warnings, selected⟩ := middle.member_eq place name members
  rw [selected] at located ⊢
  have opened := traced.run.seen_subset opened
  obtain ⟨-, silent, due⟩ := Walk.field_traced opened located
  have warned : Walk.Step identify middle seen' { middle with warnings } seen' := .warned warnings
  have run := (traced.run.trans warned.run).trans silent
  exact ⟨seen', run, due, run.marked marked⟩

/-- Items that were merged were brought to a list that is at least as long. -/
theorem Walk.items_run {set : Nat} {fields : Fields} {descend : Descent} {index length : Nat}
    {payloads : List Json} {walk' : Walk} {seen : List Visit}
    (descends : Descends identify fields descend)
    (merged : items identify set descend place index payloads walk = .ok walk')
    (short : index + payloads.length ≤ length) (around : .brought place.site (.list length) ∈ seen)
    (marked : walk.Marked seen) : ∃ seen', Run identify walk seen walk' seen' := by
  induction payloads generalizing index walk seen with
  | nil =>
    cases merged
    exact ⟨seen, .refl⟩
  | cons payload rest ih =>
    rw [items] at merged
    rw [List.length_cons] at short
    obtain ⟨middle, first, merged⟩ := exists_of_bind_eq_ok merged
    have due : Due walk seen (place.step (.index index)).site := .item around (by omega)
    obtain ⟨between, traced, -⟩ := value_traces descends payload first due marked
    obtain ⟨seen', later⟩ := ih merged (by omega) (traced.run.seen_subset around)
      (traced.run.marked marked)
    exact ⟨seen', traced.run.trans later⟩

theorem Walk.Arrival.Leads.run {start : Walk} {seen between : List Visit}
    (h : arrival.Leads identify next) (ends : arrival.Ends identify start seen between) :
    ∃ seen', next.Ends identify start seen seen' := by
  have descends : Descends identify arrival.fields (arrival.descend identify) :=
    fun _ _ _ _ _ merged opened marked => Fields.merge_traces arrival.fields merged opened marked
  obtain ⟨run, due, marked⟩ := ends
  cases h with
  | @item before payload after middle array stored merged =>
    have long : before.length < (before ++ payload :: after).length := by
      rw [List.length_append, List.length_cons]
      omega
    have brings : Brings identify arrival.walk arrival.place
        (.list (before ++ payload :: after).length) _ := .list _ stored
    have fitted := (Step.brought due brings).run
    obtain ⟨seen', later⟩ := items_run descends merged (by omega) List.mem_cons_self
      (fitted.marked marked)
    have due' : Due middle seen' (arrival.place.site.step (.index before.length)) :=
      .item (later.seen_subset List.mem_cons_self) long
    have run' := fitted.trans later
    exact ⟨seen', run.trans run', due', run'.marked marked⟩
  | @member members entering below _ object noList entered arrives =>
    rcases brings_object noList entered with ⟨-, brings, same, e⟩ |
      ⟨id, middle, -, brings, visit⟩
    · cases e
      cases same
      have opened := (Step.brought due brings).run
      obtain ⟨seen', ends⟩ := arrives.run List.mem_cons_self (opened.marked marked)
      exact ⟨seen', (run.trans opened).trans ends.run, ends.due, ends.marked⟩
    · have referred := (Step.brought due brings).run
      rcases visit_cases visit with ⟨-, -, e⟩ | ⟨-, marking, e⟩
      · cases e
      · cases e
        subst marking
        have opened := referred.trans
          (Step.entered arrival.set arrival.fields members List.mem_cons_self).run
        obtain ⟨seen', ends⟩ := arrives.run List.mem_cons_self (opened.marked marked)
        exact ⟨seen', (run.trans opened).trans ends.run, ends.due, ends.marked⟩

/-- A walk is run up to every position that it comes to. -/
theorem Fields.Reaches.run {seen : List Visit}
    (h : Fields.Reaches identify place members fields walk arrival)
    (opened : .brought place.site .object ∈ seen) (marked : walk.Marked seen) :
    ∃ seen', arrival.Ends identify walk seen seen' := by
  induction h with
  | field arrives => exact arrives.run opened marked
  | inside _ leads ih =>
    obtain ⟨between, ends⟩ := ih
    exact leads.run ends

end ResponseGraph

import ResponseGraph.Proofs.Value.Lens
import ResponseGraph.Proofs.Value.Observed

/-!
Equal values.

`Equal` says what it is for two values to be equal: the one becomes the other when members of
objects are put in another order and numbers are replaced by equal ones.  The comparison of values
decides it, and so does the comparison of stored data with a payload, for what the payload is
stored as.  Hence a leaf that is not written because it holds its payload would have become nothing
else by writing (`sameAsJson_iff_equal`).
-/

namespace ResponseGraph

namespace Value

mutual
/-- The same value, with the members of objects in another order and with equal numbers. -/
inductive Equal : Value → Value → Prop
  | null : Equal .null .null
  | bool (b : Bool) : Equal (.bool b) (.bool b)
  | number {m n : Number} (same : m.same n) : Equal (.number m) (.number n)
  | string (s : String) : Equal (.string s) (.string s)
  | list {xs ys : List Value} (items : EqualItems xs ys) : Equal (.list xs) (.list ys)
  | object {xs ys arranged : List (String × Value)} (order : ys.Perm arranged)
    (members : EqualMembers xs arranged) : Equal (.object xs) (.object ys)
  | reference (id : String) : Equal (.reference id) (.reference id)

/-- Equal values one by one. -/
inductive EqualItems : List Value → List Value → Prop
  | nil : EqualItems [] []
  | cons {x y : Value} {xs ys : List Value} (here : Equal x y) (later : EqualItems xs ys) :
    EqualItems (x :: xs) (y :: ys)

/-- Equal values one by one, under the same names. -/
inductive EqualMembers : List (String × Value) → List (String × Value) → Prop
  | nil : EqualMembers [] []
  | cons (name : String) {x y : Value} {xs ys : List (String × Value)} (here : Equal x y)
    (later : EqualMembers xs ys) : EqualMembers ((name, x) :: xs) ((name, y) :: ys)
end

/-! ## The comparison decides equality -/

theorem sameMembers_erase {name : String} {xs : List (String × Value)}
    (absent : name ∉ xs.map Prod.fst) (ys : List (String × Value)) :
    sameMembers xs (Entries.erase name ys) = sameMembers xs ys := by
  induction xs with
  | nil => rfl
  | cons entry rest ih =>
    obtain ⟨other, x⟩ := entry
    rw [List.map_cons, List.mem_cons, not_or] at absent
    rw [sameMembers, sameMembers, Entries.get?_erase, if_neg absent.1, ih absent.2]

mutual
theorem same_iff_equal : (a b : Value) → a.distinct → b.distinct → (a.same b ↔ Equal a b)
  | .null, b, _, _ => by
    cases b with
    | null => exact iff_of_true rfl .null
    | _ => exact iff_of_false (fun h => by cases h) fun h => by cases h
  | .bool x, b, _, _ => by
    cases b with
    | bool y =>
      refine beq_iff_eq.trans ⟨fun e => e ▸ .bool x, fun h => ?_⟩
      cases h
      rfl
    | _ => exact iff_of_false (fun h => by cases h) fun h => by cases h
  | .number m, b, _, _ => by
    cases b with
    | number n => exact ⟨.number, fun (.number same) => same⟩
    | _ => exact iff_of_false (fun h => by cases h) fun h => by cases h
  | .string s, b, _, _ => by
    cases b with
    | string t =>
      refine beq_iff_eq.trans ⟨fun e => e ▸ .string s, fun h => ?_⟩
      cases h
      rfl
    | _ => exact iff_of_false (fun h => by cases h) fun h => by cases h
  | .reference id, b, _, _ => by
    cases b with
    | reference other =>
      refine beq_iff_eq.trans ⟨fun e => e ▸ .reference id, fun h => ?_⟩
      cases h
      rfl
    | _ => exact iff_of_false (fun h => by cases h) fun h => by cases h
  | .list xs, b, ha, hb => by
    cases b with
    | list ys => exact (sameItems_iff_equal xs ys ha hb).trans ⟨.list, fun (.list items) => items⟩
    | _ => exact iff_of_false (fun h => by cases h) fun h => by cases h
  | .object xs, b, ha, hb => by
    cases b with
    | object ys =>
      obtain ⟨names, below⟩ := distinct_object_iff.mp ha
      obtain ⟨names', below'⟩ := distinct_object_iff.mp hb
      rw [same, Bool.and_eq_true, beq_iff_eq,
        sameMembers_iff_equal xs ys names names' below below']
      exact ⟨fun ⟨_, order, members⟩ => .object order members,
        fun (.object order members) => ⟨_, order, members⟩⟩
    | _ => exact iff_of_false (fun h => by cases h) fun h => by cases h

theorem sameItems_iff_equal : (xs ys : List Value) → distinctItems xs → distinctItems ys →
    (sameItems xs ys ↔ EqualItems xs ys)
  | [], [], _, _ => iff_of_true rfl .nil
  | [], y :: ys, _, _ => iff_of_false (fun h => by cases h) fun h => by cases h
  | x :: xs, [], _, _ => iff_of_false (fun h => by cases h) fun h => by cases h
  | x :: xs, y :: ys, hx, hy => by
    rw [distinctItems, Bool.and_eq_true] at hx hy
    rw [sameItems, Bool.and_eq_true, same_iff_equal x y hx.1 hy.1,
      sameItems_iff_equal xs ys hx.2 hy.2]
    exact ⟨fun ⟨here, later⟩ => .cons here later, fun (.cons here later) => ⟨here, later⟩⟩

/-- The members of the second object are put in the order of the first, one after the other. -/
theorem sameMembers_iff_equal : (xs ys : List (String × Value)) → (xs.map Prod.fst).Nodup →
    (ys.map Prod.fst).Nodup → (∀ name x, (name, x) ∈ xs → x.distinct) →
    (∀ name y, (name, y) ∈ ys → y.distinct) →
    (xs.length = ys.length ∧ sameMembers xs ys ↔
      ∃ arranged, ys.Perm arranged ∧ EqualMembers xs arranged)
  | [], ys, _, _, _, _ => by
    constructor
    · rintro ⟨long, -⟩
      rw [List.length_eq_zero_iff.mp long.symm]
      exact ⟨[], .refl _, .nil⟩
    · rintro ⟨arranged, order, members⟩
      cases members
      rw [order.eq_nil]
      exact ⟨rfl, rfl⟩
  | (name, x) :: xs, ys, names, names', hx, hy => by
    obtain ⟨absent, names⟩ := List.nodup_cons.mp names
    have ih := sameMembers_iff_equal xs (Entries.erase name ys) names
      (Entries.nodup_erase names' name)
      (fun other z member => hx other z (List.mem_cons_of_mem _ member))
      fun other z member => hy other z (List.mem_of_mem_filter member)
    rw [sameMembers_erase absent] at ih
    have here (y : Value) (found : Entries.get? name ys = some y) : x.same y ↔ Equal x y :=
      same_iff_equal x y (hx name x List.mem_cons_self) (hy name y (Entries.mem_of_get? found))
    rw [sameMembers, Bool.and_eq_true]
    constructor
    · rintro ⟨long, first, later⟩
      split at first
      · next y found =>
        have order := Entries.perm_erase names' found
        have long' : xs.length = (Entries.erase name ys).length :=
          Nat.succ.inj (long.trans order.length_eq)
        obtain ⟨arranged, order', members⟩ := ih.mp ⟨long', later⟩
        exact ⟨(name, y) :: arranged, order.trans (order'.cons _),
          .cons name ((here y found).mp first) members⟩
      · cases first
    · rintro ⟨_, order, members⟩
      cases members with
      | @cons _ _ y _ arranged first later =>
        have found : Entries.get? name ys = some y :=
          Entries.get?_of_mem names' (order.mem_iff.mpr List.mem_cons_self)
        have order' := Entries.perm_erase names' found
        obtain ⟨long, rest⟩ := ih.mpr ⟨arranged, (order'.symm.trans order).cons_inv, later⟩
        refine ⟨(congrArg (· + 1) long).trans order'.length_eq.symm, ?_, rest⟩
        rw [found]
        exact (here y found).mpr first
end

/-! ## Equal parts of a value -/

/-- A value with a part that reads like the one it had reads as it did. -/
theorem readAlike_put {value below new : Value} {step : Step} (taken : value.step? step = some below)
    (alike : ReadAlike below new) : ReadAlike value (value.put step new) := by
  refine readAlike_iff.mpr ⟨?_, fun other => ?_⟩
  · cases value with
    | object members => cases step <;> first | rfl | cases taken
    | list items =>
      cases step with
      | key name => cases taken
      | index i =>
        change items[i]? = some below at taken
        have inside : i < items.length := (List.getElem?_eq_some_iff.mp taken).1
        show (items.length == (List.set (if i < items.length then items else _) i new).length) = true
        rw [List.length_set, if_pos inside, beq_self_eq_true]
    | _ => cases step <;> cases taken
  · by_cases same : step = other
    · subst same
      rw [taken, step?_put_self]
      exact .some alike
    · have kept : (value.put step new).step? other = value.step? other := by
        rw [step?_put_of_ne _ _ same, ← step?_put_of_ne value below same, put_of_step? taken]
      rw [kept]
      cases value.step? other with
      | none => exact .none
      | some found => exact .some (.refl found)

/-- Writing what reads like the value at a path is all that leaves the whole as it reads. -/
theorem readAlike_set_iff {data value new : Value} {path : Path}
    (held : data.get? path = some value) : ReadAlike data (data.set path new) ↔ ReadAlike value new := by
  constructor
  · intro alike
    have here := alike.get? path
    rw [held, get?_set_self] at here
    cases here with
    | some here => exact here
  · intro alike
    induction path generalizing data with
    | nil =>
      cases held
      exact alike
    | cons step path ih =>
      rw [get?_cons] at held
      obtain ⟨below, taken, reached⟩ := Option.bind_eq_some_iff.mp held
      rw [set_cons, taken, Option.getD_some]
      exact readAlike_put taken (ih reached)

/-! ## Stored data and payloads -/

/-- What reads like something that holds a reference is not what a payload is stored as. -/
theorem sameAsJson_eq_false_of_reference {value : Value} {payload : Json} (h : value.distinct)
    (h' : payload.distinct) {path : Path} {id : String}
    (held : value.get? path = some (.reference id)) : value.sameAsJson payload = false := by
  refine Bool.eq_false_iff.mpr fun same => ?_
  have here := (sameAsJson_iff h h').mp same path
  rw [held] at here
  exact get?_ofJson_ne payload path id here.eq_reference

/-- Stored data is compared with a payload as it is with what the payload is stored as: it is the
same exactly if it is equal to that.  Objects are maps here, none with a name twice.  So what was
just stored is the same as its payload, nothing with a reference in it is the same as any, and at a
place of some data, the value there is the same as the payload exactly if writing the payload leaves
the data equal to what it was. -/
theorem sameAsJson_iff_equal (value : Value) (payload : Json) (h : value.distinct)
    (h' : payload.distinct) :
    (value.sameAsJson payload ↔ Equal value (ofJson payload)) ∧
      value.sameAsJson payload = value.same (ofJson payload) ∧
      (ofJson payload).sameAsJson payload ∧
      (∀ path id, value.get? path = some (.reference id) → value.sameAsJson payload = false) ∧
      ∀ data path, data.distinct → data.get? path = some value →
        (value.sameAsJson payload ↔ Equal data (data.set path (ofJson payload))) := by
  have stored : (ofJson payload).distinct := (distinct_ofJson payload).trans h'
  refine ⟨?_, (same_ofJson value payload).symm, ?_, ?_, ?_⟩
  · rw [← same_ofJson, same_iff_equal value (ofJson payload) h stored]
  · exact (sameAsJson_iff stored h').mpr (.refl _)
  · exact fun _ _ held => sameAsJson_eq_false_of_reference h h' held
  · intro data path distinct held
    rw [sameAsJson_iff h h', ← readAlike_set_iff held,
      ← same_iff data _ distinct (distinct_set distinct path stored),
      same_iff_equal data _ distinct (distinct_set distinct path stored)]

/-- The two zeros are one number, and the members are in another order.  A reference in place of a
string makes the difference. -/
theorem sameAsJson_iff_equal_of_reordered :
    let value := object [("tags", .list [.string "a", .null]),
      ("score", .number (.float (.zero false)))]
    let linked := object [("tags", .list [.reference "a", .null]),
      ("score", .number (.float (.zero false)))]
    let payload := Json.object [("score", .number (.float (.zero true))),
      ("tags", .array [.string "a", .null])]
    let data := object [("owner", .reference "1"), ("info", value)]
    value.distinct ∧ linked.distinct ∧ payload.distinct ∧ data.distinct ∧
      data.get? [.key "info"] = some value ∧
      linked.get? [.key "tags", .index 0] = some (.reference "a") ∧
      value.sameAsJson payload ∧ Equal value (ofJson payload) ∧
      Equal data (data.set [.key "info"] (ofJson payload)) ∧ linked.sameAsJson payload = false := by
  intro value linked payload data
  have distinct : value.distinct := by decide
  have distinct' : linked.distinct := by decide
  have payloadDistinct : payload.distinct := by decide
  have whole : data.distinct := by decide
  have held : data.get? [.key "info"] = some value := rfl
  have link : linked.get? [.key "tags", .index 0] = some (.reference "a") := rfl
  have same : value.sameAsJson payload := by decide
  obtain ⟨equal, -, -, -, written⟩ := sameAsJson_iff_equal value payload distinct payloadDistinct
  obtain ⟨-, -, -, never, -⟩ := sameAsJson_iff_equal linked payload distinct' payloadDistinct
  exact ⟨distinct, distinct', payloadDistinct, whole, held, link, same, equal.mp same,
    (written data _ whole held).mp same, never _ _ link⟩

end Value
end ResponseGraph

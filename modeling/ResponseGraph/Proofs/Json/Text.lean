import ResponseGraph.Proofs.Json.Quotation

/-!
JSON text and the value it is written for.

Two values are written alike, whatever follows them, only if they are alike part by part:
lists item by item, objects member by member in their order, numbers in their text.  What
makes this so is that no text of a value is the front of another one (`Cancels`), if what
follows does not go on with a number.
-/

namespace ResponseGraph
namespace Json

/-! ## Strings -/

/-- What a reader of a string takes for one character. -/
def textOf? : List Char → Option (Char × List Char)
  | '\\' :: '"' :: rest => some ('"', rest)
  | '\\' :: '\\' :: rest => some ('\\', rest)
  | '\\' :: 'b' :: rest => some ('\x08', rest)
  | '\\' :: 't' :: rest => some ('\t', rest)
  | '\\' :: 'n' :: rest => some ('\n', rest)
  | '\\' :: 'f' :: rest => some ('\x0c', rest)
  | '\\' :: 'r' :: rest => some ('\r', rest)
  | '\\' :: 'u' :: '0' :: '0' :: high :: low :: rest =>
    some (Char.ofNat (16 * hexValue high + hexValue low), rest)
  | '"' :: _ => none
  | c :: rest => some (c, rest)
  | [] => none
where
  hexValue (c : Char) : Nat := if c.isDigit then c.toNat - '0'.toNat else c.toNat - 'a'.toNat + 10

theorem textOf?_escape (c : Char) (rest : List Char) :
    textOf? (escape c ++ rest) = some (c, rest) := by
  have digits : ∀ n < 32, Char.ofNat (16 * textOf?.hexValue (hexDigit (n / 16)) +
      textOf?.hexValue (hexDigit (n % 16))) = Char.ofNat n := by decide
  unfold escape
  split
  all_goals try rfl
  next quote slash _ _ _ _ _ =>
    split
    · next low => simp [textOf?, digits _ low]
    · simp only [List.cons_append, List.nil_append]
      unfold textOf?
      split <;> simp_all

theorem textOf?_quote (rest : List Char) : textOf? ('"' :: rest) = none := rfl

theorem writeChars_inj {s t x y : List Char}
    (h : writeChars s ('"' :: x) = writeChars t ('"' :: y)) : s = t ∧ x = y := by
  induction s generalizing t with
  | nil =>
    cases t with
    | nil => simpa [writeChars] using h
    | cons c t =>
      have read := congrArg textOf? h
      simp only [writeChars, textOf?_escape, textOf?_quote] at read
      cases read
  | cons c s ih =>
    cases t with
    | nil =>
      have read := congrArg textOf? h
      simp only [writeChars, textOf?_escape, textOf?_quote] at read
      cases read
    | cons d t =>
      have read := congrArg textOf? h
      simp only [writeChars, textOf?_escape, Option.some.injEq, Prod.mk.injEq] at read
      obtain ⟨rfl, rest⟩ := read
      obtain ⟨rfl, rfl⟩ := ih rest
      exact ⟨rfl, rfl⟩

theorem writeString_inj {s t : String} {x y : List Char}
    (h : writeString s x = writeString t y) : s = t ∧ x = y := by
  obtain ⟨chars, rest⟩ := writeChars_inj (List.cons.inj h).2
  exact ⟨String.toList_inj.mp chars, rest⟩

/-! ## What a text starts with -/

/-- The first character of a text, with one character for all numbers. -/
def lead (c : Char) : Char := if Number.isNumeral c then '0' else c

def opening : Json → Char
  | .null => 'n'
  | .bool true => 't'
  | .bool false => 'f'
  | .number _ => '0'
  | .string _ => '"'
  | .array _ => '['
  | .object _ => '\x7b'

theorem exists_write_eq_cons (x : Json) (rest : List Char) :
    ∃ c text, x.write rest = c :: text ∧ lead c = x.opening := by
  cases x with
  | null => exact ⟨_, _, rfl, rfl⟩
  | bool b => cases b <;> exact ⟨_, _, rfl, rfl⟩
  | number n =>
    obtain ⟨c, text, chars⟩ := List.exists_cons_of_ne_nil n.chars_ne_nil
    have numeral : Number.isNumeral c := Number.numeral_chars n c (chars ▸ List.mem_cons_self)
    exact ⟨c, text ++ rest, congrArg (· ++ rest) chars, if_pos numeral⟩
  | string s => exact ⟨_, _, rfl, rfl⟩
  | array items => exact ⟨_, _, rfl, rfl⟩
  | object members => exact ⟨_, _, rfl, rfl⟩

theorem opening_eq_of_write {x y : Json} {r s : List Char} (h : x.write r = y.write s) :
    x.opening = y.opening := by
  obtain ⟨c, text, written, first⟩ := exists_write_eq_cons x r
  obtain ⟨d, text', written', first'⟩ := exists_write_eq_cons y s
  rw [written, written'] at h
  rw [← first, ← first', (List.cons.inj h).1]

theorem write_ne_close (x : Json) (r s : List Char) : x.write r ≠ ']' :: s := by
  intro h
  obtain ⟨c, text, written, first⟩ := exists_write_eq_cons x r
  rw [written] at h
  rw [(List.cons.inj h).1] at first
  have other : x.opening ≠ ']' := by cases x <;> simp only [opening, ne_eq] <;> (try split) <;> decide
  exact other first.symm

/-! ## Texts of values come apart -/

/-- No number goes on in the text. -/
def Ended (text : List Char) : Prop := text.takeWhile Number.isNumeral = []

theorem ended_writeMoreItems (items : List Json) (rest : List Char) :
    Ended (writeMoreItems items (']' :: rest)) := by
  cases items <;> rfl

theorem ended_writeMoreMembers (members : List (String × Json)) (rest : List Char) :
    Ended (writeMoreMembers members ('\x7d' :: rest)) := by
  cases members <;> rfl

theorem takeWhile_chars (n : Number) {rest : List Char} (h : Ended rest) :
    (n.chars ++ rest).takeWhile Number.isNumeral = n.chars := by
  rw [List.takeWhile_append_of_pos (Number.numeral_chars n), h, List.append_nil]

/-- The text of a value is no front of the text of another one. -/
def Cancels (x : Json) : Prop :=
  ∀ (y : Json) (r s : List Char), Ended r → Ended s → x.write r = y.write s → r = s

theorem text_eq_iff {x y : Json} : x.text = y.text ↔ x.write [] = y.write [] :=
  String.ofList_inj

theorem write_congr {x y : Json} (h : x.text = y.text) (rest : List Char) :
    x.write rest = y.write rest := by
  rw [write_append x, write_append y, text_eq_iff.mp h]

theorem Cancels.inj {x y : Json} (h : Cancels x) {r s : List Char} (hr : Ended r) (hs : Ended s)
    (written : x.write r = y.write s) : x.text = y.text ∧ r = s := by
  obtain rfl := h y r s hr hs written
  rw [write_append x, write_append y] at written
  exact ⟨text_eq_iff.mpr (List.append_cancel_right written), rfl⟩

theorem cancels_word {x : Json} (word : List Char) (text : ∀ rest, x.write rest = word ++ rest)
    (only : ∀ y : Json, x.opening = y.opening → y = x) : Cancels x := by
  intro y r s _ _ h
  rw [only y (opening_eq_of_write h), text, text] at h
  exact List.append_cancel_left h

theorem cancels_number (n : Number) : Cancels (.number n) := by
  intro y r s hr hs h
  have first := opening_eq_of_write h
  cases y with
  | number m =>
    have texts : n.chars ++ r = m.chars ++ s := h
    have chars : n.chars = m.chars := by rw [← takeWhile_chars n hr, texts, takeWhile_chars m hs]
    rw [chars] at texts
    exact List.append_cancel_left texts
  | bool b => cases b <;> simp [opening] at first
  | _ => simp [opening] at first

theorem cancels_string (t : String) : Cancels (.string t) := by
  intro y r s _ _ h
  have first := opening_eq_of_write h
  cases y with
  | string u => exact (writeString_inj h).2
  | bool b => cases b <;> simp [opening] at first
  | _ => simp [opening] at first

theorem writeMoreItems_inj {xs : List Json} (each : ∀ x ∈ xs, Cancels x) {ys : List Json}
    {r s : List Char} (h : writeMoreItems xs (']' :: r) = writeMoreItems ys (']' :: s)) :
    xs.map text = ys.map text ∧ r = s := by
  induction xs generalizing ys with
  | nil =>
    cases ys with
    | nil => exact ⟨rfl, (List.cons.inj h).2⟩
    | cons y ys => exact absurd (List.cons.inj h).1 (by decide)
  | cons x xs ih =>
    cases ys with
    | nil => exact absurd (List.cons.inj h).1 (by decide)
    | cons y ys =>
      obtain ⟨head, more⟩ := (each x List.mem_cons_self).inj (ended_writeMoreItems xs r)
        (ended_writeMoreItems ys s) (List.cons.inj h).2
      obtain ⟨tail, rest⟩ := ih (fun z member => each z (List.mem_cons_of_mem _ member)) more
      exact ⟨List.cons_eq_cons.mpr ⟨head, tail⟩, rest⟩

theorem writeItems_inj {xs : List Json} (each : ∀ x ∈ xs, Cancels x) {ys : List Json}
    {r s : List Char} (h : writeItems xs (']' :: r) = writeItems ys (']' :: s)) :
    xs.map text = ys.map text ∧ r = s := by
  cases xs with
  | nil =>
    cases ys with
    | nil => exact ⟨rfl, (List.cons.inj h).2⟩
    | cons y ys => exact absurd h.symm (write_ne_close y _ r)
  | cons x xs =>
    cases ys with
    | nil => exact absurd h (write_ne_close x _ s)
    | cons y ys =>
      obtain ⟨head, more⟩ := (each x List.mem_cons_self).inj (ended_writeMoreItems xs r)
        (ended_writeMoreItems ys s) h
      obtain ⟨tail, rest⟩ :=
        writeMoreItems_inj (fun z member => each z (List.mem_cons_of_mem _ member)) more
      exact ⟨List.cons_eq_cons.mpr ⟨head, tail⟩, rest⟩

/-- A member with its value as text. -/
def written (entry : String × Json) : String × String := (entry.1, entry.2.text)

theorem writeMoreMembers_inj {xs : List (String × Json)} (each : ∀ entry ∈ xs, Cancels entry.2)
    {ys : List (String × Json)} {r s : List Char}
    (h : writeMoreMembers xs ('\x7d' :: r) = writeMoreMembers ys ('\x7d' :: s)) :
    xs.map written = ys.map written ∧ r = s := by
  induction xs generalizing ys with
  | nil =>
    cases ys with
    | nil => exact ⟨rfl, (List.cons.inj h).2⟩
    | cons y ys => exact absurd (List.cons.inj h).1 (by decide)
  | cons x xs ih =>
    cases ys with
    | nil => exact absurd (List.cons.inj h).1 (by decide)
    | cons y ys =>
      obtain ⟨names, values⟩ := writeString_inj (List.cons.inj h).2
      obtain ⟨head, more⟩ := (each x List.mem_cons_self).inj (ended_writeMoreMembers xs r)
        (ended_writeMoreMembers ys s) (List.cons.inj values).2
      obtain ⟨tail, rest⟩ := ih (fun z member => each z (List.mem_cons_of_mem _ member)) more
      exact ⟨List.cons_eq_cons.mpr ⟨Prod.ext names head, tail⟩, rest⟩

theorem writeMembers_inj {xs : List (String × Json)} (each : ∀ entry ∈ xs, Cancels entry.2)
    {ys : List (String × Json)} {r s : List Char}
    (h : writeMembers xs ('\x7d' :: r) = writeMembers ys ('\x7d' :: s)) :
    xs.map written = ys.map written ∧ r = s := by
  cases xs with
  | nil =>
    cases ys with
    | nil => exact ⟨rfl, (List.cons.inj h).2⟩
    | cons y ys => exact absurd (List.cons.inj h).1 (by decide)
  | cons x xs =>
    cases ys with
    | nil => exact absurd (List.cons.inj h).1 (by decide)
    | cons y ys =>
      obtain ⟨names, values⟩ := writeString_inj h
      obtain ⟨head, more⟩ := (each x List.mem_cons_self).inj (ended_writeMoreMembers xs r)
        (ended_writeMoreMembers ys s) (List.cons.inj values).2
      obtain ⟨tail, rest⟩ :=
        writeMoreMembers_inj (fun z member => each z (List.mem_cons_of_mem _ member)) more
      exact ⟨List.cons_eq_cons.mpr ⟨Prod.ext names head, tail⟩, rest⟩

theorem cancels_array {xs : List Json} (each : ∀ x ∈ xs, Cancels x) : Cancels (.array xs) := by
  intro y r s _ _ h
  have first := opening_eq_of_write h
  cases y with
  | array ys => exact (writeItems_inj each (List.cons.inj h).2).2
  | bool b => cases b <;> simp [opening] at first
  | _ => simp [opening] at first

theorem cancels_object {xs : List (String × Json)} (each : ∀ entry ∈ xs, Cancels entry.2) :
    Cancels (.object xs) := by
  intro y r s _ _ h
  have first := opening_eq_of_write h
  cases y with
  | object ys => exact (writeMembers_inj each (List.cons.inj h).2).2
  | bool b => cases b <;> simp [opening] at first
  | _ => simp [opening] at first

mutual
theorem cancels : (x : Json) → Cancels x
  | .null => cancels_word ['n', 'u', 'l', 'l'] (fun _ => rfl) fun y first => by
    cases y with
    | null => rfl
    | bool b => cases b <;> simp [opening] at first
    | _ => simp [opening] at first
  | .bool true => cancels_word ['t', 'r', 'u', 'e'] (fun _ => rfl) fun y first => by
    cases y with
    | bool b => cases b <;> simp [opening] at first ⊢
    | _ => simp [opening] at first
  | .bool false => cancels_word ['f', 'a', 'l', 's', 'e'] (fun _ => rfl) fun y first => by
    cases y with
    | bool b => cases b <;> simp [opening] at first ⊢
    | _ => simp [opening] at first
  | .number n => cancels_number n
  | .string t => cancels_string t
  | .array items => cancels_array (cancels_items items)
  | .object members => cancels_object (cancels_members members)

theorem cancels_items : (items : List Json) → ∀ x ∈ items, Cancels x
  | [] => fun x member => absurd member List.not_mem_nil
  | x :: xs => fun y member => by
    rcases List.mem_cons.mp member with e | member
    · exact e ▸ cancels x
    · exact cancels_items xs y member

theorem cancels_members : (members : List (String × Json)) → ∀ entry ∈ members, Cancels entry.2
  | [] => fun x member => absurd member List.not_mem_nil
  | (name, x) :: xs => fun y member => by
    rcases List.mem_cons.mp member with e | member
    · exact e ▸ cancels x
    · exact cancels_members xs y member
end

/-! ## Equal texts -/

theorem text_number_eq_iff {m n : Number} :
    (Json.number m).text = (Json.number n).text ↔ m.text = n.text := by
  rw [text_eq_iff]
  show m.chars ++ [] = n.chars ++ [] ↔ _
  rw [List.append_nil, List.append_nil]
  exact String.ofList_inj.symm

theorem text_string_eq_iff {s t : String} :
    (Json.string s).text = (Json.string t).text ↔ s = t :=
  ⟨fun h => (writeString_inj (text_eq_iff.mp h)).1, fun h => h ▸ rfl⟩

theorem writeMoreItems_congr {xs ys : List Json} (h : xs.map text = ys.map text)
    (rest : List Char) : writeMoreItems xs rest = writeMoreItems ys rest := by
  induction xs generalizing ys with
  | nil =>
    obtain rfl := List.map_eq_nil_iff.mp h.symm
    rfl
  | cons x xs ih =>
    obtain ⟨y, ys, rfl, head, tail⟩ := List.map_eq_cons_iff.mp h.symm
    show ',' :: x.write _ = ',' :: y.write _
    rw [ih tail.symm, write_congr head]

theorem text_array_eq_iff {xs ys : List Json} :
    (Json.array xs).text = (Json.array ys).text ↔ xs.map text = ys.map text := by
  rw [text_eq_iff]
  refine ⟨fun h => (writeItems_inj (cancels_items xs) (List.cons.inj h).2).1, fun h => ?_⟩
  show '[' :: writeItems xs _ = '[' :: writeItems ys _
  cases xs with
  | nil => rw [List.map_eq_nil_iff.mp h.symm]
  | cons x xs =>
    obtain ⟨y, ys, rfl, head, tail⟩ := List.map_eq_cons_iff.mp h.symm
    show '[' :: x.write _ = '[' :: y.write _
    rw [writeMoreItems_congr tail.symm, write_congr head]

theorem writeMoreMembers_congr {xs ys : List (String × Json)}
    (h : xs.map written = ys.map written) (rest : List Char) :
    writeMoreMembers xs rest = writeMoreMembers ys rest := by
  induction xs generalizing ys with
  | nil =>
    obtain rfl := List.map_eq_nil_iff.mp h.symm
    rfl
  | cons x xs ih =>
    obtain ⟨y, ys, rfl, head, tail⟩ := List.map_eq_cons_iff.mp h.symm
    obtain ⟨names, values⟩ := Prod.mk.inj head
    show ',' :: writeString x.1 (':' :: x.2.write _) = ',' :: writeString y.1 (':' :: y.2.write _)
    rw [ih tail.symm, write_congr values, names]

/-- Objects have one text if they have the same members in the same order. -/
theorem text_object_eq_iff {xs ys : List (String × Json)} :
    (Json.object xs).text = (Json.object ys).text ↔ xs.map written = ys.map written := by
  rw [text_eq_iff]
  refine ⟨fun h => (writeMembers_inj (cancels_members xs) (List.cons.inj h).2).1, fun h => ?_⟩
  show '\x7b' :: writeMembers xs _ = '\x7b' :: writeMembers ys _
  cases xs with
  | nil => rw [List.map_eq_nil_iff.mp h.symm]
  | cons x xs =>
    obtain ⟨y, ys, rfl, head, tail⟩ := List.map_eq_cons_iff.mp h.symm
    obtain ⟨names, values⟩ := Prod.mk.inj head
    show '\x7b' :: writeString x.1 (':' :: x.2.write _) =
      '\x7b' :: writeString y.1 (':' :: y.2.write _)
    rw [writeMoreMembers_congr tail.symm, write_congr values, names]

end Json
end ResponseGraph

import ResponseGraph.NodeId
import ResponseGraph.Proofs.Number.Text

/-!
Quotation in JSON text.

A reader of JSON text is outside of all strings, inside of one, or inside of one right
behind a backslash.  `run` follows a text.  Text of a value leads from the outside to
the outside, and a separator in it is always inside of a string (`Apart`).

Two readers of one text that start in opposite places never both end outside
(`not_run_inside_and_outside`).  That is what makes texts that are joined by
separators come apart in one way only.
-/

namespace ResponseGraph
namespace Json

inductive Quotation where
  | outside
  | inside
  | escaped
  /-- There is no backslash outside of strings. -/
  | broken
deriving DecidableEq

namespace Quotation

def next : Quotation → Char → Quotation
  | .outside, c => if c = '"' then .inside else if c = '\\' then .broken else .outside
  | .inside, c => if c = '"' then .outside else if c = '\\' then .escaped else .inside
  | .escaped, _ => .inside
  | .broken, _ => .broken

def run (start : Quotation) (text : List Char) : Quotation := text.foldl next start

@[simp] theorem run_nil (start : Quotation) : run start [] = start := rfl

@[simp] theorem run_cons (start : Quotation) (c : Char) (text : List Char) :
    run start (c :: text) = run (start.next c) text := rfl

@[simp] theorem run_append (start : Quotation) (text more : List Char) :
    run start (text ++ more) = run (run start text) more := List.foldl_append

/-- Every separator stands inside of a string. -/
def Apart : Quotation → List Char → Prop
  | _, [] => True
  | state, c :: text => (c = NodeId.separator → state = .inside) ∧ Apart (state.next c) text

instance : (start : Quotation) → (text : List Char) → Decidable (Apart start text)
  | _, [] => inferInstanceAs (Decidable True)
  | state, c :: text =>
    have := instDecidableApart (state.next c) text
    inferInstanceAs (Decidable ((c = NodeId.separator → state = .inside) ∧ _))

@[simp] theorem apart_nil (start : Quotation) : Apart start [] := trivial

theorem apart_append {start : Quotation} {text more : List Char} :
    Apart start (text ++ more) ↔ Apart start text ∧ Apart (run start text) more := by
  induction text generalizing start with
  | nil => simp
  | cons c text ih => simp [Apart, ih, and_assoc]

theorem run_eq_inside_of_apart {start : Quotation} {text before after : List Char}
    (h : Apart start text) (split : text = before ++ NodeId.separator :: after) :
    run start before = .inside := by
  rw [split, apart_append] at h
  exact h.2.1 rfl

/-! ## Opposite readers -/

/-- One of two readers is broken, or one is outside and the other inside. -/
def Opposite (a b : Quotation) : Prop :=
  a = .broken ∨ b = .broken ∨ (a = .outside ∧ b = .inside) ∨ (a = .inside ∧ b = .outside)

theorem Opposite.next {a b : Quotation} (h : Opposite a b) (c : Char) :
    Opposite (a.next c) (b.next c) := by
  rcases h with rfl | rfl | ⟨rfl, rfl⟩ | ⟨rfl, rfl⟩
  · exact Or.inl rfl
  · exact Or.inr (Or.inl rfl)
  all_goals
    by_cases quote : c = '"'
    · simp [Opposite, Quotation.next, quote]
    · by_cases slash : c = '\\' <;> simp [Opposite, Quotation.next, quote, slash]

theorem Opposite.run {a b : Quotation} (h : Opposite a b) (text : List Char) :
    Opposite (a.run text) (b.run text) := by
  induction text generalizing a b with
  | nil => exact h
  | cons c text ih => exact ih (h.next c)

theorem not_run_inside_and_outside {text : List Char} (inside : run .inside text = .outside) :
    run .outside text ≠ .outside := by
  intro outside
  have h : Opposite .inside .outside := Or.inr (Or.inr (Or.inr ⟨rfl, rfl⟩))
  have ends := h.run text
  rw [inside, outside] at ends
  simp [Opposite] at ends

/-! ## Texts of values -/

/-- Text that a reader leaves outside of strings, with every separator in a string. -/
structure Sealed (text : List Char) : Prop where
  outside : run .outside text = .outside
  apart : Apart .outside text

theorem Sealed.nil : Sealed [] := ⟨rfl, trivial⟩

theorem Sealed.append {text more : List Char} (h : Sealed text) (h' : Sealed more) :
    Sealed (text ++ more) := by
  constructor
  · rw [run_append, h.outside, h'.outside]
  · rw [apart_append, h.outside]
    exact ⟨h.apart, h'.apart⟩

/-- Behind a separator in a sealed text, a reader has to start inside of a string. -/
theorem Sealed.inside_after {text before after : List Char} (h : Sealed text)
    (split : text = before ++ NodeId.separator :: after) : run .inside after = .outside := by
  have inside := run_eq_inside_of_apart h.apart split
  have ends := h.outside
  rw [split, run_append, inside] at ends
  exact ends

/-- A writer puts sealed text in front of what follows. -/
structure Closed (writer : List Char → List Char) : Prop where
  front : ∀ rest, writer rest = writer [] ++ rest
  text : Sealed (writer [])

theorem Closed.id : Closed fun rest => rest := ⟨fun _ => rfl, .nil⟩

theorem Closed.comp {f g : List Char → List Char} (hf : Closed f) (hg : Closed g) :
    Closed fun rest => f (g rest) := by
  constructor
  · intro rest
    rw [hf.front (g rest), hf.front (g []), hg.front rest, List.append_assoc]
  · rw [hf.front (g [])]
    exact hf.text.append hg.text

/-- A character that means nothing to a reader outside of strings. -/
def Plain (c : Char) : Prop := c ≠ '"' ∧ c ≠ '\\' ∧ c ≠ NodeId.separator

instance (c : Char) : Decidable (Plain c) := inferInstanceAs (Decidable (_ ∧ _ ∧ _))

/-- Text that means nothing to a reader outside of strings. -/
def PlainText (text : List Char) : Prop := ∀ c ∈ text, Plain c

instance (text : List Char) : Decidable (PlainText text) := List.decidableBAll Plain text

theorem PlainText.cons {c : Char} {text : List Char} (hc : Plain c) (h : PlainText text) :
    PlainText (c :: text) := fun d member =>
  (List.mem_cons.mp member).elim (fun e => e ▸ hc) (h d)

theorem Sealed.plain {c : Char} (hc : Plain c) : Sealed [c] := by
  obtain ⟨quote, slash, separator⟩ := hc
  refine ⟨?_, fun e => absurd e separator, trivial⟩
  rw [run_cons, next, if_neg quote, if_neg slash, run_nil]

theorem Closed.plain {text : List Char} (h : PlainText text) :
    Closed fun rest => text ++ rest := by
  refine ⟨fun rest => by rw [List.append_nil], ?_⟩
  rw [List.append_nil]
  induction text with
  | nil => exact .nil
  | cons c text ih =>
    have rest := ih fun d member => h d (List.mem_cons_of_mem _ member)
    exact (Sealed.plain (h c List.mem_cons_self)).append rest

theorem Closed.cons {c : Char} {f : List Char → List Char} (hc : Plain c) (h : Closed f) :
    Closed fun rest => c :: f rest := by
  have one : PlainText [c] := .cons hc (by decide)
  exact (Closed.plain one).comp h

/-- An escape stays inside of the string. -/
theorem run_inside_escape (c : Char) :
    run .inside (escape c) = .inside ∧ Apart .inside (escape c) := by
  have digits : ∀ n < 32, run .inside ['\\', 'u', '0', '0', hexDigit (n / 16), hexDigit (n % 16)] =
      .inside ∧ Apart .inside ['\\', 'u', '0', '0', hexDigit (n / 16), hexDigit (n % 16)] := by
    decide
  unfold escape
  split
  all_goals try decide
  next _ quote slash _ _ _ _ _ =>
    split
    · next low => exact digits c.toNat low
    · have stay : next .inside c = .inside := by rw [next, if_neg quote, if_neg slash]
      simp [stay, Apart]

theorem run_inside_writeChars (chars rest : List Char) :
    run .inside (writeChars chars rest) = run .inside rest ∧
      (Apart .inside rest → Apart .inside (writeChars chars rest)) := by
  induction chars with
  | nil => exact ⟨rfl, fun h => h⟩
  | cons c chars ih =>
    obtain ⟨stay, apart⟩ := run_inside_escape c
    rw [writeChars, run_append, stay]
    refine ⟨ih.1, fun h => apart_append.mpr ⟨apart, ?_⟩⟩
    rw [stay]
    exact ih.2 h

theorem writeChars_append (chars text rest : List Char) :
    writeChars chars (text ++ rest) = writeChars chars text ++ rest := by
  induction chars with
  | nil => rfl
  | cons c chars ih => rw [writeChars, writeChars, ih, List.append_assoc]

theorem closed_writeString (s : String) : Closed (writeString s) := by
  obtain ⟨ends, apart⟩ := run_inside_writeChars s.toList ['"']
  refine ⟨fun rest => congrArg (List.cons '"') (writeChars_append s.toList ['"'] rest), ends, ?_⟩
  exact ⟨fun e => absurd e (by decide), apart ⟨fun _ => rfl, trivial⟩⟩

theorem plain_of_isNumeral {c : Char} (h : Number.isNumeral c) : Plain c := by
  refine ⟨?_, ?_, ?_⟩ <;> intro e <;> subst e <;> exact absurd h (by decide)

theorem plain_chars (x : Number) : PlainText x.chars := fun c member =>
  plain_of_isNumeral (Number.numeral_chars x c member)

mutual
theorem closed_write : (x : Json) → Closed x.write
  | .null => Closed.plain (by decide : PlainText ['n', 'u', 'l', 'l'])
  | .bool true => Closed.plain (by decide : PlainText ['t', 'r', 'u', 'e'])
  | .bool false => Closed.plain (by decide : PlainText ['f', 'a', 'l', 's', 'e'])
  | .number x => Closed.plain (plain_chars x)
  | .string s => closed_writeString s
  | .array items =>
    .cons (by decide) ((closed_writeItems items).comp (.cons (by decide) .id))
  | .object members =>
    .cons (by decide) ((closed_writeMembers members).comp (.cons (by decide) .id))

theorem closed_writeItems : (items : List Json) → Closed (writeItems items)
  | [] => .id
  | x :: xs => (closed_write x).comp (closed_writeMoreItems xs)

theorem closed_writeMoreItems : (items : List Json) → Closed (writeMoreItems items)
  | [] => .id
  | x :: xs => .cons (by decide) ((closed_write x).comp (closed_writeMoreItems xs))

theorem closed_writeMembers : (members : List (String × Json)) → Closed (writeMembers members)
  | [] => .id
  | (name, x) :: xs =>
    (closed_writeString name).comp
      (.cons (by decide) ((closed_write x).comp (closed_writeMoreMembers xs)))

theorem closed_writeMoreMembers :
    (members : List (String × Json)) → Closed (writeMoreMembers members)
  | [] => .id
  | (name, x) :: xs =>
    .cons (by decide) ((closed_writeString name).comp
      (.cons (by decide) ((closed_write x).comp (closed_writeMoreMembers xs))))
end

theorem sealed_write (x : Json) : Sealed (x.write []) := (closed_write x).text

end Quotation

theorem write_append (x : Json) (rest : List Char) : x.write rest = x.write [] ++ rest :=
  (Quotation.closed_write x).front rest

end Json
end ResponseGraph

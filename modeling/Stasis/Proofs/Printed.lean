import Mathlib
import Stasis.Json.Printer
import Stasis.Json.Shape
import Stasis.Proofs.Text

/-!
# Interchange texts that read back

The compact text of a value is scanned into its parts, whatever follows it, and the parts are decoded
into the value, as long as its numbers are integers and its containers are not nested too deep.

* `Json.parts`, `Json.nesting`: the values inside a value, and how deep its containers are nested.
* `scanText_quoted`, `decodeText_quoted`: a quoted text of any characters.
* `readJsonNumber_lexeme`: an integer of 64 bits.
* `Json.scans`: the compact text is scanned into the parts.
* `Json.decode_raw`: the parts are decoded into the value.
-/

namespace Stasis

/-! ## The values inside a value -/

/-- A property of values is proved for containers from what is inside them. -/
theorem Json.ind {P : Json → Prop} (null : P .null) (bool : ∀ b, P (.bool b))
    (number : ∀ n, P (.number n)) (text : ∀ s, P (.text s))
    (array : ∀ items, (∀ j ∈ items, P j) → P (.array items))
    (object : ∀ fields, (∀ f ∈ fields, P f.2) → P (.object fields)) (j : Json) : P j :=
  @Json.rec P (fun items => ∀ j ∈ items, P j) (fun fields => ∀ f ∈ fields, P f.2) (fun f => P f.2)
    null bool number text array object (fun _ h => absurd h List.not_mem_nil)
    (fun _ _ hj hitems => List.forall_mem_cons.mpr ⟨hj, hitems⟩) (fun _ h => absurd h List.not_mem_nil)
    (fun _ _ hf hfields => List.forall_mem_cons.mpr ⟨hf, hfields⟩) (fun _ _ h => h) j

mutual

/-- The value and all values inside it. -/
def Json.parts : Json → List Json
  | .array items => .array items :: partsOfItems items
  | .object fields => .object fields :: partsOfFields fields
  | j => [j]

/-- The values inside items. -/
def partsOfItems : List Json → List Json
  | [] => []
  | j :: rest => j.parts ++ partsOfItems rest

/-- The values inside fields. -/
def partsOfFields : List (String × Json) → List Json
  | [] => []
  | (_, j) :: rest => j.parts ++ partsOfFields rest

end

mutual

/-- How many containers stand inside one another, at most. -/
def Json.nesting : Json → ℕ
  | .array items => nestingOfItems items + 1
  | .object fields => nestingOfFields fields + 1
  | _ => 0

/-- The nesting of items. -/
def nestingOfItems : List Json → ℕ
  | [] => 0
  | j :: rest => max j.nesting (nestingOfItems rest)

/-- The nesting of fields. -/
def nestingOfFields : List (String × Json) → ℕ
  | [] => 0
  | (_, j) :: rest => max j.nesting (nestingOfFields rest)

end

/-- The number is an integer of 64 bits. -/
def JsonNumber.IsInteger : JsonNumber → Prop
  | int n => -2 ^ 63 ≤ n ∧ n < 2 ^ 64
  | double _ => False

instance (n : JsonNumber) : Decidable n.IsInteger :=
  match n with
  | .int n => inferInstanceAs (Decidable (-2 ^ 63 ≤ n ∧ n < 2 ^ 64))
  | .double _ => isFalse id

/-- Every number in the value is an integer. -/
def Json.HasIntegers (j : Json) : Prop := ∀ n, Json.number n ∈ j.parts → n.IsInteger

/-- The number that a value is. -/
def Json.number? : Json → Option JsonNumber
  | .number n => some n
  | _ => none

theorem mem_filterMap_number? {n : JsonNumber} {l : List Json} :
    n ∈ l.filterMap Json.number? ↔ Json.number n ∈ l := by
  rw [List.mem_filterMap]
  refine ⟨?_, fun hn => ⟨_, hn, rfl⟩⟩
  rintro ⟨k, hk, hn⟩
  cases k with
  | number m => cases hn; exact hk
  | _ => cases hn

instance (j : Json) : Decidable j.HasIntegers :=
  decidable_of_iff (∀ n ∈ j.parts.filterMap Json.number?, n.IsInteger) <|
    forall_congr' fun _ => imp_congr_left mem_filterMap_number?

section Parts

variable {j : Json} {items : List Json} {fields : List (String × Json)} {k : ℕ}

theorem mem_partsOfItems : j ∈ partsOfItems items ↔ ∃ item ∈ items, j ∈ item.parts := by
  induction items with
  | nil => simp [partsOfItems]
  | cons item items ih => simp [partsOfItems, ih]

theorem mem_partsOfFields : j ∈ partsOfFields fields ↔ ∃ f ∈ fields, j ∈ f.2.parts := by
  induction fields with
  | nil => simp [partsOfFields]
  | cons f fields ih => simp [partsOfFields, ih]

theorem nestingOfItems_le : nestingOfItems items ≤ k ↔ ∀ j ∈ items, j.nesting ≤ k := by
  induction items with
  | nil => simp [nestingOfItems]
  | cons item items ih => simp [nestingOfItems, ih]

theorem nestingOfFields_le : nestingOfFields fields ≤ k ↔ ∀ f ∈ fields, f.2.nesting ≤ k := by
  induction fields with
  | nil => simp [nestingOfFields]
  | cons f fields ih => simp [nestingOfFields, ih]

theorem Json.HasIntegers.item (h : (Json.array items).HasIntegers) (hj : j ∈ items) :
    j.HasIntegers := fun n hn =>
  h n (List.mem_cons_of_mem _ (mem_partsOfItems.mpr ⟨j, hj, hn⟩))

theorem Json.HasIntegers.field (h : (Json.object fields).HasIntegers) {f : String × Json}
    (hf : f ∈ fields) : f.2.HasIntegers := fun n hn =>
  h n (List.mem_cons_of_mem _ (mem_partsOfFields.mpr ⟨f, hf, hn⟩))

end Parts

/-! ## Quoted texts -/

/-- What stands for a character between quotes: the character itself, a backslash and a letter, or a
backslash and the number of the character. -/
theorem quotedChar_cases (c : Char) :
    (Text.quotedChar c = [c] ∧ c ≠ '"' ∧ c ≠ '\\' ∧ ¬ c.toNat < 0x20) ∨
    (∃ e, Text.quotedChar c = ['\\', e] ∧ e ≠ 'u' ∧ shortEscape e = c ∧
      ∀ rest, escapeWidth? (e :: rest) = some 1) ∨
    ∃ x y, Text.quotedChar c = ['\\', 'u', '0', '0', x, y] ∧ isHexDigit x = true ∧
      isHexDigit y = true ∧ c.toNat < 0x20 ∧ Number.digits? 16 ['0', '0', x, y] = some c.toNat := by
  by_cases hquote : c = '"'
  · subst hquote
    exact .inr (.inl ⟨'"', rfl, by decide, by decide, fun _ => rfl⟩)
  by_cases hslash : c = '\\'
  · subst hslash
    exact .inr (.inl ⟨'\\', rfl, by decide, by decide, fun _ => rfl⟩)
  by_cases hshort : c = '\x08' ∨ c = '\t' ∨ c = '\n' ∨ c = '\x0c' ∨ c = '\r'
  · rcases hshort with rfl | rfl | rfl | rfl | rfl <;>
      exact .inr (.inl ⟨_, rfl, by decide, by decide, fun _ => rfl⟩)
  push Not at hshort
  obtain ⟨hb, ht, hn, hf, hr⟩ := hshort
  by_cases hcontrol : c.toNat < 0x20
  · have hdigit : ∀ n < 0x20, isHexDigit (Text.hexDigit (n / 16)) = true ∧
        isHexDigit (Text.hexDigit n) = true ∧
        Number.digits? 16 ['0', '0', Text.hexDigit (n / 16), Text.hexDigit n] = some n := by
      decide +kernel
    obtain ⟨hx, hy, hd⟩ := hdigit _ hcontrol
    refine .inr (.inr ⟨_, _, ?_, hx, hy, hcontrol, hd⟩)
    unfold Text.quotedChar
    simp only [hquote, hslash, hb, ht, hn, hf, hr, hcontrol, if_true, if_false]
  · refine .inl ⟨?_, hquote, hslash, hcontrol⟩
    unfold Text.quotedChar
    simp only [hquote, hslash, hb, ht, hn, hf, hr, hcontrol, if_false]

/-- **A quoted text is scanned up to its closing quote.** -/
theorem scanText_quoted (cs rest : List Char) : ∀ acc,
    scanText acc (cs.flatMap Text.quotedChar ++ '"' :: rest) =
      some (acc.reverse ++ cs.flatMap Text.quotedChar, rest) := by
  induction cs with
  | nil =>
    intro acc
    rw [List.flatMap_nil, List.nil_append, scanText, if_pos rfl, List.append_nil]
  | cons c cs ih =>
    intro acc
    obtain ⟨hc, hquote, hslash, hcontrol⟩ | ⟨e, hc, -, -, hwidth⟩ | ⟨x, y, hc, hx, hy, -, -⟩ :=
      quotedChar_cases c
    all_goals rw [List.flatMap_cons, hc, List.append_assoc]; simp only [List.cons_append, List.nil_append]
    · rw [scanText, if_neg hquote, if_neg hslash, if_neg hcontrol, ih]
      simp
    · rw [scanText, if_neg (by decide), if_pos rfl, hwidth]
      simp [ih]
    · have hwidth : ∀ rest, escapeWidth? ('u' :: '0' :: '0' :: x :: y :: rest) = some 5 := fun rest => by
        simp [escapeWidth?, hx, hy, show isHexDigit '0' = true from rfl]
      rw [scanText, if_neg (by decide), if_pos rfl, hwidth]
      simp [ih]

/-- A character that is not a backslash stands for itself. -/
theorem decodeText_plain {c : Char} (h : c ≠ '\\') (acc rest : List Char) :
    decodeText acc (c :: rest) = decodeText (c :: acc) rest := by
  rw [decodeText.eq_def]
  split <;> simp_all

theorem decodeText_short {e : Char} (h : e ≠ 'u') (acc rest : List Char) :
    decodeText acc ('\\' :: e :: rest) = decodeText (shortEscape e :: acc) rest := by
  rw [decodeText.eq_def]
  split
  all_goals grind

/-- The number of a character that is no surrogate stands for the character. -/
theorem decodeText_code {a b c d : Char} {code : ℕ} (h : Number.digits? 16 [a, b, c, d] = some code)
    (hcode : code < 0xD800) (acc rest : List Char) :
    decodeText acc ('\\' :: 'u' :: a :: b :: c :: d :: rest)
      = decodeText (Char.ofNat code :: acc) rest := by
  simp only [decodeText, h]
  rw [if_neg (by omega), if_neg (by omega)]

/-- **The characters between quotes are decoded into the text.** -/
theorem decodeText_quoted (cs : List Char) : ∀ acc,
    decodeText acc (cs.flatMap Text.quotedChar) = some (String.ofList (acc.reverse ++ cs)) := by
  induction cs with
  | nil =>
    intro acc
    rw [List.flatMap_nil, List.append_nil, decodeText]
  | cons c cs ih =>
    intro acc
    obtain ⟨hc, -, hslash, -⟩ | ⟨e, hc, hu, he, -⟩ | ⟨x, y, hc, -, -, hcontrol, hd⟩ :=
      quotedChar_cases c
    all_goals rw [List.flatMap_cons, hc]; simp only [List.cons_append, List.nil_append]
    · rw [decodeText_plain hslash, ih, List.reverse_cons, List.append_assoc, List.singleton_append]
    · rw [decodeText_short hu, he, ih, List.reverse_cons, List.append_assoc, List.singleton_append]
    · rw [decodeText_code hd (by omega), Char.ofNat_toNat, ih, List.reverse_cons, List.append_assoc,
        List.singleton_append]

/-! ## Numbers -/

/-- The characters end here, or go on with what may follow a value. -/
def IsDelimited (rest : List Char) : Prop :=
  ∀ c ∈ rest.head?, c = ',' ∨ c = ']' ∨ c = '\x7d'

/-- The parts of the text of an integer; doubles have no part in this. -/
def JsonNumber.lexeme : JsonNumber → NumberLexeme
  | int n => ⟨n < 0, Number.digitsOf n.natAbs, [], none⟩
  | double _ => ⟨false, [], [], none⟩

/-- The digits of a number by the digits of its tenth. -/
theorem Number.digitsOf_step {n : ℕ} (h : 10 ≤ n) :
    digitsOf n = digitsOf (n / 10) ++ [Nat.digitChar (n % 10)] :=
  Nat.toDigits_of_base_le (by omega) h

theorem Number.digitsOf_digit {n : ℕ} (h : n < 10) : digitsOf n = [Nat.digitChar n] :=
  Nat.toDigits_of_lt_base h

/-- The digits of a number begin with a zero for zero only. -/
theorem Number.head_digitsOf {n : ℕ} (h : n ≠ 0) : (digitsOf n).head? ≠ some '0' := by
  induction n using Nat.strong_induction_on with
  | _ n ih =>
    by_cases hn : n < 10
    · rw [digitsOf_digit hn]
      interval_cases n <;> first | exact absurd rfl h | decide
    · rw [digitsOf_step (by omega), List.head?_append_of_ne_nil _ (digitsOf_ne_nil _)]
      exact ih (n / 10) (by omega) (by omega)

theorem Significand.push_digitChar {v d : ℕ} (hd : d < 10) (h : v * 10 + d ≤ significandLimit) :
    (⟨v, 0⟩ : Significand).push (Nat.digitChar d) = ⟨v * 10 + d, 0⟩ := by
  have hdigit : ∀ d < 10, (Nat.digitChar d).toNat - '0'.toNat = d := by decide
  unfold Significand.push
  rw [hdigit d hd]
  exact if_pos ⟨rfl, h⟩

/-- Digits that fit are collected without a loss. -/
theorem Significand.collect_digitsOf {n : ℕ} (h : n ≤ significandLimit) :
    (Number.digitsOf n).foldl Significand.push ⟨0, 0⟩ = ⟨n, 0⟩ := by
  induction n using Nat.strong_induction_on with
  | _ n ih =>
    by_cases hn : n < 10
    · rw [Number.digitsOf_digit hn, List.foldl_cons, List.foldl_nil, push_digitChar hn (by omega)]
      simp
    · have hsplit : n / 10 * 10 + n % 10 = n := by omega
      rw [Number.digitsOf_step (by omega), List.foldl_append, ih (n / 10) (by omega) (by omega),
        List.foldl_cons, List.foldl_nil, push_digitChar (by omega) (by omega), hsplit]

/-- **An integer of 64 bits is read from its digits.** -/
theorem readJsonNumber_lexeme {n : JsonNumber} (h : n.IsInteger) :
    readJsonNumber n.lexeme = some n := by
  cases n with
  | double x => exact h.elim
  | int n =>
    obtain ⟨hlow, hhigh⟩ := h
    have hcollect := Significand.collect_digitsOf (n := n.natAbs) (by unfold significandLimit; omega)
    unfold readJsonNumber JsonNumber.lexeme
    simp only [hcollect, List.isEmpty_nil, Option.isNone_none, beq_self_eq_true, Bool.and_self, if_true]
    by_cases hn : n < 0
    · have hvalue : n.natAbs ≠ 0 ∧ n.natAbs ≤ 1 <<< 63 := by
        rw [Nat.shiftLeft_eq]
        omega
      have habs : -((n.natAbs : ℕ) : ℤ) = n := by omega
      rw [decide_eq_true hn, if_neg (by decide), if_pos hvalue, habs]
    · have habs : ((n.natAbs : ℕ) : ℤ) = n := by omega
      rw [decide_eq_false hn, if_pos (by decide), habs]

section Scanning

variable {rest : List Char}

theorem scanDigits?_append {ds : List Char} (hne : ds ≠ []) (hds : ∀ c ∈ ds, c.isDigit = true)
    (hrest : IsDelimited rest) : scanDigits? (ds ++ rest) = some (ds, rest) := by
  have hnone : rest.takeWhile Char.isDigit = [] := by
    cases rest with
    | nil => rfl
    | cons c rest =>
      obtain rfl | rfl | rfl := hrest c rfl <;> rfl
  unfold scanDigits?
  rw [List.takeWhile_append_of_pos hds, hnone, List.append_nil]
  simp [hne]

theorem scanFraction?_none (hrest : IsDelimited rest) : scanFraction? rest = some ([], rest) := by
  cases rest with
  | nil => rfl
  | cons c rest => obtain rfl | rfl | rfl := hrest c rfl <;> rfl

theorem scanExponent?_none (hrest : IsDelimited rest) : scanExponent? rest = some (none, rest) := by
  cases rest with
  | nil => rfl
  | cons c rest => obtain rfl | rfl | rfl := hrest c rfl <;> rfl

/-- The whole part of a number is scanned up to what follows the number. -/
theorem scanWhole?_digitsOf (n : ℕ) (hrest : IsDelimited rest) :
    scanWhole? (Number.digitsOf n ++ rest) = some (Number.digitsOf n, rest) := by
  have hdigits := scanDigits?_append (Number.digitsOf_ne_nil n)
    (fun _ h => Number.isDigit_of_mem_digitsOf h) hrest
  have hzero : (Number.digitsOf n).length = 1 ∨ (Number.digitsOf n).head? ≠ some '0' := by
    by_cases hn : n = 0
    · subst hn
      exact .inl rfl
    · exact .inr (Number.head_digitsOf hn)
  unfold scanWhole?
  rw [hdigits]
  simp [hzero]

/-- What an integer is written with: a sign or a digit first. -/
theorem integerText_cons (n : ℤ) : ∃ c cs, (Number.integerText n).toList = c :: cs ∧
    (c = '-' ∨ c.isDigit = true) := by
  obtain ⟨c, cs, hcs⟩ := List.exists_cons_of_ne_nil (Number.digitsOf_ne_nil n.natAbs)
  unfold Number.integerText
  rw [String.toList_ofList]
  split
  · exact ⟨_, _, rfl, .inl rfl⟩
  · exact ⟨c, cs, hcs, .inr (Number.isDigit_of_mem_digitsOf (n := n.natAbs) (by simp [hcs]))⟩

theorem scanNumber?_integerText (n : ℤ) (hrest : IsDelimited rest) :
    scanNumber? ((Number.integerText n).toList ++ rest) =
      some (.number (JsonNumber.int n).lexeme, rest) := by
  have hwhole := scanWhole?_digitsOf n.natAbs hrest
  have hfraction := scanFraction?_none hrest
  have hexponent := scanExponent?_none hrest
  unfold Number.integerText scanNumber? JsonNumber.lexeme
  rw [String.toList_ofList]
  by_cases hn : n < 0
  · simp [hn, hwhole, hfraction, hexponent]
  · obtain ⟨c, cs, hcs⟩ := List.exists_cons_of_ne_nil (Number.digitsOf_ne_nil n.natAbs)
    have hc : c ≠ '-' := by
      rintro rfl
      have hdigit := Number.isDigit_of_mem_digitsOf (n := n.natAbs) (c := '-') (by simp [hcs])
      exact absurd hdigit (by decide)
    simp only [hn, if_false, hcs, List.cons_append] at hwhole ⊢
    split
    · next h => simp_all
    · simp [hwhole, hfraction, hexponent]

end Scanning

/-! ## Scanning a text -/

mutual

/-- The parts into which the compact text is scanned. -/
def Json.raw : Json → Raw
  | .null => .null
  | .bool b => .bool b
  | .number n => .number n.lexeme
  | .text s => .text (s.toList.flatMap Text.quotedChar)
  | .array items => .array (rawItems items)
  | .object fields => .object (rawFields fields)

/-- The parts of items. -/
def rawItems : List Json → List Raw
  | [] => []
  | j :: rest => j.raw :: rawItems rest

/-- The parts of fields. -/
def rawFields : List (String × Json) → List (List Char × Raw)
  | [] => []
  | (k, j) :: rest => (k.toList.flatMap Text.quotedChar, j.raw) :: rawFields rest

end

/-- The text of items, inside their brackets. -/
def itemsText (items : List Json) : List Char :=
  [','].intercalate ((compactItems items).map String.toList)

/-- The text of fields, inside their braces. -/
def fieldsText (fields : List (String × Json)) : List Char :=
  [','].intercalate ((compactFields fields).map String.toList)

section Characters

variable {j k : Json} {items : List Json} {fields : List (String × Json)} {f g : String × Json}

theorem itemsText_singleton : itemsText [j] = j.compact.toList := by
  simp [itemsText, compactItems]

theorem itemsText_cons :
    itemsText (j :: k :: items) = j.compact.toList ++ ',' :: itemsText (k :: items) := by
  simp [itemsText, compactItems]

theorem toList_quote (s : String) :
    (Text.quote s).toList = '"' :: (s.toList.flatMap Text.quotedChar ++ ['"']) := by
  rw [Text.quote, String.toList_ofList, Text.quoted]

theorem fieldsText_singleton : fieldsText [f] =
    '"' :: (f.1.toList.flatMap Text.quotedChar ++ '"' :: ':' :: f.2.compact.toList) := by
  simp [fieldsText, compactFields, toList_quote]

theorem fieldsText_cons : fieldsText (f :: g :: fields) =
    '"' :: (f.1.toList.flatMap Text.quotedChar ++ '"' :: ':' ::
      (f.2.compact.toList ++ ',' :: fieldsText (g :: fields))) := by
  simp [fieldsText, compactFields, toList_quote]

theorem toList_compact_array :
    (Json.array items).compact.toList = '[' :: (itemsText items ++ [']']) := by
  simp [Json.compact, itemsText]

theorem toList_compact_object :
    (Json.object fields).compact.toList = '\x7b' :: (fieldsText fields ++ ['\x7d']) := by
  simp [Json.compact, fieldsText]

theorem isJsonBlank_number {c : Char} (h : c = '-' ∨ c.isDigit = true) : isJsonBlank c = false := by
  rw [Bool.eq_false_iff]
  intro hblank
  simp only [isJsonBlank, Bool.or_eq_true, beq_iff_eq] at hblank
  obtain ((rfl | rfl) | rfl) | rfl := hblank <;> exact absurd h (by decide)

/-- How the text of a value begins. -/
theorem compact_cons (h : j.HasIntegers) : ∃ c cs, j.compact.toList = c :: cs ∧
    isJsonBlank c = false ∧ c ≠ ']' := by
  cases j with
  | null => exact ⟨_, _, rfl, by decide, by decide⟩
  | bool b => cases b <;> exact ⟨_, _, rfl, by decide, by decide⟩
  | number n =>
    cases n with
    | double x => exact (h _ List.mem_cons_self).elim
    | int n =>
      obtain ⟨c, cs, hcs, hc⟩ := integerText_cons n
      refine ⟨c, cs, hcs, isJsonBlank_number hc, ?_⟩
      rintro rfl
      exact absurd hc (by decide)
  | text s => exact ⟨_, _, toList_quote s, by decide, by decide⟩
  | array items => exact ⟨_, _, toList_compact_array, by decide, by decide⟩
  | object fields => exact ⟨_, _, toList_compact_object, by decide, by decide⟩

end Characters

/-- Wherever the compact text stands, it is scanned into the parts of the value, and no further. -/
def Json.Scans (j : Json) : Prop :=
  ∀ steps rest, j.compact.toList.length < steps → IsDelimited rest →
    scanValue? steps (j.compact.toList ++ rest) = some (j.raw, rest)

section Scans

variable {j : Json} {items : List Json} {fields : List (String × Json)} {steps : ℕ} {rest : List Char}

theorem skipJsonBlanks_cons {c : Char} {cs : List Char} (h : isJsonBlank c = false) :
    skipJsonBlanks (c :: cs) = c :: cs := by
  simp [skipJsonBlanks, h]

theorem scanValue?_number {c : Char} {cs : List Char} (h : c = '-' ∨ c.isDigit = true) :
    scanValue? (steps + 1) (c :: cs) = scanNumber? (c :: cs) := by
  rw [scanValue?, skipJsonBlanks_cons (isJsonBlank_number h)]
  split
  case h_7 => rfl
  all_goals next heq => cases heq; exact absurd h (by decide)

theorem scanValue?_array {c : Char} {cs : List Char} (hblank : isJsonBlank c = false) (hc : c ≠ ']') :
    scanValue? (steps + 1) ('[' :: c :: cs) =
      (scanItems? steps (c :: cs)).map fun q => (.array q.1, q.2) := by
  rw [scanValue?, skipJsonBlanks_cons rfl]
  simp only [skipJsonBlanks_cons hblank]
  split
  · next heq => cases heq; exact absurd rfl hc
  · rfl

/-- Items are scanned one after another, up to the closing bracket. -/
theorem scanItems?_itemsText (hne : items ≠ []) (h : ∀ j ∈ items, j.Scans) :
    ∀ steps, (itemsText items).length + 1 < steps →
      scanItems? steps (itemsText items ++ ']' :: rest) = some (rawItems items, rest) := by
  induction items with
  | nil => exact absurd rfl hne
  | cons j items ih =>
    obtain ⟨hj, hitems⟩ := List.forall_mem_cons.mp h
    rintro (_ | steps) hsteps
    · omega
    cases items with
    | nil =>
      rw [itemsText_singleton] at hsteps ⊢
      have hitem := hj steps (']' :: rest) (by omega) (by simp [IsDelimited])
      rw [scanItems?, hitem]
      rfl
    | cons k items =>
      rw [itemsText_cons] at hsteps ⊢
      simp only [List.length_append, List.length_cons] at hsteps
      have hitem := hj steps (',' :: (itemsText (k :: items) ++ ']' :: rest)) (by omega)
        (by simp [IsDelimited])
      have hrest := ih (by simp) hitems steps (by omega)
      rw [List.append_assoc, List.cons_append, scanItems?, hitem]
      simp [skipJsonBlanks, isJsonBlank, hrest, rawItems]

/-- Fields are scanned one after another, up to the closing brace. -/
theorem scanFields?_fieldsText (hne : fields ≠ []) (h : ∀ f ∈ fields, f.2.Scans) :
    ∀ steps, (fieldsText fields).length + 1 < steps →
      scanFields? steps (fieldsText fields ++ '\x7d' :: rest) = some (rawFields fields, rest) := by
  induction fields with
  | nil => exact absurd rfl hne
  | cons f fields ih =>
    obtain ⟨hf, hfields⟩ := List.forall_mem_cons.mp h
    rintro (_ | steps) hsteps
    · omega
    cases fields with
    | nil =>
      rw [fieldsText_singleton] at hsteps ⊢
      simp only [List.length_append, List.length_cons] at hsteps
      have hvalue := hf steps ('\x7d' :: rest) (by omega) (by simp [IsDelimited])
      have hname := scanText_quoted f.1.toList (':' :: (f.2.compact.toList ++ '\x7d' :: rest)) []
      simp only [List.reverse_nil, List.nil_append] at hname
      simp [scanFields?, skipJsonBlanks, isJsonBlank, hname, hvalue, rawFields]
    | cons g fields =>
      rw [fieldsText_cons] at hsteps ⊢
      simp only [List.length_append, List.length_cons] at hsteps
      have hvalue := hf steps (',' :: (fieldsText (g :: fields) ++ '\x7d' :: rest)) (by omega)
        (by simp [IsDelimited])
      have hname := scanText_quoted f.1.toList
        (':' :: (f.2.compact.toList ++ ',' :: (fieldsText (g :: fields) ++ '\x7d' :: rest))) []
      simp only [List.reverse_nil, List.nil_append] at hname
      have hrest := ih (by simp) hfields steps (by omega)
      simp [scanFields?, skipJsonBlanks, isJsonBlank, hname, hvalue, hrest, rawFields]

end Scans

/-- **The compact text of a value with integers is scanned into its parts**, whatever follows. -/
theorem Json.scans (j : Json) (h : j.HasIntegers) : j.Scans := by
  induction j using Json.ind with
  | null => rintro (_ | steps) rest hsteps - <;> [omega; rfl]
  | bool b => cases b <;> rintro (_ | steps) rest hsteps - <;> first | omega | rfl
  | number n =>
    rintro (_ | steps) rest hsteps hrest
    · omega
    cases n with
    | double x => exact (h _ List.mem_cons_self).elim
    | int n =>
      obtain ⟨c, cs, hcs, hc⟩ := integerText_cons n
      have hnumber := scanNumber?_integerText n hrest
      show scanValue? (steps + 1) ((Number.integerText n).toList ++ rest) = _
      rw [hcs, List.cons_append] at hnumber ⊢
      rw [scanValue?_number hc, hnumber]
      rfl
  | text s =>
    rintro (_ | steps) rest hsteps hrest
    · omega
    have htext := scanText_quoted s.toList rest []
    rw [show (Json.text s).compact = Text.quote s from rfl, toList_quote]
    simp [scanValue?, skipJsonBlanks, isJsonBlank, htext, Json.raw]
  | array items ih =>
    rintro (_ | steps) rest hsteps hrest
    · omega
    rw [toList_compact_array] at hsteps ⊢
    simp only [List.length_cons, List.length_append, List.length_nil] at hsteps
    cases items with
    | nil => rfl
    | cons j items =>
      have hitems := @scanItems?_itemsText (j :: items) rest (List.cons_ne_nil j items)
        (fun k hk => ih k hk (h.item hk)) steps (by omega)
      obtain ⟨c, cs, hcs, hblank, hbracket⟩ :
          ∃ c cs, itemsText (j :: items) = c :: cs ∧ isJsonBlank c = false ∧ c ≠ ']' := by
        obtain ⟨c, cs, hcs, hc⟩ := compact_cons (h.item (List.mem_cons_self (a := j) (l := items)))
        cases items with
        | nil => exact ⟨c, cs, itemsText_singleton.trans hcs, hc⟩
        | cons k items =>
          rw [itemsText_cons, hcs]
          exact ⟨c, _, rfl, hc⟩
      rw [hcs, List.cons_append] at hitems
      rw [hcs, List.cons_append, List.cons_append, List.cons_append, List.append_assoc,
        scanValue?_array hblank hbracket]
      simp [hitems, Json.raw]
  | object fields ih =>
    rintro (_ | steps) rest hsteps hrest
    · omega
    rw [toList_compact_object] at hsteps ⊢
    simp only [List.length_cons, List.length_append, List.length_nil] at hsteps
    cases fields with
    | nil => rfl
    | cons f fields =>
      have hfields := @scanFields?_fieldsText (f :: fields) rest (List.cons_ne_nil f fields)
        (fun g hg => ih g hg (h.field hg)) steps (by omega)
      obtain ⟨cs, hcs⟩ : ∃ cs, fieldsText (f :: fields) = '"' :: cs := by
        cases fields with
        | nil => exact ⟨_, fieldsText_singleton⟩
        | cons g fields => exact ⟨_, fieldsText_cons⟩
      rw [hcs, List.cons_append] at hfields
      simp [hcs, scanValue?, skipJsonBlanks, isJsonBlank, hfields, Json.raw]

/-- A text of its own is scanned as a whole. -/
theorem scan?_compact {j : Json} (h : j.HasIntegers) : scan? j.compact = some j.raw := by
  have hscan := j.scans h (j.compact.toList.length + 1) [] (Nat.lt_succ_self _) (by simp [IsDelimited])
  rw [List.append_nil] at hscan
  unfold scan?
  dsimp only
  rw [hscan]
  rfl

/-! ## Decoding the parts -/

section Decode

variable {depth : ℕ} {items : List Json} {fields : List (String × Json)}

theorem decodeItems_rawItems (h : ∀ j ∈ items, j.raw.decode depth = some j) :
    decodeItems depth (rawItems items) = some items := by
  induction items with
  | nil => rfl
  | cons j items ih =>
    obtain ⟨hj, hitems⟩ := List.forall_mem_cons.mp h
    rw [rawItems, decodeItems, hj, ih hitems]
    rfl

theorem decodeFields_rawFields (h : ∀ f ∈ fields, f.2.raw.decode depth = some f.2) :
    decodeFields depth (rawFields fields) = some fields := by
  induction fields with
  | nil => rfl
  | cons f fields ih =>
    obtain ⟨hf, hfields⟩ := List.forall_mem_cons.mp h
    rw [rawFields, decodeFields, decodeText_quoted, hf, ih hfields, List.reverse_nil, List.nil_append,
      String.ofList_toList]
    rfl

end Decode

/-- **The parts are decoded into the value**, unless it is nested too deep where it stands. -/
theorem Json.decode_raw {j : Json} (h : j.HasIntegers) : ∀ depth, depth + j.nesting ≤ nestingLimit →
    j.raw.decode depth = some j := by
  induction j using Json.ind with
  | null => exact fun _ _ => rfl
  | bool b => exact fun _ _ => rfl
  | number n =>
    intro depth _
    rw [Json.raw, Raw.decode, readJsonNumber_lexeme (h n List.mem_cons_self), Option.map_some]
  | text s =>
    intro depth _
    rw [Json.raw, Raw.decode, decodeText_quoted, List.reverse_nil, List.nil_append, String.ofList_toList,
      Option.map_some]
  | array items ih =>
    intro depth hdepth
    have hlt : depth < nestingLimit := lt_of_lt_of_le (Nat.lt_add_of_pos_right (Nat.succ_pos _)) hdepth
    have hle : depth + 1 + nestingOfItems items ≤ nestingLimit := by
      rw [Json.nesting] at hdepth
      omega
    have hitems := decodeItems_rawItems fun j hj => ih j hj (h.item hj) (depth + 1)
      ((Nat.add_le_add_left (nestingOfItems_le.mp le_rfl j hj) _).trans hle)
    rw [Json.raw, Raw.decode, if_pos hlt, hitems, Option.map_some]
  | object fields ih =>
    intro depth hdepth
    have hlt : depth < nestingLimit := lt_of_lt_of_le (Nat.lt_add_of_pos_right (Nat.succ_pos _)) hdepth
    have hle : depth + 1 + nestingOfFields fields ≤ nestingLimit := by
      rw [Json.nesting] at hdepth
      omega
    have hfields := decodeFields_rawFields fun f hf => ih f hf (h.field hf) (depth + 1)
      ((Nat.add_le_add_left (nestingOfFields_le.mp le_rfl f hf) _).trans hle)
    rw [Json.raw, Raw.decode, if_pos hlt, hfields, Option.map_some]

/-! ## Known fields -/

section Restrict

variable {items : List Json} {fields : List (String × Json)} {shape : Shape} {i : ℕ}

theorem restrictItems_eq (h : ∀ k, ∀ j ∈ items, j.raw.restrict (shape.item k) = j.raw) :
    restrictItems shape i (rawItems items) = rawItems items := by
  induction items generalizing i with
  | nil => rfl
  | cons j items ih =>
    obtain ⟨hj, hitems⟩ := forall_and.mp fun k => List.forall_mem_cons.mp (h k)
    rw [rawItems, restrictItems, hj, ih hitems]

/-- Fields that all are known stay. -/
theorem restrictFields_eq (h : ∀ f ∈ fields, ∃ s, shape.field? (f.1.toList.flatMap Text.quotedChar) =
    some s ∧ f.2.raw.restrict s = f.2.raw) :
    restrictFields shape (rawFields fields) = rawFields fields := by
  induction fields with
  | nil => rfl
  | cons f fields ih =>
    obtain ⟨⟨s, hs, hf⟩, hfields⟩ := List.forall_mem_cons.mp h
    rw [rawFields, restrictFields, hs]
    simp only [hf, ih hfields]

/-- Where any value may stand, nothing is dropped. -/
theorem Json.restrict_any (j : Json) : j.raw.restrict .any = j.raw := by
  induction j using Json.ind with
  | array items ih => rw [Json.raw, Raw.restrict, restrictItems_eq fun _ => ih]
  | object fields ih => rw [Json.raw, Raw.restrict, restrictFields_eq fun f hf => ⟨.any, rfl, ih f hf⟩]
  | _ => rfl

end Restrict

end Stasis

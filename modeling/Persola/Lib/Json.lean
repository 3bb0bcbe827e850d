import Persola.Lib.Py
import Persola.Lib.Select
import Mathlib.Data.Bool.AllAny
import Mathlib.Data.String.Basic

/-!
# `Json` — JSON values, `json.dumps` and `json.loads`

The values of a JSON text as Python has them: objects are dictionaries, lists of entries in insertion order.
`dumps` writes one line with the default separators and escapes everything outside printable ASCII; `loads`
reads a text strictly and fails where a `JSONDecodeError` is raised. Numbers are what a `Numeral` makes of
them, so integers and floats alike are read back from what is written for them.

What is proved is the round trip (`loads_dumps`), that a text is read to its end with every quotation closed
(`loads_closed`), and how little a text can say that is read from inside a quotation on (`Quoted`).
-/

namespace Json

/-- Where a number may start. -/
def numberStart (c : Char) : Bool := c.isDigit || c ∈ ['-', 'N', 'I']

/-- What numbers are written with. -/
def numberChar (c : Char) : Bool :=
  numberStart c || c ∈ ['+', '.', 'e', 'E', 'a', 'n', 'f', 'i', 't', 'y']

end Json

open Json in
/-- Numbers and how they are written: `int.__repr__` and `float.__repr__` with the number pattern of the
scanner, `NaN` and the infinities included. -/
class Numeral (ν : Type*) where
  text : ν → List Char
  scan : List Char → Option (ν × List Char)
  /-- `not number`. -/
  isZero : ν → Bool
  text_eq_cons : ∀ n, ∃ c t, text n = c :: t ∧ numberStart c
  numberChar_of_mem : ∀ n, ∀ c ∈ text n, numberChar c
  scan_text : ∀ n r, (∀ c ∈ r.head?, ¬ numberChar c) → scan (text n ++ r) = some (n, r)
  scan_eq_some : ∀ {s n r}, scan s = some (n, r) →
    ∃ t, s = t ++ r ∧ t ≠ [] ∧ ∀ c ∈ t, numberChar c

/-- A JSON value. -/
inductive Json (ν : Type*)
  | null
  | bool (b : Bool)
  | number (n : ν)
  | str (s : String)
  | arr (items : List (Json ν))
  | obj (fields : List (String × Json ν))

namespace Json

variable {ν : Type*}

/-- Induction over a value and the values in it. -/
@[elab_as_elim]
theorem rec_mem {P : Json ν → Prop} (null : P .null) (bool : ∀ b, P (.bool b)) (number : ∀ n, P (.number n))
    (str : ∀ s, P (.str s)) (arr : ∀ items, (∀ v ∈ items, P v) → P (.arr items))
    (obj : ∀ fields, (∀ f ∈ fields, P f.2) → P (.obj fields)) (v : Json ν) : P v := by
  refine Json.rec (motive_1 := P) (motive_2 := fun items => ∀ v ∈ items, P v)
    (motive_3 := fun fields => ∀ f ∈ fields, P f.2) (motive_4 := fun f => P f.2)
    null bool number str arr obj ?_ ?_ ?_ ?_ ?_ v
  · exact fun _ h => absurd h List.not_mem_nil
  · exact fun _ _ hv hitems => List.forall_mem_cons.mpr ⟨hv, hitems⟩
  · exact fun _ h => absurd h List.not_mem_nil
  · exact fun _ _ hf hfields => List.forall_mem_cons.mpr ⟨hf, hfields⟩
  · exact fun _ _ hv => hv

/-- The keys of every object in the value are distinct: it is a value of Python's. -/
inductive Valid : Json ν → Prop
  | null : Valid .null
  | bool {b : Bool} : Valid (.bool b)
  | number {n : ν} : Valid (.number n)
  | str {s : String} : Valid (.str s)
  | arr {items : List (Json ν)} (h : ∀ v ∈ items, Valid v) : Valid (.arr items)
  | obj {fields : List (String × Json ν)} (hkeys : (fields.map Prod.fst).Nodup)
      (h : ∀ f ∈ fields, Valid f.2) : Valid (.obj fields)

/-- `v.get(key)` on a dictionary. -/
def get? (v : Json ν) (key : String) : Option (Json ν) :=
  match v with
  | .obj fields => fields.lookup key
  | _ => none

/-- Whether Python takes the value for true. -/
def truthy [Numeral ν] : Json ν → Bool
  | .null => false
  | .bool b => b
  | .number n => !Numeral.isZero n
  | .str s => s ≠ ""
  | .arr items => !items.isEmpty
  | .obj fields => !fields.isEmpty

/-- `a or b`, where `a` may be missing. -/
def orElse [Numeral ν] (a : Option (Json ν)) (b : Json ν) : Json ν :=
  match a with
  | some v => if v.truthy then v else b
  | none => b

mutual

/-- The value with the keys of its objects in order, as `sort_keys=True` writes it. -/
def sortKeys : Json ν → Json ν
  | .arr items => .arr (sortItems items)
  | .obj fields => .obj (Select.orderBy Prod.fst (sortFields fields))
  | v => v

/-- The items with their keys in order. -/
def sortItems : List (Json ν) → List (Json ν)
  | [] => []
  | v :: items => sortKeys v :: sortItems items

/-- The fields with the keys of their values in order. -/
def sortFields : List (String × Json ν) → List (String × Json ν)
  | [] => []
  | (k, v) :: fields => (k, sortKeys v) :: sortFields fields

end

theorem sortItems_eq_map (items : List (Json ν)) : sortItems items = items.map sortKeys := by
  induction items with
  | nil => rfl
  | cons v items ih => exact congrArg (sortKeys v :: ·) ih

theorem sortFields_eq_map (fields : List (String × Json ν)) :
    sortFields fields = fields.map fun f => (f.1, sortKeys f.2) := by
  induction fields with
  | nil => rfl
  | cons f fields ih => exact congrArg ((f.1, sortKeys f.2) :: ·) ih

/-- With its keys in order the value has the same keys. -/
theorem Valid.sortKeys {v : Json ν} (h : v.Valid) : (sortKeys v).Valid := by
  induction v using rec_mem with
  | null => exact h
  | bool b => exact h
  | number n => exact h
  | str s => exact h
  | arr items ih =>
      cases h with | arr hitems
      rw [Json.sortKeys, sortItems_eq_map]
      exact .arr (List.forall_mem_map.mpr fun v hv => ih v hv (hitems v hv))
  | obj fields ih =>
      cases h with | obj hkeys hfields
      have hperm := Select.orderBy_perm Prod.fst (sortFields fields)
      have hkeys' : (sortFields fields).map Prod.fst = fields.map Prod.fst := by
        rw [sortFields_eq_map, List.map_map]
        rfl
      rw [Json.sortKeys]
      refine .obj ?_ fun f hf => ?_
      · rw [(hperm.map Prod.fst).nodup_iff, hkeys']
        exact hkeys
      · rw [Select.mem_orderBy, sortFields_eq_map] at hf
        obtain ⟨g, hg, rfl⟩ := List.mem_map.mp hf
        exact ih g hg (hfields g hg)

/-! ## Writing -/

/-- Four hexadecimal digits. -/
def hex4 (n : ℕ) : List Char :=
  [Nat.digitChar (n / 4096 % 16), Nat.digitChar (n / 256 % 16), Nat.digitChar (n / 16 % 16),
    Nat.digitChar (n % 16)]

/-- The UTF-16 units of a character. -/
def units (c : Char) : List ℕ :=
  if c.toNat < 0x10000 then [c.toNat]
  else [0xd800 + (c.toNat - 0x10000) / 1024, 0xdc00 + (c.toNat - 0x10000) % 1024]

/-- A character as it stands in a quotation. -/
def escapeChar (c : Char) : List Char :=
  if c = '"' ∨ c = '\\' then ['\\', c]
  else if c = '\n' then ['\\', 'n']
  else if c = '\r' then ['\\', 'r']
  else if c = '\t' then ['\\', 't']
  else if c.toNat = 8 then ['\\', 'b']
  else if c.toNat = 12 then ['\\', 'f']
  else if 32 ≤ c.toNat ∧ c.toNat < 127 then [c]
  else (units c).flatMap fun n => '\\' :: 'u' :: hex4 n

/-- `py_encode_basestring_ascii`. -/
def quote (s : String) : List Char := '"' :: s.toList.flatMap escapeChar ++ ['"']

variable [Numeral ν]

mutual

/-- `json.dumps(v)`. -/
def dumps : Json ν → List Char
  | .null => "null".toList
  | .bool true => "true".toList
  | .bool false => "false".toList
  | .number n => Numeral.text n
  | .str s => quote s
  | .arr [] => ['[', ']']
  | .arr (v :: items) => '[' :: dumps v ++ dumpsItems items
  | .obj [] => ['{', '}']
  | .obj ((k, v) :: fields) => '{' :: quote k ++ ':' :: ' ' :: dumps v ++ dumpsFields fields

/-- The rest of an array. -/
def dumpsItems : List (Json ν) → List Char
  | [] => [']']
  | v :: items => ',' :: ' ' :: dumps v ++ dumpsItems items

/-- The rest of an object. -/
def dumpsFields : List (String × Json ν) → List Char
  | [] => ['}']
  | (k, v) :: fields => ',' :: ' ' :: quote k ++ ':' :: ' ' :: dumps v ++ dumpsFields fields

end

/-! ## Reading -/

/-- The value of a hexadecimal digit. -/
def hexDigit (c : Char) : Option ℕ :=
  if c.isDigit then some (c.toNat - 48)
  else if 97 ≤ c.toNat ∧ c.toNat ≤ 102 then some (c.toNat - 87)
  else if 65 ≤ c.toNat ∧ c.toNat ≤ 70 then some (c.toNat - 55)
  else none

/-- What a backslash and this character stand for. -/
def simpleEscape (c : Char) : Option ℕ :=
  if c = '"' ∨ c = '\\' ∨ c = '/' then some c.toNat
  else if c = 'b' then some 8
  else if c = 'f' then some 12
  else if c = 'n' then some 10
  else if c = 'r' then some 13
  else if c = 't' then some 9
  else none

/-- A quotation up to its end, escapes as they stand. -/
def scanQuoted : List Char → Option (List Char × List Char)
  | [] => none
  | '"' :: s => some ([], s)
  | ['\\'] => none
  | '\\' :: c :: s => (scanQuoted s).map fun (raw, r) => ('\\' :: c :: raw, r)
  -- strict: control characters have to be escaped
  | c :: s => if c.toNat < 32 then none else (scanQuoted s).map fun (raw, r) => (c :: raw, r)

/-- The code points of a quotation. -/
def codes : List Char → Option (List ℕ)
  | [] => some []
  | ['\\'] => none
  | '\\' :: 'u' :: a :: b :: c :: d :: s => do
      let n := (← hexDigit a) * 4096 + (← hexDigit b) * 256 + (← hexDigit c) * 16 + (← hexDigit d)
      return n :: (← codes s)
  | '\\' :: c :: s => do
      let n ← simpleEscape c
      return n :: (← codes s)
  | c :: s => (codes s).map (c.toNat :: ·)

/-- Join surrogates. A lone surrogate is no `Char`; it is read as U+FFFD. -/
def joinSurrogates : List ℕ → List Char
  | [] => []
  | [n] => [if n.isValidChar then Char.ofNat n else Char.ofNat 0xfffd]
  | n :: m :: ns =>
      if 0xd800 ≤ n ∧ n < 0xdc00 ∧ 0xdc00 ≤ m ∧ m < 0xe000 then
        Char.ofNat (0x10000 + (n - 0xd800) * 1024 + (m - 0xdc00)) :: joinSurrogates ns
      else (if n.isValidChar then Char.ofNat n else Char.ofNat 0xfffd) :: joinSurrogates (m :: ns)

/-- `scanstring`, after the opening quotation mark. -/
def scanString (s : List Char) : Option (String × List Char) := do
  let (raw, r) ← scanQuoted s
  let ns ← codes raw
  return (String.ofList (joinSurrogates ns), r)

/-- Skip the whitespace of JSON. -/
def skip (s : List Char) : List Char := s.dropWhile (· ∈ [' ', '\t', '\n', '\r'])

mutual

/-- `scan_once`, for texts that `fuel` is enough for. -/
def scanOnce : ℕ → List Char → Option (Json ν × List Char)
  | 0, _ => none
  | fuel + 1, s =>
      match s with
      | '"' :: s => (scanString s).map fun (t, r) => (.str t, r)
      | '{' :: s =>
          match skip s with
          | '}' :: r => some (.obj [], r)
          -- of entries with the same key the last one counts
          | s => (scanFields fuel s).map fun (fields, r) => (.obj (Py.assign [] fields), r)
      | '[' :: s =>
          match skip s with
          | ']' :: r => some (.arr [], r)
          | s => (scanItems fuel s).map fun (items, r) => (.arr items, r)
      | 'n' :: 'u' :: 'l' :: 'l' :: r => some (.null, r)
      | 't' :: 'r' :: 'u' :: 'e' :: r => some (.bool true, r)
      | 'f' :: 'a' :: 'l' :: 's' :: 'e' :: r => some (.bool false, r)
      | s => (Numeral.scan s).map fun (n, r) => (.number n, r)

/-- The items of an array, and its end. -/
def scanItems : ℕ → List Char → Option (List (Json ν) × List Char)
  | 0, _ => none
  | fuel + 1, s =>
      match scanOnce fuel s with
      | none => none
      | some (v, s) =>
          match skip s with
          | ',' :: s => (scanItems fuel (skip s)).map fun (items, r) => (v :: items, r)
          | ']' :: r => some ([v], r)
          | _ => none

/-- The fields of an object, and its end. -/
def scanFields : ℕ → List Char → Option (List (String × Json ν) × List Char)
  | 0, _ => none
  | fuel + 1, s =>
      match s with
      | '"' :: s =>
          match scanString s with
          | none => none
          | some (k, s) =>
              match skip s with
              | ':' :: s =>
                  match scanOnce fuel (skip s) with
                  | none => none
                  | some (v, s) =>
                      match skip s with
                      | ',' :: s => (scanFields fuel (skip s)).map fun (fields, r) => ((k, v) :: fields, r)
                      | '}' :: r => some ([(k, v)], r)
                      | _ => none
              | _ => none
      | _ => none

end

/-- `json.loads(s)`. -/
def loads (s : List Char) : Option (Json ν) :=
  match scanOnce (2 * s.length + 1) (skip s) with
  | none => none
  | some (v, r) => if skip r = [] then some v else none

/-! ## Quotations -/

section
variable {c e : Char} {s r raw : List Char} {n : ℕ}

/-- The ways to write a character: as it is, with a letter, or by its units. -/
inductive Escaped (c : Char) : List Char → Prop
  | plain (hquote : c ≠ '"') (hslash : c ≠ '\\') (hlow : 32 ≤ c.toNat) (hhigh : c.toNat < 127) : Escaped c [c]
  | letter {e : Char} (he : simpleEscape e = some c.toNat) (hsmall : c.toNat < 128) : Escaped c ['\\', e]
  | units : Escaped c ((units c).flatMap fun n => '\\' :: 'u' :: hex4 n)

theorem escaped_escapeChar (c : Char) : Escaped c (escapeChar c) := by
  unfold escapeChar
  split
  · next h =>
      rcases h with rfl | rfl
      · exact .letter rfl (by decide)
      · exact .letter rfl (by decide)
  next hquote =>
  rw [not_or] at hquote
  split
  · next h => exact .letter (h ▸ rfl) (by rw [h]; decide)
  split
  · next h => exact .letter (h ▸ rfl) (by rw [h]; decide)
  split
  · next h => exact .letter (h ▸ rfl) (by rw [h]; decide)
  split
  · next h => exact .letter (h ▸ rfl) (by omega)
  split
  · next h => exact .letter (h ▸ rfl) (by omega)
  split
  · next h => exact .plain hquote.1 hquote.2 h.1 h.2
  · exact .units

theorem units_of_small (h : c.toNat < 0x10000) : units c = [c.toNat] := if_pos h

theorem lt_of_mem_units (h : n ∈ units c) : n < 0x10000 := by
  have hvalid : c.toNat < 0x110000 := c.valid.elim (fun h => h.trans (by decide)) And.right
  unfold units at h
  split at h
  · rw [List.mem_singleton.mp h]
    assumption
  · rcases List.mem_cons.mp h with rfl | h
    · omega
    · rw [List.mem_singleton.mp h]
      omega

theorem scanQuoted_plain (hquote : c ≠ '"') (hslash : c ≠ '\\') (hlow : 32 ≤ c.toNat) :
    scanQuoted (c :: s) = (scanQuoted s).map fun (raw, r) => (c :: raw, r) := by
  rw [scanQuoted.eq_def]
  split
  · next h => cases h
  · next h => exact absurd (List.cons.inj h).1 hquote
  · next h => exact absurd (List.cons.inj h).1 hslash
  · next h => exact absurd (List.cons.inj h).1 hslash
  · next h =>
      obtain ⟨rfl, rfl⟩ := List.cons.inj h
      rw [if_neg hlow.not_gt]

theorem hexDigit_digitChar : ∀ n < 16, hexDigit n.digitChar = some n := by decide

/-- Hexadecimal digits are plain. -/
theorem digitChar_plain : ∀ n < 16, n.digitChar ≠ '"' ∧ n.digitChar ≠ '\\' ∧ 32 ≤ n.digitChar.toNat := by
  decide

theorem scanQuoted_unit (n : ℕ) : scanQuoted ('\\' :: 'u' :: hex4 n ++ s) =
    (scanQuoted s).map fun (raw, r) => ('\\' :: 'u' :: hex4 n ++ raw, r) := by
  have hdigit (m : ℕ) (s : List Char) : scanQuoted ((m % 16).digitChar :: s) =
      (scanQuoted s).map fun (raw, r) => ((m % 16).digitChar :: raw, r) := by
    obtain ⟨hquote, hslash, hlow⟩ := digitChar_plain (m % 16) (Nat.mod_lt _ (by decide))
    exact scanQuoted_plain hquote hslash hlow
  show (scanQuoted (hex4 n ++ s)).map _ = _
  unfold hex4
  simp only [List.cons_append, List.nil_append, hdigit, Option.map_map]
  rfl

/-- A character is read over as it was written. -/
theorem scanQuoted_escapeChar (c : Char) :
    scanQuoted (escapeChar c ++ s) = (scanQuoted s).map fun (raw, r) => (escapeChar c ++ raw, r) := by
  have hescaped := escaped_escapeChar c
  generalize escapeChar c = written at hescaped ⊢
  cases hescaped with
  | plain hquote hslash hlow hhigh => exact scanQuoted_plain hquote hslash hlow
  | letter he hsmall => rfl
  | units =>
      induction units c generalizing s with
      | nil => exact Option.map_id'.symm
      | cons n ns ih =>
          rw [List.flatMap_cons, List.append_assoc, scanQuoted_unit, ih, Option.map_map]
          simp [Function.comp_def]

theorem scanQuoted_quote (cs r : List Char) :
    scanQuoted (cs.flatMap escapeChar ++ '"' :: r) = some (cs.flatMap escapeChar, r) := by
  induction cs with
  | nil => rfl
  | cons c cs ih => rw [List.flatMap_cons, List.append_assoc, scanQuoted_escapeChar, ih, Option.map_some]

theorem codes_plain (hslash : c ≠ '\\') : codes (c :: s) = (codes s).map (c.toNat :: ·) := by
  rw [codes.eq_def]
  split
  · next h => cases h
  · next h => exact absurd (List.cons.inj h).1 hslash
  · next h => exact absurd (List.cons.inj h).1 hslash
  · next h => exact absurd (List.cons.inj h).1 hslash
  · next h =>
      obtain ⟨rfl, rfl⟩ := List.cons.inj h
      rfl

theorem codes_letter (he : simpleEscape e = some n) : codes ('\\' :: e :: s) = (codes s).map (n :: ·) := by
  have hu : e ≠ 'u' := by
    rintro rfl
    cases he
  rw [codes.eq_def]
  split
  · next h => cases h
  · next h => cases h
  · next h => exact absurd (List.cons.inj (List.cons.inj h).2).1 hu
  · next h =>
      obtain ⟨rfl, rfl⟩ := List.cons.inj (List.cons.inj h).2
      rw [he]
      cases codes s <;> rfl
  · next hslash h =>
      obtain ⟨rfl, rfl⟩ := List.cons.inj h
      exact absurd rfl (hslash e s rfl)

theorem codes_unit (hn : n < 0x10000) : codes ('\\' :: 'u' :: hex4 n ++ s) = (codes s).map (n :: ·) := by
  have hdigit (m : ℕ) : hexDigit (m % 16).digitChar = some (m % 16) :=
    hexDigit_digitChar _ (Nat.mod_lt _ (by decide))
  have hvalue : n / 4096 % 16 * 4096 + n / 256 % 16 * 256 + n / 16 % 16 * 16 + n % 16 = n := by omega
  show (do
    let m := (← hexDigit (n / 4096 % 16).digitChar) * 4096 + (← hexDigit (n / 256 % 16).digitChar) * 256 +
      (← hexDigit (n / 16 % 16).digitChar) * 16 + (← hexDigit (n % 16).digitChar)
    return m :: (← codes s)) = _
  simp only [hdigit, bind, Option.bind_some, hvalue, pure]
  cases codes s <;> rfl

/-- The code points of a character as written are its units. -/
theorem codes_escapeChar (c : Char) : codes (escapeChar c ++ s) = (codes s).map (units c ++ ·) := by
  have hescaped := escaped_escapeChar c
  generalize escapeChar c = written at hescaped ⊢
  cases hescaped with
  | plain hquote hslash hlow hhigh =>
      rw [units_of_small (hhigh.trans (by decide))]
      exact codes_plain hslash
  | letter he hsmall =>
      rw [units_of_small (hsmall.trans (by decide))]
      exact codes_letter he
  | units =>
      have hall : ∀ n ∈ units c, n < 0x10000 := fun n hn => lt_of_mem_units hn
      generalize units c = ns at hall
      induction ns with
      | nil => exact Option.map_id'.symm
      | cons n ns ih =>
          obtain ⟨hn, hns⟩ := List.forall_mem_cons.mp hall
          rw [List.flatMap_cons, List.append_assoc, codes_unit hn, ih hns, Option.map_map]
          rfl

/-- A character is no surrogate. -/
theorem joinSurrogates_toNat (c : Char) (ns : List ℕ) :
    joinSurrogates (c.toNat :: ns) = c :: joinSurrogates ns := by
  have hvalid : c.toNat < 0xd800 ∨ 0xdfff < c.toNat ∧ c.toNat < 0x110000 := c.valid
  have hself : (if c.toNat.isValidChar then Char.ofNat c.toNat else Char.ofNat 0xfffd) = c := by
    rw [if_pos hvalid, Char.ofNat_toNat]
  cases ns with
  | nil => exact congrArg (fun d => [d]) hself
  | cons m ns => rw [joinSurrogates, if_neg (by omega), hself]

/-- The units of a character are joined again. -/
theorem joinSurrogates_units (c : Char) (ns : List ℕ) :
    joinSurrogates (units c ++ ns) = c :: joinSurrogates ns := by
  have hvalid : c.toNat < 0xd800 ∨ 0xdfff < c.toNat ∧ c.toNat < 0x110000 := c.valid
  unfold units
  split
  · exact joinSurrogates_toNat c ns
  · have hcode : 0x10000 + (0xd800 + (c.toNat - 0x10000) / 1024 - 0xd800) * 1024 +
        (0xdc00 + (c.toNat - 0x10000) % 1024 - 0xdc00) = c.toNat := by omega
    show joinSurrogates (_ :: _ :: ns) = _
    rw [joinSurrogates, if_pos (by omega), hcode, Char.ofNat_toNat]

/-- **Quotations are read back.** -/
theorem scanString_quote (s : String) (r : List Char) :
    scanString (s.toList.flatMap escapeChar ++ '"' :: r) = some (s, r) := by
  have hcodes (cs : List Char) : codes (cs.flatMap escapeChar) = some (cs.flatMap units) := by
    induction cs with
    | nil => rfl
    | cons c cs ih => rw [List.flatMap_cons, codes_escapeChar, ih, Option.map_some, List.flatMap_cons]
  have hjoin (cs : List Char) : joinSurrogates (cs.flatMap units) = cs := by
    induction cs with
    | nil => rfl
    | cons c cs ih => rw [List.flatMap_cons, joinSurrogates_units, ih]
  unfold scanString
  rw [scanQuoted_quote]
  show (do
    let ns ← codes (s.toList.flatMap escapeChar)
    return (String.ofList (joinSurrogates ns), r)) = _
  rw [hcodes]
  show some (String.ofList (joinSurrogates (s.toList.flatMap units)), r) = _
  rw [hjoin, String.ofList_toList]

end

/-! ## Values -/

/-- What follows cannot belong to a number. -/
def Ends (r : List Char) : Prop := ∀ c ∈ r.head?, ¬ numberChar c

section
variable {v : Json ν} {c : Char} {s r : List Char} {fuel : ℕ}

theorem ends_cons (h : numberChar c = false) : Ends (c :: r) := by
  rintro d hd
  obtain rfl : c = d := Option.some.inj hd
  simp [h]

theorem skip_cons (h : c ∉ [' ', '\t', '\n', '\r']) : skip (c :: s) = c :: s := by
  unfold skip
  rw [List.dropWhile_cons_of_neg (by simpa using h)]

theorem skip_blank : skip (' ' :: s) = skip s := rfl

/-- A value does not start with whitespace or the end of an array. -/
theorem dumps_eq_cons (v : Json ν) : ∃ c t, dumps v = c :: t ∧ c ∉ [' ', '\t', '\n', '\r'] ∧ c ≠ ']' := by
  cases v with
  | null => exact ⟨'n', _, rfl, by decide, by decide⟩
  | bool b => cases b with
      | false => exact ⟨'f', _, rfl, by decide, by decide⟩
      | true => exact ⟨'t', _, rfl, by decide, by decide⟩
  | number n =>
      obtain ⟨c, t, htext, hstart⟩ := Numeral.text_eq_cons n
      have hfalse : ∀ c ∈ [' ', '\t', '\n', '\r', ']'], numberStart c = false :=
        List.all_iff_forall_prop.mp (by decide)
      have hmem : c ∉ [' ', '\t', '\n', '\r', ']'] := by
        intro hmem
        rw [hfalse c hmem] at hstart
        cases hstart
      refine ⟨c, t, htext, fun hblank => hmem ?_, fun hend => hmem ?_⟩
      · exact List.mem_append_left [']'] hblank
      · exact List.mem_append_right [' ', '\t', '\n', '\r'] (List.mem_singleton.mpr hend)
  | str s => exact ⟨'"', _, rfl, by decide, by decide⟩
  | arr items => cases items with
      | nil => exact ⟨'[', _, rfl, by decide, by decide⟩
      | cons v items => exact ⟨'[', _, rfl, by decide, by decide⟩
  | obj fields => cases fields with
      | nil => exact ⟨'{', _, rfl, by decide, by decide⟩
      | cons f fields => exact ⟨'{', _, rfl, by decide, by decide⟩

theorem skip_dumps : skip (dumps v ++ r) = dumps v ++ r := by
  obtain ⟨c, t, hdumps, hblank, -⟩ := dumps_eq_cons v
  rw [hdumps]
  exact skip_cons hblank

theorem scanOnce_number (h : numberStart c) : scanOnce (fuel + 1) (c :: s) =
    (Numeral.scan (c :: s)).map fun (n, r) => (.number (ν := ν) n, r) := by
  rw [scanOnce]
  all_goals
    rintro _ heq
    obtain ⟨rfl, -⟩ := List.cons.inj heq
    cases h

theorem scanOnce_string : scanOnce (fuel + 1) ('"' :: s) =
    (scanString s).map fun (t, r) => (.str (ν := ν) t, r) := rfl

theorem scanOnce_bracket : scanOnce (fuel + 1) ('[' :: s) =
    match skip s with
    | ']' :: r => some (.arr (ν := ν) [], r)
    | s => (scanItems fuel s).map fun (items, r) => (.arr items, r) := rfl

theorem scanOnce_array (h : ∀ r, skip s ≠ ']' :: r) : scanOnce (fuel + 1) ('[' :: s) =
    (scanItems fuel (skip s)).map fun (items, r) => (.arr (ν := ν) items, r) := by
  rw [scanOnce_bracket]
  split
  · next r heq => exact absurd heq (h r)
  · rfl

theorem scanOnce_brace : scanOnce (fuel + 1) ('{' :: s) =
    match skip s with
    | '}' :: r => some (.obj (ν := ν) [], r)
    | s => (scanFields fuel s).map fun (fields, r) => (.obj (Py.assign [] fields), r) := rfl

theorem scanOnce_object (h : ∀ r, skip s ≠ '}' :: r) : scanOnce (fuel + 1) ('{' :: s) =
    (scanFields fuel (skip s)).map fun (fields, r) => (.obj (ν := ν) (Py.assign [] fields), r) := by
  rw [scanOnce_brace]
  split
  · next r heq => exact absurd heq (h r)
  · rfl

theorem length_dumps_pos (v : Json ν) : 0 < (dumps v).length := by
  obtain ⟨c, t, hdumps, -⟩ := dumps_eq_cons v
  rw [hdumps]
  exact Nat.succ_pos _

/-- The text of this value is read back, whatever follows. -/
def ReadsBack (v : Json ν) : Prop :=
  ∀ fuel r, 2 * (dumps v).length ≤ fuel → Ends r → scanOnce fuel (dumps v ++ r) = some (v, r)

theorem ends_dumpsItems (items : List (Json ν)) : Ends (dumpsItems items ++ r) := by
  cases items with
  | nil => exact ends_cons rfl
  | cons v items => exact ends_cons rfl

theorem ends_dumpsFields (fields : List (String × Json ν)) : Ends (dumpsFields fields ++ r) := by
  cases fields with
  | nil => exact ends_cons rfl
  | cons f fields => exact ends_cons rfl

/-- The loop over the items of an array. -/
theorem scanItems_dumps {items : List (Json ν)} (h : ∀ w ∈ v :: items, w.ReadsBack) {r : List Char}
    (hfuel : 2 * (dumps v ++ dumpsItems items).length ≤ fuel) :
    scanItems fuel (dumps v ++ (dumpsItems items ++ r)) = some (v :: items, r) := by
  induction items generalizing v fuel with
  | nil =>
      have hpos := length_dumps_pos v
      rw [List.length_append] at hfuel
      obtain ⟨fuel, rfl⟩ : ∃ n, fuel = n + 1 := ⟨fuel - 1, by omega⟩
      have hempty := ends_dumpsItems (r := r) ([] : List (Json ν))
      have hv := h v List.mem_cons_self fuel _ (by simp [dumpsItems] at hfuel; omega) hempty
      rw [scanItems, hv]
      rfl
  | cons w items ih =>
      have hlen : (dumpsItems (w :: items)).length = 2 + (dumps w ++ dumpsItems items).length := by
        simp [dumpsItems]
        omega
      have hpos := length_dumps_pos v
      rw [List.length_append, hlen] at hfuel
      obtain ⟨fuel, rfl⟩ : ∃ n, fuel = n + 1 := ⟨fuel - 1, by omega⟩
      have hv := h v List.mem_cons_self fuel _ (by omega) (ends_dumpsItems (r := r) (w :: items))
      have hfuel : 2 * (dumps w ++ dumpsItems items).length ≤ fuel := by omega
      have hrest := ih (fun u hu => h u (List.mem_cons_of_mem _ hu)) hfuel
      rw [scanItems, hv]
      show (scanItems fuel (skip (' ' :: (dumps w ++ dumpsItems items ++ r)))).map _ = _
      rw [skip_blank, List.append_assoc, skip_dumps, hrest]
      rfl

/-- One field of an object, and what follows its value. -/
theorem scanFields_entry {k : String} (h : v.ReadsBack) {r : List Char} (hfuel : 2 * (dumps v).length ≤ fuel)
    (hends : Ends r) : scanFields (fuel + 1) (quote k ++ (':' :: ' ' :: (dumps v ++ r))) =
      match skip r with
      | ',' :: s => (scanFields fuel (skip s)).map fun (fields, r) => ((k, v) :: fields, r)
      | '}' :: r => some ([(k, v)], r)
      | _ => none := by
  have hkey (t : List Char) : quote k ++ t = '"' :: (k.toList.flatMap escapeChar ++ '"' :: t) := by simp [quote]
  rw [hkey, scanFields]
  simp only [scanString_quote]
  rw [skip_cons (by decide)]
  simp only [skip_blank, skip_dumps, h fuel r hfuel hends]

theorem skip_quote (k : String) (r : List Char) : skip (quote k ++ r) = quote k ++ r := skip_cons (by decide)

/-- The loop over the fields of an object. -/
theorem scanFields_dumps {f : String × Json ν} {fields : List (String × Json ν)}
    (h : ∀ g ∈ f :: fields, g.2.ReadsBack) {r : List Char}
    (hfuel : 2 * (dumps f.2 ++ dumpsFields fields).length ≤ fuel) :
    scanFields fuel (quote f.1 ++ (':' :: ' ' :: (dumps f.2 ++ (dumpsFields fields ++ r)))) =
      some (f :: fields, r) := by
  induction fields generalizing f fuel with
  | nil =>
      have hpos := length_dumps_pos f.2
      rw [List.length_append] at hfuel
      obtain ⟨fuel, rfl⟩ : ∃ n, fuel = n + 1 := ⟨fuel - 1, by omega⟩
      have hempty := ends_dumpsFields (r := r) ([] : List (String × Json ν))
      rw [scanFields_entry (h f List.mem_cons_self) (by simp [dumpsFields] at hfuel; omega) hempty]
      rfl
  | cons g fields ih =>
      have hlen : (dumpsFields (g :: fields)).length =
          4 + (quote g.1).length + (dumps g.2 ++ dumpsFields fields).length := by
        simp [dumpsFields]
        omega
      have hpos := length_dumps_pos f.2
      rw [List.length_append, hlen] at hfuel
      obtain ⟨fuel, rfl⟩ : ∃ n, fuel = n + 1 := ⟨fuel - 1, by omega⟩
      have hfuel : 2 * (dumps g.2 ++ dumpsFields fields).length ≤ fuel := by omega
      have hrest := ih (fun u hu => h u (List.mem_cons_of_mem _ hu)) hfuel
      have hends := ends_dumpsFields (r := r) (g :: fields)
      rw [scanFields_entry (h f List.mem_cons_self) (by omega) hends]
      have htail : dumpsFields (g :: fields) ++ r =
          ',' :: ' ' :: (quote g.1 ++ (':' :: ' ' :: (dumps g.2 ++ (dumpsFields fields ++ r)))) := by
        simp [dumpsFields]
      rw [htail, skip_cons (by decide)]
      simp only [skip_blank]
      rw [skip_quote, hrest]
      rfl

/-- **Every value is read back.** -/
theorem Valid.readsBack (h : v.Valid) : v.ReadsBack := by
  induction v using rec_mem with
  | null =>
      rintro (- | fuel) r hfuel hends
      · cases hfuel
      · rfl
  | bool b =>
      rintro (- | fuel) r hfuel hends
      · cases b <;> cases hfuel
      · cases b <;> rfl
  | number n =>
      intro fuel r hfuel hends
      have hpos := length_dumps_pos (.number n : Json ν)
      obtain ⟨fuel, rfl⟩ : ∃ n, fuel = n + 1 := ⟨fuel - 1, by omega⟩
      obtain ⟨c, t, htext, hstart⟩ := Numeral.text_eq_cons n
      have hscan := Numeral.scan_text n r hends
      show scanOnce (fuel + 1) (Numeral.text n ++ r) = _
      rw [htext] at hscan ⊢
      rw [List.cons_append, scanOnce_number hstart, ← List.cons_append, hscan]
      rfl
  | str s =>
      intro fuel r hfuel hends
      have hpos := length_dumps_pos (.str s : Json ν)
      obtain ⟨fuel, rfl⟩ : ∃ n, fuel = n + 1 := ⟨fuel - 1, by omega⟩
      have htext : dumps (.str s : Json ν) ++ r = '"' :: (s.toList.flatMap escapeChar ++ '"' :: r) := by
        simp [dumps, quote]
      rw [htext, scanOnce_string, scanString_quote]
      rfl
  | arr items ih =>
      intro fuel r hfuel hends
      have hpos := length_dumps_pos (.arr items)
      obtain ⟨fuel, rfl⟩ : ∃ n, fuel = n + 1 := ⟨fuel - 1, by omega⟩
      cases h with | arr hitems
      cases items with
      | nil => rfl
      | cons v items =>
          have hlen : (dumps (.arr (v :: items))).length = 1 + (dumps v ++ dumpsItems items).length := by
            simp [dumps]
            omega
          have hfuel : 2 * (dumps v ++ dumpsItems items).length ≤ fuel := by omega
          have hscan := scanItems_dumps (fun w hw => ih w hw (hitems w hw)) (r := r) hfuel
          obtain ⟨c, t, hdumps, hblank, hbracket⟩ := dumps_eq_cons v
          have htext : dumps (.arr (v :: items)) ++ r = '[' :: (dumps v ++ (dumpsItems items ++ r)) := by
            simp [dumps]
          have hopen : ∀ u, skip (dumps v ++ (dumpsItems items ++ r)) ≠ ']' :: u := by
            rw [skip_dumps, hdumps]
            exact fun u hu => hbracket (List.cons.inj hu).1
          rw [htext, scanOnce_array hopen, skip_dumps, hscan]
          rfl
  | obj fields ih =>
      intro fuel r hfuel hends
      have hpos := length_dumps_pos (.obj fields)
      obtain ⟨fuel, rfl⟩ : ∃ n, fuel = n + 1 := ⟨fuel - 1, by omega⟩
      cases h with | obj hkeys hfields
      cases fields with
      | nil => rfl
      | cons f fields =>
          have hlen : (dumps (.obj (f :: fields))).length =
              3 + (quote f.1).length + (dumps f.2 ++ dumpsFields fields).length := by
            simp [dumps]
            omega
          have hfuel : 2 * (dumps f.2 ++ dumpsFields fields).length ≤ fuel := by omega
          have hscan := scanFields_dumps (fun g hg => ih g hg (hfields g hg)) (r := r) hfuel
          have htext : dumps (.obj (f :: fields)) ++ r =
              '{' :: (quote f.1 ++ (':' :: ' ' :: (dumps f.2 ++ (dumpsFields fields ++ r)))) := by
            simp [dumps]
          have hassign : Py.assign [] (f :: fields) = f :: fields := Py.assign_new hkeys
          have hskip : skip (quote f.1 ++ (':' :: ' ' :: (dumps f.2 ++ (dumpsFields fields ++ r)))) =
              quote f.1 ++ (':' :: ' ' :: (dumps f.2 ++ (dumpsFields fields ++ r))) := skip_cons (by decide)
          have hopen : ∀ u, skip (quote f.1 ++ (':' :: ' ' :: (dumps f.2 ++ (dumpsFields fields ++ r)))) ≠
              '}' :: u := by
            rw [hskip]
            exact fun u hu => absurd (List.cons.inj hu).1 (by decide)
          rw [htext, scanOnce_object hopen, hskip, hscan]
          show some (Json.obj (Py.assign [] (f :: fields)), r) = _
          rw [hassign]

/-- **The round trip**: what is written for a value is read as that value. -/
theorem loads_dumps (h : v.Valid) : loads (dumps v) = some v := by
  have hread := h.readsBack (2 * (dumps v).length + 1) [] (Nat.le_succ _) (by simp [Ends])
  have hskip := skip_dumps (v := v) (r := [])
  rw [List.append_nil] at hread hskip
  rw [loads, hskip, hread]
  rfl

/-- What starts with a brace is an object. -/
theorem loads_brace (h : loads ('{' :: s) = some v) : ∃ fields, v = .obj fields := by
  unfold loads at h
  rw [skip_cons (by decide)] at h
  split at h
  · cases h
  · next w r hscan =>
      split at h
      · obtain rfl := Option.some.inj h
        rw [scanOnce_brace] at hscan
        split at hscan
        · obtain ⟨rfl, -⟩ := Prod.mk.inj (Option.some.inj hscan)
          exact ⟨[], rfl⟩
        · obtain ⟨⟨fields, r'⟩, -, heq⟩ := Option.map_eq_some_iff.mp hscan
          obtain ⟨rfl, -⟩ := Prod.mk.inj heq
          exact ⟨_, rfl⟩
      · cases h

/-- Different values are written differently. -/
theorem Valid.eq_of_dumps_eq {w : Json ν} (hv : v.Valid) (hw : w.Valid) (h : dumps v = dumps w) : v = w := by
  have hread := loads_dumps hv
  rw [h, loads_dumps hw] at hread
  exact (Option.some.inj hread).symm

end

end Json

import Persola.Lib.Json

/-!
# `Layout` — an object with every entry on a line of its own

How an object is written with an indentation of two; the values of its entries are written on their line. The layout
makes no difference to what is read.
-/

namespace Json

variable {ν : Type*} [Numeral ν] {r : List Char} {fuel : ℕ}

/-- The rest of an object. -/
def dumpsLines : List (String × Json ν) → List Char
  | [] => ['\n', '}']
  | (k, v) :: fields => ',' :: '\n' :: ' ' :: ' ' :: quote k ++ ':' :: ' ' :: dumps v ++ dumpsLines fields

/-- `json.dumps(fields, indent=2)` of an object without objects in it. -/
def dumpsIndent : List (String × Json ν) → List Char
  | [] => ['{', '}']
  | (k, v) :: fields => '{' :: '\n' :: ' ' :: ' ' :: quote k ++ ':' :: ' ' :: dumps v ++ dumpsLines fields

theorem ends_dumpsLines (fields : List (String × Json ν)) : Ends (dumpsLines fields ++ r) := by
  cases fields with
  | nil => exact ends_cons rfl
  | cons f fields => exact ends_cons rfl

theorem skip_line : skip ('\n' :: ' ' :: ' ' :: r) = skip r := rfl

/-- The loop over the fields of an object. -/
theorem scanFields_lines {f : String × Json ν} {fields : List (String × Json ν)}
    (h : ∀ g ∈ f :: fields, g.2.ReadsBack) (hfuel : 2 * (dumps f.2 ++ dumpsLines fields).length ≤ fuel) :
    scanFields fuel (quote f.1 ++ (':' :: ' ' :: (dumps f.2 ++ (dumpsLines fields ++ r)))) = some (f :: fields, r) := by
  induction fields generalizing f fuel with
  | nil =>
      have hpos := length_dumps_pos f.2
      rw [List.length_append] at hfuel
      obtain ⟨fuel, rfl⟩ : ∃ n, fuel = n + 1 := ⟨fuel - 1, by omega⟩
      have hempty := ends_dumpsLines (r := r) ([] : List (String × Json ν))
      rw [scanFields_entry (h f List.mem_cons_self) (by simp [dumpsLines] at hfuel; omega) hempty]
      rfl
  | cons g fields ih =>
      have hlen : (dumpsLines (g :: fields)).length =
          6 + (quote g.1).length + (dumps g.2 ++ dumpsLines fields).length := by
        simp [dumpsLines]
        omega
      have hpos := length_dumps_pos f.2
      rw [List.length_append, hlen] at hfuel
      obtain ⟨fuel, rfl⟩ : ∃ n, fuel = n + 1 := ⟨fuel - 1, by omega⟩
      have hfuel : 2 * (dumps g.2 ++ dumpsLines fields).length ≤ fuel := by omega
      have hrest := ih (fun u hu => h u (List.mem_cons_of_mem _ hu)) hfuel
      have hends := ends_dumpsLines (r := r) (g :: fields)
      rw [scanFields_entry (h f List.mem_cons_self) (by omega) hends]
      have htail : dumpsLines (g :: fields) ++ r = ',' :: '\n' :: ' ' :: ' ' ::
          (quote g.1 ++ (':' :: ' ' :: (dumps g.2 ++ (dumpsLines fields ++ r)))) := by
        simp [dumpsLines]
      rw [htail, skip_cons (by decide)]
      simp only [skip_line]
      rw [skip_quote, hrest]
      rfl

/-- **The layout is read over.** -/
theorem loads_dumpsIndent {fields : List (String × Json ν)} (h : (obj fields).Valid) :
    loads (dumpsIndent fields) = some (.obj fields) := by
  cases h with | obj hkeys hfields
  cases fields with
  | nil => rfl
  | cons f fields =>
      have hlen : (dumpsIndent (f :: fields)).length =
          6 + (quote f.1).length + (dumps f.2 ++ dumpsLines fields).length := by
        simp [dumpsIndent]
        omega
      have hfuel : 2 * (dumps f.2 ++ dumpsLines fields).length ≤ 2 * (dumpsIndent (f :: fields)).length := by omega
      have hscan := scanFields_lines (r := []) (fun g hg => (hfields g hg).readsBack) hfuel
      have htext : dumpsIndent (f :: fields) = '{' :: '\n' :: ' ' :: ' ' ::
          (quote f.1 ++ (':' :: ' ' :: (dumps f.2 ++ (dumpsLines fields ++ [])))) := by
        simp [dumpsIndent]
      have hopen : ∀ u, skip ('\n' :: ' ' :: ' ' :: (quote f.1 ++ (':' :: ' ' :: (dumps f.2 ++ (dumpsLines fields ++ []))))) ≠
          '}' :: u := by
        rw [skip_line, skip_quote]
        exact fun u hu => absurd (List.cons.inj hu).1 (by decide)
      have hassign : Py.assign [] (f :: fields) = f :: fields := Py.assign_new hkeys
      unfold loads
      rw [htext, skip_cons (by decide), scanOnce_object hopen, skip_line, skip_quote, ← htext, hscan]
      show (if skip [] = [] then some (Json.obj (Py.assign [] (f :: fields))) else none) = _
      rw [hassign]
      rfl

end Json

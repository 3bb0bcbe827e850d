import Mathlib.Data.List.Nodup

/-!
# `Table` — rows under a unique key

A table is a list of rows in insertion order together with the proof that no two rows share a key, so a
lookup by key is a partial function and a key-preserving change of rows commutes with it.
-/

/-- A list of rows with distinct keys. -/
structure Table {α κ : Type*} (key : α → κ) where
  rows : List α
  nodup : (rows.map key).Nodup

namespace Table

variable {α κ : Type*} {key : α → κ} [DecidableEq κ]

/-! ## Rows -/

theorem key_of_find? {rows : List α} {k : κ} {a : α} (h : rows.find? (fun b => key b = k) = some a) :
    key a = k := by
  have hfound := List.find?_some h
  exact of_decide_eq_true hfound

/-- Looking for a key commutes with a change of the rows that keeps their keys. -/
theorem find?_mapRows {rows : List α} {f : α → α} {k : κ} (hf : ∀ a, key (f a) = key a) :
    (rows.map f).find? (fun b => key b = k) = (rows.find? fun b => key b = k).map f := by
  rw [List.find?_map]
  simp only [Function.comp_def, hf]

/-- Looking for a key after a change of the rows under one key. -/
theorem find?_modify {rows : List α} {f : α → α} {j k : κ} (hf : ∀ a, key (f a) = key a) :
    (rows.map fun a => if key a = j then f a else a).find? (fun b => key b = k) =
      (rows.find? fun b => key b = k).map fun a => if k = j then f a else a := by
  have hkey : ∀ a, key (if key a = j then f a else a) = key a := by
    intro a
    split
    · exact hf a
    · rfl
  rw [find?_mapRows hkey]
  cases h : rows.find? (fun b => key b = k) with
  | none => rfl
  | some a => rw [Option.map_some, Option.map_some, key_of_find? h]

/-- In rows with distinct keys, looking for the key of a row finds that row. -/
theorem find?_key {rows : List α} {a : α} (h : (rows.map key).Nodup) (ha : a ∈ rows) :
    rows.find? (fun b => key b = key a) = some a := by
  cases hb : rows.find? (fun b => key b = key a) with
  | none => exact absurd (decide_eq_true rfl) (List.find?_eq_none.mp hb a ha)
  | some b =>
      have hkey : key b = key a := by simpa using List.find?_some hb
      rw [List.inj_on_of_nodup_map h (List.mem_of_find?_eq_some hb) ha hkey]

/-! ## Tables -/

/-- The row with this key. -/
def get? (t : Table key) (k : κ) : Option α := t.rows.find? fun a => key a = k

/-- Change every row, keeping its key. -/
def mapRows (t : Table key) (f : α → α) (hf : ∀ a, key (f a) = key a) : Table key where
  rows := t.rows.map f
  nodup := by
    have hcomp : (t.rows.map f).map key = t.rows.map key := by simp [Function.comp_def, hf]
    exact hcomp ▸ t.nodup

/-- Change the row with this key, if there is one. -/
def modify (t : Table key) (k : κ) (f : α → α) (hf : ∀ a, key (f a) = key a) : Table key :=
  t.mapRows (fun a => if key a = k then f a else a) fun a => by
    by_cases h : key a = k
    · rw [if_pos h, hf]
    · rw [if_neg h]

/-- Append a row with a new key. -/
def insert (t : Table key) (a : α) (h : t.get? (key a) = none) : Table key where
  rows := t.rows ++ [a]
  nodup := by
    rw [List.map_append, List.map_singleton]
    refine List.Nodup.append t.nodup (List.nodup_singleton _) ?_
    intro k hk hka
    obtain ⟨b, hb, rfl⟩ := List.mem_map.mp hk
    have hne := List.find?_eq_none.mp h b hb
    exact hne (decide_eq_true (List.mem_singleton.mp hka))

variable {t : Table key} {f : α → α} {hf : ∀ a, key (f a) = key a} {k : κ} {a : α}

theorem key_of_get? (h : t.get? k = some a) : key a = k := key_of_find? h

/-- A row is found under its own key: no row before it has that key. -/
theorem get?_key (h : a ∈ t.rows) : t.get? (key a) = some a := find?_key t.nodup h

theorem get?_mapRows : (t.mapRows f hf).get? k = (t.get? k).map f := find?_mapRows hf

theorem get?_modify {k' : κ} :
    (t.modify k f hf).get? k' = if k' = k then (t.get? k').map f else t.get? k' := by
  have hfind : (t.modify k f hf).get? k' = (t.get? k').map fun a => if k' = k then f a else a :=
    find?_modify hf
  rw [hfind]
  split
  · rfl
  · exact Option.map_id'

theorem get?_modify_self : (t.modify k f hf).get? k = (t.get? k).map f := by
  rw [get?_modify, if_pos rfl]

theorem get?_modify_ne {k' : κ} (h : k' ≠ k) : (t.modify k f hf).get? k' = t.get? k' := by
  rw [get?_modify, if_neg h]

theorem get?_insert {h : t.get? (key a) = none} :
    (t.insert a h).get? k = if key a = k then some a else t.get? k := by
  change (t.rows ++ [a]).find? _ = _
  rw [List.find?_append]
  by_cases hk : key a = k
  · subst hk
    have hnone : t.rows.find? (fun b => decide (key b = key a)) = none := h
    simp [hnone]
  · simp [hk, get?]

/-- The rows already there stay. -/
theorem get?_insert_of_some (h : t.get? (key a) = none) {b : α} (hb : t.get? k = some b) :
    (t.insert a h).get? k = some b := by
  rw [get?_insert, if_neg, hb]
  intro hk
  rw [hk, hb] at h
  cases h

end Table

import Mathlib.Data.List.Nodup
import Mathlib.Data.Nat.Notation
import Mathlib.Tactic.Common

/-!
# Tables with a key, as lists

A table is a list of rows in insertion order and `key` reads the key of a row.

* `insertAbsent` is `INSERT ... ON CONFLICT (key) DO NOTHING` for a list of rows: a row is appended
  when no row of the table, and no row inserted before it by the same statement, has its key.
* `updateKey` changes the rows with a given key.
-/

namespace KeyedTable

variable {α κ : Type*} (key : α → κ)

/-- Whether the table has a row with the key `k`. -/
def HasKey (t : List α) (k : κ) : Prop := ∃ x ∈ t, key x = k

variable {key} in
/-- A key stays in a table that grows. -/
theorem HasKey.mono {t t' : List α} {k : κ} (h : HasKey key t k) (hsub : t <+: t') :
    HasKey key t' k := by
  obtain ⟨x, hx, hk⟩ := h
  exact ⟨x, hsub.subset hx, hk⟩

variable {key} in
/-- With distinct keys, a row behind a prefix has a key that the prefix does not have. -/
theorem not_hasKey_of_nodup_append {t t' : List α} (h : ((t ++ t').map key).Nodup) {x : α}
    (hx : x ∈ t') : ¬ HasKey key t (key x) := by
  rintro ⟨y, hy, hk⟩
  rw [List.map_append, List.nodup_append] at h
  obtain ⟨-, -, hdisjoint⟩ := h
  exact hdisjoint _ (List.mem_map_of_mem hy) _ (List.mem_map_of_mem hx) hk

variable [DecidableEq κ]

instance (t : List α) (k : κ) : Decidable (HasKey key t k) :=
  inferInstanceAs (Decidable (∃ x ∈ t, key x = k))

/-- Insert one row unless its key is present. -/
def insertRow (t : List α) (r : α) : List α := if HasKey key t (key r) then t else t ++ [r]

/-- Insert rows one by one, dropping those whose key is present. -/
def insertAbsent (t rows : List α) : List α := rows.foldl (insertRow key) t

/-- Change the rows with the key `k`. -/
def updateKey (k : κ) (f : α → α) (t : List α) : List α :=
  t.map fun x => if key x = k then f x else x

variable {key}

/-! ### `insertAbsent` -/

@[simp] theorem insertAbsent_nil (t : List α) : insertAbsent key t [] = t := rfl

@[simp] theorem insertAbsent_cons (t : List α) (r : α) (rows : List α) :
    insertAbsent key t (r :: rows) = insertAbsent key (insertRow key t r) rows := rfl

/-- Two statements one after the other are one statement with the rows of both. -/
theorem insertAbsent_append (t rows rows' : List α) :
    insertAbsent key t (rows ++ rows') = insertAbsent key (insertAbsent key t rows) rows' :=
  List.foldl_append ..

theorem prefix_insertRow (t : List α) (r : α) : t <+: insertRow key t r := by
  unfold insertRow
  split
  · exact List.prefix_rfl
  · exact List.prefix_append t [r]

/-- Rows are only appended: nothing is changed or removed. -/
theorem prefix_insertAbsent (t rows : List α) : t <+: insertAbsent key t rows := by
  induction rows generalizing t with
  | nil => exact List.prefix_rfl
  | cons r rows ih => exact (prefix_insertRow t r).trans (ih _)

/-- What is appended is a part of the given rows. -/
theorem insertAbsent_eq_append (key : α → κ) (t rows : List α) :
    ∃ added, insertAbsent key t rows = t ++ added ∧ added.Sublist rows := by
  induction rows generalizing t with
  | nil => exact ⟨[], by simp, List.Sublist.refl []⟩
  | cons r rows ih =>
    obtain ⟨added, heq, hsub⟩ := ih (insertRow key t r)
    rw [insertAbsent_cons, heq]
    unfold insertRow
    split
    · exact ⟨added, rfl, hsub.cons r⟩
    · exact ⟨r :: added, by simp, hsub.cons_cons r⟩

/-- A row of the result was there before or is one of the given rows. -/
theorem mem_insertAbsent {t rows : List α} {x : α} (h : x ∈ insertAbsent key t rows) :
    x ∈ t ∨ x ∈ rows := by
  induction rows generalizing t with
  | nil => exact .inl h
  | cons r rows ih =>
    rcases ih h with hx | hx
    · unfold insertRow at hx
      split at hx
      · exact .inl hx
      · rcases List.mem_append.mp hx with hx | hx
        · exact .inl hx
        · exact .inr (List.mem_cons.mpr (.inl (List.mem_singleton.mp hx)))
    · exact .inr (List.mem_cons_of_mem r hx)

theorem hasKey_insertRow (t : List α) (r : α) : HasKey key (insertRow key t r) (key r) := by
  unfold insertRow
  split
  · assumption
  · exact ⟨r, by simp, rfl⟩

/-- The key of every given row is in the result. -/
theorem hasKey_insertAbsent {t rows : List α} {r : α} (h : r ∈ rows) :
    HasKey key (insertAbsent key t rows) (key r) := by
  induction rows generalizing t with
  | nil => cases h
  | cons r' rows ih =>
    rcases List.mem_cons.mp h with rfl | h
    · exact (hasKey_insertRow t r).mono (prefix_insertAbsent _ rows)
    · exact ih h

/-- The keys of the result are the keys there were and those of the given rows. -/
theorem hasKey_insertAbsent_iff {t rows : List α} {k : κ} :
    HasKey key (insertAbsent key t rows) k ↔ HasKey key t k ∨ HasKey key rows k := by
  constructor
  · rintro ⟨x, hx, hk⟩
    rcases mem_insertAbsent hx with hx | hx
    · exact .inl ⟨x, hx, hk⟩
    · exact .inr ⟨x, hx, hk⟩
  · rintro (h | ⟨x, hx, rfl⟩)
    · exact h.mono (prefix_insertAbsent t rows)
    · exact hasKey_insertAbsent hx

/-- Nothing is inserted exactly if every given row has a key of the table. -/
theorem insertAbsent_eq_self_iff {t rows : List α} :
    insertAbsent key t rows = t ↔ ∀ r ∈ rows, HasKey key t (key r) := by
  constructor
  · intro h r hr
    have hkey : HasKey key (insertAbsent key t rows) (key r) := hasKey_insertAbsent hr
    rwa [h] at hkey
  · intro h
    induction rows with
    | nil => rfl
    | cons r rows ih =>
      have hr : insertRow key t r = t := if_pos (h r List.mem_cons_self)
      rw [insertAbsent_cons, hr]
      exact ih fun r' hr' => h r' (List.mem_cons_of_mem r hr')

/-- Distinct keys stay distinct. -/
theorem nodup_insertAbsent {t : List α} (h : (t.map key).Nodup) (rows : List α) :
    ((insertAbsent key t rows).map key).Nodup := by
  induction rows generalizing t with
  | nil => exact h
  | cons r rows ih =>
    apply ih
    unfold insertRow
    split
    · exact h
    · next hno =>
      rw [List.map_append, List.map_singleton, List.nodup_append]
      refine ⟨h, List.nodup_singleton _, ?_⟩
      rintro k hk _ hr rfl
      rw [List.mem_singleton] at hr
      obtain ⟨x, hx, hkx⟩ := List.mem_map.mp hk
      exact hno ⟨x, hx, hkx.trans hr⟩

/-! ### `updateKey` -/

/-- Two updates of one key are one update. -/
theorem updateKey_updateKey {k : κ} {f g : α → α} (hf : ∀ x, key (f x) = key x) (t : List α) :
    updateKey key k g (updateKey key k f t) = updateKey key k (fun x => g (f x)) t := by
  unfold updateKey
  rw [List.map_map]
  refine List.map_congr_left fun x _ => ?_
  simp only [Function.comp_apply]
  by_cases hx : key x = k
  · rw [if_pos hx, if_pos ((hf x).trans hx), if_pos hx]
  · rw [if_neg hx, if_neg hx, if_neg hx]

/-- An update keeps the keys. -/
theorem map_key_updateKey {k : κ} {f : α → α} (hf : ∀ x, key (f x) = key x) (t : List α) :
    (updateKey key k f t).map key = t.map key := by
  unfold updateKey
  rw [List.map_map]
  refine List.map_congr_left fun x _ => ?_
  simp only [Function.comp_apply]
  split
  · exact hf x
  · rfl

/-- Only the rows with the key matter. -/
theorem updateKey_congr {k : κ} {f g : α → α} {t : List α}
    (h : ∀ x ∈ t, key x = k → f x = g x) : updateKey key k f t = updateKey key k g t := by
  unfold updateKey
  refine List.map_congr_left fun x hx => ?_
  split
  · next hk => exact h x hx hk
  · rfl

/-- Looking up the updated key finds the updated row. -/
theorem find?_updateKey_self {k : κ} {f : α → α} (hf : ∀ x, key (f x) = key x) (t : List α) :
    (updateKey key k f t).find? (fun x => decide (key x = k)) =
      (t.find? fun x => decide (key x = k)).map f := by
  induction t with
  | nil => rfl
  | cons x t ih =>
    unfold updateKey at ih ⊢
    by_cases hx : key x = k
    · simp [hx, (hf x).trans hx]
    · simp [hx, ih]

/-- Looking up another key finds what it found before. -/
theorem find?_updateKey_of_ne {k k' : κ} {f : α → α} (hf : ∀ x, key (f x) = key x) (h : k' ≠ k)
    (t : List α) :
    (updateKey key k f t).find? (fun x => decide (key x = k')) =
      t.find? fun x => decide (key x = k') := by
  induction t with
  | nil => rfl
  | cons x t ih =>
    unfold updateKey at ih ⊢
    rw [List.map_cons, List.find?_cons, List.find?_cons, ih]
    by_cases hx : key x = k
    · have hne : key x ≠ k' := fun h' => h (h'.symm.trans hx)
      rw [if_pos hx, hf x, decide_eq_false hne]
    · rw [if_neg hx]

end KeyedTable

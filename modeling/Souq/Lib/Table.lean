import Mathlib.Data.List.Basic

/-!
# Keyed tables

A table is the list of its rows and a function that gives each row its key.
-/

namespace Table

open List

universe u v

variable {κ : Type u} {ρ : Type v} [DecidableEq κ] (key : ρ → κ)

def find (rows : List ρ) (k : κ) : Option ρ := rows.find? fun row => key row = k

def upsert (row : ρ) : List ρ → List ρ
  | [] => [row]
  | other :: rows => if key other = key row then row :: rows else other :: upsert row rows

/-- Append a row unless its key is taken. -/
def insertNew (rows : List ρ) (row : ρ) : List ρ :=
  if rows.any fun other => key other = key row then rows else rows ++ [row]

def update (k : κ) (f : ρ → ρ) (rows : List ρ) : List ρ :=
  rows.map fun row => if key row = k then f row else row

variable {key}

@[simp] theorem find_nil (k : κ) : find key [] k = none := rfl

theorem find_upsert (row : ρ) (rows : List ρ) (k : κ) :
    find key (upsert key row rows) k = if key row = k then some row else find key rows k := by
  induction rows with
  | nil => by_cases same : key row = k <;> simp [find, upsert, same]
  | cons other rows ih =>
    unfold find at ih
    by_cases replaced : key other = key row
    · by_cases same : key row = k <;> simp [find, upsert, replaced, same]
    · by_cases same : key other = k
      · have different : key row ≠ k := fun equal => replaced (same.trans equal.symm)
        simp [find, upsert, same, different, Ne.symm different]
      · simp [find, upsert, replaced, same, ih]

variable {rows : List ρ} {row : ρ}

theorem upsert_of_find {k : κ} (found : find key rows k = some row) :
    upsert key row rows = rows := by
  induction rows with
  | nil => cases found
  | cons other rows ih =>
    by_cases same : key other = k
    · obtain rfl : other = row := by simpa [find, same] using found
      simp [upsert]
    · have later : find key rows k = some row := by simpa [find, same] using found
      have named : key row = k := by simpa using find?_some later
      simp [upsert, named, same, ih later]

theorem upsert_upsert {first second : ρ} (same : key first = key second) (rows : List ρ) :
    upsert key second (upsert key first rows) = upsert key second rows := by
  induction rows with
  | nil => simp [upsert, same]
  | cons other rows ih =>
    by_cases replaced : key other = key second <;> simp [upsert, same, replaced, ih]

theorem mem_upsert {other : ρ} (member : other ∈ upsert key row rows) :
    other = row ∨ other ∈ rows := by
  induction rows with
  | nil => exact .inl (mem_singleton.mp member)
  | cons head rows ih =>
    unfold upsert at member
    split at member
    · rcases mem_cons.mp member with first | later
      · exact .inl first
      · exact .inr (mem_cons_of_mem _ later)
    · rcases mem_cons.mp member with first | later
      · exact .inr (first ▸ mem_cons_self)
      · rcases ih later with new | old
        · exact .inl new
        · exact .inr (mem_cons_of_mem _ old)

theorem nodup_upsert (distinct : (rows.map key).Nodup) (row : ρ) :
    ((upsert key row rows).map key).Nodup := by
  induction rows with
  | nil => simp [upsert]
  | cons other rows ih =>
    obtain ⟨fresh, distinct⟩ := nodup_cons.mp distinct
    unfold upsert
    split
    · rename_i same
      exact nodup_cons.mpr ⟨same ▸ fresh, distinct⟩
    · rename_i different
      refine nodup_cons.mpr ⟨fun member => ?_, ih distinct⟩
      obtain ⟨found, member, named⟩ := mem_map.mp member
      rcases mem_upsert member with rfl | member
      · exact different named.symm
      · exact fresh (mem_map.mpr ⟨found, member, named⟩)

/-- A write whose row looks like the row it replaces changes no search for
something else. -/
theorem any_upsert (p : ρ → Bool) (alike : (find key rows (key row)).elim false p = p row) :
    (upsert key row rows).any p = rows.any p := by
  induction rows with
  | nil => simpa [upsert] using alike.symm
  | cons other rows ih =>
    by_cases same : key other = key row
    · have alike : p other = p row := by simpa [find, same] using alike
      simp [upsert, same, alike]
    · have later : find key (other :: rows) (key row) = find key rows (key row) := by
        simp [find, same]
      rw [later] at alike
      simp [upsert, same, ih alike]

theorem mem_of_find {k : κ} (found : find key rows k = some row) :
    row ∈ rows := mem_of_find?_eq_some found

theorem key_of_find {k : κ} (found : find key rows k = some row) :
    key row = k := by
  simpa using find?_some found

theorem find_of_mem (distinct : (rows.map key).Nodup) (member : row ∈ rows) :
    find key rows (key row) = some row := by
  induction rows with
  | nil => cases member
  | cons other rows ih =>
    obtain ⟨fresh, distinct⟩ := nodup_cons.mp distinct
    rcases mem_cons.mp member with rfl | member
    · simp [find]
    · have different : key other ≠ key row := fun same =>
        fresh (same ▸ mem_map_of_mem member)
      simpa [find, different] using ih distinct member

theorem upsert_of_absent (absent : ∀ other ∈ rows, key other ≠ key row) :
    upsert key row rows = rows ++ [row] := by
  induction rows with
  | nil => rfl
  | cons other rows ih =>
    rw [upsert, if_neg (absent other mem_cons_self),
      ih fun later member => absent later (mem_cons_of_mem _ member)]
    rfl

theorem mem_upsert_iff {other : ρ} (distinct : (rows.map key).Nodup) :
    other ∈ upsert key row rows ↔ other = row ∨ other ∈ rows ∧ key other ≠ key row := by
  induction rows with
  | nil => simp [upsert]
  | cons head rows ih =>
    obtain ⟨fresh, distinct⟩ := nodup_cons.mp distinct
    unfold upsert
    by_cases same : key head = key row
    · rw [if_pos same, mem_cons, mem_cons]
      constructor
      · rintro (new | old)
        · exact .inl new
        · refine .inr ⟨.inr old, fun equal => fresh ?_⟩
          exact mem_map.mpr ⟨other, old, equal.trans same.symm⟩
      · rintro (new | ⟨rfl | old, different⟩)
        · exact .inl new
        · exact (different same).elim
        · exact .inr old
    · rw [if_neg same, mem_cons, mem_cons, ih distinct]
      constructor
      · rintro (rfl | new | ⟨old, different⟩)
        · exact .inr ⟨.inl rfl, same⟩
        · exact .inl new
        · exact .inr ⟨.inr old, different⟩
      · rintro (new | ⟨rfl | old, different⟩)
        · exact .inr (.inl new)
        · exact .inl rfl
        · exact .inr (.inr ⟨old, different⟩)

theorem find_eq_head {k : κ} (all : ∀ row ∈ rows, key row = k) :
    find key rows k = rows.head? := by
  cases rows with
  | nil => rfl
  | cons row rows => simp [find, all row mem_cons_self]

theorem head_upsert (all : ∀ other ∈ rows, key other = key row) :
    (upsert key row rows).head? = some row := by
  cases rows with
  | nil => rfl
  | cons other rows => simp [upsert, all other mem_cons_self]

theorem length_upsert (all : ∀ other ∈ rows, key other = key row) (single : rows.length ≤ 1) :
    (upsert key row rows).length ≤ 1 := by
  cases rows with
  | nil => exact Nat.le_refl 1
  | cons other rows => simpa [upsert, all other mem_cons_self] using single

theorem find_foldl_upsert (rows table : List ρ) (k : κ) :
    (find key (rows.foldl (fun table row => upsert key row table) table) k = find key table k ∧
        ∀ row ∈ rows, key row ≠ k) ∨
      ∃ row ∈ rows, key row = k ∧
        find key (rows.foldl (fun table row => upsert key row table) table) k = some row := by
  induction rows generalizing table with
  | nil => exact .inl ⟨rfl, nofun⟩
  | cons row rows ih =>
    rw [foldl_cons]
    rcases ih (upsert key row table) with ⟨kept, others⟩ | ⟨r, member, named, found⟩
    · rw [kept, find_upsert]
      by_cases same : key row = k
      · exact .inr ⟨row, mem_cons_self, same, if_pos same⟩
      · exact .inl ⟨if_neg same, forall_mem_cons.mpr ⟨same, others⟩⟩
    · exact .inr ⟨r, mem_cons_of_mem _ member, named, found⟩

theorem mem_foldl_upsert {table : List ρ}
    (member : row ∈ rows.foldl (fun table row => upsert key row table) table) :
    row ∈ rows ∨ row ∈ table := by
  induction rows generalizing table with
  | nil => exact .inr member
  | cons other rows ih =>
    rcases ih member with later | earlier
    · exact .inl (mem_cons_of_mem _ later)
    · rcases mem_upsert earlier with rfl | old
      · exact .inl mem_cons_self
      · exact .inr old

theorem nodup_foldl_upsert {table : List ρ} (distinct : (table.map key).Nodup) (rows : List ρ) :
    ((rows.foldl (fun table row => upsert key row table) table).map key).Nodup := by
  induction rows generalizing table with
  | nil => exact distinct
  | cons row rows ih => exact ih (nodup_upsert distinct row)

variable (key) in
theorem insertNew_cases (rows : List ρ) (row : ρ) :
    insertNew key rows row = rows ∨ insertNew key rows row = rows ++ [row] := by
  unfold insertNew
  split
  · exact .inl rfl
  · exact .inr rfl

theorem insertNew_of_absent (absent : ∀ other ∈ rows, key other ≠ key row) :
    insertNew key rows row = rows ++ [row] := by
  unfold insertNew
  rw [if_neg]
  intro taken
  obtain ⟨other, member, same⟩ := any_eq_true.mp taken
  exact absent other member (of_decide_eq_true same)

section Update

variable {k : κ} {f : ρ → ρ}

theorem keys_update (same : ∀ row, key (f row) = key row) (rows : List ρ) :
    (update key k f rows).map key = rows.map key := by
  rw [update, map_map]
  refine map_congr_left fun row _ => ?_
  rw [Function.comp_apply]
  split
  · exact same row
  · rfl

theorem update_of_absent (absent : ∀ row ∈ rows, key row ≠ k) :
    update key k f rows = rows := by
  conv_rhs => rw [← map_id rows]
  exact map_congr_left fun row member => if_neg (absent row member)

theorem find_update (same : ∀ row, key (f row) = key row) (rows : List ρ) (other : κ) :
    find key (update key k f rows) other =
      if other = k then (find key rows other).map f else find key rows other := by
  induction rows with
  | nil => simp [find, update]
  | cons row rows ih =>
    unfold find update at ih
    by_cases changed : key row = k
    · by_cases asked : other = k
      · subst asked
        simp [find, update, changed, same]
      · have missed : key row ≠ other := fun equal => asked (equal.symm.trans changed)
        simpa [find, update, changed, same, asked, Ne.symm asked] using ih
    · by_cases asked : key row = other
      · have kept : other ≠ k := fun equal => changed (asked.trans equal)
        simp [find, update, asked, kept]
      · simpa [find, update, changed, asked] using ih

theorem countP_update (p : ρ → Bool) (distinct : (rows.map key).Nodup)
    (found : find key rows k = some row) :
    (update key k f rows).countP p + (if p row then 1 else 0) =
      rows.countP p + if p (f row) then 1 else 0 := by
  induction rows with
  | nil => cases found
  | cons head rows ih =>
    obtain ⟨fresh, distinct⟩ := nodup_cons.mp distinct
    by_cases same : key head = k
    · obtain rfl : head = row := by simpa [find, same] using found
      have rest : update key k f rows = rows := update_of_absent fun other member equal =>
        fresh (mem_map.mpr ⟨other, member, equal.trans same.symm⟩)
      have changed : update key k f (head :: rows) = f head :: rows := by
        rw [update, map_cons, if_pos same]
        exact congrArg _ rest
      rw [changed, countP_cons, countP_cons]
      omega
    · have later : find key rows k = some row := by simpa [find, same] using found
      have kept : update key k f (head :: rows) = head :: update key k f rows := by
        rw [update, map_cons, if_neg same]
        rfl
      rw [kept, countP_cons, countP_cons]
      have := ih distinct later
      omega

end Update

end Table

import Mathlib.Data.List.Induction
import Mathlib.Data.List.Sort
import Mathlib.Data.String.Basic

/-!
# Ordered tables

A map as a list of entries with increasing keys.

* `get?_insert`, `get?_modify`: what a key holds after an update;
* `get?_fill`: what it holds after a list of updates;
* `mem_values`: the values are what the keys hold.
-/

/-- a map with ordered keys -/
structure Table (κ ν : Type) [LinearOrder κ] where
  entries : List (κ × ν)
  sorted : entries.Pairwise fun a b => a.1 < b.1

namespace Table

variable {κ ν : Type} [LinearOrder κ]

def empty : Table κ ν := ⟨[], List.Pairwise.nil⟩

def get? (t : Table κ ν) (key : κ) : Option ν := (t.entries.find? fun e => e.1 == key).map (·.2)

def values (t : Table κ ν) : List ν := t.entries.map (·.2)

/-- put a value at its place, in place of an older one -/
def insertEntry (key : κ) (value : ν) : List (κ × ν) → List (κ × ν)
  | [] => [(key, value)]
  | e :: rest =>
    if key < e.1 then (key, value) :: e :: rest
    else if e.1 = key then (key, value) :: rest
    else e :: insertEntry key value rest

section
variable {key k : κ} {value v : ν} {l : List (κ × ν)} {e : κ × ν}

theorem mem_insertEntry (h : e ∈ insertEntry key value l) : e = (key, value) ∨ e ∈ l := by
  induction l with
  | nil => exact Or.inl (List.mem_singleton.mp h)
  | cons a l ih =>
    rw [insertEntry] at h
    split at h
    · exact List.mem_cons.mp h
    split at h
    · rcases List.mem_cons.mp h with h | h
      · exact Or.inl h
      · exact Or.inr (List.mem_cons_of_mem _ h)
    · rcases List.mem_cons.mp h with rfl | h
      · exact Or.inr List.mem_cons_self
      · exact (ih h).imp_right (List.mem_cons_of_mem _)

theorem sorted_insertEntry (h : l.Pairwise fun a b => a.1 < b.1) :
    (insertEntry key value l).Pairwise fun a b => a.1 < b.1 := by
  induction l with
  | nil => exact List.pairwise_singleton _ _
  | cons a l ih =>
    obtain ⟨ha, hl⟩ := List.pairwise_cons.mp h
    rw [insertEntry]
    split
    · rename_i hlt
      refine List.pairwise_cons.mpr ⟨fun b hb => ?_, h⟩
      rcases List.mem_cons.mp hb with rfl | hb
      · exact hlt
      · exact hlt.trans (ha b hb)
    rename_i hlt
    split
    · rename_i heq
      exact List.pairwise_cons.mpr ⟨fun b hb => heq ▸ ha b hb, hl⟩
    · rename_i hne
      refine List.pairwise_cons.mpr ⟨fun b hb => ?_, ih hl⟩
      rcases mem_insertEntry hb with rfl | hb
      · exact lt_of_le_of_ne (not_lt.mp hlt) hne
      · exact ha b hb

theorem find?_insertEntry : (insertEntry key value l).find? (fun e => e.1 == k) =
    if k = key then some (key, value) else l.find? fun e => e.1 == k := by
  induction l with
  | nil =>
    by_cases hk : k = key
    · simp [insertEntry, hk]
    · simp [insertEntry, hk, Ne.symm hk]
  | cons a l ih =>
    rw [insertEntry]
    by_cases hk : k = key
    · rw [if_pos hk]
      split
      · simp [hk]
      split
      · simp [hk]
      · rename_i hne
        rw [List.find?_cons_of_neg (by simp [hk, hne]), ih, if_pos hk]
    · rw [if_neg hk]
      split
      · rw [List.find?_cons_of_neg (by simp [Ne.symm hk])]
      split
      · rename_i heq
        rw [List.find?_cons_of_neg (by simp [Ne.symm hk]),
          List.find?_cons_of_neg (by simp [heq, Ne.symm hk])]
      · by_cases ha : a.1 = k
        · rw [List.find?_cons_of_pos (by simp [ha]), List.find?_cons_of_pos (by simp [ha])]
        · rw [List.find?_cons_of_neg (by simp [ha]), List.find?_cons_of_neg (by simp [ha]), ih,
            if_neg hk]

end

/-- `BTreeMap::insert` -/
def insert (t : Table κ ν) (key : κ) (value : ν) : Table κ ν :=
  ⟨insertEntry key value t.entries, sorted_insertEntry t.sorted⟩

/-- change what a key holds, if it holds something -/
def modify (t : Table κ ν) (key : κ) (f : ν → ν) : Table κ ν :=
  ⟨t.entries.map fun e => (e.1, if e.1 = key then f e.2 else e.2), List.pairwise_map.mpr t.sorted⟩

/-- change all values -/
def mapValues (t : Table κ ν) (f : ν → ν) : Table κ ν :=
  ⟨t.entries.map fun e => (e.1, f e.2), List.pairwise_map.mpr t.sorted⟩

/-- `BTreeMap::remove` -/
def erase (t : Table κ ν) (key : κ) : Table κ ν :=
  ⟨t.entries.filter fun e => e.1 ≠ key, t.sorted.sublist List.filter_sublist⟩

section
variable {t : Table κ ν} {key k : κ} {value v : ν} {f : ν → ν}

@[simp] theorem get?_empty : (empty : Table κ ν).get? k = none := rfl

theorem get?_insert : (t.insert key value).get? k = if k = key then some value else t.get? k := by
  rw [get?, insert, find?_insertEntry]
  split
  · rfl
  · rfl

theorem get?_erase : (t.erase key).get? k = if k = key then none else t.get? k := by
  rw [get?, erase, List.find?_filter]
  by_cases hk : k = key
  · rw [if_pos hk, Option.map_eq_none_iff, List.find?_eq_none]
    intro e _
    simp [hk]
  · rw [if_neg hk, get?]
    congr 2
    funext e
    by_cases he : e.1 = k
    · simp [he, hk]
    · simp [he]

theorem get?_modify : (t.modify key f).get? k = if k = key then (t.get? k).map f else t.get? k := by
  have hfind : (t.entries.map fun e => (e.1, if e.1 = key then f e.2 else e.2)).find?
      (fun e => e.1 == k) =
        (t.entries.find? fun e => e.1 == k).map fun e => (e.1, if e.1 = key then f e.2 else e.2) := by
    rw [List.find?_map]
    rfl
  rw [get?, modify, hfind, get?]
  cases hk : t.entries.find? fun e => e.1 == k with
  | none => simp
  | some e =>
    have he : e.1 = k := by simpa using List.find?_some hk
    rw [← he]
    by_cases hkey : e.1 = key
    · simp [hkey]
    · simp [hkey]

theorem get?_mapValues : (t.mapValues f).get? k = (t.get? k).map f := by
  have hfind : (t.entries.map fun e => (e.1, f e.2)).find? (fun e => e.1 == k) =
      (t.entries.find? fun e => e.1 == k).map fun e => (e.1, f e.2) := by
    rw [List.find?_map]
    rfl
  rw [get?, mapValues, hfind, get?, Option.map_map, Option.map_map]
  rfl

theorem mem_keys_insert : k ∈ (t.insert key value).entries.map (·.1) ↔
    k = key ∨ k ∈ t.entries.map (·.1) := by
  have hmem (t : Table κ ν) : k ∈ t.entries.map (·.1) ↔ (t.get? k).isSome := by
    rw [get?, Option.isSome_map, List.find?_isSome, List.mem_map]
    simp only [beq_iff_eq]
  rw [hmem, hmem, get?_insert]
  by_cases hk : k = key
  · simp [hk]
  · simp [hk]

theorem mem_entries : (k, v) ∈ t.entries ↔ t.get? k = some v := by
  constructor
  · intro he
    cases hfind : t.entries.find? fun e' => e'.1 == k with
    | none => exact absurd (beq_self_eq_true k) (List.find?_eq_none.mp hfind _ he)
    | some e' =>
      have hkey : e'.1 = k := by simpa using List.find?_some hfind
      have hnodup : (t.entries.map (·.1)).Nodup :=
        List.pairwise_map.mpr (t.sorted.imp fun h => ne_of_lt h)
      have hsame := List.inj_on_of_nodup_map hnodup (List.mem_of_find?_eq_some hfind) he hkey
      rw [get?, hfind, hsame]
      rfl
  · intro hk
    obtain ⟨e, he, rfl⟩ := Option.map_eq_some_iff.mp hk
    have hkey : e.1 = k := by simpa using List.find?_some he
    rw [← hkey]
    exact List.mem_of_find?_eq_some he

theorem mem_values : v ∈ t.values ↔ ∃ k, t.get? k = some v := by
  constructor
  · intro h
    obtain ⟨e, he, rfl⟩ := List.mem_map.mp h
    exact ⟨e.1, mem_entries.mp he⟩
  · rintro ⟨k, hk⟩
    exact List.mem_map.mpr ⟨(k, v), mem_entries.mpr hk, rfl⟩

theorem get?_fillWith {α : Type} (items : List α) (name : α → κ) (value : α → ν) :
    (items.foldl (fun t a => t.insert (name a) (value a)) t).get? k =
      ((items.filter fun a => name a == k).getLast?.map value).or (t.get? k) := by
  induction items using List.reverseRecOn with
  | nil => rfl
  | append_singleton items a ih =>
    rw [List.foldl_concat, get?_insert, List.filter_append, List.filter_singleton]
    by_cases hk : k = name a
    · rw [if_pos hk, hk, beq_self_eq_true, cond_true, List.getLast?_append]
      rfl
    · rw [if_neg hk, ih, beq_false_of_ne (Ne.symm hk), cond_false, List.append_nil]

theorem get?_fill (values : List ν) (name : ν → κ) :
    (values.foldl (fun t v => t.insert (name v) v) t).get? k =
      ((values.filter fun v => name v == k).getLast?).or (t.get? k) := by
  have h := @get?_fillWith κ ν _ t k ν values name id
  rwa [Option.map_id_fun, id] at h

end

end Table

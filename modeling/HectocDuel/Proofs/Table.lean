/-
  Tables as lists of entries: membership, order of entry and size.

  * `get?_eq_some_iff` ties looking up to the entries;
  * `entries_insert` and `size_erase`: a new key is entered at the end, and the
    removal of a key makes the table smaller by one;
  * `erase_of_get?_eq_none`: the removal of a key that is not there changes nothing.
-/
import HectocDuel.Table
import Mathlib.Data.List.Nodup

namespace HectocDuel.Table

variable {κ ν : Type} [DecidableEq κ]

theorem lookup_eq_some_iff {entries : List (κ × ν)} (hd : (entries.map Prod.fst).Nodup) {k : κ}
    {v : ν} : entries.lookup k = some v ↔ (k, v) ∈ entries := by
  induction entries with
  | nil => simp
  | cons e es ih =>
    obtain ⟨k', v'⟩ := e
    obtain ⟨hk', hes⟩ := List.nodup_cons.1 hd
    rw [lookup_entry, List.mem_cons, ← ih hes]
    by_cases h : k = k'
    · subst h
      -- The key stands nowhere else, so only the first entry counts.
      have hn : es.lookup k ≠ some v := fun hs =>
        hk' (List.mem_map.2 ⟨(k, v), (ih hes).1 hs, rfl⟩)
      simp [hn, eq_comm]
    · simp [h]

theorem get?_eq_some_iff (t : Table κ ν) {k : κ} {v : ν} :
    t.get? k = some v ↔ (k, v) ∈ t.entries :=
  lookup_eq_some_iff t.nodup_keys

theorem get?_eq_none_iff (t : Table κ ν) {k : κ} : t.get? k = none ↔ k ∉ t.keys := by
  rw [get?, List.lookup_eq_none_iff, keys, List.mem_map]
  constructor
  · rintro h ⟨e, he, rfl⟩
    exact absurd (h e he) (by simp)
  · intro h e he
    exact bne_iff_ne.2 fun hk => h ⟨e, he, hk.symm⟩

theorem put_of_notMem {entries : List (κ × ν)} {k : κ} (h : k ∉ entries.map Prod.fst) (v : ν) :
    put entries k v = entries ++ [(k, v)] := by
  induction entries with
  | nil => rfl
  | cons e es ih =>
    rw [List.map_cons, List.mem_cons, not_or] at h
    rw [put, if_neg fun hk => h.1 hk.symm, ih h.2, List.cons_append]

theorem entries_insert (t : Table κ ν) {k : κ} (h : t.get? k = none) (v : ν) :
    (t.insert k v).entries = t.entries ++ [(k, v)] :=
  put_of_notMem (t.get?_eq_none_iff.1 h) v

theorem size_insert (t : Table κ ν) {k : κ} (h : t.get? k = none) (v : ν) :
    (t.insert k v).size = t.size + 1 := by
  rw [size, entries_insert t h, List.length_append, List.length_singleton, size]

theorem size_erase (t : Table κ ν) {k : κ} {v : ν} (h : t.get? k = some v) :
    (t.erase k).size + 1 = t.size := by
  have hk : k ∈ t.keys := List.mem_map.2 ⟨(k, v), t.get?_eq_some_iff.1 h, rfl⟩
  have he : (t.erase k).keys = t.keys.erase k := by
    have hd : t.keys.Nodup := t.nodup_keys
    rw [hd.erase_eq_filter, keys, keys, erase, List.filter_map]
    congr 1
    exact List.filter_congr fun e _ => by simp [bne, beq_eq_decide]
  have hs : ∀ u : Table κ ν, u.size = u.keys.length := fun u => by simp [size, keys]
  rw [hs, he, List.length_erase_of_mem hk, hs,
    Nat.sub_add_cancel (List.length_pos_of_mem hk)]

theorem erase_of_get?_eq_none (t : Table κ ν) {k : κ} (h : t.get? k = none) : t.erase k = t := by
  have hk := t.get?_eq_none_iff.1 h
  obtain ⟨entries, _⟩ := t
  simp only [erase, mk.injEq, List.filter_eq_self]
  intro e he
  exact decide_eq_true fun heq => hk (List.mem_map.2 ⟨e, he, heq⟩)

end HectocDuel.Table

/-
  Tables: finite maps that keep the order in which keys were entered.

  * `get?`, `insert` and `erase` look up, enter and remove a key;
  * `get?_insert` and `get?_erase` say what they do to every key.
-/

namespace HectocDuel

/-- A finite map from keys to values. -/
structure Table (κ ν : Type) where
  entries : List (κ × ν)
  /-- No key is entered twice. -/
  nodup_keys : (entries.map Prod.fst).Nodup

namespace Table

variable {κ ν : Type}

/-- The table without entries. -/
def empty : Table κ ν :=
  ⟨[], List.nodup_nil⟩

instance : Inhabited (Table κ ν) :=
  ⟨empty⟩

/-- The keys, in the order in which they were entered. -/
def keys (t : Table κ ν) : List κ :=
  t.entries.map Prod.fst

/-- The values, in the order in which their keys were entered. -/
def values (t : Table κ ν) : List ν :=
  t.entries.map Prod.snd

/-- The number of entries. -/
def size (t : Table κ ν) : Nat :=
  t.entries.length

variable [DecidableEq κ]

/-- The value at a key. -/
def get? (t : Table κ ν) (k : κ) : Option ν :=
  t.entries.lookup k

/-- Whether a key is entered. -/
def contains (t : Table κ ν) (k : κ) : Bool :=
  (t.get? k).isSome

/-- The entries after a value is put at a key: in place of the value there, or at
    the end. -/
def put (entries : List (κ × ν)) (k : κ) (v : ν) : List (κ × ν) :=
  match entries with
  | [] => [(k, v)]
  | (k', v') :: es => if k' = k then (k, v) :: es else (k', v') :: put es k v

theorem mem_keys_put {entries : List (κ × ν)} {k x : κ} {v : ν} :
    x ∈ (put entries k v).map Prod.fst ↔ x = k ∨ x ∈ entries.map Prod.fst := by
  induction entries with
  | nil => simp [put]
  | cons e es ih =>
    obtain ⟨k', v'⟩ := e
    rw [put]
    split
    · next h => simp [h]
    · simp only [List.map_cons, List.mem_cons, ih]
      constructor
      · rintro (h | h | h)
        · exact .inr (.inl h)
        · exact .inl h
        · exact .inr (.inr h)
      · rintro (h | h | h)
        · exact .inr (.inl h)
        · exact .inl h
        · exact .inr (.inr h)

theorem nodup_put {entries : List (κ × ν)} {k : κ} {v : ν}
    (h : (entries.map Prod.fst).Nodup) : ((put entries k v).map Prod.fst).Nodup := by
  induction entries with
  | nil => simp [put]
  | cons e es ih =>
    obtain ⟨k', v'⟩ := e
    rw [List.map_cons, List.nodup_cons] at h
    rw [put]
    split
    · next hk =>
      rw [List.map_cons, List.nodup_cons]
      exact hk ▸ h
    · next hk =>
      rw [List.map_cons, List.nodup_cons, mem_keys_put]
      exact ⟨fun hm => hm.elim hk h.1, ih h.2⟩

/-- Puts a value at a key. -/
def insert (t : Table κ ν) (k : κ) (v : ν) : Table κ ν :=
  ⟨put t.entries k v, nodup_put t.nodup_keys⟩

/-- Removes a key. -/
def erase (t : Table κ ν) (k : κ) : Table κ ν :=
  ⟨t.entries.filter (·.1 ≠ k), t.nodup_keys.sublist (List.filter_sublist.map _)⟩

/-! ## Looking up -/

@[simp] theorem get?_empty (k : κ) : (empty : Table κ ν).get? k = none :=
  rfl

theorem lookup_entry (entries : List (κ × ν)) (k x : κ) (v : ν) :
    ((k, v) :: entries).lookup x = if x = k then some v else entries.lookup x := by
  rw [List.lookup_cons]
  by_cases h : x = k
  · rw [if_pos h, beq_iff_eq.2 h]
  · rw [if_neg h, beq_eq_false_iff_ne.2 h]

theorem lookup_put (entries : List (κ × ν)) (k x : κ) (v : ν) :
    (put entries k v).lookup x = if x = k then some v else entries.lookup x := by
  induction entries with
  | nil => exact lookup_entry [] k x v
  | cons e es ih =>
    obtain ⟨k', v'⟩ := e
    rw [put]
    split
    · next hk =>
      subst hk
      by_cases h : x = k' <;> simp [lookup_entry, h]
    · next hk =>
      rw [lookup_entry, lookup_entry, ih]
      by_cases h : x = k'
      · subst h
        simp [hk]
      · simp [h]

/-- A value put at a key is found there, and all other keys keep theirs. -/
theorem get?_insert (t : Table κ ν) (k x : κ) (v : ν) :
    (t.insert k v).get? x = if x = k then some v else t.get? x :=
  lookup_put t.entries k x v

theorem lookup_filter (entries : List (κ × ν)) (k x : κ) :
    (entries.filter (·.1 ≠ k)).lookup x = if x = k then none else entries.lookup x := by
  induction entries with
  | nil => simp
  | cons e es ih =>
    obtain ⟨k', v'⟩ := e
    by_cases hk : k' = k
    · subst hk
      rw [List.filter_cons_of_neg (by simp), ih, lookup_entry]
      by_cases h : x = k' <;> simp [h]
    · rw [List.filter_cons_of_pos (by simpa using hk), lookup_entry, lookup_entry, ih]
      by_cases h : x = k'
      · subst h
        simp [hk]
      · simp [h]

/-- A key that was removed has no value, and all other keys keep theirs. -/
theorem get?_erase (t : Table κ ν) (k x : κ) :
    (t.erase k).get? x = if x = k then none else t.get? x :=
  lookup_filter t.entries k x

end Table

end HectocDuel

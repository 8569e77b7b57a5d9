/-!
# Tables keyed by text

A table is a list of entries, ascending by key with each key once. Keys compare by their code
points, which is also the order of their bytes. `put` replaces the entry of a key or adds one at
its place, so a table does not show in which order it was filled.

    get? key (put key value t) = some value                      (get?_put_self)
    k ≠ key → get? k (put key value t) = get? k t                (get?_put_of_ne)
    Ascending t → Ascending (put key value t)                    (ascending_put)
-/

namespace PriceFeed

/-- Entries, ascending by key. -/
abbrev Keyed (α : Type) := List (String × α)

namespace Keyed

variable {α : Type}

/-- The keys ascend strictly. -/
def Ascending (t : Keyed α) : Prop := t.Pairwise fun a b => a.1 < b.1

/-- The value at `key`. -/
def get? (key : String) : Keyed α → Option α
  | [] => none
  | (k, v) :: rest => if k = key then some v else get? key rest

/-- The table with `value` at `key`. -/
def put (key : String) (value : α) : Keyed α → Keyed α
  | [] => [(key, value)]
  | (k, v) :: rest =>
    if key < k then (key, value) :: (k, v) :: rest
    else if key = k then (key, value) :: rest
    else (k, v) :: put key value rest

/-- The table of a list of entries; of two with one key the later counts. -/
def ofList (entries : List (String × α)) : Keyed α :=
  entries.foldl (fun t e => put e.1 e.2 t) []

/-! ## Lemmas -/

@[simp] theorem get?_put_self (key : String) (value : α) (t : Keyed α) :
    get? key (put key value t) = some value := by
  induction t with
  | nil => simp [put, get?]
  | cons e rest ih =>
    obtain ⟨k, v⟩ := e
    simp only [put]
    split
    · simp [get?]
    · split
      · simp [get?]
      · next h => simp [get?, Ne.symm h, ih]

theorem get?_put_of_ne {k key : String} (h : k ≠ key) (value : α) (t : Keyed α) :
    get? k (put key value t) = get? k t := by
  induction t with
  | nil => simp [put, get?, Ne.symm h]
  | cons e rest ih =>
    obtain ⟨k', v⟩ := e
    simp only [put]
    split
    · simp [get?, Ne.symm h]
    · split
      · next heq => subst heq; simp [get?, Ne.symm h]
      · simp only [get?, ih]

theorem mem_put_self (key : String) (value : α) (t : Keyed α) : (key, value) ∈ put key value t := by
  induction t with
  | nil => exact List.mem_cons_self
  | cons e rest ih =>
    obtain ⟨k, v⟩ := e
    simp only [put]
    split
    · exact List.mem_cons_self
    · split
      · exact List.mem_cons_self
      · exact List.mem_cons_of_mem _ ih

theorem mem_put {key : String} {value : α} {t : Keyed α} {e : String × α}
    (h : e ∈ put key value t) : e = (key, value) ∨ e ∈ t := by
  induction t with
  | nil => simpa [put] using h
  | cons e' rest ih =>
    obtain ⟨k, v⟩ := e'
    simp only [put] at h
    split at h
    · simpa using h
    · split at h
      · rcases List.mem_cons.1 h with h | h
        · exact .inl h
        · exact .inr (List.mem_cons_of_mem _ h)
      · rcases List.mem_cons.1 h with h | h
        · exact .inr (h ▸ List.mem_cons_self)
        · exact (ih h).imp_right (List.mem_cons_of_mem _)

theorem ascending_put {t : Keyed α} (h : Ascending t) (key : String) (value : α) :
    Ascending (put key value t) := by
  induction t with
  | nil => simp [Ascending, put]
  | cons e rest ih =>
    obtain ⟨k, v⟩ := e
    have hk := List.pairwise_cons.1 h
    simp only [put]
    split
    · next hlt =>
      refine List.pairwise_cons.2 ⟨fun b hb => ?_, h⟩
      rcases List.mem_cons.1 hb with rfl | hb
      · exact hlt
      · exact String.lt_trans hlt (hk.1 b hb)
    · split
      · next heq => subst heq; exact List.pairwise_cons.2 ⟨hk.1, hk.2⟩
      · next hlt hne =>
        refine List.pairwise_cons.2 ⟨fun b hb => ?_, ih hk.2⟩
        rcases mem_put hb with rfl | hb
        · exact Std.lt_of_le_of_ne (String.not_lt.1 hlt) (Ne.symm hne)
        · exact hk.1 b hb

end Keyed

end PriceFeed

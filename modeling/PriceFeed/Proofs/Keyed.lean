import Mathlib.Data.List.Induction
import PriceFeed.Keyed

/-!
# How tables are filled

A value is put into a table at one place, whatever the value. A table of a list of entries holds for
each key the last of them, and a list that ascends already is its own table.

    put key v t = before ++ (key, v) :: after                                 (exists_put_eq)
    Ascending t → ofList t = t                                               (ofList_eq_self)
    a table does not show in which order it was filled                    (ofList_eq_of_perm)
    the last entry of a key is what a table holds                  (get?_ofList_eq_some, _eq_none)
-/

namespace PriceFeed.Keyed

variable {α : Type}

theorem put_put (key : String) (v w : α) (t : Keyed α) : put key w (put key v t) = put key w t := by
  induction t with
  | nil => simp [put]
  | cons e rest ih =>
    obtain ⟨k, u⟩ := e
    simp only [put]
    split
    · simp [put]
    · next hlt =>
      split
      · simp [put]
      · next hne => simp only [put, if_neg hlt, if_neg hne, ih]

/-- A value is put between entries of other keys. -/
theorem exists_put_eq {t : Keyed α} (h : Ascending t) (key : String) :
    ∃ before after, (∀ value, put key value t = before ++ (key, value) :: after) ∧
      ∀ e ∈ before ++ after, e ∈ t ∧ e.1 ≠ key := by
  induction t with
  | nil => exact ⟨[], [], fun _ => rfl, nofun⟩
  | cons e rest ih =>
    obtain ⟨k, u⟩ := e
    have hk := List.pairwise_cons.1 h
    by_cases hlt : key < k
    · refine ⟨[], (k, u) :: rest, fun value => if_pos hlt, fun e he => ⟨he, ?_⟩⟩
      rcases List.mem_cons.1 he with rfl | he
      · exact (String.ne_of_lt hlt).symm
      · exact (String.ne_of_lt (String.lt_trans hlt (hk.1 e he))).symm
    · by_cases heq : key = k
      · subst heq
        refine ⟨[], rest, fun value => ?_, fun e he => ⟨List.mem_cons_of_mem _ he, ?_⟩⟩
        · rw [put, if_neg hlt, if_pos rfl, List.nil_append]
        · exact (String.ne_of_lt (hk.1 e he)).symm
      · obtain ⟨before, after, hput, hother⟩ := ih hk.2
        refine ⟨(k, u) :: before, after, fun value => ?_, fun e he => ?_⟩
        · rw [put, if_neg hlt, if_neg heq, hput, List.cons_append]
        · rcases List.mem_cons.1 he with rfl | he
          · exact ⟨List.mem_cons_self, Ne.symm heq⟩
          · exact (hother e he).imp_left (List.mem_cons_of_mem _)

/-- A value of a new key is one entry more. -/
theorem put_perm {key : String} {t : Keyed α} (h : ∀ e ∈ t, e.1 ≠ key) (value : α) :
    (t.put key value).Perm ((key, value) :: t) := by
  induction t with
  | nil => exact .refl _
  | cons e rest ih =>
    obtain ⟨k, v⟩ := e
    have hne : key ≠ k := (h _ List.mem_cons_self).symm
    have hrest := ih fun e he => h e (List.mem_cons_of_mem _ he)
    simp only [put, if_neg hne]
    split
    · exact .refl _
    · exact (hrest.cons _).trans (.swap ..)

/-! ## Tables of lists -/

theorem ofList_concat (l : List (String × α)) (e : String × α) :
    ofList (l ++ [e]) = put e.1 e.2 (ofList l) := List.foldl_append

theorem ascending_ofList (l : List (String × α)) : Ascending (ofList l) := by
  induction l using List.reverseRecOn with
  | nil => exact List.Pairwise.nil
  | append_singleton l e ih =>
    rw [ofList_concat]
    exact ascending_put ih ..

/-- A key beyond all others is put at the end. -/
theorem put_of_lt {t : Keyed α} {key : String} (h : ∀ e ∈ t, e.1 < key) (value : α) :
    put key value t = t ++ [(key, value)] := by
  induction t with
  | nil => rfl
  | cons e rest ih =>
    obtain ⟨k, v⟩ := e
    have hk : k < key := h _ List.mem_cons_self
    rw [put, if_neg (String.lt_asymm hk), if_neg (String.ne_of_lt hk).symm,
      ih fun x hx => h x (List.mem_cons_of_mem _ hx), List.cons_append]

theorem ofList_eq_self {t : Keyed α} (h : Ascending t) : ofList t = t := by
  induction t using List.reverseRecOn with
  | nil => rfl
  | append_singleton t e ih =>
    obtain ⟨ht, -, hlast⟩ := List.pairwise_append.1 h
    rw [ofList_concat, ih ht, put_of_lt fun x hx => hlast x hx e List.mem_cons_self]

/-- Entries with distinct keys are all in the table. -/
theorem ofList_perm {l : List (String × α)} (h : (l.map (·.1)).Nodup) : (ofList l).Perm l := by
  induction l using List.reverseRecOn with
  | nil => exact .refl _
  | append_singleton l e ih =>
    rw [List.map_append, List.nodup_append] at h
    obtain ⟨hl, -, hapart⟩ := h
    have hnew : ∀ x ∈ ofList l, x.1 ≠ e.1 := fun x hx =>
      hapart x.1 (List.mem_map_of_mem ((ih hl).subset hx)) e.1 List.mem_cons_self
    rw [ofList_concat]
    exact (put_perm hnew e.2).trans (((ih hl).cons e).trans (List.perm_append_singleton e l).symm)

/-- The table of a list in another order is the list in the order of its keys. -/
theorem ofList_eq_of_perm {l t : Keyed α} (ht : (t.map (·.1)).Pairwise (· < ·)) (hp : l.Perm t) :
    ofList l = t := by
  have hnodup : (l.map (·.1)).Nodup := (hp.map _).nodup_iff.2 (ht.imp String.ne_of_lt)
  refine ((ofList_perm hnodup).trans hp).eq_of_pairwise (fun a b _ _ hab hba => ?_)
    (ascending_ofList l) (List.pairwise_map.1 ht)
  exact absurd hba (String.lt_asymm hab)

/-- A key that no entry has is not in the table. -/
theorem get?_ofList_eq_none {l : List (String × α)} {key : String} (h : ∀ e ∈ l, e.1 ≠ key) :
    get? key (ofList l) = none := by
  induction l using List.reverseRecOn with
  | nil => rfl
  | append_singleton l e ih =>
    rw [ofList_concat, get?_put_of_ne (h e (List.mem_append_right _ List.mem_cons_self)).symm]
    exact ih fun x hx => h x (List.mem_append_left _ hx)

/-- A key for which all entries agree has their value in the table. -/
theorem get?_ofList_eq_some {l : List (String × α)} {key : String} {value : α}
    (hmem : (key, value) ∈ l) (h : ∀ e ∈ l, e.1 = key → e.2 = value) :
    get? key (ofList l) = some value := by
  induction l using List.reverseRecOn with
  | nil => cases hmem
  | append_singleton l e ih =>
    rw [ofList_concat]
    by_cases he : e.1 = key
    · rw [he, get?_put_self, h e (List.mem_append_right _ List.mem_cons_self) he]
    · have hbefore : (key, value) ∈ l := by
        rcases List.mem_append.1 hmem with hl | hlast
        · exact hl
        · rw [← List.mem_singleton.1 hlast] at he
          exact absurd rfl he
      rw [get?_put_of_ne (Ne.symm he)]
      exact ih hbefore fun x hx => h x (List.mem_append_left _ hx)

end PriceFeed.Keyed

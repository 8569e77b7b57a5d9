import Mathlib.Data.List.Nodup

/-!
# Lists with distinct keys

Books, sessions and subscriptions are kept in lists in which no two elements share a key. Such a
list has at most one element for a key, and looking the key up finds it.

    find? (key · = k) l = some a ↔ a ∈ l ∧ key a = k                       (find?_key_eq_some_iff)
    a ∈ l → filter (key · = key a) l = [a]                                 (filter_key_of_mem)
-/

namespace PriceFeed

variable {α κ : Type} [DecidableEq κ] {key : α → κ} {l : List α}

theorem find?_key_eq_some_iff (hn : (l.map key).Nodup) {k : κ} {a : α} :
    l.find? (fun x => key x = k) = some a ↔ a ∈ l ∧ key a = k := by
  constructor
  · intro h
    exact ⟨List.mem_of_find?_eq_some h, by simpa using List.find?_some h⟩
  · rintro ⟨ha, rfl⟩
    have hsome : (l.find? fun x => key x = key a).isSome := List.find?_isSome.2 ⟨a, ha, by simp⟩
    obtain ⟨b, hb⟩ := Option.isSome_iff_exists.1 hsome
    have hkey : key b = key a := by simpa using List.find?_some hb
    rw [hb, List.inj_on_of_nodup_map hn (List.mem_of_find?_eq_some hb) ha hkey]

theorem filter_key_of_mem (hn : (l.map key).Nodup) {a : α} (ha : a ∈ l) :
    l.filter (fun x => key x = key a) = [a] := by
  induction l with
  | nil => cases ha
  | cons b rest ih =>
    rw [List.map_cons, List.nodup_cons] at hn
    rcases List.mem_cons.1 ha with rfl | ha
    · have hrest : rest.filter (fun x => key x = key a) = [] := by
        rw [List.filter_eq_nil_iff]
        intro x hx he
        exact hn.1 (List.mem_map.2 ⟨x, hx, of_decide_eq_true he⟩)
      rw [List.filter_cons_of_pos (by simp), hrest]
    · have hne : key b ≠ key a := fun he => hn.1 (he ▸ List.mem_map_of_mem ha)
      rw [List.filter_cons_of_neg (by simpa using hne), ih hn.2 ha]

end PriceFeed

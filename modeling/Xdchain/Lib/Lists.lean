import Mathlib.Data.List.Perm.Basic

/-! # Removing the first match from a list

`eraseP` removes the first element a test picks, the one `find?` returns,
so the list is that element and what is left in some order. When the test
picks the elements of one key and no key repeats, nothing the test picks is
left. -/

namespace Xdchain.Lib.Lists

variable {α β : Type}

/-- The element `find?` picks is the one `eraseP` removes. -/
theorem perm_cons_eraseP_of_find? {p : α → Bool} :
    ∀ {l : List α} {v : α}, l.find? p = some v → l.Perm (v :: l.eraseP p)
  | x :: l, v, h => by
    by_cases hx : p x
    · rw [List.find?_cons_of_pos hx] at h
      cases h
      rw [List.eraseP_cons_of_pos hx]
    · rw [List.find?_cons_of_neg hx] at h
      rw [List.eraseP_cons_of_neg hx]
      exact ((perm_cons_eraseP_of_find? h).cons x).trans (List.Perm.swap v x _)

/-- Where `p` picks elements of one key and keys do not repeat, `eraseP`
removes the only element `p` picks. -/
theorem not_of_mem_eraseP {p : α → Bool} {f : α → β} (hp : ∀ x y, p x → p y → f x = f y) :
    ∀ {l : List α}, (l.map f).Nodup → ∀ w ∈ l.eraseP p, ¬ p w
  | [], _, w, hw => by simp at hw
  | x :: l, hl, w, hw => by
    rw [List.map_cons, List.nodup_cons] at hl
    by_cases hx : p x
    · rw [List.eraseP_cons_of_pos hx] at hw
      intro hw'
      exact hl.1 (hp w x hw' hx ▸ List.mem_map_of_mem hw)
    · rw [List.eraseP_cons_of_neg hx] at hw
      rcases List.mem_cons.1 hw with rfl | hw
      · exact hx
      · exact not_of_mem_eraseP hp hl.2 w hw

end Xdchain.Lib.Lists

import Mathlib.Data.List.TakeDrop

/-! # Undo journals

A journal lists, oldest first, one entry for every change made to a state;
the entry's undo puts back what the change took away, and may fail. Reverting
to a mark undoes the entries after it, the newest first.

The lemmas say how reverts compose (`undoAll_append`, `undoAll_drop`) and that
a revert carries a simulation: a relation that every undo of the journal
carries from one state to another, a revert carries too (`undoAll_sim`). A
proof that reverting restores what a state shows is built from these: the
relation is "shows the same", and each kind of entry gets one lemma. -/

namespace Xdchain.Lib.Journal

variable {S E : Type} (undo : E → S → Option S)

/-- Undo the entries of `es`, the last one first. -/
def undoAll : List E → S → Option S
  | [], s => some s
  | e :: es, s => (undoAll es s).bind (undo e)

@[simp] theorem undoAll_nil (s : S) : undoAll undo [] s = some s := rfl

theorem undoAll_cons (e : E) (es : List E) (s : S) :
    undoAll undo (e :: es) s = (undoAll undo es s).bind (undo e) := rfl

theorem undoAll_singleton (e : E) (s : S) : undoAll undo [e] s = undo e s := by
  simp [undoAll_cons]

/-- Undoing `es ++ fs` undoes `fs` first. -/
theorem undoAll_append (es fs : List E) (s : S) :
    undoAll undo (es ++ fs) s = (undoAll undo fs s).bind (undoAll undo es) := by
  induction es with
  | nil =>
    have hnil : undoAll undo ([] : List E) = some := rfl
    rw [List.nil_append, hnil, Option.bind_fun_some]
  | cons e es ih =>
    rw [List.cons_append, undoAll_cons, ih, Option.bind_assoc]
    rfl

/-- Reverting to mark `k` is reverting to a later mark `j` and then, in the
journal cut at `j`, to `k`. -/
theorem undoAll_drop (es : List E) {k j : Nat} (hkj : k ≤ j) (hj : j ≤ es.length) (s : S) :
    undoAll undo (es.drop k) s = (undoAll undo (es.drop j) s).bind
      (undoAll undo ((es.take j).drop k)) := by
  have hsplit : es.drop k = (es.take j).drop k ++ es.drop j := by
    conv_lhs => rw [← List.take_append_drop j es]
    exact List.drop_append_of_le_length (by simp [hkj, hj])
  rw [hsplit, undoAll_append]

section Sim

variable {R : S → S → Prop}

/-- Every undo of `es` carries `R`: where it succeeds on the left state, it
succeeds on the right one, and the results are related again. -/
def Carries (R : S → S → Prop) (es : List E) : Prop :=
  ∀ e ∈ es, ∀ x y, R x y → ∀ x', undo e x = some x' → ∃ y', undo e y = some y' ∧ R x' y'

theorem Carries.mono {R : S → S → Prop} {es fs : List E} (h : Carries undo R fs)
    (hsub : es ⊆ fs) : Carries undo R es :=
  fun e he => h e (hsub he)

/-- A revert carries a relation that every undo of the journal carries. -/
theorem undoAll_sim {es : List E} (hes : Carries undo R es) {x y : S} (hxy : R x y) {x' : S}
    (hx : undoAll undo es x = some x') : ∃ y', undoAll undo es y = some y' ∧ R x' y' := by
  induction es generalizing x' with
  | nil =>
    cases hx
    exact ⟨y, rfl, hxy⟩
  | cons e es ih =>
    rw [undoAll_cons, Option.bind_eq_some_iff] at hx
    obtain ⟨x1, hx1, hx'⟩ := hx
    obtain ⟨y1, hy1, hr1⟩ := ih (hes.mono undo (List.subset_cons_self e es)) hx1
    obtain ⟨y', hy', hr'⟩ := hes e List.mem_cons_self x1 y1 hr1 x' hx'
    exact ⟨y', by rw [undoAll_cons, hy1]; exact hy', hr'⟩

end Sim

end Xdchain.Lib.Journal

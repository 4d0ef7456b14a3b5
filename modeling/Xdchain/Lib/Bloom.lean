/-! # Bloom filters

A bloom filter derives a few bit indices from each item it is given (the
hashes of the item under the filter's keys, reduced to its size), `Add` sets
them and `Contains` tests that all of them are set. Which indices an item
gets is fixed when the filter is created and kept by `Copy`; the filter here
takes that derivation as a function, since the one fact its users rest on
holds for every derivation: an added item is always contained, however many
items are added after it. False positives are allowed and nothing here says
how often they happen. -/

namespace Xdchain.Lib.Bloom

variable {α : Type}

structure Filter (α : Type) where
  /-- The bit indices of an item. -/
  hashes : α → List Nat
  /-- The indices set so far. -/
  bits : List Nat

namespace Filter

/-- `bloomfilter.New`: a filter with no bit set. -/
def New (hashes : α → List Nat) : Filter α := ⟨hashes, []⟩

def Add (f : Filter α) (x : α) : Filter α := { f with bits := f.hashes x ++ f.bits }

def Contains (f : Filter α) (x : α) : Bool := (f.hashes x).all (· ∈ f.bits)

@[simp] theorem hashes_Add (f : Filter α) (x : α) : (f.Add x).hashes = f.hashes := rfl

theorem contains_Add_self (f : Filter α) (x : α) : (f.Add x).Contains x = true := by
  simp only [Contains, Add, List.all_eq_true, decide_eq_true_eq, List.mem_append]
  exact fun i hi => .inl hi

theorem contains_Add_of_contains {f : Filter α} {y : α} (h : f.Contains y = true) (x : α) :
    (f.Add x).Contains y = true := by
  simp only [Contains, List.all_eq_true, decide_eq_true_eq] at h ⊢
  intro i hi
  simp [Add, h i hi]

/-- Adding the items of a list, one after the other. -/
def addAll (f : Filter α) (xs : List α) : Filter α := xs.foldl Add f

@[simp] theorem hashes_addAll (f : Filter α) (xs : List α) : (f.addAll xs).hashes = f.hashes := by
  induction xs generalizing f with
  | nil => rfl
  | cons x xs ih => exact ih (f.Add x)

/-- No false negatives: what was in the filter stays in it. -/
theorem contains_addAll_of_contains {f : Filter α} {y : α} (h : f.Contains y = true) :
    ∀ xs : List α, (f.addAll xs).Contains y = true := by
  intro xs
  induction xs generalizing f with
  | nil => exact h
  | cons x xs ih => exact ih (contains_Add_of_contains h x)

/-- No false negatives: every item added is contained. -/
theorem contains_addAll_of_mem {y : α} : ∀ {xs : List α} (f : Filter α), y ∈ xs → (f.addAll xs).Contains y = true
  | x :: xs, f, hy => by
    rcases List.mem_cons.mp hy with rfl | hy
    · exact contains_addAll_of_contains (contains_Add_self f y) xs
    · exact contains_addAll_of_mem (f.Add x) hy

end Filter

end Xdchain.Lib.Bloom

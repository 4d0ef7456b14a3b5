import Mathlib.Data.List.Infix

/-! # Common prefixes and terminated keys

`commonPrefixLen a b` is the length of the longest common prefix of two
lists: the index of their first difference, or the shorter length. A key
terminated by `t` is a body free of `t` followed by `t`; of two such keys
neither is a proper prefix of the other, which is what lets a radix tree
keep its values at the ends of its paths. -/

namespace Xdchain.Lib.Prefix

variable {α : Type}

section CommonPrefix

variable [DecidableEq α]

/-- The length of the longest common prefix. -/
def commonPrefixLen : List α → List α → Nat
  | a :: as, b :: bs => if a = b then commonPrefixLen as bs + 1 else 0
  | _, _ => 0

@[simp] theorem commonPrefixLen_nil_left (b : List α) : commonPrefixLen [] b = 0 := rfl

@[simp] theorem commonPrefixLen_nil_right (a : List α) : commonPrefixLen a [] = 0 := by
  cases a <;> rfl

theorem commonPrefixLen_cons (a b : α) (as bs : List α) :
    commonPrefixLen (a :: as) (b :: bs) = if a = b then commonPrefixLen as bs + 1 else 0 := rfl

@[simp] theorem commonPrefixLen_cons_self (a : α) (as bs : List α) :
    commonPrefixLen (a :: as) (a :: bs) = commonPrefixLen as bs + 1 := by
  simp [commonPrefixLen_cons]

theorem commonPrefixLen_le_left : ∀ a b : List α, commonPrefixLen a b ≤ a.length
  | [], _ => by simp
  | _ :: _, [] => by simp
  | x :: as, y :: bs => by
    rw [commonPrefixLen_cons]
    split
    · simpa using commonPrefixLen_le_left as bs
    · simp

theorem commonPrefixLen_comm : ∀ a b : List α, commonPrefixLen a b = commonPrefixLen b a
  | [], b => by simp
  | _ :: _, [] => by simp
  | x :: as, y :: bs => by
    rw [commonPrefixLen_cons, commonPrefixLen_cons, commonPrefixLen_comm as bs]
    by_cases h : x = y
    · simp [h]
    · simp [h, Ne.symm h]

theorem commonPrefixLen_le_right (a b : List α) : commonPrefixLen a b ≤ b.length := by
  rw [commonPrefixLen_comm]
  exact commonPrefixLen_le_left b a

theorem commonPrefixLen_append_self (p a b : List α) :
    commonPrefixLen (p ++ a) (p ++ b) = p.length + commonPrefixLen a b := by
  induction p with
  | nil => simp
  | cons x p ih =>
    rw [List.cons_append, List.cons_append, commonPrefixLen_cons_self, ih, List.length_cons]
    omega

theorem commonPrefixLen_self (a : List α) : commonPrefixLen a a = a.length := by
  simpa using commonPrefixLen_append_self a [] []

/-- The two lists agree up to their common prefix. -/
theorem take_commonPrefixLen : ∀ a b : List α,
    a.take (commonPrefixLen a b) = b.take (commonPrefixLen a b)
  | [], b => by simp
  | _ :: _, [] => by simp
  | x :: as, y :: bs => by
    rw [commonPrefixLen_cons]
    split
    · rename_i h
      subst h
      simp [take_commonPrefixLen as bs]
    · simp

/-- Where both go on, they differ at the end of their common prefix. -/
theorem getElem_commonPrefixLen_ne : ∀ (a b : List α) (ha : commonPrefixLen a b < a.length)
    (hb : commonPrefixLen a b < b.length), a[commonPrefixLen a b] ≠ b[commonPrefixLen a b]
  | [], _, ha, _ => by simp at ha
  | _ :: _, [], _, hb => by simp at hb
  | x :: as, y :: bs, ha, hb => by
    by_cases h : x = y
    · subst h
      simp only [commonPrefixLen_cons_self, List.length_cons, Nat.add_lt_add_iff_right,
        List.getElem_cons_succ] at ha hb ⊢
      exact getElem_commonPrefixLen_ne as bs ha hb
    · simp only [commonPrefixLen_cons, h, if_false, List.getElem_cons_zero]
      exact h

theorem commonPrefixLen_eq_length_iff : ∀ a b : List α, commonPrefixLen a b = a.length ↔ a <+: b
  | [], b => by simp
  | _ :: _, [] => by simp
  | x :: as, y :: bs => by
    rw [commonPrefixLen_cons, List.cons_prefix_cons, ← commonPrefixLen_eq_length_iff as bs]
    split
    · rename_i h
      simp [h]
    · rename_i h
      simp [h]

end CommonPrefix

/-- Two lists that part after a common prefix are no prefix of each other. -/
theorem not_prefix_of_mismatch {p a b : List α} {x y : α} (hxy : x ≠ y) :
    ¬ (p ++ x :: a) <+: (p ++ y :: b) := by
  rw [List.prefix_append_right_inj, List.cons_prefix_cons]
  exact fun h => hxy h.1

/-- A prefix of two lists that part after `p` is a prefix of `p`. -/
theorem prefix_of_fork {p q x y : List α} {a b : α} (hab : a ≠ b) (ha : q <+: p ++ a :: x)
    (hb : q <+: p ++ b :: y) : q <+: p := by
  by_cases hlen : q.length ≤ p.length
  · exact List.prefix_of_prefix_length_le ha (List.prefix_append _ _) hlen
  · -- a longer `q` runs on past `p`, into both `a` and `b`
    have hpq : p <+: q := List.prefix_of_prefix_length_le (List.prefix_append _ _) ha (by omega)
    obtain ⟨r, rfl⟩ := hpq
    obtain ⟨c, r, rfl⟩ := List.exists_cons_of_ne_nil (fun h : r = [] => by simp [h] at hlen)
    rw [List.prefix_append_right_inj, List.cons_prefix_cons] at ha hb
    exact absurd (ha.1.symm.trans hb.1) hab

/-- Two members of `S` that part right after `p`. -/
def ForksAt (S : List α → Prop) (p : List α) : Prop :=
  ∃ a x b y, a ≠ b ∧ S (p ++ a :: x) ∧ S (p ++ b :: y)

/-- **The fork point is unique**: a set whose members all start with `p`
and two of which part right after it has `p` for its longest common prefix. -/
theorem ForksAt.eq {S : List α → Prop} {p q : List α} (hp : ∀ l, S l → p <+: l) (hfp : ForksAt S p)
    (hq : ∀ l, S l → q <+: l) (hfq : ForksAt S q) : p = q := by
  obtain ⟨a, x, b, y, hab, hx, hy⟩ := hfp
  obtain ⟨c, z, d, w, hcd, hz, hw⟩ := hfq
  have hqp : q <+: p := prefix_of_fork hab (hq _ hx) (hq _ hy)
  have hpq : p <+: q := prefix_of_fork hcd (hp _ hz) (hp _ hw)
  exact hpq.eq_of_length (le_antisymm hpq.length_le hqp.length_le)

/-! ## Lists that part -/

/-- Two lists that are no prefix of each other part after a common front. -/
theorem exists_fork [DecidableEq α] : ∀ {a b : List α}, ¬ a <+: b → ¬ b <+: a →
    ∃ p x y a' b', x ≠ y ∧ a = p ++ x :: a' ∧ b = p ++ y :: b'
  | [], _, ha, _ => absurd (List.nil_prefix) ha
  | _ :: _, [], _, hb => absurd (List.nil_prefix) hb
  | x :: a, y :: b, ha, hb => by
    by_cases hxy : x = y
    · -- the fork lies further on
      subst hxy
      rw [List.cons_prefix_cons] at ha hb
      obtain ⟨p, u, v, a', b', huv, rfl, rfl⟩ :=
        exists_fork (fun h => ha ⟨rfl, h⟩) (fun h => hb ⟨rfl, h⟩)
      exact ⟨x :: p, u, v, a', b', huv, rfl, rfl⟩
    · exact ⟨[], x, y, a, b, hxy, rfl, rfl⟩

/-- `a` comes before `b` where they part: after a common front, `a` goes on
with an element that `r` puts below `b`'s. -/
def Before (r : α → α → Prop) (a b : List α) : Prop :=
  ∃ p x y a' b', r x y ∧ a = p ++ x :: a' ∧ b = p ++ y :: b'

section Before

variable {r : α → α → Prop}

theorem Before.cons_iff {x y : α} {a b : List α} :
    Before r (x :: a) (y :: b) ↔ r x y ∨ (x = y ∧ Before r a b) := by
  constructor
  · rintro ⟨p, u, v, a', b', huv, ha, hb⟩
    cases p with
    | nil =>
      simp only [List.nil_append, List.cons.injEq] at ha hb
      obtain ⟨rfl, -⟩ := ha
      obtain ⟨rfl, -⟩ := hb
      exact .inl huv
    | cons q p =>
      simp only [List.cons_append, List.cons.injEq] at ha hb
      obtain ⟨rfl, rfl⟩ := ha
      obtain ⟨rfl, rfl⟩ := hb
      exact .inr ⟨rfl, p, u, v, a', b', huv, rfl, rfl⟩
  · rintro (hxy | ⟨rfl, p, u, v, a', b', huv, rfl, rfl⟩)
    · exact ⟨[], x, y, a, b, hxy, rfl, rfl⟩
    · exact ⟨x :: p, u, v, a', b', huv, rfl, rfl⟩

theorem not_before_nil (a : List α) : ¬ Before r a [] := by
  rintro ⟨p, x, y, a', b', -, -, hb⟩
  simp at hb

theorem Before.append (p : List α) {a b : List α} (h : Before r a b) : Before r (p ++ a) (p ++ b) := by
  obtain ⟨q, x, y, a', b', hxy, rfl, rfl⟩ := h
  exact ⟨p ++ q, x, y, a', b', hxy, by simp, by simp⟩

section Irrefl

variable (hirr : ∀ x, ¬ r x x)
include hirr

theorem Before.of_append {p a b : List α} (h : Before r (p ++ a) (p ++ b)) : Before r a b := by
  induction p with
  | nil => exact h
  | cons x p ih =>
    rcases Before.cons_iff.mp h with hxx | ⟨-, h⟩
    · exact absurd hxx (hirr x)
    · exact ih h

/-- Where two lists part is where `Before` compares them. -/
theorem Before.rel_of_fork {p a' b' : List α} {x y : α} (hxy : x ≠ y)
    (h : Before r (p ++ x :: a') (p ++ y :: b')) : r x y := by
  rcases Before.cons_iff.mp (h.of_append hirr) with hr | ⟨hx, -⟩
  · exact hr
  · exact absurd hx hxy

/-- What comes before `a` is no continuation of it. -/
theorem Before.not_prefix {a b : List α} (h : Before r a b) : ¬ b <+: a := by
  obtain ⟨p, x, y, a', b', hxy, rfl, rfl⟩ := h
  rintro ⟨t, ht⟩
  rw [List.append_assoc, List.append_cancel_left_eq, List.cons_append, List.cons.injEq] at ht
  exact hirr x (ht.1 ▸ hxy)

end Irrefl

end Before

/-! ## Terminated keys -/

/-- A key terminated by `t`: `t` stands once, at its end. -/
def Terminated (t : α) (key : List α) : Prop := ∃ body, t ∉ body ∧ key = body ++ [t]

theorem Terminated.ne_nil {t : α} {key : List α} (h : Terminated t key) : key ≠ [] := by
  obtain ⟨body, -, rfl⟩ := h
  simp

/-- **Terminated keys are prefix-free.** -/
theorem Terminated.eq_of_prefix {t : α} {a b : List α} (ha : Terminated t a) (hb : Terminated t b)
    (h : a <+: b) : a = b := by
  obtain ⟨p, -, rfl⟩ := ha
  obtain ⟨q, hq, rfl⟩ := hb
  obtain ⟨r, hr⟩ := h
  cases r with
  | nil => simpa using hr
  | cons x r =>
    -- `t` ends `p ++ [t]`, so anything after it puts `t` inside `q`
    have hmem : t ∈ (p ++ [t] ++ x :: r).dropLast := by
      rw [List.append_assoc, List.dropLast_append_of_ne_nil (by simp)]
      simp
    rw [hr, List.dropLast_concat] at hmem
    exact absurd hmem hq

theorem Terminated.drop {t : α} {key : List α} (h : Terminated t key) {n : Nat} (hn : n < key.length) :
    Terminated t (key.drop n) := by
  obtain ⟨body, hbody, rfl⟩ := h
  have hle : n ≤ body.length := by
    simp only [List.length_append, List.length_singleton] at hn
    omega
  exact ⟨body.drop n, fun hm => hbody (List.mem_of_mem_drop hm), List.drop_append_of_le_length hle⟩

end Xdchain.Lib.Prefix

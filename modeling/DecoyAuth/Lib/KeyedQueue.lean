import Mathlib.Data.List.Nodup

/-!
# Queues with keys

A queue that holds at most one value for each key: a value replaces the one with its key where that stands, and goes to
the end if there is none (`put`). The keys stay distinct (`nodup_put`) and in the order in which they came (`map_put`), and
a key finds the last value that was put under it (`find_put`).
-/

namespace DecoyAuth.KeyedQueue

variable {α κ : Type*} [DecidableEq κ] (key : α → κ)

def put (a : α) : List α → List α
  | [] => [a]
  | b :: q => if key b = key a then a :: q else b :: put a q

variable {key} {a : α} {q : List α}

theorem length_put_le : ∀ q : List α, (put key a q).length ≤ q.length + 1
  | [] => Nat.le_refl _
  | b :: q => by
    unfold put
    split
    · exact Nat.le_succ _
    · exact Nat.succ_le_succ (length_put_le q)

theorem mem_put {b : α} : ∀ {q : List α}, b ∈ put key a q → b = a ∨ b ∈ q
  | [], h => .inl (List.mem_singleton.1 h)
  | c :: q, h => by
    unfold put at h
    split at h
    · exact (List.mem_cons.1 h).imp id (List.mem_cons_of_mem c)
    · rcases List.mem_cons.1 h with rfl | h
      · exact .inr List.mem_cons_self
      · exact (mem_put h).imp id (List.mem_cons_of_mem c)

theorem map_put : ∀ q : List α,
    (put key a q).map key = if key a ∈ q.map key then q.map key else q.map key ++ [key a]
  | [] => rfl
  | b :: q => by
    unfold put
    split
    · next h => simp [h]
    · next h =>
      simp only [List.map_cons, List.mem_cons, Ne.symm h, false_or, map_put q]
      split <;> rfl

theorem nodup_put (h : (q.map key).Nodup) : ((put key a q).map key).Nodup := by
  rw [map_put]
  split
  · exact h
  · next hmem =>
    refine List.nodup_append'.2 ⟨h, List.nodup_singleton _, ?_⟩
    simpa using hmem

/-- The value under a key. -/
def find (key : α → κ) (k : κ) (q : List α) : Option α := q.find? fun a => key a = k

theorem find_put (k : κ) : ∀ q : List α, find key k (put key a q) = if k = key a then some a else find key k q
  | [] => by
    by_cases h : k = key a <;> simp [put, find, h, eq_comm]
  | b :: q => by
    unfold put
    by_cases hk : k = key a
    · subst hk
      split
      · simp [find]
      · next h =>
        have ih := find_put (key a) q
        rw [if_pos rfl] at ih ⊢
        simpa [find, h] using ih
    · rw [if_neg hk]
      split
      · next h =>
        have : key b ≠ k := fun hb => hk (hb.symm.trans h)
        simp [find, Ne.symm hk, this]
      · have ih := find_put k q
        rw [if_neg hk] at ih
        by_cases hb : key b = k
        · simp [find, hb]
        · simpa [find, hb] using ih

/-- Taking the first value out. -/
theorem find_tail {k : κ} (h : ((a :: q).map key).Nodup) :
    find key k q = if k = key a then none else find key k (a :: q) := by
  rw [List.map_cons, List.nodup_cons] at h
  by_cases hk : k = key a
  · rw [if_pos hk, find, List.find?_eq_none]
    intro b hb
    simpa [hk] using fun hba : key b = key a => h.1 (hba ▸ List.mem_map_of_mem hb)
  · simp [find, hk, Ne.symm hk]

end DecoyAuth.KeyedQueue

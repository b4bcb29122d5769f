import Mathlib.Data.List.Nodup
import Mathlib.Order.Lattice

/-!
# Stable priority queues

The elements that are waiting are listed in the order of their insertion.  A stable priority queue
has them in the order of their keys, and those of one key in the order of their insertion.
-/

namespace StableQueue

variable {α κ : Type*} [LinearOrder κ] {key key' : α → κ} {pending queue l r : List α} {a : α}

/-- The queue for the elements that are waiting. -/
structure Queues (key : α → κ) (pending queue : List α) : Prop where
  perm : queue.Perm pending
  sorted : queue.Pairwise fun x y => key x ≤ key y
  stable : ∀ k, queue.filter (fun x => key x = k) = pending.filter fun x => key x = k

theorem Queues.nil : Queues key [] [] := ⟨.refl [], .nil, fun _ => rfl⟩

/-- What is first in the queue is a least element. -/
theorem Queues.head_le (h : Queues key pending (a :: queue)) :
  a ∈ pending ∧ ∀ x ∈ pending, key a ≤ key x
  := by
  refine ⟨h.perm.mem_iff.mp List.mem_cons_self, fun x hx => ?_⟩
  rcases List.mem_cons.mp (h.perm.mem_iff.mpr hx) with rfl | hx
  · exact le_refl _
  · exact (List.pairwise_cons.mp h.sorted).1 x hx

/-- Only the keys of waiting elements matter. -/
theorem Queues.congr (h : Queues key pending queue) (hkey : ∀ x ∈ pending, key' x = key x) :
  Queues key' pending queue
  := by
  have hqueue : ∀ x ∈ queue, key' x = key x := fun x hx => hkey x (h.perm.mem_iff.mp hx)
  refine ⟨h.perm, ?_, fun k => ?_⟩
  · apply h.sorted.imp_of_mem
    intro x y hx hy hxy
    rwa [hqueue x hx, hqueue y hy]
  · calc queue.filter (fun x => key' x = k)
        = queue.filter (fun x => key x = k) :=
          List.filter_congr fun x hx => by rw [hqueue x hx]
      _ = pending.filter (fun x => key x = k) := h.stable k
      _ = pending.filter (fun x => key' x = k) :=
          List.filter_congr fun x hx => by rw [hkey x hx]

/-- A sorted list has the elements with a greater key than another at its end. -/
theorem exists_append (h : queue.Pairwise fun x y => key x ≤ key y) (k : κ) :
  ∃ l r, queue = l ++ r ∧ (∀ x ∈ l, key x ≤ k) ∧ ∀ x ∈ r, k < key x
  := by
  induction queue with
  | nil => exact ⟨[], [], rfl, by simp, by simp⟩
  | cons x queue ih =>
      obtain ⟨hx, hqueue⟩ := List.pairwise_cons.mp h
      rcases le_or_gt (key x) k with hle | hgt
      · obtain ⟨l, r, rfl, hl, hr⟩ := ih hqueue
        exact ⟨x :: l, r, rfl, List.forall_mem_cons.mpr ⟨hle, hl⟩, hr⟩
      · use [], x :: queue, rfl, by simp
        exact List.forall_mem_cons.mpr ⟨hgt, fun y hy => hgt.trans_le (hx y hy)⟩

/-- An element is inserted behind all whose keys are not greater. -/
theorem Queues.insert (h : Queues key pending (l ++ r)) (hl : ∀ x ∈ l, key x ≤ key a)
    (hr : ∀ x ∈ r, key a < key x) :
  Queues key (pending ++ [a]) (l ++ a :: r)
  := by
  obtain ⟨hsortedl, hsortedr, hlr⟩ := List.pairwise_append.mp h.sorted
  refine ⟨?_, ?_, fun k => ?_⟩
  · exact List.perm_middle.trans ((h.perm.cons a).trans (List.perm_append_singleton a pending).symm)
  · apply List.pairwise_append.mpr ⟨hsortedl, ?_, ?_⟩
    · exact List.pairwise_cons.mpr ⟨fun x hx => (hr x hx).le, hsortedr⟩
    · intro x hx
      exact List.forall_mem_cons.mpr ⟨hl x hx, fun y hy => hlr x hx y hy⟩
  · have hk := h.stable k
    rw [List.filter_append] at hk
    rw [List.filter_append, List.filter_append, ← hk]
    by_cases ha : key a = k
    · -- behind the new element there is none with its key
      have hnil : r.filter (fun x => key x = k) = [] :=
        List.filter_eq_nil_iff.mpr fun x hx => by simpa [← ha] using (hr x hx).ne'
      rw [hnil, List.append_nil, List.filter_cons_of_pos (by simpa using ha),
        List.filter_cons_of_pos (by simpa using ha), hnil]
      rfl
    · rw [List.filter_cons_of_neg (by simpa using ha), List.filter_cons_of_neg (by simpa using ha),
        List.filter_nil, List.append_nil]

/-- An element is taken away. -/
theorem Queues.erase [DecidableEq α] (h : Queues key pending queue) (hnodup : pending.Nodup)
    (a : α) :
  Queues key (pending.erase a) (queue.erase a)
  := by
  refine ⟨h.perm.erase a, h.sorted.sublist List.erase_sublist, fun k => ?_⟩
  rw [hnodup.erase_eq_filter, (h.perm.nodup_iff.mpr hnodup).erase_eq_filter, List.filter_comm,
    h.stable k, List.filter_comm]

end StableQueue

import Mathlib.Data.Stream.Init
import Mathlib.Data.Nat.Init

/-! A blocking stream socket, as a client that reads it to the end sees it.

`recv(k)` returns at least one and at most `k` of the items that are still to come, and nothing at
the end of the stream. How many it returns is up to the network: a segmentation is a bound for each
call. -/

structure StreamSocket (α : Type u) where
  incoming : List α
  segments : Stream' Nat
  sent : List (List α) := []

namespace StreamSocket
variable {α : Type u} {s : StreamSocket α} {k : Nat} {xs ys : List α}

def recv (s : StreamSocket α) (k : Nat) : List α × StreamSocket α :=
  let n := min k (max 1 s.segments.head)
  (s.incoming.take n, { s with incoming := s.incoming.drop n, segments := s.segments.tail })

def send (s : StreamSocket α) (data : List α) : StreamSocket α :=
  { s with sent := s.sent ++ [data] }

/-- The next call returns everything when it is asked for as much. -/
theorem recv_whole (hin : s.incoming = xs ++ ys) (hk : xs.length = k)
    (h : k ≤ max 1 s.segments.head) :
    s.recv k = (xs, { s with incoming := ys, segments := s.segments.tail }) := by
  subst hk
  simp [recv, hin, Nat.min_eq_left h]

/-- In general it returns a part, and the rest is for the calls after it. -/
theorem recv_part (hin : s.incoming = xs ++ ys) :
    (s.recv xs.length).1 = xs.take (max 1 s.segments.head) := by
  simp only [recv, hin]
  rw [List.take_append_of_le_length (Nat.min_le_left ..), Nat.min_comm, ← List.take_take,
    List.take_length]

theorem length_recv_le : (s.recv k).1.length ≤ max 1 s.segments.head := by
  simp only [recv, List.length_take]
  omega

/-- Only at the end of the stream nothing is returned. -/
theorem recv_eq_nil_iff (hpos : 0 < k) : (s.recv k).1 = [] ↔ s.incoming = [] := by
  rw [recv, List.take_eq_nil_iff]
  exact or_iff_right (by omega)

theorem length_incoming_recv_lt (hpos : 0 < k) (h : (s.recv k).1 ≠ []) :
    (s.recv k).2.incoming.length < s.incoming.length := by
  have hne := List.length_pos_iff.mpr (mt (recv_eq_nil_iff hpos).mpr h)
  simp only [recv, List.length_drop]
  omega

theorem length_incoming_recv_le : (s.recv k).2.incoming.length ≤ s.incoming.length := by
  simp only [recv, List.length_drop]
  omega

@[simp] theorem recv_sent : (s.recv k).2.sent = s.sent := rfl

end StreamSocket

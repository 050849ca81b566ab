import Mathlib.Data.List.Range
import Mathlib.Data.Nat.ModEq
import Mathlib.Logic.Function.Basic

/-! A ring of cells with free-running counters: the cells from one counter on
as a list, and the queue between two counters that wrap. -/

namespace RingBuffer

open Function

variable {α : Type} {capacity : Nat} [NeZero capacity]

def contents (cells : Fin capacity → α) (first count : Nat) : List α :=
  (List.range count).map fun offset =>
    cells (Fin.ofNat capacity (first + offset))

theorem cell_injective (small : offset < capacity) (otherSmall : other < capacity)
    (same : Fin.ofNat capacity (first + offset) = Fin.ofNat capacity (first + other)) :
    offset = other := by
  have values : (first + offset) % capacity = (first + other) % capacity :=
    congrArg Fin.val same
  have congruent : offset ≡ other [MOD capacity] :=
    Nat.ModEq.add_left_cancel' first values
  exact Nat.ModEq.eq_of_lt_of_lt congruent small otherSmall

section

variable (cells : Fin capacity → α)

include cells

theorem contents_update (first : Nat) (room : count < capacity)
    (value : α) :
    contents (update cells (Fin.ofNat capacity (first + count)) value) first count =
      contents cells first count := by
  refine List.map_congr_left fun offset member => ?_
  have less : offset < count := List.mem_range.mp member
  refine update_of_ne (fun same => ?_) ..
  exact less.ne (cell_injective (less.trans room) room same)

theorem contents_succ (first count : Nat) :
    contents cells first (count + 1) = contents cells first count ++
      [cells (Fin.ofNat capacity (first + count))] := by
  unfold contents
  rw [List.range_succ, List.map_append, List.map_singleton]

theorem contents_cons (first count : Nat) :
    contents cells first (count + 1) = cells (Fin.ofNat capacity first) :: contents cells
      (first + 1) count := by
  unfold contents
  rw [List.range_succ_eq_map, List.map_cons, List.map_map, Nat.add_zero]
  congr 1
  refine List.map_congr_left fun offset _ => ?_
  rw [Function.comp_apply, Nat.succ_eq_add_one, Nat.add_right_comm, Nat.add_assoc]

theorem contents_append (first count more : Nat) :
    contents cells first (count + more) = contents cells first count ++ contents cells
      (first + count) more := by
  induction more with
  | zero => exact (List.append_nil _).symm
  | succ more induction =>
    rw [← Nat.add_assoc, contents_succ, induction, contents_succ, List.append_assoc, Nat.add_assoc]

theorem contents_wrap (divides : capacity ∣ modulus)
    (first count : Nat) : contents cells (first % modulus) count = contents cells first count := by
  unfold contents
  refine List.map_congr_left fun offset _ => congrArg cells (Fin.ext ?_)
  change (first % modulus + offset) % capacity = (first + offset) % capacity
  rw [Nat.add_mod, Nat.mod_mod_of_dvd first divides, ← Nat.add_mod]

end

/-- The cells from one wrapping counter to another one are a queue. -/
structure Represents (modulus : Nat) (cells : Fin capacity → α)
    (first last : Nat) (items : List α) : Prop where
  room : items.length ≤ capacity
  last_eq : last = (first + items.length) % modulus
  contents_eq : contents cells first items.length = items

namespace Represents

variable {modulus : Nat} {cells : Fin capacity → α} {first last : Nat} {items : List α} {item : α}

theorem nil (cells : Fin capacity → α) (small : first < modulus) :
    Represents modulus cells first first [] where
  room := Nat.zero_le _
  last_eq := (Nat.mod_eq_of_lt small).symm
  contents_eq := rfl

section Queue

variable (queue : Represents modulus cells first last items) (divides : capacity ∣ modulus)

include queue

theorem last_cell (divides : capacity ∣ modulus) :
    Fin.ofNat capacity last = Fin.ofNat capacity (first + items.length) := by
  refine Fin.ext ?_
  change last % capacity = (first + items.length) % capacity
  rw [queue.last_eq, Nat.mod_mod_of_dvd _ divides]

theorem nil_iff (small : first < modulus) (wide : capacity < modulus) :
    first = last ↔ items = [] := by
  have room := queue.room
  constructor
  · intro same
    have wraps : (first + items.length) % modulus = first % modulus := by
      rw [← queue.last_eq, ← same, Nat.mod_eq_of_lt small]
    have zero : items.length ≡ 0 [MOD modulus] :=
      Nat.ModEq.add_left_cancel' first wraps
    exact List.eq_nil_of_length_eq_zero (Nat.ModEq.eq_of_lt_of_lt zero (by omega) (by omega))
  · rintro rfl
    rw [queue.last_eq, List.length_nil, Nat.add_zero, Nat.mod_eq_of_lt small]

include divides

theorem write (space : items.length < capacity) (value : α) :
    Represents modulus (update cells (Fin.ofNat capacity last) value) first last items where
  room := queue.room
  last_eq := queue.last_eq
  contents_eq := by
    rw [queue.last_cell divides, contents_update cells first space]
    exact queue.contents_eq

theorem push (space : items.length < capacity) (written : cells (Fin.ofNat capacity last) = item) :
    Represents modulus cells first ((last + 1) % modulus) (items ++ [item]) where
  room := by
    rw [List.length_append, List.length_singleton]
    exact space
  last_eq := by
    rw [List.length_append, List.length_singleton, queue.last_eq, Nat.mod_add_mod, Nat.add_assoc]
  contents_eq := by
    rw [List.length_append, List.length_singleton, contents_succ,
      queue.contents_eq, ← queue.last_cell divides, written]

end Queue

section Front

variable (queue : Represents modulus cells first last (item :: items))

include queue

theorem front : cells (Fin.ofNat capacity first) = item := by
  have whole := queue.contents_eq
  rw [List.length_cons, contents_cons] at whole
  exact (List.cons.inj whole).1

theorem pop (divides : capacity ∣ modulus) :
    Represents modulus cells ((first + 1) % modulus) last items where
  room := Nat.le_of_succ_le queue.room
  last_eq := by
    rw [queue.last_eq, List.length_cons, Nat.mod_add_mod, Nat.add_assoc, Nat.add_comm 1]
  contents_eq := by
    have whole := queue.contents_eq
    rw [List.length_cons, contents_cons] at whole
    rw [contents_wrap cells divides]
    exact (List.cons.inj whole).2

end Front

theorem split (queue : Represents modulus cells first last (items ++ more))
    (divides : capacity ∣ modulus) :
    Represents modulus cells first ((first + items.length) % modulus) items ∧
      Represents modulus cells ((first + items.length) % modulus) last more := by
  have room := queue.room
  have whole := queue.contents_eq
  rw [List.length_append] at room
  rw [List.length_append, contents_append] at whole
  obtain ⟨front, back⟩ := List.append_inj whole
    (by rw [contents, List.length_map, List.length_range])
  refine ⟨⟨by omega, rfl, front⟩, by omega, ?_, ?_⟩
  · rw [queue.last_eq, List.length_append, Nat.mod_add_mod, Nat.add_assoc]
  · rw [contents_wrap cells divides]
    exact back

end Represents

end RingBuffer

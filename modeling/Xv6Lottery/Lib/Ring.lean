import Mathlib.Logic.Function.Iterate
import Mathlib.Data.List.Nodup

/-! Circular doubly linked lists: links that are changed one at a time, and
the list of nodes that they go through. -/

namespace Ring

open Function (update update_of_ne update_self)

structure Links (Node : Type) where
  next : Node → Node
  prev : Node → Node

variable {Node : Type}

def Chain (links : Links Node) : Node → List Node → Node → Prop
  | first, [], last => links.next first = last ∧ links.prev last = first
  | first, middle :: rest, last =>
    links.next first = middle ∧ links.prev middle = first ∧ Chain links middle rest last

structure Holds (links : Links Node) (head : Node) (order : List Node) : Prop where
  chain : Chain links head order head
  nodup : (head :: order).Nodup

theorem chain_append :
    Chain links first (front ++ middle :: back) last ↔ Chain links first front middle ∧
      Chain links middle back last := by
  induction front generalizing first with
  | nil =>
    simp only [List.nil_append, Chain]
    exact and_assoc.symm
  | cons node rest induction =>
    simp only [List.cons_append, Chain, induction]
    tauto

theorem chain_congr {order : List Node} (chain : Chain links first order last)
    (next : ∀ node ∈ first :: order, changed.next node = links.next node)
    (prev : ∀ node ∈ order ++ [last], changed.prev node = links.prev node) :
    Chain changed first order last := by
  induction order generalizing first with
  | nil =>
    have ⟨ahead, behind⟩ := chain
    exact ⟨(next first (.head _)).trans ahead, (prev last (.head _)).trans behind⟩
  | cons node rest induction =>
    have ⟨ahead, behind, others⟩ := chain
    exact ⟨(next first (.head _)).trans ahead, (prev node (.head _)).trans behind,
      induction others (fun node member => next node (.tail _ member))
        fun node member => prev node (.tail _ member)⟩

theorem chain_ends (chain : Chain links first order last) :
    links.next first ∈ order ++ [last] ∧ links.prev last ∈ first :: order := by
  induction order generalizing first with
  | nil => exact ⟨by simp [chain.1], by simp [chain.2]⟩
  | cons node rest induction =>
    have ⟨ahead, _, others⟩ := chain
    exact ⟨by simp [ahead], .tail _ (induction others).2⟩

def Links.flip (links : Links Node) : Links Node where
  next := links.prev
  prev := links.next

theorem chain_flip (chain : Chain links first order last) :
    Chain links.flip last order.reverse first := by
  induction order generalizing first with
  | nil => exact ⟨chain.2, chain.1⟩
  | cons node rest induction =>
    have ⟨ahead, behind, others⟩ := chain
    rw [List.reverse_cons]
    exact chain_append.mpr ⟨induction others, behind, ahead⟩

theorem chain_iterate (chain : Chain links first order last)
    (found : (order ++ [last])[count]? = some node) : links.next^[count + 1] first = node := by
  induction order generalizing first count with
  | nil =>
    cases count with
    | zero => exact chain.1.trans (Option.some.inj found)
    | succ count => cases found
  | cons middle rest induction =>
    cases count with
    | zero => exact chain.1.trans (Option.some.inj found)
    | succ count =>
      rw [Function.iterate_succ_apply, chain.1]
      exact induction chain.2.2 found

theorem chain_inverse (chain : Chain links first order last) :
    ∀ node ∈ first :: order, links.prev (links.next node) = node := by
  induction order generalizing first with
  | nil =>
    intro node member
    rw [List.mem_singleton.mp member, chain.1, chain.2]
  | cons middle rest induction =>
    have ⟨ahead, behind, others⟩ := chain
    refine List.forall_mem_cons.mpr ⟨?_, induction others⟩
    rw [ahead, behind]

/-- Follow links until the head of the list or a node that passes the test.
None if the rounds do not suffice. -/
def scan [DecidableEq Node] (follow : Node → Node) (head : Node)
    (test : Node → Bool) : Nat → Node → Option (Option Node)
  | 0, _ => none
  | rounds + 1, node =>
    if node = head then
      some none
    else if test node then
      some (some node)
    else
      scan follow head test rounds (follow node)

theorem scan_chain [DecidableEq Node] {test : Node → Bool} (chain : Chain links first order head)
    (outside : head ∉ order) (enough : order.length < rounds) :
    scan links.next head test rounds (links.next first) = some (order.find? test) := by
  induction order generalizing first rounds with
  | nil =>
    obtain _ | rounds := rounds
    · cases enough
    · rw [chain.1, scan, if_pos rfl]
      rfl
  | cons node rest induction =>
    obtain _ | rounds := rounds
    · cases enough
    · have differs : node ≠ head :=
        fun same => outside (same ▸ .head _)
      rw [chain.1, scan, if_neg differs]
      by_cases passes : test node = true
      · rw [if_pos passes, List.find?_cons_of_pos passes]
      · rw [if_neg passes, List.find?_cons_of_neg passes]
        exact induction chain.2.2 (fun member => outside (.tail _ member)) (by simpa using enough)

section Change

variable [DecidableEq Node]

def Links.setNext (links : Links Node) (node target : Node) : Links Node :=
  { links with next := update links.next node target }

def Links.setPrev (links : Links Node) (node target : Node) : Links Node :=
  { links with prev := update links.prev node target }

def Links.unlink (links : Links Node) (node : Node) : Links Node :=
  let behind := links.setPrev (links.next node) (links.prev node)
  behind.setNext (behind.prev node) (behind.next node)

def Links.insert (links : Links Node) (head node : Node) : Links Node :=
  let ahead := links.setNext node (links.next head)
  let both := ahead.setPrev node head
  let behind := both.setPrev (both.next head) node
  behind.setNext head node

variable {links : Links Node} {head node : Node} {order : List Node}

theorem unlink_eq (differs : links.next node ≠ node) : links.unlink node =
      { next := update links.next (links.prev node) (links.next node)
        prev := update links.prev (links.next node) (links.prev node) } := by
  simp [Links.unlink, Links.setNext, Links.setPrev, update_of_ne differs.symm]

theorem chain_unlink (chain : Chain links first (front ++ node :: back) last)
    (nodup : (first :: (front ++ node :: back)).Nodup) (outside : last ∉ front ++ node :: back) :
    Chain (links.unlink node) first (front ++ back) last := by
  have ends := chain_append.mp chain
  have ahead := (chain_ends ends.2).1
  have behind := (chain_ends ends.1).2
  have differs : links.next node ≠ node := by
    intro same
    rw [same] at ahead
    rcases List.mem_append.mp ahead with member | member
    · simp only [List.nodup_cons, List.nodup_append] at nodup
      exact nodup.2.2.1.1 member
    · exact outside (by simp [List.mem_singleton.mp member])
  rw [unlink_eq differs]
  clear ends
  induction front generalizing first with
  | nil =>
    obtain ⟨leads, returns, rest⟩ := chain
    simp only [List.nil_append, returns]
    simp only [List.nil_append, List.nodup_cons, List.mem_cons, not_or] at nodup outside
    cases back with
    | nil =>
      obtain ⟨on, off⟩ := rest
      simp [Chain, on]
    | cons second tail =>
      obtain ⟨on, off, others⟩ := rest
      simp only [Chain, on, update_self, true_and]
      simp only [List.nodup_cons, List.mem_cons, not_or] at nodup outside
      refine chain_congr others ?_ ?_
      · intro other member
        refine update_of_ne ?_ ..
        rintro rfl
        rcases List.mem_cons.mp member with rfl | member
        · exact nodup.1.2.1 rfl
        · exact nodup.1.2.2 member
      · intro other member
        refine update_of_ne ?_ ..
        rintro rfl
        rcases List.mem_append.mp member with member | member
        · exact nodup.2.2.1 member
        · exact outside.2.1 (List.mem_singleton.mp member).symm
  | cons second tail induction =>
    obtain ⟨leads, returns, rest⟩ := chain
    simp only [List.cons_append, List.nodup_cons, List.mem_cons, not_or] at nodup outside
    have later := (chain_ends (chain_append.mp rest).1).2
    refine ⟨?_, ?_, induction rest ?_ ?_ later⟩
    · rw [← leads]
      refine update_of_ne ?_ ..
      rintro rfl
      rcases List.mem_cons.mp later with same | member
      · exact nodup.1.1 same
      · exact nodup.1.2 (List.mem_append_left _ member)
    · rw [← returns]
      refine update_of_ne ?_ ..
      rintro rfl
      rcases List.mem_append.mp ahead with member | member
      · exact nodup.2.1 (List.mem_append_right _ (.tail _ member))
      · exact outside.1 (List.mem_singleton.mp member).symm
    · rw [List.nodup_cons]
      exact nodup.2
    · exact outside.2

theorem Holds.unlink (holds : Holds links head (front ++ node :: back)) :
    Holds (links.unlink node) head (front ++ back) := by
  refine ⟨chain_unlink holds.chain holds.nodup
    (List.nodup_cons.mp holds.nodup).1, holds.nodup.sublist ?_⟩
  exact .cons_cons _ ((List.Sublist.refl front).append (List.sublist_cons_self ..))

theorem Holds.insert (holds : Holds links head order) (fresh : node ∉ head :: order) :
    Holds (links.insert head node) head (node :: order) := by
  simp only [List.mem_cons, not_or] at fresh
  obtain ⟨chain, nodup⟩ := holds
  have outside := (List.nodup_cons.mp nodup).1
  have ahead := (chain_ends chain).1
  have elsewhere : links.next head ≠ node := by
    rintro rfl
    rcases List.mem_append.mp ahead with member | member
    · exact fresh.2 member
    · exact fresh.1 (List.mem_singleton.mp member)
  have changed : links.insert head node =
      { next := update (update links.next node (links.next head)) head node
        prev := update (update links.prev node head) (links.next head) node } := by
    simp [Links.insert, Links.setNext, Links.setPrev, update_of_ne (Ne.symm fresh.1)]
  refine ⟨?_, ?_⟩
  · rw [changed]
    refine ⟨update_self .., ?_, ?_⟩
    · exact (update_of_ne elsewhere.symm ..).trans (update_self ..)
    · cases order with
      | nil =>
        simp [Chain, chain.1, update_of_ne fresh.1]
      | cons first rest =>
        obtain ⟨leads, _, others⟩ := chain
        refine ⟨?_, ?_, chain_congr others ?_ ?_⟩
        · exact ((update_of_ne fresh.1 ..).trans (update_self ..)).trans leads
        · rw [← leads]
          exact update_self ..
        · intro other member
          refine (update_of_ne ?_ ..).trans (update_of_ne ?_ ..)
          · rintro rfl
            exact outside member
          · rintro rfl
            exact fresh.2 member
        · intro other member
          refine (update_of_ne ?_ ..).trans (update_of_ne ?_ ..)
          rotate_left
          · rintro rfl
            rcases List.mem_append.mp member with member | member
            · exact fresh.2 (.tail _ member)
            · exact fresh.1 (List.mem_singleton.mp member)
          · rw [leads]
            rintro rfl
            rcases List.mem_append.mp member with member | member
            · exact (List.nodup_cons.mp (List.nodup_cons.mp nodup).2).1 member
            · exact outside (List.mem_singleton.mp member ▸ .head _)
  · simp only [List.nodup_cons, List.mem_cons, not_or] at nodup ⊢
    exact ⟨⟨Ne.symm fresh.1, outside⟩, fresh.2, nodup.2⟩

end Change

end Ring

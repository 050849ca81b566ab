import Mathlib.Data.List.Induction
import Mathlib.Order.Nat

/-! Trees that are kept in a store: a node has an entry for each index, and an
entry may lead to another node. The paths up to a depth lead to different
nodes. -/

namespace RadixTree

variable {Node Index Entry : Type} (child : Entry → Option Node)

def descend (store : Node → Index → Entry) (root : Node) : List Index → Option Node
  | [] => some root
  | index :: rest => (child (store root index)).bind fun node =>
    descend store node rest

structure Tree (depth : Nat) (store : Node → Index → Entry) (root : Node) : Prop where
  distinct : ∀ {path other node}, path.length ≤ depth →
    other.length ≤ depth → descend child store root path = some node →
      descend child store root other = some node → path = other

def Within (depth : Nat) (store : Node → Index → Entry) (root node : Node) : Prop :=
  ∃ path, path.length ≤ depth ∧ descend child store root path = some node

/-- An entry of the nodes at the end of the paths. -/
def lookup (store : Node → Index → Entry) (root : Node)
    (path : List Index) (index : Index) : Option Entry :=
  (descend child store root path).map fun node => store node index

variable {child} {depth : Nat} {store changed : Node → Index → Entry}
  {root target fresh node : Node} {path other : List Index} {index : Index}

theorem descend_append (path other : List Index) :
    descend child store root (path ++ other) = (descend child store root path).bind fun node =>
      descend child store node other := by
  induction path generalizing root with
  | nil => rfl
  | cons index rest induction =>
    rw [List.cons_append, descend, descend, Option.bind_assoc]
    exact congrArg _ (funext fun node => induction)

theorem descend_concat (path : List Index) (index : Index) :
    descend child store root (path ++ [index]) =
      (descend child store root path).bind fun node => child (store node index) := by
  rw [descend_append]
  refine congrArg _ (funext fun node => ?_)
  rw [descend]
  exact Option.bind_fun_some _

theorem descend_congr (same : ∀ {front last node}, front ++ [last] <+: other →
      descend child store root front = some node → child (changed node last) =
      child (store node last)) :
    descend child changed root other = descend child store root other := by
  induction other using List.reverseRecOn with
  | nil => rfl
  | append_singleton front last induction =>
    have before := induction fun starts =>
      same (starts.trans (List.prefix_append ..))
    rw [descend_concat, descend_concat, before]
    cases reached : descend child store root front with
    | none => rfl
    | some node => exact same (List.prefix_refl _) reached

theorem length_le_of_starts (starts : front ++ [last] <+: other) (short : other.length ≤ depth) :
    front.length ≤ depth := by
  have length := starts.length_le
  rw [List.length_append, List.length_singleton] at length
  exact (Nat.le_of_succ_le length).trans short

/-! The trees below the root. -/

theorem within_root : Within child depth store root root :=
  ⟨[], Nat.zero_le _, rfl⟩

theorem within_succ :
    Within child (depth + 1) store root node ↔ node = root ∨ ∃ index next,
      child (store root index) = some next ∧ Within child depth store next node := by
  constructor
  · rintro ⟨path, short, reached⟩
    cases path with
    | nil => exact .inl (Option.some.inj reached).symm
    | cons index rest =>
      obtain ⟨next, link, reached⟩ := Option.bind_eq_some_iff.mp reached
      exact .inr ⟨index, next, link, rest, Nat.le_of_succ_le_succ short, reached⟩
  · rintro (rfl | ⟨index, next, link, rest, short, reached⟩)
    · exact within_root
    · refine ⟨index :: rest, Nat.succ_le_succ short, ?_⟩
      rw [descend, link]
      exact reached

section Below

variable {next last : Node} {other : Index} (tree : Tree child (depth + 1) store root)
  (link : child (store root index) = some next)

theorem descend_below (rest : List Index) (link : child (store root index) = some next) :
    descend child store root (index :: rest) = descend child store next rest := by
  rw [descend, link]
  rfl

include tree link

theorem Tree.below : Tree child depth store next where
  distinct := fun {path other node} short bound first second => by
    rw [← descend_below path link] at first
    rw [← descend_below other link] at second
    exact (List.cons.inj (tree.distinct (Nat.succ_le_succ short)
      (Nat.succ_le_succ bound) first second)).2

theorem Tree.root_apart : ¬Within child depth store next root := by
  rintro ⟨path, short, reached⟩
  rw [← descend_below path link] at reached
  have same := @Tree.distinct _ _ _ _ _ _ _ tree (index :: path) [] root
    (Nat.succ_le_succ short) (Nat.zero_le _) reached rfl
  cases same

theorem Tree.disjoint (theirs : child (store root other) = some last)
    (inNext : Within child depth store next node) (inLast : Within child depth store last node) :
    index = other := by
  obtain ⟨path, short, reached⟩ := inNext
  obtain ⟨rest, bound, found⟩ := inLast
  rw [← descend_below path link] at reached
  rw [← descend_below rest theirs] at found
  exact (List.cons.inj (tree.distinct (Nat.succ_le_succ short)
    (Nat.succ_le_succ bound) reached found)).1

end Below

/-! A change outside the tree. -/

section Outside

variable (same : ∀ {node index}, Within child depth store root node →
  changed node index = store node index)

include same

theorem outside_descend (short : other.length ≤ depth) :
    descend child changed root other = descend child store root other :=
  descend_congr fun {front _ _} starts reached => congrArg child
    (same ⟨front, length_le_of_starts starts short, reached⟩)

theorem outside_tree (tree : Tree child depth store root) : Tree child depth changed root where
  distinct := fun bound short first second => by
    rw [outside_descend same bound] at first
    rw [outside_descend same short] at second
    exact tree.distinct bound short first second

theorem outside_within :
    Within child depth changed root node ↔ Within child depth store root node := by
  refine exists_congr fun other => and_congr_right fun short => ?_
  rw [outside_descend same short]

theorem outside_lookup (short : other.length ≤ depth) :
    lookup child changed root other index = lookup child store root other index := by
  rw [lookup, lookup, outside_descend same short]
  cases reached : descend child store root other with
  | none => rfl
  | some node => exact congrArg some (same ⟨other, short, reached⟩)

end Outside

/-- The stores agree on the tree, but for one entry. -/
def Differs (child : Entry → Option Node) (depth : Nat)
    (store changed : Node → Index → Entry) (root target : Node) (index : Index) : Prop :=
  ∀ {node other}, Within child depth store root node →
    ¬(node = target ∧ other = index) → changed node other = store node other

theorem Differs.descend_eq (differs : Differs child depth store changed root target index)
    (tree : Tree child depth store root) (bound : path.length ≤ depth)
    (found : descend child store root path = some target) (short : other.length ≤ depth)
    (avoids : ¬path ++ [index] <+: other) :
    descend child changed root other = descend child store root other := by
  refine descend_congr fun {front last node} starts reached => ?_
  have within := length_le_of_starts starts short
  refine congrArg child (differs ⟨front, within, reached⟩ ?_)
  rintro ⟨rfl, rfl⟩
  rw [tree.distinct within bound reached found] at starts
  exact avoids starts

theorem not_prefix_of_length (small : other.length ≤ path.length) : ¬path ++ [index] <+: other := by
  intro starts
  have length := starts.length_le
  rw [List.length_append, List.length_singleton] at length
  exact absurd (length.trans small) (Nat.not_succ_le_self _)

/-! A change to an entry at the end of the tree. -/

section Write

variable (differs : Differs child path.length store changed root target index)
  (tree : Tree child path.length store root) (found : descend child store root path = some target)

include differs tree found

theorem write_descend (short : other.length ≤ path.length) :
    descend child changed root other = descend child store root other :=
  differs.descend_eq tree le_rfl found short (not_prefix_of_length short)

theorem write_tree : Tree child path.length changed root where
  distinct := fun bound short first second => by
    rw [write_descend differs tree found bound] at first
    rw [write_descend differs tree found short] at second
    exact tree.distinct bound short first second

theorem write_within :
    Within child path.length changed root node ↔ Within child path.length store root node := by
  refine exists_congr fun other => and_congr_right fun short => ?_
  rw [write_descend differs tree found short]

theorem write_lookup_self : lookup child changed root path index = some (changed target index) := by
  rw [lookup, write_descend differs tree found le_rfl, found]
  rfl

theorem write_lookup (short : other.length ≤ path.length) (apart : ¬(other = path ∧ last = index)) :
    lookup child changed root other last = lookup child store root other last := by
  rw [lookup, lookup, write_descend differs tree found short]
  cases reached : descend child store root other with
  | none => rfl
  | some node =>
    refine congrArg some (differs ⟨other, short, reached⟩ ?_)
    rintro ⟨rfl, rfl⟩
    exact apart ⟨tree.distinct short le_rfl reached found, rfl⟩

end Write

/-! A new node without children. -/

section Link

variable (differs : Differs child depth store changed root target index)
  (tree : Tree child depth store root) (bound : path.length < depth)
  (found : descend child store root path = some target) (absent : child (store target index) = none)
  (linked : child (changed target index) = some fresh)
  (apart : ¬Within child depth store root fresh) (empty : ∀ last, child (changed fresh last) = none)

include differs tree bound found linked

theorem link_descend_self : descend child changed root (path ++ [index]) = some fresh := by
  rw [descend_concat, differs.descend_eq tree bound.le found bound.le
    (not_prefix_of_length le_rfl), found]
  exact linked

include absent empty

theorem link_descend (short : other.length ≤ depth) (differ : other ≠ path ++ [index]) :
    descend child changed root other = descend child store root other := by
  by_cases passes : path ++ [index] <+: other
  · obtain ⟨rest, rfl⟩ := passes
    have old : descend child store root (path ++ [index]) = none := by
      rw [descend_concat, found]
      exact absent
    rw [descend_append, link_descend_self differs tree bound found linked,
      descend_append (path ++ [index]), old]
    cases rest with
    | nil => exact (differ (List.append_nil _)).elim
    | cons last rest =>
      change (child (changed fresh last)).bind _ = none
      rw [empty last]
      rfl
  · exact differs.descend_eq tree bound.le found short passes

theorem link_within :
    Within child depth changed root node ↔ Within child depth store root node ∨ node = fresh := by
  have self := link_descend_self differs tree bound found linked
  constructor
  · rintro ⟨other, short, reached⟩
    by_cases same : other = path ++ [index]
    · rw [same, self] at reached
      exact .inr (Option.some.inj reached).symm
    · rw [link_descend differs tree bound found absent linked empty short same] at reached
      exact .inl ⟨other, short, reached⟩
  · rintro (⟨other, short, reached⟩ | rfl)
    · refine ⟨other, short, ?_⟩
      rw [link_descend differs tree bound found absent linked empty short]
      · exact reached
      · rintro rfl
        rw [descend_concat, found] at reached
        cases absent.symm.trans reached
    · refine ⟨path ++ [index], ?_, self⟩
      rw [List.length_append, List.length_singleton]
      exact bound

include apart

theorem link_tree : Tree child depth changed root where
  distinct := fun {first second node} shortFirst shortSecond reachedFirst reachedSecond => by
    have self := link_descend_self differs tree bound found linked
    have old : ∀ {other}, other.length ≤ depth → other ≠ path ++ [index] →
        descend child changed root other = some node →
          descend child store root other = some node := by
      intro other short differ reached
      rw [← link_descend differs tree bound found absent linked empty short differ]
      exact reached
    by_cases isFirst : first = path ++ [index]
    · by_cases isSecond : second = path ++ [index]
      · rw [isFirst, isSecond]
      · rw [isFirst, self] at reachedFirst
        cases reachedFirst
        exact (apart ⟨second, shortSecond, old shortSecond isSecond reachedSecond⟩).elim
    · by_cases isSecond : second = path ++ [index]
      · rw [isSecond, self] at reachedSecond
        cases reachedSecond
        exact (apart ⟨first, shortFirst, old shortFirst isFirst reachedFirst⟩).elim
      · exact tree.distinct shortFirst shortSecond (old shortFirst isFirst reachedFirst)
          (old shortSecond isSecond reachedSecond)

end Link

end RadixTree

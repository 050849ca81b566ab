import Mathlib.Algebra.Order.BigOperators.Group.Finset
import Mathlib.Data.Multiset.Count
import Xv6Lottery.Lib.Tally

/-! Directories as a graph: links from directories to nodes, a pointer from
each directory back to the one that holds it, and a reference count that
covers both. -/

namespace LinkGraph

open Function

inductive Kind where
  | free
  | dir
  | leaf
  deriving DecidableEq

@[ext] structure DirGraph (Node : Type) where
  kind : Node → Kind
  links : Node → Multiset Node
  up : Node → Option Node
  count : Node → ℕ

namespace DirGraph

variable {Node : Type} [DecidableEq Node]

def named (graph : DirGraph Node) (nodes : Finset Node) (node : Node) : ℕ :=
  ∑ dir ∈ nodes, (graph.links dir).count node

def subdirs (graph : DirGraph Node) (dir : Node) : ℕ :=
  (graph.links dir).countP (graph.kind · = .dir)

def Detached (graph : DirGraph Node) (nodes : Finset Node) (root dir : Node) :
    Prop :=
  graph.kind dir = .dir ∧ dir ≠ root ∧ graph.named nodes dir = 0

/-- The count of a directory is exact: the link to it and the pointers back
from the directories linked in it. The count of a leaf is an upper bound. -/
structure Sound (graph : DirGraph Node) (nodes : Finset Node) (root : Node) : Prop where
  root_dir : graph.kind root = .dir
  root_up : graph.up root = some root
  root_named : graph.named nodes root = 0
  mem_nodes : ∀ {node}, graph.kind node ≠ .free → node ∈ nodes
  bare : ∀ {node}, graph.kind node ≠ .dir → graph.links node = 0
  linked : ∀ {dir node}, node ∈ graph.links dir → graph.kind node ≠ .free
  child : ∀ {dir node}, node ∈ graph.links dir → graph.kind node = .dir →
    graph.up node = some dir ∧ graph.named nodes node = 1
  dir_count : ∀ {dir}, graph.kind dir = .dir → graph.count dir =
      graph.named nodes dir + graph.subdirs dir + if dir = root then 1 else 0
  leaf_count : ∀ {node}, graph.kind node = .leaf → graph.named nodes node ≤ graph.count node

/-- A detached directory points back to one that is still in place. -/
def Anchored (graph : DirGraph Node) (nodes : Finset Node) (root dir : Node) :
    Prop :=
  graph.Detached nodes root dir → ∃ parent, graph.up dir = some parent ∧ graph.kind parent = .dir ∧
      ¬graph.Detached nodes root parent

/-- Detached directories are empty, and leaves have exact counts. -/
structure Tidy (graph : DirGraph Node) (nodes : Finset Node) (root : Node) : Prop where
  empty : ∀ {dir}, graph.Detached nodes root dir → graph.links dir = 0
  leaf_exact : ∀ {node}, graph.kind node = .leaf → graph.named nodes node = graph.count node

/-! The operations. -/

def attach (graph : DirGraph Node) (parent node : Node) (kind : Kind) : DirGraph Node where
  kind := update graph.kind node kind
  links := update graph.links parent (node ::ₘ graph.links parent)
  up := if kind = .dir then update graph.up node (some parent)
    else graph.up
  count := update (if kind = .dir then
      update graph.count parent (graph.count parent + 1)
    else graph.count) node 1

def link (graph : DirGraph Node) (parent node : Node) : DirGraph Node where
  kind := graph.kind
  links := update graph.links parent (node ::ₘ graph.links parent)
  up := graph.up
  count := update graph.count node (graph.count node + 1)

def detach (graph : DirGraph Node) (parent node : Node) : DirGraph Node where
  kind := graph.kind
  links := update graph.links parent ((graph.links parent).erase node)
  up := graph.up
  count := update (if graph.kind node = .dir then
      update graph.count parent (graph.count parent - 1)
    else graph.count) node (graph.count node - 1)

def release (graph : DirGraph Node) (node : Node) : DirGraph Node where
  kind := update graph.kind node .free
  links := update graph.links node 0
  up := update graph.up node none
  count := update graph.count node 0

def drop (graph : DirGraph Node) (refs : Multiset Node) (node : Node) : DirGraph Node :=
  if node ∉ refs ∧ graph.count node = 0 then graph.release node else graph

def unlink (graph : DirGraph Node) (refs : Multiset Node) (parent gone : Node) : DirGraph Node :=
  ((graph.detach parent gone).drop (gone ::ₘ refs) parent).drop refs gone

/-- Nodes in use given up, one after the other. -/
inductive Dropped (graph : DirGraph Node) : DirGraph Node → Prop
  | refl : Dropped graph graph
  | drop : Dropped graph later → later.kind node ≠ .free →
      (refs : Multiset Node) → Dropped graph (later.drop refs node)

variable {graph : DirGraph Node} {nodes : Finset Node} {root : Node}

theorem named_eq_zero : graph.named nodes node = 0 ↔ ∀ dir ∈ nodes, node ∉ graph.links dir := by
  simp [named, Finset.sum_eq_zero_iff, Multiset.count_eq_zero]

theorem exists_link (linked : graph.named nodes node ≠ 0) :
    ∃ dir ∈ nodes, node ∈ graph.links dir := by
  obtain ⟨dir, member, positive⟩ := Finset.exists_ne_zero_of_sum_ne_zero linked
  exact ⟨dir, member, Multiset.count_ne_zero.mp positive⟩

section

variable (sound : graph.Sound nodes root)

include sound

theorem Sound.mem_of_link
    (link : node ∈ graph.links dir) : dir ∈ nodes := by
  refine sound.mem_nodes ?_
  intro unused
  rw [sound.bare (by rw [unused]; nofun)] at link
  exact absurd link (Multiset.notMem_zero _)

theorem Sound.dir_of_link
    (link : node ∈ graph.links dir) : graph.kind dir = .dir := by
  by_contra other
  rw [sound.bare other] at link
  exact absurd link (Multiset.notMem_zero _)

theorem Sound.named_pos
    (link : node ∈ graph.links dir) : graph.named nodes node ≠ 0 := by
  intro zero
  exact named_eq_zero.mp zero dir (sound.mem_of_link link) link

theorem Sound.named_free
    (unused : graph.kind node = .free) : graph.named nodes node = 0 := by
  rw [named_eq_zero]
  intro dir _ link
  exact sound.linked link unused

end

/-- The one sum that every operation on links changes. -/
theorem named_update (links : Node → Multiset Node) (member : parent ∈ nodes)
    (changed : Multiset Node) (node : Node) :
    ∑ dir ∈ nodes, (update links parent changed dir).count node + (links parent).count node =
      ∑ dir ∈ nodes, (links dir).count node + changed.count node :=
  Tally.sum_update nodes (Multiset.count node) links member changed

theorem named_cons (links : Node → Multiset Node) (member : parent ∈ nodes) (added node : Node) :
    ∑ dir ∈ nodes, (update links parent (added ::ₘ links parent) dir).count node = ∑ dir ∈ nodes,
      (links dir).count node + if node = added then 1 else 0 := by
  have sum := named_update links member (added ::ₘ links parent) node
  rw [Multiset.count_cons] at sum
  omega

omit [DecidableEq Node] in
theorem subdirs_congr {other : DirGraph Node} (links : other.links dir = graph.links dir)
    (kind : ∀ node ∈ graph.links dir, other.kind node = graph.kind node) :
    other.subdirs dir = graph.subdirs dir := by
  unfold subdirs
  rw [links]
  refine Multiset.countP_congr rfl fun node member => ?_
  rw [kind node member]

omit [DecidableEq Node] in
theorem not_dir_of_subdirs (zero : graph.subdirs dir = 0)
    (link : node ∈ graph.links dir) : graph.kind node ≠ .dir := by
  intro isDir
  have positive : 0 < graph.subdirs dir :=
    Multiset.countP_pos.mpr ⟨node, link, isDir⟩
  omega

omit [DecidableEq Node] in
theorem ne_of_free (used : graph.kind node ≠ .free) (unused : graph.kind fresh = .free) :
    node ≠ fresh := by
  rintro rfl
  exact used unused

/-! A fresh node. -/

section Attach

variable {parent fresh : Node} {kind : Kind}

theorem attach_kind_fresh : (graph.attach parent fresh kind).kind fresh = kind :=
  update_self ..

theorem attach_kind (differs : node ≠ fresh) :
    (graph.attach parent fresh kind).kind node = graph.kind node :=
  update_of_ne differs ..

theorem attach_up (differs : node ≠ fresh) :
    (graph.attach parent fresh kind).up node = graph.up node := by
  unfold attach
  dsimp only
  split
  · exact update_of_ne differs ..
  · rfl

theorem attach_up_fresh (makesDir : kind = .dir) :
    (graph.attach parent fresh kind).up fresh = some parent := by
  unfold attach
  dsimp only
  rw [if_pos makesDir, update_self]

theorem mem_attach_links :
    node ∈ (graph.attach parent fresh kind).links dir ↔ dir = parent ∧ node = fresh ∨
      node ∈ graph.links dir := by
  unfold attach
  dsimp only
  by_cases same : dir = parent
  · subst same
    simp
  · simp [same]

theorem attach_count (differs : node ≠ fresh) :
    (graph.attach parent fresh kind).count node = graph.count node + if node = parent ∧ kind =
      .dir then 1 else 0 := by
  unfold attach
  dsimp only
  rw [update_of_ne differs]
  by_cases makesDir : kind = .dir
  · by_cases same : node = parent
    · simp [makesDir, same]
    · simp [makesDir, same]
  · simp [makesDir]

theorem attach_count_fresh : (graph.attach parent fresh kind).count fresh = 1 :=
  update_self ..

variable (sound : graph.Sound nodes root) (isDir : graph.kind parent = .dir)
  (unused : graph.kind fresh = .free)

include sound isDir

theorem attach_named (node : Node) :
    (graph.attach parent fresh kind).named nodes node = graph.named nodes node + if node =
      fresh then 1 else 0 :=
  named_cons graph.links (sound.mem_nodes (by rw [isDir]; nofun : graph.kind parent ≠ _)) fresh
    node

include unused

theorem attach_subdirs (dir : Node) :
    (graph.attach parent fresh kind).subdirs dir = graph.subdirs dir + if dir = parent ∧ kind =
      .dir then 1 else 0 := by
  have old : ∀ {dir}, ∀ node ∈ graph.links dir,
      (graph.attach parent fresh kind).kind node = graph.kind node :=
    fun node link => attach_kind (ne_of_free (sound.linked link) unused)
  by_cases same : dir = parent
  · subst same
    unfold subdirs
    rw [show (graph.attach dir fresh kind).links dir =
      fresh ::ₘ graph.links dir from update_self .., Multiset.countP_cons, attach_kind_fresh]
    refine congrArg₂ (· + ·) ?_ (by simp)
    refine Multiset.countP_congr rfl fun node member => ?_
    rw [old node member]
  · rw [subdirs_congr (update_of_ne same ..) old, if_neg (fun both => same both.1), Nat.add_zero]

theorem attach_detached (detached : (graph.attach parent fresh kind).Detached nodes root dir) :
    dir ≠ fresh ∧ graph.Detached nodes root dir := by
  obtain ⟨dirKind, notRoot, unnamed⟩ := detached
  rw [attach_named sound isDir] at unnamed
  have old : dir ≠ fresh := by
    rintro rfl
    simp at unnamed
  rw [attach_kind old] at dirKind
  exact ⟨old, dirKind, notRoot, by omega⟩

theorem Sound.attach (inside : fresh ∈ nodes) (used : kind ≠ .free) :
    (graph.attach parent fresh kind).Sound nodes root := by
  have apart := ne_of_free (by rw [isDir]; nofun : graph.kind parent ≠ _)
    unused
  have rootApart := ne_of_free (by rw [sound.root_dir]; nofun : graph.kind root ≠ _) unused
  exact {
    root_dir := (attach_kind rootApart).trans sound.root_dir
    root_up := (attach_up rootApart).trans sound.root_up
    root_named := by
      rw [attach_named sound isDir, sound.root_named, if_neg rootApart]
    mem_nodes := by
      intro node live
      by_cases same : node = fresh
      · rw [same]
        exact inside
      · rw [attach_kind same] at live
        exact sound.mem_nodes live
    bare := by
      intro node other
      have outside : node ≠ parent := by
        rintro rfl
        rw [attach_kind apart] at other
        exact other isDir
      refine (update_of_ne outside ..).trans (sound.bare ?_)
      by_cases same : node = fresh
      · rw [same, unused]
        nofun
      · rw [attach_kind same] at other
        exact other
    linked := by
      intro dir node link
      by_cases same : node = fresh
      · rw [same, attach_kind_fresh]
        exact used
      · rw [attach_kind same]
        rcases mem_attach_links.mp link with ⟨_, added⟩ | old
        · exact absurd added same
        · exact sound.linked old
    child := by
      intro dir node link dirKind
      rw [attach_named sound isDir]
      rcases mem_attach_links.mp link with ⟨rfl, rfl⟩ | old
      · rw [attach_kind_fresh] at dirKind
        rw [attach_up_fresh dirKind, sound.named_free unused, if_pos rfl]
        exact ⟨rfl, rfl⟩
      · have same := ne_of_free (sound.linked old) unused
        rw [attach_kind same] at dirKind
        rw [attach_up same, if_neg same]
        exact sound.child old dirKind
    dir_count := by
      intro dir dirKind
      rw [attach_named sound isDir, attach_subdirs sound isDir unused]
      by_cases same : dir = fresh
      · subst same
        have empty : graph.subdirs dir = 0 := by
          unfold subdirs
          rw [sound.bare (by rw [unused]; nofun), Multiset.countP_zero]
        rw [attach_count_fresh, sound.named_free unused, empty, if_pos rfl,
          if_neg fun both => apart both.1.symm, if_neg (Ne.symm rootApart)]
      · rw [attach_kind same] at dirKind
        rw [attach_count same, sound.dir_count dirKind, if_neg same]
        omega
    leaf_count := by
      intro node leaf
      rw [attach_named sound isDir]
      by_cases same : node = fresh
      · rw [same, attach_count_fresh, sound.named_free unused, if_pos rfl]
      · rw [attach_kind same] at leaf
        rw [attach_count same, if_neg same]
        exact Nat.le_add_right_of_le (sound.leaf_count leaf) }

theorem Anchored.attach (anchored : graph.Anchored nodes root dir) :
    (graph.attach parent fresh kind).Anchored nodes root dir := by
  intro detached
  obtain ⟨old, before⟩ := attach_detached sound isDir unused detached
  obtain ⟨above, up, aboveDir, placed⟩ := anchored before
  have apart := ne_of_free (by rw [aboveDir]; nofun : graph.kind above ≠ _)
    unused
  exact ⟨above, (attach_up old).trans up, (attach_kind apart).trans aboveDir,
    fun later => placed (attach_detached sound isDir unused later).2⟩

theorem Tidy.attach (tidy : graph.Tidy nodes root) (placed : ¬graph.Detached nodes root parent) :
    (graph.attach parent fresh kind).Tidy nodes root where
  empty := by
    intro dir detached
    obtain ⟨_, before⟩ := attach_detached sound isDir unused detached
    have outside : dir ≠ parent := by
      rintro rfl
      exact placed before
    exact (update_of_ne outside ..).trans (tidy.empty before)
  leaf_exact := by
    intro node leaf
    rw [attach_named sound isDir]
    by_cases same : node = fresh
    · rw [same, attach_count_fresh, sound.named_free unused, if_pos rfl]
    · rw [attach_kind same] at leaf
      have outside : node ≠ parent := by
        rintro rfl
        cases isDir.symm.trans leaf
      rw [attach_count same, if_neg same, if_neg fun both => outside both.1, tidy.leaf_exact leaf]

end Attach

/-! One more link to a leaf. -/

section Link

variable {parent leaf : Node} (sound : graph.Sound nodes root)
  (isDir : graph.kind parent = .dir) (isLeaf : graph.kind leaf = .leaf)

theorem mem_link_links :
    node ∈ (graph.link parent leaf).links dir ↔ dir = parent ∧ node = leaf ∨
      node ∈ graph.links dir := by
  unfold link
  dsimp only
  by_cases same : dir = parent
  · subst same
    simp
  · simp [same]

theorem link_count (node : Node) :
    (graph.link parent leaf).count node = graph.count node + if node = leaf then 1 else 0 := by
  unfold link
  dsimp only
  by_cases same : node = leaf
  · simp [same]
  · simp [same]

include sound isDir

theorem link_named (node : Node) :
    (graph.link parent leaf).named nodes node = graph.named nodes node + if node =
      leaf then 1 else 0 :=
  named_cons graph.links (sound.mem_nodes (by rw [isDir]; nofun : graph.kind parent ≠ _)) leaf
    node

include isLeaf

omit [DecidableEq Node] sound isDir in
theorem dir_ne_leaf (dirKind : graph.kind dir = .dir) : dir ≠ leaf := by
  rintro rfl
  cases dirKind.symm.trans isLeaf

omit sound isDir in
theorem link_subdirs (dir : Node) : (graph.link parent leaf).subdirs dir = graph.subdirs dir := by
  by_cases same : dir = parent
  · subst same
    unfold subdirs
    rw [show (graph.link dir leaf).links dir = leaf ::ₘ graph.links dir from update_self ..]
    refine Multiset.countP_cons_of_neg _ ?_
    rw [show (graph.link dir leaf).kind leaf = .leaf from isLeaf]
    nofun
  · exact subdirs_congr (update_of_ne same ..) fun _ _ => rfl

theorem link_detached :
    (graph.link parent leaf).Detached nodes root dir ↔ graph.Detached nodes root dir := by
  refine and_congr_right fun dirKind => and_congr_right fun _ => ?_
  rw [link_named sound isDir, if_neg (dir_ne_leaf isLeaf dirKind), Nat.add_zero]

theorem Sound.link : (graph.link parent leaf).Sound nodes root where
  root_dir := sound.root_dir
  root_up := sound.root_up
  root_named := by
    rw [link_named sound isDir, sound.root_named, if_neg (dir_ne_leaf isLeaf sound.root_dir)]
  mem_nodes := sound.mem_nodes
  bare := by
    intro node other
    have outside : node ≠ parent := by
      rintro rfl
      exact other isDir
    exact (update_of_ne outside ..).trans (sound.bare other)
  linked := by
    intro dir node link
    rcases mem_link_links.mp link with ⟨_, rfl⟩ | old
    · rw [show (graph.link parent node).kind node = .leaf from isLeaf]
      nofun
    · exact sound.linked old
  child := by
    intro dir node link dirKind
    have differs := dir_ne_leaf isLeaf dirKind
    rw [link_named sound isDir, if_neg differs]
    rcases mem_link_links.mp link with ⟨_, added⟩ | old
    · exact absurd added differs
    · exact sound.child old dirKind
  dir_count := by
    intro dir dirKind
    have differs := dir_ne_leaf isLeaf dirKind
    rw [link_named sound isDir, link_subdirs isLeaf, link_count, if_neg differs]
    exact sound.dir_count dirKind
  leaf_count := by
    intro node leafKind
    rw [link_named sound isDir, link_count]
    exact Nat.add_le_add_right (sound.leaf_count leafKind) _

theorem Anchored.link (anchored : graph.Anchored nodes root dir) :
    (graph.link parent leaf).Anchored nodes root dir := by
  intro detached
  obtain ⟨above, up, aboveDir, placed⟩ :=
    anchored ((link_detached sound isDir isLeaf).mp detached)
  exact ⟨above, up, aboveDir, fun later =>
    placed ((link_detached sound isDir isLeaf).mp later)⟩

theorem Tidy.link (tidy : graph.Tidy nodes root) (placed : ¬graph.Detached nodes root parent) :
    (graph.link parent leaf).Tidy nodes root where
  empty := by
    intro dir detached
    have before := (link_detached sound isDir isLeaf).mp detached
    have outside : dir ≠ parent := by
      rintro rfl
      exact placed before
    exact (update_of_ne outside ..).trans (tidy.empty before)
  leaf_exact := by
    intro node leafKind
    rw [link_named sound isDir, link_count, tidy.leaf_exact leafKind]

end Link

/-! A link removed. A directory loses its link only when it is empty. -/

section Detach

variable {parent gone : Node}

theorem mem_of_detach_links (link : node ∈ (graph.detach parent gone).links dir) :
    node ∈ graph.links dir := by
  unfold detach at link
  dsimp only at link
  by_cases same : dir = parent
  · subst same
    rw [update_self] at link
    exact Multiset.mem_of_mem_erase link
  · rw [update_of_ne same] at link
    exact link

theorem detach_count_gone : (graph.detach parent gone).count gone = graph.count gone - 1 :=
  update_self ..

theorem detach_count (differs : node ≠ gone) :
    (graph.detach parent gone).count node = graph.count node - if node = parent ∧ graph.kind gone =
      .dir then 1 else 0 := by
  unfold detach
  dsimp only
  rw [update_of_ne differs]
  by_cases isDir : graph.kind gone = .dir
  · by_cases same : node = parent
    · simp [isDir, same]
    · simp [isDir, same]
  · simp [isDir]

variable (sound : graph.Sound nodes root) (link : gone ∈ graph.links parent)
  (empty : graph.kind gone = .dir → graph.links gone = 0)

include sound link

theorem detach_named (node : Node) :
    (graph.detach parent gone).named nodes node + (if node = gone then 1 else 0) =
      graph.named nodes node := by
  have sum := named_update graph.links (sound.mem_of_link link)
    ((graph.links parent).erase gone) node
  have count := congrArg (Multiset.count node) (Multiset.cons_erase link)
  rw [Multiset.count_cons] at count
  unfold named detach
  dsimp only
  omega

omit sound in
theorem detach_subdirs (dir : Node) :
    (graph.detach parent gone).subdirs dir + (if dir = parent ∧ graph.kind gone =
        .dir then 1 else 0) = graph.subdirs dir := by
  by_cases same : dir = parent
  · subst same
    have count := congrArg (Multiset.countP (graph.kind · = .dir)) (Multiset.cons_erase link)
    rw [Multiset.countP_cons] at count
    unfold subdirs
    rw [show (graph.detach dir gone).links dir = (graph.links dir).erase gone from update_self ..]
    refine Eq.trans ?_ count
    refine congrArg₂ (· + ·) rfl (by simp)
  · rw [if_neg fun both => same both.1, Nat.add_zero]
    exact subdirs_congr (update_of_ne same ..) fun _ _ => rfl

theorem root_ne_gone : root ≠ gone := by
  rintro rfl
  exact sound.named_pos link sound.root_named

theorem detach_detached (differs : dir ≠ gone) :
    (graph.detach parent gone).Detached nodes root dir ↔ graph.Detached nodes root dir := by
  have named := detach_named sound link dir
  rw [if_neg differs, Nat.add_zero] at named
  unfold Detached
  rw [named]
  exact Iff.rfl

include empty

theorem parent_ne_gone : parent ≠ gone := by
  rintro rfl
  rw [empty (sound.dir_of_link link)] at link
  exact Multiset.notMem_zero _ link

theorem Sound.detach : (graph.detach parent gone).Sound nodes root := by
  have apart := parent_ne_gone sound link empty
  have named := detach_named sound link
  have subdirs := detach_subdirs link
  have rootApart := root_ne_gone sound link
  exact {
    root_dir := sound.root_dir
    root_up := sound.root_up
    root_named := by
      have total := named root
      rw [sound.root_named] at total
      omega
    mem_nodes := sound.mem_nodes
    bare := by
      intro node other
      have outside : node ≠ parent := by
        rintro rfl
        exact other (sound.dir_of_link link)
      exact (update_of_ne outside ..).trans (sound.bare other)
    linked := fun later => sound.linked (mem_of_detach_links later)
    child := by
      intro dir node later dirKind
      obtain ⟨up, one⟩ := sound.child (mem_of_detach_links later) dirKind
      refine ⟨up, ?_⟩
      have total := named node
      have differs : node ≠ gone := by
        rintro rfl
        -- its only link was the one removed
        rw [if_pos rfl] at total
        exact named_eq_zero.mp (by omega) dir
          (sound.mem_of_link (mem_of_detach_links later)) later
      rw [if_neg differs] at total
      omega
    dir_count := by
      intro dir dirKind
      have count := sound.dir_count dirKind
      have total := named dir
      have inner := subdirs dir
      by_cases same : dir = gone
      · subst same
        rw [detach_count_gone, if_neg (Ne.symm rootApart)]
        rw [if_neg (Ne.symm rootApart)] at count
        rw [if_pos rfl] at total
        rw [if_neg fun both => apart both.1.symm] at inner
        omega
      · rw [detach_count same]
        rw [if_neg same] at total
        omega
    leaf_count := by
      intro node leaf
      have bound := sound.leaf_count leaf
      have total := named node
      by_cases same : node = gone
      · subst same
        rw [detach_count_gone]
        rw [if_pos rfl] at total
        omega
      · have outside : node ≠ parent := by
          rintro rfl
          cases (sound.dir_of_link link).symm.trans leaf
        rw [detach_count same, if_neg fun both => outside both.1]
        rw [if_neg same] at total
        omega }

theorem Anchored.detach (anchored : graph.Anchored nodes root dir) (differs : dir ≠ gone)
    (spared : graph.Detached nodes root dir → graph.kind gone = .dir → graph.up dir ≠ some gone) :
    (graph.detach parent gone).Anchored nodes root dir := by
  intro detached
  have before := (detach_detached sound link differs).mp detached
  obtain ⟨above, up, aboveDir, placed⟩ := anchored before
  have apart : above ≠ gone := by
    rintro rfl
    exact spared before aboveDir up
  exact ⟨above, up, aboveDir, fun later =>
    placed ((detach_detached sound link apart).mp later)⟩

theorem anchored_gone (placed : ¬graph.Detached nodes root parent) :
    (graph.detach parent gone).Anchored nodes root gone := by
  intro detached
  obtain ⟨up, _⟩ := sound.child link detached.1
  have apart := parent_ne_gone sound link empty
  exact ⟨parent, up, sound.dir_of_link link, fun later =>
    placed ((detach_detached sound link apart).mp later)⟩

theorem Tidy.detach (tidy : graph.Tidy nodes root) :
    (graph.detach parent gone).Tidy nodes root where
  empty := by
    intro dir detached
    by_cases same : dir = gone
    · subst same
      have apart := parent_ne_gone sound link empty
      exact (update_of_ne apart.symm ..).trans (empty detached.1)
    · have none := tidy.empty ((detach_detached sound link same).mp detached)
      have outside : dir ≠ parent := by
        rintro rfl
        rw [none] at link
        exact Multiset.notMem_zero _ link
      exact (update_of_ne outside ..).trans none
  leaf_exact := by
    intro node leaf
    have exact' := tidy.leaf_exact leaf
    have total := detach_named sound link node
    by_cases same : node = gone
    · subst same
      rw [detach_count_gone]
      rw [if_pos rfl] at total
      omega
    · have outside : node ≠ parent := by
        rintro rfl
        cases (sound.dir_of_link link).symm.trans leaf
      rw [detach_count same, if_neg fun both => outside both.1]
      rw [if_neg same] at total
      omega

end Detach

/-! A node without references freed, with the links it holds. -/

section Release

variable {gone : Node} (sound : graph.Sound nodes root)
  (used : graph.kind gone ≠ .free) (zero : graph.count gone = 0)

theorem mem_of_release_links (link : node ∈ (graph.release gone).links dir) :
    dir ≠ gone ∧ node ∈ graph.links dir := by
  unfold release at link
  dsimp only at link
  by_cases same : dir = gone
  · subst same
    rw [update_self] at link
    exact absurd link (Multiset.notMem_zero _)
  · rw [update_of_ne same] at link
    exact ⟨same, link⟩

theorem release_kind (differs : node ≠ gone) : (graph.release gone).kind node = graph.kind node :=
  update_of_ne differs ..

theorem release_kind_gone : (graph.release gone).kind gone = .free :=
  update_self ..

include sound zero

theorem release_root : gone ≠ root := by
  rintro rfl
  have count := sound.dir_count sound.root_dir
  rw [if_pos rfl] at count
  omega

include used

theorem named_gone : graph.named nodes gone = 0 := by
  cases kind : graph.kind gone with
  | free => exact absurd kind used
  | dir =>
    have count := sound.dir_count kind
    omega
  | leaf =>
    have bound := sound.leaf_count kind
    omega

theorem gone_not_linked (link : node ∈ graph.links dir) : node ≠ gone := by
  rintro rfl
  exact sound.named_pos link (named_gone sound used zero)

omit zero in
theorem release_named (node : Node) :
    (graph.release gone).named nodes node + (graph.links gone).count node =
      graph.named nodes node := by
  have sum := named_update graph.links (sound.mem_nodes used) 0 node
  rw [Multiset.count_zero, Nat.add_zero] at sum
  exact sum

theorem release_named_dir (dirKind : graph.kind dir = .dir) :
    (graph.release gone).named nodes dir = graph.named nodes dir := by
  have total := release_named sound used dir
  have absent : (graph.links gone).count dir = 0 := by
    rw [Multiset.count_eq_zero]
    intro link
    have goneDir := sound.dir_of_link link
    have count := sound.dir_count goneDir
    exact not_dir_of_subdirs (by omega) link dirKind
  omega

theorem release_detached (detached : (graph.release gone).Detached nodes root dir) :
    dir ≠ gone ∧ graph.Detached nodes root dir := by
  obtain ⟨dirKind, notRoot, unnamed⟩ := detached
  have differs : dir ≠ gone := by
    rintro rfl
    cases release_kind_gone.symm.trans dirKind
  rw [release_kind differs] at dirKind
  rw [release_named_dir sound used zero dirKind] at unnamed
  exact ⟨differs, dirKind, notRoot, unnamed⟩

theorem Sound.release : (graph.release gone).Sound nodes root := by
  have rootApart := (release_root sound zero).symm
  have live : ∀ {node}, (graph.release gone).kind node ≠ .free → node ≠ gone := by
    rintro node kept rfl
    exact kept release_kind_gone
  have named := release_named sound used
  exact {
    root_dir := (release_kind rootApart).trans sound.root_dir
    root_up := (update_of_ne rootApart ..).trans sound.root_up
    root_named := by
      rw [release_named_dir sound used zero sound.root_dir, sound.root_named]
    mem_nodes := by
      intro node kept
      rw [release_kind (live kept)] at kept
      exact sound.mem_nodes kept
    bare := by
      intro node other
      by_cases same : node = gone
      · rw [same]
        exact update_self ..
      · rw [release_kind same] at other
        exact (update_of_ne same ..).trans (sound.bare other)
    linked := by
      intro dir node later
      obtain ⟨_, link⟩ := mem_of_release_links later
      rw [release_kind (gone_not_linked sound used zero link)]
      exact sound.linked link
    child := by
      intro dir node later dirKind
      obtain ⟨_, link⟩ := mem_of_release_links later
      have differs := gone_not_linked sound used zero link
      rw [release_kind differs] at dirKind
      rw [release_named_dir sound used zero dirKind]
      obtain ⟨up, one⟩ := sound.child link dirKind
      exact ⟨(update_of_ne differs ..).trans up, one⟩
    dir_count := by
      intro dir dirKind
      have differs := live (by rw [dirKind]; nofun)
      rw [release_kind differs] at dirKind
      have inner : (graph.release gone).subdirs dir = graph.subdirs dir :=
        subdirs_congr (update_of_ne differs ..) fun node link =>
          release_kind (gone_not_linked sound used zero link)
      rw [release_named_dir sound used zero dirKind, inner, ← sound.dir_count dirKind]
      exact update_of_ne differs ..
    leaf_count := by
      intro node leaf
      have differs := live (by rw [leaf]; nofun)
      rw [release_kind differs] at leaf
      have bound := sound.leaf_count leaf
      have total := named node
      rw [show (graph.release gone).count node = graph.count node from update_of_ne differs ..]
      omega }

theorem Anchored.release (anchored : graph.Anchored nodes root dir) :
    (graph.release gone).Anchored nodes root dir := by
  intro detached
  obtain ⟨differs, before⟩ := release_detached sound used zero detached
  obtain ⟨above, up, aboveDir, placed⟩ := anchored before
  have apart : above ≠ gone := by
    rintro rfl
    exact placed ⟨aboveDir, release_root sound zero, named_gone sound used zero⟩
  exact ⟨above, (update_of_ne differs ..).trans up, (release_kind apart).trans aboveDir,
    fun later => placed (release_detached sound used zero later).2⟩

omit sound used zero in
theorem anchored_released : (graph.release gone).Anchored nodes root gone := by
  intro detached
  cases release_kind_gone.symm.trans detached.1

theorem Tidy.release (tidy : graph.Tidy nodes root) : (graph.release gone).Tidy nodes root := by
  have bare : graph.links gone = 0 := by
    by_cases dirKind : graph.kind gone = .dir
    · exact tidy.empty ⟨dirKind, release_root sound zero, named_gone sound used zero⟩
    · exact sound.bare dirKind
  constructor
  · intro dir detached
    obtain ⟨differs, before⟩ := release_detached sound used zero detached
    exact (update_of_ne differs ..).trans (tidy.empty before)
  · intro node leaf
    have differs : node ≠ gone := by
      rintro rfl
      cases release_kind_gone.symm.trans leaf
    rw [release_kind differs] at leaf
    have total := release_named sound used node
    rw [bare, Multiset.count_zero, Nat.add_zero] at total
    rw [total, tidy.leaf_exact leaf]
    exact (update_of_ne differs ..).symm

omit sound used zero in
theorem Sound.drop (sound : graph.Sound nodes root) (used : graph.kind gone ≠ .free)
    (refs : Multiset Node) : (graph.drop refs gone).Sound nodes root := by
  unfold DirGraph.drop
  split
  · next unreferenced => exact Sound.release sound used unreferenced.2
  · exact sound

omit zero in
theorem Anchored.drop (anchored : graph.Anchored nodes root dir) (refs : Multiset Node) :
    (graph.drop refs gone).Anchored nodes root dir := by
  unfold DirGraph.drop
  split
  · next unreferenced => exact anchored.release sound used unreferenced.2
  · exact anchored

omit zero in
theorem Tidy.drop (tidy : graph.Tidy nodes root) (refs : Multiset Node) :
    (graph.drop refs gone).Tidy nodes root := by
  unfold DirGraph.drop
  split
  · next unreferenced => exact tidy.release sound used unreferenced.2
  · exact tidy

omit sound used zero in
theorem drop_kind (differs : node ≠ gone) (refs : Multiset Node) :
    (graph.drop refs gone).kind node = graph.kind node := by
  unfold DirGraph.drop
  split
  · exact release_kind differs
  · rfl

omit sound used zero in
theorem Dropped.trans (first : Dropped graph later) (second : Dropped later last) :
    Dropped graph last := by
  induction second with
  | refl => exact first
  | drop _ used refs induction => exact induction.drop used refs

omit used zero in
theorem Dropped.keeps_sound (dropped : Dropped graph later) : later.Sound nodes root := by
  induction dropped with
  | refl => exact sound
  | drop _ used refs induction => exact induction.drop used refs

omit used zero in
theorem Dropped.keeps_anchored (dropped : Dropped graph later)
    (anchored : graph.Anchored nodes root dir) : later.Anchored nodes root dir := by
  induction dropped with
  | refl => exact anchored
  | drop before used refs induction =>
    exact induction.drop (before.keeps_sound sound) used refs

omit used zero in
theorem Dropped.keeps_tidy (dropped : Dropped graph later) (tidy : graph.Tidy nodes root) :
    later.Tidy nodes root := by
  induction dropped with
  | refl => exact tidy
  | drop before used refs induction =>
    exact induction.drop (before.keeps_sound sound) used refs

omit sound used zero in
theorem drop_count (differs : node ≠ gone) (refs : Multiset Node) :
    (graph.drop refs gone).count node = graph.count node := by
  unfold DirGraph.drop
  split
  · exact update_of_ne differs ..
  · rfl

omit sound used zero in
theorem dir_of_drop (isDir : (graph.drop refs gone).kind node = .dir) : graph.kind node = .dir := by
  unfold DirGraph.drop at isDir
  split at isDir
  · by_cases same : node = gone
    · subst same
      cases release_kind_gone.symm.trans isDir
    · rw [release_kind same] at isDir
      exact isDir
  · exact isDir

end Release

/-! A link removed and both ends of it given up. -/

section Unlink

variable {parent gone : Node} (sound : graph.Sound nodes root) (link : gone ∈ graph.links parent)
  (empty : graph.kind gone = .dir → graph.links gone = 0) (refs : Multiset Node)

include sound link

theorem detach_parent_used : (graph.detach parent gone).kind parent ≠ .free := by
  change graph.kind parent ≠ .free
  rw [sound.dir_of_link link]
  nofun

include empty

theorem drop_parent_sound : ((graph.detach parent gone).drop refs parent).Sound nodes root :=
  (sound.detach link empty).drop (detach_parent_used sound link) refs

theorem drop_parent_used : ((graph.detach parent gone).drop refs parent).kind gone ≠ .free := by
  rw [drop_kind (parent_ne_gone sound link empty).symm]
  exact sound.linked link

theorem Anchored.unlink (anchored : graph.Anchored nodes root dir) (differs : dir ≠ gone)
    (spared : graph.Detached nodes root dir → graph.kind gone = .dir → graph.up dir ≠ some gone) :
    (graph.unlink refs parent gone).Anchored nodes root dir :=
  ((anchored.detach sound link empty differs spared).drop
    (sound.detach link empty) (detach_parent_used sound link) _).drop
    (drop_parent_sound sound link empty _) (drop_parent_used sound link empty _) refs

theorem Tidy.unlink (tidy : graph.Tidy nodes root) :
    (graph.unlink refs parent gone).Tidy nodes root :=
  ((tidy.detach sound link empty).drop (sound.detach link empty)
    (detach_parent_used sound link) _).drop (drop_parent_sound sound link empty _)
    (drop_parent_used sound link empty _) refs

theorem detach_count_dir (isDir : graph.kind gone = .dir) :
    (graph.detach parent gone).count gone = 0 := by
  have total := (sound.detach link empty).dir_count
    (show (graph.detach parent gone).kind gone = .dir from isDir)
  have named := detach_named sound link gone
  rw [(sound.child link isDir).2, if_pos rfl] at named
  have bare : (graph.detach parent gone).subdirs gone = 0 := by
    have links : (graph.detach parent gone).links gone = 0 :=
      (update_of_ne (parent_ne_gone sound link empty).symm ..).trans (empty isDir)
    rw [subdirs, links, Multiset.countP_zero]
  rw [if_neg (root_ne_gone sound link).symm] at total
  omega

theorem anchored_unlinked
    (placed : gone ∈ refs → graph.kind gone = .dir → ¬graph.Detached nodes root parent) :
    (graph.unlink refs parent gone).Anchored nodes root gone := by
  by_cases isDir : graph.kind gone = .dir
  · by_cases held : gone ∈ refs
    · exact ((anchored_gone sound link empty (placed held isDir)).drop
        (sound.detach link empty) (detach_parent_used sound link) _).drop
        (drop_parent_sound sound link empty _) (drop_parent_used sound link empty _) refs
    · have zero : ((graph.detach parent gone).drop (gone ::ₘ refs) parent).count gone = 0 := by
        rw [drop_count (parent_ne_gone sound link empty).symm]
        exact detach_count_dir sound link empty isDir
      rw [DirGraph.unlink, DirGraph.drop, if_pos ⟨held, zero⟩]
      exact anchored_released
  · intro detached
    exact absurd (dir_of_drop (dir_of_drop detached.1)) isDir

end Unlink

/-! What the counts and pointers say of a sound graph. -/

section Use

variable (sound : graph.Sound nodes root)

include sound

theorem Sound.up_dir (isDir : graph.kind dir = .dir) (anchored : graph.Anchored nodes root dir) :
    ∃ parent, graph.up dir = some parent ∧ graph.kind parent = .dir := by
  by_cases detached : graph.Detached nodes root dir
  · obtain ⟨parent, up, parentDir, _⟩ := anchored detached
    exact ⟨parent, up, parentDir⟩
  · by_cases top : dir = root
    · rw [top]
      exact ⟨root, sound.root_up, sound.root_dir⟩
    · obtain ⟨parent, _, link⟩ := exists_link fun none =>
        detached ⟨isDir, top, none⟩
      exact ⟨parent, (sound.child link isDir).1, sound.dir_of_link link⟩

theorem Sound.count_links (isDir : graph.kind dir = .dir) (top : dir ≠ root)
    (placed : ¬graph.Detached nodes root dir) (parent : Node) :
    (graph.links parent).count dir = if graph.up dir = some parent then 1 else 0 := by
  obtain ⟨holder, member, link⟩ := exists_link fun none =>
    placed ⟨isDir, top, none⟩
  obtain ⟨up, one⟩ := sound.child link isDir
  have others : ∀ other, other ≠ holder → (graph.links other).count dir = 0 := by
    intro other differs
    rw [Multiset.count_eq_zero]
    intro again
    exact differs (Option.some.inj ((sound.child again isDir).1.symm.trans up))
  by_cases same : parent = holder
  · rw [same, if_pos up, ← one]
    exact (Finset.sum_eq_single_of_mem holder member
      fun other _ differs => others other differs).symm
  · rw [others parent same, if_neg]
    intro points
    exact same (Option.some.inj (points.symm.trans up))

theorem Sound.dir_count_eq (placed : ∀ dir, ¬graph.Detached nodes root dir)
    (isDir : graph.kind parent = .dir) :
    graph.count parent = graph.named nodes parent + (nodes.filter fun dir => graph.kind dir = .dir ∧
        graph.up dir = some parent).card := by
  have inside := sound.mem_nodes (by rw [sound.root_dir]; nofun : graph.kind root ≠ _)
  have split : graph.subdirs parent = ∑ dir ∈ nodes,
      if graph.kind dir = .dir then (graph.links parent).count dir else 0 := by
    unfold subdirs
    rw [Multiset.countP_eq_card_filter, ← Multiset.sum_count_eq_card]
    · exact Finset.sum_congr rfl fun dir _ => Multiset.count_filter ..
    · intro dir member
      exact sound.mem_nodes (sound.linked (Multiset.mem_filter.mp member).1)
  have pointer : ∀ dir ∈ nodes,
      (if graph.kind dir = .dir ∧ graph.up dir = some parent then 1 else 0) =
        (if graph.kind dir = .dir then (graph.links parent).count dir
          else 0) + if dir = root then (if parent = root then 1 else 0)
            else 0 := by
    intro dir _
    by_cases top : dir = root
    · rw [top, if_pos sound.root_dir, sound.root_up, if_pos rfl]
      have absent : (graph.links parent).count root = 0 := by
        rw [Multiset.count_eq_zero]
        intro link
        exact sound.named_pos link sound.root_named
      rw [absent, Nat.zero_add]
      simp [sound.root_dir, eq_comm]
    · rw [if_neg top, Nat.add_zero]
      by_cases dirKind : graph.kind dir = .dir
      · rw [if_pos dirKind, sound.count_links dirKind top (placed dir) parent]
        simp [dirKind]
      · simp [dirKind]
  rw [Finset.card_filter, Finset.sum_congr rfl pointer,
    Finset.sum_add_distrib, ← split, Finset.sum_ite_eq' nodes root,
    if_pos inside, sound.dir_count isDir]
  omega

end Use

end DirGraph

end LinkGraph

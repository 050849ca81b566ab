import Xv6Lottery.Lib.RingBuffer
import Xv6Lottery.Virtio.Descriptors

/-! What holds between the steps of the driver and of the device, each part
over the little of the state that it speaks about. -/

namespace Xv6Lottery.Virtio

open Function

variable {Agent Buf : Type} [DecidableEq Agent]

/-! What the points of the processes say. -/

namespace Point

def chain : Point Buf → Option Chain
  | .formatting _ chain | .publishing _ chain | .waiting _ chain _
  | .asleep _ chain _ | .finishing _ chain _ => some chain
  | _ => none

def formatted : Point Buf → Option (Request Buf × Chain)
  | .publishing req chain | .waiting req chain _ | .asleep req chain _
  | .finishing req chain _ => some (req, chain)
  | _ => none

def wait : Point Buf → Option (Request Buf × Chain × Nat)
  | .waiting req chain ticket | .asleep req chain ticket =>
    some (req, chain, ticket)
  | _ => none

def done : Point Buf → Option (Request Buf × Nat)
  | .finishing req _ ticket | .leaving req ticket => some (req, ticket)
  | _ => none

def ticket : Point Buf → Option Nat
  | .waiting _ _ ticket | .asleep _ _ ticket | .finishing _ _ ticket
  | .leaving _ ticket => some ticket
  | _ => none

def Inside : Point Buf → Prop
  | .allocating _ | .formatting _ _ | .publishing _ _ | .waiting _ _ _
  | .finishing _ _ _ | .leaving _ _ | .intrTesting | .intrTaking
  | .intrLeaving => True
  | _ => False

theorem chain_of_formatted {point : Point Buf} {req : Request Buf} {chain : Chain}
    (formatted : point.formatted = some (req, chain)) : point.chain = some chain := by
  cases point <;> cases formatted <;> rfl

theorem formatted_of_wait {point : Point Buf} {req : Request Buf} {chain : Chain} {ticket : Nat}
    (wait : point.wait = some (req, chain, ticket)) : point.formatted = some (req, chain) := by
  cases point <;> cases wait <;> rfl

theorem req_of_formatted {point : Point Buf} {req : Request Buf} {chain : Chain}
    (formatted : point.formatted = some (req, chain)) : point.req = some req := by
  cases point <;> cases formatted <;> rfl

end Point

theorem view_update {β : Type} (view : Point Buf → β) (points : Agent → Point Buf) (a : Agent)
    (point : Point Buf) :
    (fun b => view (update points a point b)) = update (fun b => view (points b)) a (view point) :=
  Function.comp_update view points a point

theorem view_same {β : Type} (view : Point Buf → β) (points : Agent → Point Buf)
    (same : view point = view (points a)) :
    (fun b => view (update points a point b)) = fun b => view (points b) := by
  rw [view_update, same, update_eq_self]

theorem forall_update (holds : Agent → Point Buf → Prop) (mine : holds a point)
    (others : ∀ {b}, b ≠ a → holds b (points b)) (b : Agent) :
    holds b (update points a point b) := by
  by_cases same : b = a
  · rw [same, update_self]
    exact mine
  · rw [update_of_ne same]
    exact others same

/-- The points of all processes: no panic, one process with the lock, one call
for each buffer, and one request for each ticket. -/
structure Points (points : Agent → Point Buf) (lock : Option Agent) (issued : Nat) : Prop where
  calm : ∀ a why, points a ≠ .panic why
  locked : ∀ a, (points a).Inside → lock = some a
  reqs : ∀ {a b req other}, (points a).req = some req →
    (points b).req = some other → req.b = other.b → a = b
  tickets : ∀ a ticket, (points a).ticket = some ticket → ticket < issued
  unique : ∀ {a b ticket}, (points a).ticket = some ticket → (points b).ticket = some ticket → a = b

namespace Points

variable {points : Agent → Point Buf} {lock after : Option Agent}
  {issued more : Nat} {a b : Agent} {point : Point Buf} (before : Points points lock issued)

include before

omit [DecidableEq Agent] in
theorem no_inside (free : lock = none) : ¬(points b).Inside := by
  intro inside
  cases free.symm.trans (before.locked b inside)

omit [DecidableEq Agent] in
theorem alone (inside : (points a).Inside) (apart : b ≠ a) : ¬(points b).Inside := by
  intro other
  cases (before.locked a inside).symm.trans (before.locked b other)
  exact apart rfl

theorem set (calm : ∀ why, point ≠ .panic why) (locked : point.Inside → after = some a)
    (others : ∀ {b}, b ≠ a → (points b).Inside → after = some b)
    (reqs : ∀ {b req other}, point.req = some req → (points b).req = some other → req.b = other.b →
      b = a) (grows : issued ≤ more) (tickets : ∀ ticket, point.ticket = some ticket → ticket <
      more ∧ ∀ {b}, b ≠ a → (points b).ticket ≠ some ticket) :
    Points (update points a point) after more where
  calm := forall_update (fun _ point => ∀ why, point ≠ .panic why) calm fun {b} _ => before.calm b
  locked := forall_update (fun b point => point.Inside → after = some b) locked others
  reqs := fun {b c req other} first second same => by
    by_cases isB : b = a
    · rw [isB, update_self] at first
      by_cases isC : c = a
      · rw [isB, isC]
      · rw [update_of_ne isC] at second
        exact (isC (reqs first second same)).elim
    · rw [update_of_ne isB] at first
      by_cases isC : c = a
      · rw [isC, update_self] at second
        exact (isB (reqs second first same.symm)).elim
      · rw [update_of_ne isC] at second
        exact before.reqs first second same
  tickets := forall_update (fun _ point =>
    ∀ ticket, point.ticket = some ticket → ticket < more)
    (fun ticket mine => (tickets ticket mine).1)
    fun {b} _ ticket theirs => (before.tickets b ticket theirs).trans_le grows
  unique := fun {b c ticket} first second => by
    by_cases isB : b = a
    · rw [isB, update_self] at first
      by_cases isC : c = a
      · rw [isB, isC]
      · rw [update_of_ne isC] at second
        exact ((tickets ticket first).2 isC second).elim
    · rw [update_of_ne isB] at first
      by_cases isC : c = a
      · rw [isC, update_self] at second
        exact ((tickets ticket second).2 isB first).elim
      · rw [update_of_ne isC] at second
        exact before.unique first second

theorem move (calm : ∀ why, point ≠ .panic why) (locked : point.Inside → after = some a)
    (others : ∀ {b}, b ≠ a → (points b).Inside → after = some b)
    (req : point.req = none ∨ point.req = (points a).req)
    (ticket : point.ticket = none ∨ point.ticket = (points a).ticket) :
    Points (update points a point) after issued := by
  refine before.set calm locked others ?_ le_rfl ?_
  · intro b mine other held theirs same
    rcases req with none | kept
    · cases none.symm.trans held
    · exact before.reqs theirs (kept.symm.trans held) same.symm
  · intro mine held
    rcases ticket with none | kept
    · cases none.symm.trans held
    · have own := kept.symm.trans held
      exact ⟨before.tickets a mine own, fun {b} apart theirs =>
        apart (before.unique theirs own)⟩

theorem acquire (free : lock = none) (calm : ∀ why, point ≠ .panic why)
    (req : point.req = none ∨ point.req = (points a).req)
    (ticket : point.ticket = none ∨ point.ticket = (points a).ticket) :
    Points (update points a point) (some a) issued :=
  before.move calm (fun _ => rfl) (fun _ inside => (before.no_inside free inside).elim) req ticket

theorem release (held : (points a).Inside) (outside : ¬point.Inside)
    (calm : ∀ why, point ≠ .panic why) (req : point.req = none ∨ point.req = (points a).req)
    (ticket : point.ticket = none ∨ point.ticket = (points a).ticket) :
    Points (update points a point) none issued :=
  before.move calm (fun inside => (outside inside).elim)
    (fun apart inside => (before.alone held apart inside).elim) req ticket

theorem stay (held : (points a).Inside) (calm : ∀ why, point ≠ .panic why)
    (req : point.req = none ∨ point.req = (points a).req)
    (ticket : point.ticket = none ∨ point.ticket = (points a).ticket) :
    Points (update points a point) lock issued :=
  before.move calm (fun _ => before.locked a held)
    (fun {b} _ inside => before.locked b inside) req ticket

end Points

/-! The descriptors. -/

structure Chains (chains : Agent → Option Chain) (free : Fin num → Bool) : Prop where
  nodup : ∀ {a chain}, chains a = some chain → chain.toList.Nodup
  used : ∀ {a chain i}, chains a = some chain → i ∈ chain.toList → free i = false
  disjoint : ∀ {a b first second i}, chains a = some first →
    chains b = some second → i ∈ first.toList → i ∈ second.toList → a = b
  owned : ∀ {i}, free i = false → ∃ a chain, chains a = some chain ∧ i ∈ chain.toList

namespace Chains

variable {chains : Agent → Option Chain} {a : Agent} {chain : Chain}

theorem alloc {disk after : Disk Buf} (before : Chains chains disk.free) (none : chains a = none)
    (took : disk.Took chain.toList after) : Chains (update chains a (some chain)) after.free := by
  have kept : ∀ {b other i}, chains b = some other → i ∈ other.toList → i ∉ chain.toList := by
    intro b other i held member fresh
    cases (before.used held member).symm.trans (took.was_free fresh)
  have cases_ : ∀ {b other}, update chains a (some chain) b = some other →
      b = a ∧ other = chain ∨ chains b = some other := by
    intro b other held
    by_cases same : b = a
    · rw [same, update_self] at held
      cases held
      exact .inl ⟨same, rfl⟩
    · rw [update_of_ne same] at held
      exact .inr held
  exact {
    nodup := fun held => by
      rcases cases_ held with ⟨_, rfl⟩ | old
      · exact took.nodup
      · exact before.nodup old
    used := fun held member => by
      rcases cases_ held with ⟨_, rfl⟩ | old
      · exact took.gone member
      · rw [took.others (kept old member)]
        exact before.used old member
    disjoint := fun heldA heldB memberA memberB => by
      rcases cases_ heldA with ⟨rfl, rfl⟩ | oldA
      · rcases cases_ heldB with ⟨rfl, _⟩ | oldB
        · rfl
        · exact (kept oldB memberB memberA).elim
      · rcases cases_ heldB with ⟨rfl, rfl⟩ | oldB
        · exact (kept oldA memberA memberB).elim
        · exact before.disjoint oldA oldB memberA memberB
    owned := fun {i} inUse => by
      by_cases fresh : i ∈ chain.toList
      · exact ⟨a, chain, update_self .., fresh⟩
      · rw [took.others fresh] at inUse
        obtain ⟨b, other, held, member⟩ := before.owned inUse
        have apart : b ≠ a := by
          rintro rfl
          cases none.symm.trans held
        exact ⟨b, other, (update_of_ne apart ..).trans held, member⟩ }

theorem free {free after : Fin num → Bool} (before : Chains chains free)
    (held : chains a = some chain) (freed : ∀ {i}, i ∈ chain.toList → after i = true)
    (others : ∀ {i}, i ∉ chain.toList → after i = free i) :
    Chains (update chains a none) after := by
  have old : ∀ {b other}, update chains a none b = some other → b ≠ a ∧ chains b = some other := by
    intro b other holds
    by_cases same : b = a
    · rw [same, update_self] at holds
      cases holds
    · rw [update_of_ne same] at holds
      exact ⟨same, holds⟩
  exact {
    nodup := fun holds => before.nodup (old holds).2
    used := fun holds member => by
      have ⟨apart, was⟩ := old holds
      rw [others fun mine => apart (before.disjoint was held member mine)]
      exact before.used was member
    disjoint := fun holdsA holdsB =>
      before.disjoint (old holdsA).2 (old holdsB).2
    owned := fun {i} inUse => by
      have outside : i ∉ chain.toList := by
        intro mine
        cases inUse.symm.trans (freed mine)
      rw [others outside] at inUse
      obtain ⟨b, other, was, member⟩ := before.owned inUse
      have apart : b ≠ a := by
        rintro rfl
        cases held.symm.trans was
        exact outside member
      exact ⟨b, other, (update_of_ne apart ..).trans was, member⟩ }

end Chains

/-! The requests that the device has. -/

def Chain.id (chain : Chain) : UInt16 := chain.head.val.toUInt16

theorem Chain.head_of_id {first second : Chain} (same : first.id = second.id) :
    first.head = second.head := by
  have values := congrArg UInt16.toNat same
  rw [id, id, Disk.index_toNat, Disk.index_toNat] at values
  exact Fin.ext values

theorem ids_length_le {ids : List UInt16} (nodup : ids.Nodup)
    (all : ∀ id ∈ ids, ∃ i : Fin num, id = i.val.toUInt16) : ids.length ≤ num := by
  have subset : ids.toFinset ⊆ Finset.univ.image fun i : Fin num => i.val.toUInt16 := by
    intro id member
    obtain ⟨i, rfl⟩ := all id (List.mem_toFinset.mp member)
    exact Finset.mem_image_of_mem _ (Finset.mem_univ i)
  calc ids.length = ids.toFinset.card := (List.toFinset_card_of_nodup nodup).symm
    _ ≤ _ := Finset.card_le_card subset
    _ ≤ (Finset.univ : Finset (Fin num)).card := Finset.card_image_le
    _ = num := Finset.card_fin num

/-- The device has completed the request with a ticket, and it was this one. -/
def ServedAs (blockno : Buf → UInt32) (log : List (Entry Buf))
    (ticket : Nat) (req : Request Buf) : Prop :=
  ∃ entry ∈ log, entry.ticket = ticket ∧
    entry.request = some ⟨Disk.blkReq blockno req, req.b, !req.write⟩

/-- The requests that wait are with the device, or completed but not seen by
virtio_disk_intr(). -/
structure Ledger (blockno : Buf → UInt32) (wait : Agent → Option (Request Buf × Chain × Nat))
    (pending : List (UInt16 × Nat)) (unseen log : List (Entry Buf))
    (busy : Buf → Bool) (info : Fin num → Info Buf) : Prop where
  heads : (pending.map Prod.fst).Nodup
  waiter : ∀ {head ticket}, (head, ticket) ∈ pending →
    ∃ a req chain, wait a = some (req, chain, ticket) ∧ head = chain.id ∧ busy req.b = true
  waits : ∀ {a req chain ticket}, wait a = some (req, chain, ticket) →
    busy req.b = true ∧ (chain.id, ticket) ∈ pending ∨
      busy req.b = false ∧ ServedAs blockno log ticket req
  listed : ∀ {entry}, entry ∈ unseen → (entry.head, entry.ticket) ∈ pending
  entries : ∀ {entry a req chain}, entry ∈ unseen →
    wait a = some (req, chain, entry.ticket) → entry.head = chain.id →
      (info chain.head).status = 0 ∧
        entry.request = some ⟨Disk.blkReq blockno req, req.b, !req.write⟩

namespace Ledger

variable {blockno : Buf → UInt32} {wait : Agent → Option (Request Buf × Chain × Nat)}
  {pending after : List (UInt16 × Nat)} {unseen log : List (Entry Buf)}
  {busy : Buf → Bool} {info : Fin num → Info Buf} {a : Agent}
  {req : Request Buf} {chain : Chain} {ticket : Nat}
  (ledger : Ledger blockno wait pending unseen log busy info)

include ledger

omit [DecidableEq Agent] in
theorem length_le : pending.length ≤ num := by
  rw [← List.length_map Prod.fst]
  refine ids_length_le ledger.heads fun id member => ?_
  obtain ⟨⟨head, t⟩, listed, rfl⟩ := List.mem_map.mp member
  obtain ⟨b, held, other, _, same, _⟩ := ledger.waiter listed
  exact ⟨other.head, same⟩

omit [DecidableEq Agent] in
theorem length_lt
    (own : ∀ {b held other t}, wait b = some (held, other, t) → other.head ≠ chain.head) :
    pending.length < num := by
  have nodup : (chain.id :: pending.map Prod.fst).Nodup := by
    refine List.nodup_cons.mpr ⟨fun member => ?_, ledger.heads⟩
    obtain ⟨⟨head, t⟩, listed, same⟩ := List.mem_map.mp member
    obtain ⟨b, held, other, waits, id, _⟩ := ledger.waiter listed
    exact own waits (Chain.head_of_id (id.symm.trans same))
  have bound := ids_length_le nodup fun id member => by
    rcases List.mem_cons.mp member with rfl | old
    · exact ⟨chain.head, rfl⟩
    · obtain ⟨⟨head, t⟩, listed, rfl⟩ := List.mem_map.mp old
      obtain ⟨b, held, other, _, same, _⟩ := ledger.waiter listed
      exact ⟨other.head, same⟩
  rw [List.length_cons, List.length_map] at bound
  exact bound

omit [DecidableEq Agent] in
theorem perm (same : after.Perm pending) : Ledger blockno wait after unseen log busy info where
  heads := (same.map Prod.fst).nodup_iff.mpr ledger.heads
  waiter := fun member => ledger.waiter (same.mem_iff.mp member)
  waits := fun waits => (ledger.waits waits).imp_left (And.imp_right same.mem_iff.mpr)
  listed := fun member => same.mem_iff.mpr (ledger.listed member)
  entries := ledger.entries

theorem publish (fresh : wait a = none)
    (own : ∀ {b held other t}, wait b = some (held, other, t) → other.head ≠ chain.head)
    (marked : busy req.b = true) (added : after.Perm ((chain.id, ticket) :: pending)) :
    Ledger blockno (update wait a (some (req, chain, ticket))) after unseen log busy info := by
  have cases_ : ∀ {b held other t}, update wait a (some (req, chain, ticket)) b =
        some (held, other, t) → b = a ∧ held = req ∧ other = chain ∧ t = ticket ∨
        wait b = some (held, other, t) := by
    intro b held other t waits
    by_cases same : b = a
    · rw [same, update_self] at waits
      cases waits
      exact .inl ⟨same, rfl, rfl, rfl⟩
    · rw [update_of_ne same] at waits
      exact .inr waits
  exact {
    heads := by
      refine (added.map Prod.fst).nodup_iff.mpr
        (List.nodup_cons.mpr ⟨fun member => ?_, ledger.heads⟩)
      obtain ⟨⟨head, t⟩, listed, same⟩ := List.mem_map.mp member
      obtain ⟨b, held, other, waits, id, _⟩ := ledger.waiter listed
      exact own waits (Chain.head_of_id (id.symm.trans same))
    waiter := fun {head t} member => by
      rcases List.mem_cons.mp (added.mem_iff.mp member) with same | old
      · cases same
        exact ⟨a, req, chain, update_self .., rfl, marked⟩
      · obtain ⟨b, held, other, waits, id, marked⟩ := ledger.waiter old
        have apart : b ≠ a := by
          rintro rfl
          cases fresh.symm.trans waits
        exact ⟨b, held, other, (update_of_ne apart ..).trans waits, id, marked⟩
    waits := fun waits => by
      rcases cases_ waits with ⟨_, rfl, rfl, rfl⟩ | old
      · exact .inl ⟨marked, added.mem_iff.mpr List.mem_cons_self⟩
      · exact (ledger.waits old).imp_left (And.imp_right fun member =>
          added.mem_iff.mpr (List.mem_cons_of_mem _ member))
    listed := fun member => added.mem_iff.mpr (List.mem_cons_of_mem _ (ledger.listed member))
    entries := fun {entry b held other} member waits id => by
      rcases cases_ waits with ⟨_, rfl, rfl, _⟩ | old
      · obtain ⟨b, held, other, waits, same, _⟩ :=
          ledger.waiter (ledger.listed member)
        exact (own waits (Chain.head_of_id (same.symm.trans id))).elim
      · exact ledger.entries member old id }

theorem finish (waits : wait a = some (req, chain, ticket)) (ended : busy req.b = false) :
    Ledger blockno (update wait a none) pending unseen log busy info := by
  have old : ∀ {b held other t}, update wait a none b = some (held, other, t) →
        wait b = some (held, other, t) := by
    intro b held other t holds
    by_cases same : b = a
    · rw [same, update_self] at holds
      cases holds
    · rw [update_of_ne same] at holds
      exact holds
  exact {
    heads := ledger.heads
    waiter := fun member => by
      obtain ⟨b, held, other, found, id, marked⟩ := ledger.waiter member
      have apart : b ≠ a := by
        rintro rfl
        cases waits.symm.trans found
        cases ended.symm.trans marked
      exact ⟨b, held, other, (update_of_ne apart ..).trans found, id, marked⟩
    waits := fun holds => ledger.waits (old holds)
    listed := ledger.listed
    entries := fun member holds => ledger.entries member (old holds) }

omit [DecidableEq Agent] in
theorem reinfo (same : ∀ {a held other t}, wait a = some (held, other, t) →
      (changed other.head).status = (info other.head).status) :
    Ledger blockno wait pending unseen log busy changed where
  heads := ledger.heads
  waiter := ledger.waiter
  waits := ledger.waits
  listed := ledger.listed
  entries := fun member waits id => by
    rw [same waits]
    exact ledger.entries member waits id

omit [DecidableEq Agent] in
theorem mark [DecidableEq Buf]
    (apart : ∀ {a held other t}, wait a = some (held, other, t) → held.b ≠ b) :
    Ledger blockno wait pending unseen log (update busy b true) info where
  heads := ledger.heads
  waiter := fun member => by
    obtain ⟨a, held, other, waits, id, marked⟩ := ledger.waiter member
    refine ⟨a, held, other, waits, id, ?_⟩
    rw [update_of_ne (apart waits)]
    exact marked
  waits := fun waits => by
    rw [update_of_ne (apart waits)]
    exact ledger.waits waits
  listed := ledger.listed
  entries := ledger.entries

omit [DecidableEq Agent] in
theorem complete (waits : wait a = some (req, chain, ticket))
    (alone : ∀ {b held other t}, wait b = some (held, other, t) → other.head = chain.head → b = a)
    (member : (chain.id, ticket) ∈ pending) : Ledger blockno wait pending
      (unseen ++ [⟨ticket, chain.id, some ⟨Disk.blkReq blockno req, req.b, !req.write⟩⟩])
      (log ++ [⟨ticket, chain.id, some ⟨Disk.blkReq blockno req, req.b, !req.write⟩⟩]) busy
      (update info chain.head { info chain.head with status := 0 }) where
  heads := ledger.heads
  waiter := ledger.waiter
  waits := fun waits => (ledger.waits waits).imp_right (And.imp_right fun ⟨entry, old, same⟩ =>
      ⟨entry, List.mem_append_left _ old, same⟩)
  listed := fun listed => by
    rcases List.mem_append.mp listed with old | new
    · exact ledger.listed old
    · rw [List.mem_singleton.mp new]
      exact member
  entries := fun {entry b held other} listed holds id => by
    have status : (update info chain.head
        { info chain.head with status := 0 } other.head).status = 0 ∨ other.head ≠ chain.head := by
      by_cases same : other.head = chain.head
      · rw [same, update_self]
        exact .inl rfl
      · exact .inr same
    rcases List.mem_append.mp listed with old | new
    · have ⟨zero, request⟩ := ledger.entries old holds id
      refine ⟨?_, request⟩
      rcases status with done | apart
      · exact done
      · rw [update_of_ne apart]
        exact zero
    · rw [List.mem_singleton.mp new] at holds id ⊢
      cases alone holds (Chain.head_of_id id.symm)
      cases waits.symm.trans holds
      exact ⟨status.resolve_right (fun apart => apart rfl), rfl⟩

omit [DecidableEq Agent] in
theorem consume [DecidableEq Buf] (first : unseen = entry :: rest) (logged : entry ∈ log)
    (waits : wait a = some (req, chain, entry.ticket)) (id : entry.head = chain.id)
    (own : ∀ {b held other t}, wait b = some (held, other, t) → other.head = chain.head → b = a)
    (alone : ∀ {b held other t}, wait b = some (held, other, t) → held.b = req.b → b = a)
    (removed : pending.Perm ((entry.head, entry.ticket) :: after))
    (listed : ∀ {entry}, entry ∈ rest → (entry.head, entry.ticket) ∈ after) :
    Ledger blockno wait after rest log (update busy req.b false) info := by
  have nodup := (removed.map Prod.fst).nodup_iff.mp ledger.heads
  have ⟨missing, heads⟩ := List.nodup_cons.mp nodup
  exact {
    heads := heads
    waiter := fun {head t} member => by
      obtain ⟨b, held, other, found, same, marked⟩ :=
        ledger.waiter (removed.mem_iff.mpr (List.mem_cons_of_mem _ member))
      have apart : held.b ≠ req.b := by
        intro equal
        cases alone found equal
        cases waits.symm.trans found
        refine missing (List.mem_map.mpr ⟨_, member, ?_⟩)
        exact same.trans id.symm
      refine ⟨b, held, other, found, same, ?_⟩
      rw [update_of_ne apart]
      exact marked
    waits := fun {b held other t} found => by
      by_cases equal : held.b = req.b
      · cases alone found equal
        cases waits.symm.trans found
        rw [update_self]
        have member : entry ∈ unseen := by
          rw [first]
          exact List.mem_cons_self
        exact .inr ⟨rfl, entry, logged, rfl, (ledger.entries member waits id).2⟩
      · rw [update_of_ne equal]
        refine (ledger.waits found).imp_left fun ⟨marked, member⟩ =>
          ⟨marked, ?_⟩
        rcases List.mem_cons.mp (removed.mem_iff.mp member) with same | old
        · have ids : other.id = entry.head := congrArg Prod.fst same
          cases own found (Chain.head_of_id (ids.trans id))
          cases waits.symm.trans found
          exact (equal rfl).elim
        · exact old
    listed := listed
    entries := fun member => ledger.entries (by
      rw [first]
      exact List.mem_cons_of_mem _ member) }

end Ledger

end Xv6Lottery.Virtio

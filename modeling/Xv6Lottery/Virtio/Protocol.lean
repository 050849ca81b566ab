import Xv6Lottery.Lib.Transition
import Xv6Lottery.Virtio.Invariant

/-! The protocol between virtio_disk.c and the device, over whole runs. -/

namespace Xv6Lottery.Virtio

open Transition Function

variable {Agent Buf : Type} [DecidableEq Agent] {blockno : Buf → UInt32}

/-- The heads and tickets of the requests whose completion the driver has not
seen. -/
def State.pending (state : State Agent Buf) : List (UInt16 × Nat) :=
  state.issued.zipIdx.drop state.taken ++ state.working ++
    (state.log.drop state.consumed).map fun entry =>
      (entry.head, entry.ticket)

/-- What a process at a point may rely on. -/
structure Fine (blockno : Buf → UInt32) (state : State Agent Buf) (point : Point Buf) : Prop where
  formatted : ∀ {req chain}, point.formatted = some (req, chain) →
    state.disk.Formatted blockno req chain
  slot : ∀ {req chain}, point = .publishing req chain →
    state.disk.avail.ring (slot state.disk.avail.idx) = chain.id ∧ state.busy req.b = true
  testing : point = .intrTaking → state.consumed < state.log.length
  done : ∀ {req ticket}, point.done = some (req, ticket) → ServedAs blockno state.log ticket req

structure Inv (blockno : Buf → UInt32) (state : State Agent Buf) : Prop where
  points : Points state.point state.lock state.issued.length
  chains : Chains (fun a => (state.point a).chain) state.disk.free
  fine : ∀ a, Fine blockno state (state.point a)
  avail : RingBuffer.Represents (2 ^ 16) state.disk.avail.ring
    state.seen.toNat state.disk.avail.idx.toNat (state.issued.drop state.taken)
  used : RingBuffer.Represents (2 ^ 16) state.disk.used.ring
    state.disk.usedIdx.toNat state.disk.used.idx.toNat
    ((state.log.drop state.consumed).map fun entry => entry.head.toUInt32)
  ledger : Ledger blockno (fun a => (state.point a).wait) state.pending
    (state.log.drop state.consumed) state.log state.busy state.disk.info
  taken : state.taken ≤ state.issued.length
  consumed : state.consumed ≤ state.log.length

namespace Inv

variable {state after : State Agent Buf} {a b : Agent} {point : Point Buf}
  {req : Request Buf} {chain : Chain} {ticket : Nat}

section Uses

variable (inv : Inv blockno state)

include inv

omit [DecidableEq Agent] in
theorem wait_head (wait : (state.point b).wait = some (held, other, t))
    (mine : (state.point a).chain = some chain) (same : other.head = chain.head) : b = a := by
  have theirs := Point.chain_of_formatted (Point.formatted_of_wait wait)
  refine inv.chains.disjoint theirs mine other.head_mem ?_
  rw [same]
  exact chain.head_mem

omit [DecidableEq Agent] in
theorem other_head (mine : (state.point a).chain = some chain)
    (idle : (state.point a).wait = none) (wait : (state.point b).wait = some (held, other, t)) :
    other.head ≠ chain.head := by
  intro same
  cases inv.wait_head wait mine same
  cases idle.symm.trans wait

omit [DecidableEq Agent] in
theorem none_publishing (inside : (state.point a).Inside) (apart : b ≠ a) :
    state.point b ≠ .publishing req chain := by
  intro same
  have other := inv.points.alone inside apart
  rw [same] at other
  exact other trivial

omit [DecidableEq Agent] in
theorem wait_buffer (wait : (state.point b).wait = some (held, other, t))
    (mine : (state.point a).req = some req) (same : held.b = req.b) : b = a :=
  inv.points.reqs (Point.req_of_formatted (Point.formatted_of_wait wait)) mine same

end Uses

theorem repoint (inv : Inv blockno state) (lock : Option Agent)
    (points : Points (update state.point a point) lock state.issued.length)
    (chain : point.chain = (state.point a).chain) (fine : Fine blockno state point)
    (wait : point.wait = (state.point a).wait) :
    Inv blockno ({ state with lock := lock }.set a point) where
  points := points
  chains := by
    change Chains (fun b => (update state.point a point b).chain) _
    rw [view_same _ _ chain]
    exact inv.chains
  fine := forall_update (fun _ => Fine blockno
    ({ state with lock := lock }.set a point)) ⟨fine.formatted, fine.slot,
      fine.testing, fine.done⟩ fun {b} _ => ⟨(inv.fine b).formatted,
        (inv.fine b).slot, (inv.fine b).testing, (inv.fine b).done⟩
  avail := inv.avail
  used := inv.used
  ledger := by
    change Ledger _ (fun b => (update state.point a point b).wait) state.pending _ _ _ _
    rw [view_same _ _ wait]
    exact inv.ledger
  taken := inv.taken
  consumed := inv.consumed

omit [DecidableEq Agent] in
theorem fine_of_none (formatted : point.formatted = none) (testing : point ≠ .intrTaking)
    (done : point.done = none) : Fine blockno state point where
  formatted := fun held => nomatch formatted.symm.trans held
  slot := by
    rintro req chain rfl
    cases formatted
  testing := fun same => (testing same).elim
  done := fun held => nomatch done.symm.trans held

theorem call (inv : Inv blockno state) (home : state.point a = .home)
    (fresh : ∀ other held, (state.point other).req = some held → held.b ≠ req.b) :
    Inv blockno (state.set a (.entering req)) := by
  refine inv.repoint state.lock (inv.points.set nofun nofun
    (fun {b} _ inside => inv.points.locked b inside) ?_ le_rfl nofun)
    ?_ (fine_of_none rfl nofun rfl) ?_
  · intro b mine other held theirs same
    cases held
    exact (fresh b other theirs same.symm).elim
  all_goals
    rw [home]
    rfl

theorem intr (inv : Inv blockno state) (home : state.point a = .home) :
    Inv blockno (state.set a .intrEntering) := by
  refine inv.repoint state.lock (inv.points.move nofun nofun
    (fun {b} _ inside => inv.points.locked b inside) (.inl rfl) (.inl rfl))
    ?_ (fine_of_none rfl nofun rfl) ?_
  all_goals
    rw [home]
    rfl

theorem took (inv : Inv blockno state)
    {taken : List (Fin num)} (took : state.disk.Took taken disk) (lock : Option Agent)
    (points : Points (update state.point a point) lock state.issued.length)
    (chains : Chains (fun b => (update state.point a point b).chain) disk.free)
    (fine : ∀ state : State Agent Buf, Fine blockno state point)
    (wait : point.wait = (state.point a).wait) :
    Inv blockno ({ state with disk := disk, lock := lock }.set a point) where
  points := points
  chains := chains
  fine := forall_update (fun _ => Fine blockno
    ({ state with disk := disk, lock := lock }.set a point)) (fine _)
    fun {b} _ => {
      formatted := fun held => by
        have theirs := Point.chain_of_formatted held
        refine ((inv.fine b).formatted held).frame (fun member => ?_) ?_ ?_
        · exact took.desc (inv.chains.used theirs member)
        · change disk.ops _ = _
          rw [took.ops]
        · change (disk.info _).b = _
          rw [took.info]
      slot := fun same => by
        change disk.avail.ring (Virtio.slot disk.avail.idx) = _ ∧ _
        rw [took.avail]
        exact (inv.fine b).slot same
      testing := (inv.fine b).testing
      done := (inv.fine b).done }
  avail := by
    change RingBuffer.Represents _ disk.avail.ring _ disk.avail.idx.toNat _
    rw [took.avail]
    exact inv.avail
  used := by
    change RingBuffer.Represents _ disk.used.ring disk.usedIdx.toNat disk.used.idx.toNat _
    rw [took.used, took.usedIdx]
    exact inv.used
  ledger := by
    change Ledger _ (fun b => (update state.point a point b).wait) state.pending _ _ _ disk.info
    rw [view_same _ _ wait, took.info]
    exact inv.ledger
  taken := inv.taken
  consumed := inv.consumed

omit [DecidableEq Agent] in
theorem queue_length (state : State Agent Buf) :
    (state.issued.drop state.taken).length ≤ state.pending.length := by
  simp [State.pending]

theorem format [DecidableEq Buf] (inv : Inv blockno state)
    (here : state.point a = .formatting req chain) :
    Inv blockno ({ state with
      disk := state.disk.format blockno req chain
      busy := update state.busy req.b true }.set a (.publishing req chain)) := by
  have inside : (state.point a).Inside := by
    rw [here]
    trivial
  have mine : (state.point a).chain = some chain := by rw [here]; rfl
  have idle : (state.point a).wait = none := by rw [here]; rfl
  have call : (state.point a).req = some req := by rw [here]; rfl
  refine {
    points := inv.points.stay inside nofun (.inr call.symm) (.inl rfl)
    chains := ?_
    fine := forall_update (fun _ => Fine blockno _) ⟨?_, ?_, nofun, nofun⟩ fun {b} apart => ⟨?_, ?_,
        (inv.fine b).testing, (inv.fine b).done⟩
    avail := ?_
    used := inv.used
    ledger := ?_
    taken := inv.taken
    consumed := inv.consumed }
  · change Chains (fun b => (update state.point a _ b).chain) _
    rw [view_same _ _ mine.symm]
    exact inv.chains
  · rintro held other same
    cases same
    exact Disk.format_formatted (inv.chains.nodup mine)
  · rintro held other same
    cases same
    exact ⟨update_self .., update_self ..⟩
  · intro held other formatted
    have theirs := Point.chain_of_formatted formatted
    have outside : ∀ {i}, i ∈ other.toList → i ∉ chain.toList :=
      fun member fresh =>
        apart (inv.chains.disjoint theirs mine member fresh)
    have heads : other.head ≠ chain.head := by
      intro same
      refine outside other.head_mem ?_
      rw [same]
      exact chain.head_mem
    refine ((inv.fine b).formatted formatted).frame
      (fun member => Disk.format_desc _ (outside member)) ?_ ?_
    · exact update_of_ne heads ..
    · exact congrArg Info.b (update_of_ne heads ..)
  · exact fun same => (inv.none_publishing inside apart same).elim
  · have space := (queue_length state).trans_lt (inv.ledger.length_lt (inv.other_head mine idle))
    exact inv.avail.write (by decide) space _
  · change Ledger _ (fun b => (update state.point a _ b).wait)
      state.pending _ _ _ (update state.disk.info chain.head _)
    rw [view_same _ _ idle.symm]
    refine (inv.ledger.mark ?_).reinfo ?_
    · intro b held other t wait same
      cases inv.wait_buffer wait call same
      cases idle.symm.trans wait
    · intro b held other t wait
      rw [update_of_ne (inv.other_head mine idle wait)]

omit [DecidableEq Agent] in
theorem pending_publish (taken : state.taken ≤ state.issued.length) (id : UInt16) :
    ((state.issued ++ [id]).zipIdx.drop state.taken ++ state.working ++
        (state.log.drop state.consumed).map fun entry => (entry.head, entry.ticket)).Perm
      ((id, state.issued.length) :: state.pending) := by
  have bound : state.taken ≤ state.issued.zipIdx.length := by
    rw [List.length_zipIdx]
    exact taken
  rw [List.zipIdx_append, List.drop_append_of_le_length bound,
    List.zipIdx_singleton, Nat.zero_add, List.append_assoc,
    List.append_assoc, List.singleton_append]
  refine List.perm_middle.trans ?_
  rw [State.pending, List.append_assoc]

theorem publish (inv : Inv blockno state) (here : state.point a = .publishing req chain) :
    Inv blockno ({ state with
      disk := { state.disk with
        avail := { state.disk.avail with
          idx := state.disk.avail.idx + 1 } }
      issued := state.issued ++ [chain.id] }.set a (.waiting req chain state.issued.length)) := by
  have inside : (state.point a).Inside := by
    rw [here]
    trivial
  have mine : (state.point a).chain = some chain := by rw [here]; rfl
  have idle : (state.point a).wait = none := by rw [here]; rfl
  have call : (state.point a).req = some req := by rw [here]; rfl
  have formatted : (state.point a).formatted = some (req, chain) := by
    rw [here]; rfl
  have ⟨written, marked⟩ := (inv.fine a).slot here
  have counter : (state.disk.avail.idx + 1).toNat =
      (state.disk.avail.idx.toNat + 1) % 2 ^ 16 := UInt16.toNat_add ..
  refine {
    points := inv.points.set nofun (fun _ => inv.points.locked a inside)
      (fun {b} _ => inv.points.locked b) ?_ ?_ ?_
    chains := ?_
    fine := forall_update (fun _ => Fine blockno _)
      ⟨?_, nofun, nofun, nofun⟩ fun {b} apart => ⟨?_, ?_, (inv.fine b).testing, (inv.fine b).done⟩
    avail := ?_
    used := inv.used
    ledger := ?_
    taken := ?_
    consumed := inv.consumed }
  · intro b held other same theirs equal
    cases same
    exact inv.points.reqs theirs call equal.symm
  · simp [State.set]
  · rintro ticket same
    cases same
    refine ⟨by simp [State.set], fun {b} apart theirs => ?_⟩
    exact (inv.points.tickets b _ theirs).false
  · change Chains (fun b => (update state.point a _ b).chain) _
    rw [view_same _ _ mine.symm]
    exact inv.chains
  · rintro held other same
    cases same
    exact ((inv.fine a).formatted formatted).frame (fun _ => rfl) rfl rfl
  · exact fun held => ((inv.fine b).formatted held).frame (fun _ => rfl) rfl rfl
  · exact fun same => (inv.none_publishing inside apart same).elim
  · have space := (queue_length state).trans_lt (inv.ledger.length_lt (inv.other_head mine idle))
    change RingBuffer.Represents _ state.disk.avail.ring state.seen.toNat
      (state.disk.avail.idx + 1).toNat ((state.issued ++ [chain.id]).drop state.taken)
    rw [counter, List.drop_append_of_le_length inv.taken]
    exact inv.avail.push (by decide) space written
  · change Ledger _ (fun b => (update state.point a _ b).wait)
      _ _ _ _ _
    rw [view_update]
    exact inv.ledger.publish idle (inv.other_head mine idle) marked
      (pending_publish inv.taken chain.id)
  · exact inv.taken.trans (by simp [State.set])

theorem finish (inv : Inv blockno state) (here : state.point a = .waiting req chain ticket)
    (ended : state.busy req.b = false) :
    Inv blockno (state.set a (.finishing req chain ticket)) := by
  have inside : (state.point a).Inside := by
    rw [here]
    trivial
  have mine : (state.point a).chain = some chain := by rw [here]; rfl
  have call : (state.point a).req = some req := by rw [here]; rfl
  have wait : (state.point a).wait = some (req, chain, ticket) := by
    rw [here]; rfl
  have formatted := (inv.fine a).formatted (Point.formatted_of_wait wait)
  have served : ServedAs blockno state.log ticket req := by
    rcases inv.ledger.waits wait with ⟨marked, _⟩ | ⟨_, served⟩
    · cases ended.symm.trans marked
    · exact served
  refine {
    points := inv.points.stay inside nofun (.inr call.symm) (.inr ?_)
    chains := ?_
    fine := forall_update (fun _ => Fine blockno _)
      ⟨?_, nofun, nofun, ?_⟩ fun {b} apart => ⟨(inv.fine b).formatted,
        (inv.fine b).slot, (inv.fine b).testing, (inv.fine b).done⟩
    avail := inv.avail
    used := inv.used
    ledger := ?_
    taken := inv.taken
    consumed := inv.consumed }
  · rw [here]
    rfl
  · change Chains (fun b => (update state.point a _ b).chain) _
    rw [view_same _ _ mine.symm]
    exact inv.chains
  · rintro held other same
    cases same
    exact formatted
  · rintro held t same
    cases same
    exact served
  · change Ledger _ (fun b => (update state.point a _ b).wait) state.pending _ _ _ _
    rw [view_update]
    exact inv.ledger.finish wait ended

theorem freeChain (inv : Inv blockno state) (here : state.point a = .finishing req chain ticket) :
    ∃ disk,
      Disk.freeChain { state.disk with
        info := update state.disk.info chain.head
          { state.disk.info chain.head with b := none } } (num + 1)
        chain.head = .ok disk ∧
      Inv blockno ({ state with disk := disk }.set a (.leaving req ticket)) := by
  have inside : (state.point a).Inside := by
    rw [here]
    trivial
  have mine : (state.point a).chain = some chain := by rw [here]; rfl
  have call : (state.point a).req = some req := by rw [here]; rfl
  have idle : (state.point a).wait = none := by rw [here]; rfl
  have formatted : (state.point a).formatted = some (req, chain) := by
    rw [here]; rfl
  have done : (state.point a).done = some (req, ticket) := by
    rw [here]; rfl
  have own : ∀ {b held other}, b ≠ a → (state.point b).formatted = some (held, other) →
        ∀ {i}, i ∈ other.toList → i ∉ chain.toList := by
    intro b held other apart theirs i member fresh
    exact apart (inv.chains.disjoint (Point.chain_of_formatted theirs) mine member fresh)
  have linked := ((inv.fine a).formatted formatted).toLinked
  refine ⟨_, Disk.Linked.freeChain_eq ⟨linked.head, linked.data,
    linked.status⟩ (inv.chains.nodup mine) (inv.chains.used mine), ?_⟩
  refine {
    points := inv.points.stay inside nofun (.inr call.symm) (.inr ?_)
    chains := ?_
    fine := forall_update (fun _ => Fine blockno _)
      ⟨nofun, nofun, nofun, ?_⟩ fun {b} apart => ⟨?_, (inv.fine b).slot,
        (inv.fine b).testing, (inv.fine b).done⟩
    avail := inv.avail
    used := inv.used
    ledger := ?_
    taken := inv.taken
    consumed := inv.consumed }
  · rw [here]
    rfl
  · change Chains (fun b => (update state.point a _ b).chain) _
    rw [view_update]
    exact inv.chains.free mine Disk.unchained_mem Disk.unchained_free
  · rintro held t same
    cases same
    exact (inv.fine a).done done
  · intro held other theirs
    have heads : other.head ≠ chain.head := by
      intro same
      refine own apart theirs other.head_mem ?_
      rw [same]
      exact chain.head_mem
    exact ((inv.fine b).formatted theirs).frame
      (fun member => Disk.unchained_desc (own apart theirs member)) rfl
      (congrArg Info.b (update_of_ne heads ..))
  · change Ledger _ (fun b => (update state.point a _ b).wait)
      state.pending _ _ _ (update state.disk.info chain.head _)
    rw [view_same _ _ idle.symm]
    refine inv.ledger.reinfo fun {b held other t} wait => ?_
    by_cases same : other.head = chain.head
    · rw [same, update_self]
    · rw [update_of_ne same]

/-! virtio_disk_intr(). -/

omit [DecidableEq Agent] in
theorem consumed_lt (inv : Inv blockno state) (more : state.disk.usedIdx ≠ state.disk.used.idx) :
    state.consumed < state.log.length := by
  refine Nat.lt_of_not_le fun all => more (UInt16.toNat_inj.mp ?_)
  refine (inv.used.nil_iff state.disk.usedIdx.toNat_lt (by decide)).mpr ?_
  rw [List.drop_eq_nil_of_le all]
  rfl

theorem intrStep_eq [DecidableEq Buf] {i : Fin num}
    (found : (state.disk.used.ring (slot state.disk.usedIdx)).toNat = i)
    (status : (state.disk.info i).status = 0) (owner : (state.disk.info i).b = some buf) :
    state.intrStep a = { state with
      busy := update state.busy buf false
      disk := { state.disk with usedIdx := state.disk.usedIdx + 1 }
      consumed := state.consumed + 1 }.set a .intrTesting := by
  unfold State.intrStep
  simp only [found, i.isLt, dite_true, Fin.eta, status, owner, ne_eq, not_true, if_false]

omit [DecidableEq Agent] in
theorem pending_consume (front : state.log.drop state.consumed = entry :: rest) :
    state.pending.Perm ((entry.head, entry.ticket) ::
        (state.issued.zipIdx.drop state.taken ++ state.working ++ rest.map fun entry => (entry.head,
        entry.ticket))) := by
  rw [State.pending, front, List.map_cons]
  exact List.perm_middle

theorem consume [DecidableEq Buf] (inv : Inv blockno state) (here : state.point a = .intrTaking) :
    Inv blockno (state.intrStep a) := by
  have inside : (state.point a).Inside := by
    rw [here]
    trivial
  have idle : (state.point a).wait = none := by rw [here]; rfl
  have bare : (state.point a).chain = none := by rw [here]; rfl
  have less := (inv.fine a).testing here
  have front := List.drop_eq_getElem_cons less
  generalize state.log[state.consumed] = entry at front
  have unseen : entry ∈ state.log.drop state.consumed := by
    rw [front]
    exact List.mem_cons_self
  obtain ⟨b, held, other, wait, id, _⟩ :=
    inv.ledger.waiter (inv.ledger.listed unseen)
  have formatted := (inv.fine b).formatted (Point.formatted_of_wait wait)
  have ⟨status, _⟩ := inv.ledger.entries unseen wait id
  have theirs := Point.chain_of_formatted (Point.formatted_of_wait wait)
  have call := Point.req_of_formatted (Point.formatted_of_wait wait)
  have queue := inv.used
  rw [front, List.map_cons] at queue
  have found : (state.disk.used.ring (slot state.disk.usedIdx)).toNat = other.head := by
    change (state.disk.used.ring (Fin.ofNat _ _)).toNat = _
    rw [queue.front, id]
    exact Disk.index_toNat other.head
  have counter : (state.disk.usedIdx + 1).toNat =
      (state.disk.usedIdx.toNat + 1) % 2 ^ 16 := UInt16.toNat_add ..
  rw [intrStep_eq found status formatted.info]
  refine {
    points := inv.points.stay inside nofun (.inl rfl) (.inl rfl)
    chains := ?_
    fine := forall_update (fun _ => Fine blockno _)
      (fine_of_none rfl nofun rfl) fun {c} apart => ⟨?_, ?_, ?_, (inv.fine c).done⟩
    avail := inv.avail
    used := ?_
    ledger := ?_
    taken := inv.taken
    consumed := less }
  · change Chains (fun b => (update state.point a _ b).chain) _
    rw [view_same _ _ bare.symm]
    exact inv.chains
  · exact fun holds => ((inv.fine c).formatted holds).frame (fun _ => rfl) rfl rfl
  · exact fun same => (inv.none_publishing inside apart same).elim
  · intro same
    refine (inv.points.alone inside apart ?_).elim
    rw [same]
    trivial
  · change RingBuffer.Represents _ state.disk.used.ring
      (state.disk.usedIdx + 1).toNat state.disk.used.idx.toNat
      ((state.log.drop (state.consumed + 1)).map _)
    rw [counter]
    exact queue.pop (by decide)
  · change Ledger _ (fun b => (update state.point a _ b).wait)
      _ (state.log.drop (state.consumed + 1)) _ _ _
    rw [view_same _ _ idle.symm]
    refine inv.ledger.consume front (List.mem_of_mem_drop unseen) wait id
      (fun waits same => inv.wait_head waits theirs same)
      (fun waits same => inv.wait_buffer waits call same) (pending_consume front) fun member => ?_
    exact List.mem_append_right _ (List.mem_map_of_mem member)

/-! The device. -/

omit [DecidableEq Agent] in
theorem pending_take (less : state.taken < state.issued.length) :
    (state.issued.zipIdx.drop (state.taken + 1) ++
        (state.working ++ [(state.issued[state.taken], state.taken)]) ++
        (state.log.drop state.consumed).map fun entry => (entry.head, entry.ticket)).Perm
      state.pending := by
  have bound : state.taken < state.issued.zipIdx.length := by
    rw [List.length_zipIdx]
    exact less
  rw [State.pending, List.drop_eq_getElem_cons bound, List.getElem_zipIdx,
    Nat.zero_add, ← List.append_assoc, List.append_assoc _ [_],
    List.singleton_append, List.append_assoc (_ :: _)]
  refine List.perm_middle.trans ?_
  rw [List.append_assoc, List.cons_append]

omit [DecidableEq Agent] in
theorem take (inv : Inv blockno state) (more : state.seen ≠ state.disk.avail.idx) :
    Inv blockno { state with
      seen := state.seen + 1
      working := state.working ++ [(state.disk.avail.ring (slot state.seen), state.taken)]
      taken := state.taken + 1 } := by
  have less : state.taken < state.issued.length := by
    refine Nat.lt_of_not_le fun all => more (UInt16.toNat_inj.mp ?_)
    refine (inv.avail.nil_iff state.seen.toNat_lt (by decide)).mpr ?_
    exact List.drop_eq_nil_of_le all
  have queue := inv.avail
  rw [List.drop_eq_getElem_cons less] at queue
  have counter : (state.seen + 1).toNat = (state.seen.toNat + 1) % 2 ^ 16 :=
    UInt16.toNat_add ..
  exact {
    points := inv.points
    chains := inv.chains
    fine := fun b => ⟨(inv.fine b).formatted, (inv.fine b).slot,
      (inv.fine b).testing, (inv.fine b).done⟩
    avail := by
      change RingBuffer.Represents _ _ (state.seen + 1).toNat _ _
      rw [counter]
      exact queue.pop (by decide)
    used := inv.used
    ledger := by
      refine inv.ledger.perm ?_
      have entry : state.disk.avail.ring (slot state.seen) =
          state.issued[state.taken] := queue.front
      unfold State.pending
      dsimp only
      rw [entry]
      exact pending_take less
    taken := less
    consumed := inv.consumed }

omit [DecidableEq Agent] in
theorem pending_complete (entry : Entry Buf)
    (working : state.working = before ++ (entry.head, entry.ticket) :: rest)
    (consumed : state.consumed ≤ state.log.length) :
    (state.issued.zipIdx.drop state.taken ++ (before ++ rest) ++
        ((state.log ++ [entry]).drop state.consumed).map fun entry => (entry.head,
        entry.ticket)).Perm state.pending := by
  rw [State.pending, List.drop_append_of_le_length consumed,
    List.map_append, List.map_singleton, working, ← List.append_assoc]
  refine List.perm_append_comm.trans ?_
  simpa only [List.append_assoc, List.cons_append, List.nil_append] using
    (@List.perm_middle _ (entry.head, entry.ticket) (state.issued.zipIdx.drop state.taken ++ before)
      (rest ++ (state.log.drop state.consumed).map _)).symm

omit [DecidableEq Agent] in
theorem complete (inv : Inv blockno state)
    (working : state.working = before ++ (head, ticket) :: rest) :
    Inv blockno { state with
      disk := state.disk.complete head
      working := before ++ rest
      log := state.log ++ [⟨ticket, head, state.disk.request head.toNat⟩] } := by
  have member : (head, ticket) ∈ state.pending := by
    refine List.mem_append_left _ (List.mem_append_right _ ?_)
    rw [working]
    exact List.mem_append_right _ List.mem_cons_self
  obtain ⟨b, held, other, wait, rfl, _⟩ := inv.ledger.waiter member
  have formatted := (inv.fine b).formatted (Point.formatted_of_wait wait)
  have theirs := Point.chain_of_formatted (Point.formatted_of_wait wait)
  have request : state.disk.request other.id.toNat =
      some ⟨Disk.blkReq blockno held, held.b, !held.write⟩ := by
    rw [Chain.id, Disk.index_toNat]
    exact formatted.request_eq
  have info := formatted.complete_info
  have space : ((state.log.drop state.consumed).map
      fun entry => entry.head.toUInt32).length < num := by
    refine Nat.lt_of_lt_of_le ?_ inv.ledger.length_le
    simp only [State.pending, working, List.length_append, List.length_map, List.length_cons]
    omega
  have counter : (state.disk.used.idx + 1).toNat =
      (state.disk.used.idx.toNat + 1) % 2 ^ 16 := UInt16.toNat_add ..
  rw [request]
  exact {
    points := inv.points
    chains := inv.chains
    fine := fun c => {
      formatted := fun {call chain} holds => by
        refine ((inv.fine c).formatted holds).frame (fun _ => rfl) rfl ?_
        change ((state.disk.complete other.id).info _).b = _
        rw [Chain.id, info]
        by_cases same : chain.head = other.head
        · rw [same, update_self]
        · rw [update_of_ne same]
      slot := (inv.fine c).slot
      testing := fun same => by
        rw [List.length_append]
        exact Nat.lt_add_right _ ((inv.fine c).testing same)
      done := fun done => by
        obtain ⟨entry, logged, same⟩ := (inv.fine c).done done
        exact ⟨entry, List.mem_append_left _ logged, same⟩ }
    avail := inv.avail
    used := by
      change RingBuffer.Represents _ (update state.disk.used.ring (slot state.disk.used.idx) _)
        state.disk.usedIdx.toNat (state.disk.used.idx + 1).toNat
        (((state.log ++ [_]).drop state.consumed).map _)
      rw [counter, List.drop_append_of_le_length inv.consumed, List.map_append, List.map_singleton]
      exact (inv.used.write (by decide) space _).push (by decide) space
        (update_self ..)
    ledger := by
      refine Ledger.perm ?_ (pending_complete ⟨ticket, other.id, _⟩ working inv.consumed)
      change Ledger _ _ _ ((state.log ++ [_]).drop state.consumed) _ _
        (state.disk.complete other.id).info
      rw [Chain.id, info, List.drop_append_of_le_length inv.consumed]
      exact inv.ledger.complete wait (fun waits same => inv.wait_head waits theirs same) member
    taken := inv.taken
    consumed := by
      rw [List.length_append]
      exact inv.consumed.trans (Nat.le_add_right ..) }

/-! Whole runs. -/

section

variable (inv : Inv blockno state)

include inv

theorem acquire (taken : state.acquire a point = some after)
    (calm : ∀ why, point ≠ .panic why) (req : point.req = none ∨ point.req = (state.point a).req)
    (ticket : point.ticket = none ∨ point.ticket = (state.point a).ticket)
    (chain : point.chain = (state.point a).chain) (fine : Fine blockno state point)
    (wait : point.wait = (state.point a).wait) : Inv blockno after := by
  unfold State.acquire at taken
  split at taken
  next free =>
    cases taken
    exact inv.repoint (some a) (inv.points.acquire
      (Option.isNone_iff_eq_none.mp free) calm req ticket) chain fine wait
  next => cases taken

theorem release (held : (state.point a).Inside)
    (outside : ¬point.Inside) (calm : ∀ why, point ≠ .panic why)
    (req : point.req = none ∨ point.req = (state.point a).req)
    (ticket : point.ticket = none ∨ point.ticket = (state.point a).ticket)
    (chain : point.chain = (state.point a).chain) (fine : Fine blockno state point)
    (wait : point.wait = (state.point a).wait) : Inv blockno (state.release a point) :=
  inv.repoint none (inv.points.release held outside calm req ticket) chain fine wait

theorem allocate [DecidableEq Buf]
    (here : state.point a = .allocating req) (moved : state.go blockno a = some after) :
    Inv blockno after := by
  have inside : (state.point a).Inside := by
    rw [here]
    trivial
  have bare : (state.point a).chain = none := by rw [here]; rfl
  have idle : (state.point a).wait = none := by rw [here]; rfl
  have call : (state.point a).req = some req := by rw [here]; rfl
  unfold State.go at moved
  rw [here] at moved
  dsimp only at moved
  rcases state.disk.alloc3Desc_spec with
    ⟨disk, done, took⟩ | ⟨chain, disk, done, took⟩
  · rw [done] at moved
    cases moved
    refine inv.took took none (inv.points.release inside id nofun
      (.inr call.symm) (.inl rfl)) ?_ (fun _ => fine_of_none rfl nofun rfl) idle.symm
    have same : disk.free = state.disk.free := by
      funext i
      exact took.others List.not_mem_nil
    rw [view_same _ _ bare.symm, same]
    exact inv.chains
  · rw [done] at moved
    cases moved
    refine inv.took took state.lock (inv.points.stay inside nofun
      (.inr call.symm) (.inl rfl)) ?_ (fun _ => fine_of_none rfl nofun rfl) idle.symm
    rw [view_update]
    exact inv.chains.alloc bare took

theorem go [DecidableEq Buf]
    (moved : state.go blockno a = some after) : Inv blockno after := by
  cases here : state.point a with
  | allocating req => exact inv.allocate here moved
  | home | panic why =>
    simp only [State.go, here, reduceCtorEq] at moved
  | entering req | starved req =>
    simp only [State.go, here] at moved
    exact inv.acquire moved nofun (.inr (by rw [here]; rfl)) (.inl rfl)
      (by rw [here]; rfl) (fine_of_none rfl nofun rfl) (by rw [here]; rfl)
  | formatting req chain =>
    simp only [State.go, here, Option.some.injEq] at moved
    rw [← moved]
    exact inv.format here
  | publishing req chain =>
    simp only [State.go, here, Option.some.injEq] at moved
    rw [← moved]
    exact inv.publish here
  | waiting req chain ticket =>
    have inside : (state.point a).Inside := by
      rw [here]
      trivial
    have fine := inv.fine a
    rw [here] at fine
    simp only [State.go, here] at moved
    split at moved
    next =>
      cases moved
      exact inv.release inside id nofun (.inr (by rw [here]; rfl))
        (.inr (by rw [here]; rfl)) (by rw [here]; rfl)
        ⟨fine.formatted, nofun, nofun, nofun⟩ (by rw [here]; rfl)
    next ended =>
      cases moved
      exact inv.finish here (Bool.eq_false_iff.mpr ended)
  | asleep req chain ticket =>
    have fine := inv.fine a
    rw [here] at fine
    simp only [State.go, here] at moved
    exact inv.acquire moved nofun (.inr (by rw [here]; rfl))
      (.inr (by rw [here]; rfl)) (by rw [here]; rfl)
      ⟨fine.formatted, nofun, nofun, nofun⟩ (by rw [here]; rfl)
  | finishing req chain ticket =>
    obtain ⟨disk, freed, kept⟩ := inv.freeChain here
    simp only [State.go, here, freed, Option.some.injEq] at moved
    rw [← moved]
    exact kept
  | leaving req ticket | intrLeaving =>
    have inside : (state.point a).Inside := by
      rw [here]
      trivial
    simp only [State.go, here, Option.some.injEq] at moved
    rw [← moved]
    exact inv.release inside id nofun (.inl rfl) (.inl rfl)
      (by rw [here]; rfl) (fine_of_none rfl nofun rfl) (by rw [here]; rfl)
  | intrEntering =>
    simp only [State.go, here] at moved
    exact inv.acquire moved nofun (.inl rfl) (.inl rfl)
      (by rw [here]; rfl) (fine_of_none rfl nofun rfl) (by rw [here]; rfl)
  | intrTesting =>
    have inside : (state.point a).Inside := by
      rw [here]
      trivial
    simp only [State.go, here, Option.some.injEq] at moved
    rw [← moved]
    split
    next more =>
      exact inv.repoint state.lock (inv.points.stay inside nofun (.inl rfl)
        (.inl rfl)) (by rw [here]; rfl)
        ⟨nofun, nofun, fun _ => inv.consumed_lt more, nofun⟩ (by rw [here]; rfl)
    next =>
      exact inv.repoint state.lock (inv.points.stay inside nofun (.inl rfl)
        (.inl rfl)) (by rw [here]; rfl) (fine_of_none rfl nofun rfl)
        (by rw [here]; rfl)
  | intrTaking =>
    simp only [State.go, here, Option.some.injEq] at moved
    rw [← moved]
    exact inv.consume here

theorem step [DecidableEq Buf]
    (taken : State.Step blockno state event after) : Inv blockno after := by
  cases taken with
  | call home fresh => exact inv.call home fresh
  | intr home => exact inv.intr home
  | go moved => exact inv.go moved
  | take more => exact inv.take more
  | complete working => exact inv.complete working

end

omit [DecidableEq Agent] in
theorem boot (boot : state.Boot) : Inv blockno state where
  points := {
    calm := fun a why same => nomatch (boot.point a).symm.trans same
    locked := fun a inside => by
      rw [boot.point] at inside
      exact inside.elim
    reqs := fun {a} _ _ _ held => by
      rw [boot.point] at held
      cases held
    tickets := fun a _ held => by
      rw [boot.point] at held
      cases held
    unique := fun {a} _ _ held => by
      rw [boot.point] at held
      cases held }
  chains := {
    nodup := fun {a} _ held => by
      rw [boot.point] at held
      cases held
    used := fun {a} _ _ held => by
      rw [boot.point] at held
      cases held
    disjoint := fun {a} _ _ _ _ held => by
      rw [boot.point] at held
      cases held
    owned := fun {i} inUse => nomatch (boot.free i).symm.trans inUse }
  fine := fun a => by
    rw [boot.point]
    exact fine_of_none rfl nofun rfl
  avail := by
    rw [boot.seen, boot.avail, boot.issued, List.drop_nil]
    exact RingBuffer.Represents.nil _ (by decide)
  used := by
    rw [boot.usedIdx, boot.used, boot.log, List.drop_nil]
    exact RingBuffer.Represents.nil _ (by decide)
  ledger := by
    rw [State.pending, boot.issued, boot.taken, boot.working, boot.log, List.drop_nil]
    exact {
      heads := .nil
      waiter := nofun
      waits := fun {a} _ _ _ held => by
        rw [boot.point] at held
        cases held
      listed := nofun
      entries := nofun }
  taken := boot.taken.le.trans (Nat.zero_le _)
  consumed := boot.consumed.le.trans (Nat.zero_le _)

theorem run [DecidableEq Buf] (booted : start.Boot)
    (run : Run (State.Step blockno) start events state) : Inv blockno state :=
  run.invariant (Inv blockno) (boot booted) fun inv => inv.step

end Inv

end Xv6Lottery.Virtio

import M5.Mem.Physical
import M5.Ruby.Sequencer

/-!
# Every accepted packet is answered once

`RubyPort` of `mem/ruby/system/RubyPort.cc` over a `Sequencer`: timing packets become requests of the sequencer or go to
the port of the devices, and are sent back when they are done. Packets are known by number; the environment keeps a
packet after it was refused, and delivers it again until it is accepted.
-/

namespace M5.Ruby

open M5.Lib M5.Mem Function List

section

/-- What `recvTiming` does with a packet. -/
inductive Outcome
  /-- The packet is deleted: a snooper responds. -/
  | inhibited
  /-- The packet goes to the port of the devices. -/
  | pio
  /-- The sequencer has the request. -/
  | issued
  /-- The sequencer has found the store conditional to fail. -/
  | llscFailed
  /-- The sequencer has no room for the request, or another one for the line. -/
  | refused
deriving DecidableEq

/-- The value that `recvTiming` returns. -/
def Outcome.accepted : Outcome → Bool
  | .refused => false
  | .inhibited | .pio | .issued | .llscFailed => true

structure RubyPort where
  seq : Sequencer
  physmem : PhysicalMemory
  pioPort : Bool := true
  packets : Nat → Packet
  /-- The ports that `SenderState`s of this object have saved with a packet. -/
  senderState : Nat → List Nat := fun _ => []
  /-- The packets that went to the devices and have not come back. -/
  pio : List Nat := []
  /-- The responses, with the port they were sent to. -/
  sent : List (Nat × Nat) := []
  /-- The packets for which `recvTiming` returned true. -/
  arrived : Nat → Option (Packet × Outcome) := fun _ => none

def liftMem {α : Type} : Except Mem.Fault α → Except Fault α
  | .ok a => .ok a
  | .error .assert => .error .assert
  | .error .panic => .error .error

/-- The type that `recvTiming` gives the request. -/
def requestType (pkt : Packet) : Except Fault RubyRequestType :=
  if pkt.isLLSC then
    if pkt.isWrite then .ok .Locked_Write
    else do
      ensure .assert pkt.isRead
      return .Locked_Read
  else if pkt.isRead then
    .ok (if pkt.req.isInstFetch then .IFETCH else .LD)
  else if pkt.isWrite then .ok .ST
  else .error .error

namespace RubyPort

variable (s : RubyPort)

def isPhysMemAddress (addr : Nat) : Bool :=
  decide (s.physmem.start ≤ addr) && decide (addr < s.physmem.start + s.physmem.size)

section

variable (port p : Nat) (pkt : Packet)

def setPacket : RubyPort := { s with packets := update s.packets p pkt }

def setSenderState (ports : List Nat) : RubyPort :=
  { s with senderState := update s.senderState p ports }

/-- Save the port with the packet. -/
def pushSenderState : RubyPort := s.setSenderState p (port :: s.senderState p)

def popSenderState : Except Fault (Nat × RubyPort) :=
  match s.senderState p with
  | [] => .error .assert
  | port :: ports => .ok (port, s.setSenderState p ports)

/-- The end of `recvTiming`: what the status of the request means for the packet. -/
def answer (status : RequestStatus) : Except Fault (Outcome × RubyPort) :=
  let sc := pkt.isLLSC && pkt.isWrite
  match status with
  | .Issued => .ok (.issued, if sc then s.setPacket p (pkt.setExtraData 1) else s)
  | .LlscFailed => .ok (.llscFailed, if sc then s.setPacket p (pkt.setExtraData 0) else s)
  | .Ready | .BufferFull | .Aliased => do
    let (_, s) ← s.popSenderState p
    return (.refused, s)

/-- The request of a packet goes to the sequencer. -/
def submit : Except Fault (Outcome × RubyPort) := do
  let type ← requestType pkt
  let (status, seq) ← s.seq.makeRequest { paddr := pkt.addr, data := pkt.data, len := pkt.size, type, pkt := p }
  { s with seq }.answer p pkt status

def recvTiming : Except Fault (Outcome × RubyPort) := do
  ensure .assert pkt.isRequest
  let s := s.setPacket p pkt
  if pkt.memInhibit then
    return (.inhibited, s)
  else
    let s := s.pushSenderState port p
    if s.isPhysMemAddress pkt.addr then
      s.submit p pkt
    else
      ensure .assert s.pioPort
      return (.pio, { s with pio := p :: s.pio })

def hitCallback : Except Fault RubyPort := do
  let needsResponse := (s.packets p).needsResponse
  let (physmem, pkt) ← liftMem (s.physmem.doAtomicAccess (s.packets p))
  let s := { s.setPacket p pkt with physmem }
  if needsResponse then
    ensure .assert pkt.isResponse
    return { s with sent := (port, p) :: s.sent }
  else return s

/-- `Sequencer::hitCallback` with `RubyPort::ruby_hit_callback`: the packet gets its data and goes back. -/
def rubyHitCallback (r : RubyRequest) (data : DataBlock) : Except Fault RubyPort := do
  let s := s.setPacket r.pkt { s.packets r.pkt with data := (s.seq.hitData r data).1 }
  let (port, s) ← s.popSenderState r.pkt
  s.hitCallback port r.pkt

/-- `Sequencer::writeCallback`. -/
def writeHit (line : Nat) (data : DataBlock) : Except Fault RubyPort := do
  let (r, seq) ← s.seq.writeCallback line
  { s with seq }.rubyHitCallback r data

/-- `Sequencer::readCallback`. -/
def readHit (line : Nat) (data : DataBlock) : Except Fault RubyPort := do
  let (r, seq) ← s.seq.readCallback line
  { s with seq }.rubyHitCallback r data

/-- `PioPort::recvTiming`: a device responds, with the packet as it is then. -/
def pioResponse : Except Fault RubyPort := do
  ensure .assert pkt.isResponse
  let (port, s) ← s.popSenderState p
  return { s.setPacket p pkt with pio := s.pio.erase p, sent := (port, p) :: s.sent }

inductive Label
  | recvTiming (port p : Nat) (pkt : Packet)
  | writeCallback (line : Nat) (data : DataBlock)
  | readCallback (line : Nat) (data : DataBlock)
  | pioResponse (p : Nat) (pkt : Packet)
  /-- The protocol allocates and deallocates lines, changes permissions and takes requests from the mandatory queue. -/
  | protocol (dataCache : Nat → Option Int) (mandatoryQueue : List CacheMsg)

/-- A packet is in one object: it is not delivered after it was accepted, and a device responds to what it got. -/
def Admits : Label → Prop
  | .recvTiming _ p _ => s.arrived p = none
  | .pioResponse p _ => p ∈ s.pio
  | _ => True

def arrive (o : Outcome) : RubyPort :=
  if o.accepted then { s with arrived := update s.arrived p (some (pkt, o)) } else s

end

def handle : Label → Except Fault RubyPort
  | .recvTiming port p pkt => do
    let (o, s) ← s.recvTiming port p pkt
    return s.arrive p pkt o
  | .writeCallback line data => s.writeHit line data
  | .readCallback line data => s.readHit line data
  | .pioResponse p pkt => s.pioResponse p pkt
  | .protocol dataCache mandatoryQueue => .ok { s with seq := { s.seq with dataCache, mandatoryQueue } }

/-- A packet arrives, the protocol calls back, or it changes the data cache. -/
def Step (s : RubyPort) (l : Label) (s' : RubyPort) : Prop := s.Admits l ∧ s.handle l = .ok s'

structure Init (s : RubyPort) : Prop where
  write : s.seq.writeRequestTable = []
  read : s.seq.readRequestTable = []
  count : s.seq.outstandingCount = 0
  pio : s.pio = []
  sent : s.sent = []
  arrived : s.arrived = fun _ => none

end RubyPort

end

/-! ## Where a packet is -/

/-- The packet is accepted and kept. -/
def Outcome.keeps : Outcome → Bool
  | .pio | .issued => true
  | .inhibited | .llscFailed | .refused => false

namespace RubyPort

variable {s s' : RubyPort} {p q port line : Nat} {pkt : Packet} {o : Outcome} {r : RubyRequest} {data : DataBlock}

section

variable (s : RubyPort) (p : Nat)

/-- How often the sequencer has the packet. -/
def pending : Nat := s.seq.requests.countP (·.pkt == p)

/-- How often the packet is with the sequencer, with the devices, or answered. -/
def places : Nat := s.pending p + s.pio.count p + s.sent.countP (·.2 == p)

/-- What is known of a packet: those that were not accepted or were dropped are nowhere, the others are in one place
unless they need no response. -/
def Accounted : Prop :=
  match s.arrived p with
  | none => s.places p = 0
  | some (pkt, o) =>
    if o.keeps = false then o.accepted ∧ s.places p = 0
    else s.places p ≤ 1 ∧ (pkt.needsResponse → s.places p = 1) ∧
      (0 < s.pending p → (s.packets p).cmd = pkt.cmd)

end

structure Inv (s : RubyPort) : Prop where
  tidy : s.seq.Tidy
  accounted : ∀ p, s.Accounted p

theorem accounted_some (h : s.arrived p = some (pkt, o)) : s.Accounted p ↔
    if o.keeps = false then o.accepted ∧ s.places p = 0
    else s.places p ≤ 1 ∧ (pkt.needsResponse → s.places p = 1) ∧
      (0 < s.pending p → (s.packets p).cmd = pkt.cmd) := by
  rw [Accounted, h]

theorem Inv.init (h : s.Init) : s.Inv := by
  have hreq : s.seq.requests = [] := by rw [Sequencer.requests, h.write, h.read]; rfl
  refine ⟨⟨?_, ?_⟩, fun p => ?_⟩
  · rw [h.write]
    exact ⟨nodup_nil, by simp, by simp⟩
  · rw [h.read]
    exact ⟨nodup_nil, by simp, by simp⟩
  · rw [Accounted, h.arrived]
    simp [places, pending, hreq, h.pio, h.sent]

theorem setPacket_packets_self : (s.setPacket p pkt).packets p = pkt := update_self ..

theorem setPacket_packets_of_ne (hq : q ≠ p) : (s.setPacket p pkt).packets q = s.packets q := update_of_ne hq ..

/-- Nothing that counts has changed. -/
structure Quiet (s s' : RubyPort) : Prop where
  seq : s'.seq = s.seq
  pio : s'.pio = s.pio
  sent : s'.sent = s.sent
  arrived : s'.arrived = s.arrived
  cmd : ∀ q, (s'.packets q).cmd = (s.packets q).cmd

theorem Quiet.setPacket (h : pkt.cmd = (s.packets p).cmd) : Quiet s (s.setPacket p pkt) where
  seq := rfl
  pio := rfl
  sent := rfl
  arrived := rfl
  cmd q := by
    by_cases hq : q = p
    · rw [hq, setPacket_packets_self, h]
    · rw [setPacket_packets_of_ne hq]

theorem Quiet.popSenderState (h : s.popSenderState p = .ok (port, s')) : Quiet s s' := by
  unfold RubyPort.popSenderState at h
  split at h
  · cases h
  · cases h
    exact ⟨rfl, rfl, rfl, rfl, fun _ => rfl⟩

theorem answer_spec {status : RequestStatus} (h : s.answer p pkt status = .ok (o, s'))
    (hp : (s.packets p).cmd = pkt.cmd) : Quiet s s' ∧ (o.keeps ↔ status = .Issued) := by
  have hset : ∀ {b : Bool} {n : Nat}, Quiet s (if b then s.setPacket p (pkt.setExtraData n) else s) := by
    intro b n
    cases b with
    | false => exact ⟨rfl, rfl, rfl, rfl, fun _ => rfl⟩
    | true => exact .setPacket hp.symm
  cases status with
  | Issued | LlscFailed =>
    cases h
    exact ⟨hset, by decide⟩
  | Ready | BufferFull | Aliased =>
    obtain ⟨⟨port, s₁⟩, h₁, h⟩ := of_bind h
    cases h
    exact ⟨.popSenderState h₁, by decide⟩

theorem Accounted.of_eq (h : s.Accounted p) (hpend : s'.pending p = s.pending p) (hpl : s'.places p = s.places p)
    (ha : s'.arrived p = s.arrived p) (hc : (s'.packets p).cmd = (s.packets p).cmd) : s'.Accounted p := by
  rw [Accounted] at h ⊢
  rwa [ha, hpend, hpl, hc]

/-- The packet `p` gets `n` places more, and nothing counts differently for the others. -/
structure Placed (s : RubyPort) (p n : Nat) (s' : RubyPort) : Prop where
  tidy : s'.seq.Tidy
  arrived : s'.arrived = s.arrived
  pending : ∀ {q}, q ≠ p → s'.pending q = s.pending q
  others : ∀ {q}, q ≠ p → s'.places q = s.places q
  cmd : ∀ {q}, q ≠ p → (s'.packets q).cmd = (s.packets q).cmd
  places : s'.places p = s.places p + n

theorem submit_spec (h : s.submit p pkt = .ok (o, s')) (hs : s.seq.Tidy) (hp : (s.packets p).cmd = pkt.cmd) :
    Placed s p (if o.keeps then 1 else 0) s' ∧ (s'.packets p).cmd = pkt.cmd := by
  obtain ⟨type, -, h⟩ := of_bind h
  obtain ⟨⟨status, seq⟩, h₁, h⟩ := of_bind h
  obtain ⟨htidy, hreq⟩ := Sequencer.makeRequest_spec h₁ hs
  obtain ⟨hq, hkeeps⟩ := answer_spec h hp
  have hpend : ∀ q, s'.pending q = s.pending q + if o.keeps ∧ p = q then 1 else 0 := by
    intro q
    rw [pending, hq.seq]
    rcases hreq with ⟨hst, hperm⟩ | ⟨hst, hperm⟩
    · rw [hperm.countP_eq, countP_cons]
      simp only [hkeeps.2 hst, true_and, beq_iff_eq]
      rfl
    · rw [hperm.countP_eq, if_neg fun hk => hst (hkeeps.1 hk.1)]
      rfl
  have hplaces : ∀ q, s'.places q = s.places q + if o.keeps ∧ p = q then 1 else 0 := by
    intro q
    simp only [places, hpend q, hq.pio, hq.sent]
    omega
  refine ⟨⟨hq.seq ▸ htidy, hq.arrived, fun hne => ?_, fun hne => ?_, fun _ => hq.cmd _, ?_⟩, (hq.cmd p).trans hp⟩
  · rw [hpend, if_neg fun hk => hne hk.2.symm]
    rfl
  · rw [hplaces, if_neg fun hk => hne hk.2.symm]
    rfl
  · rw [hplaces]
    simp

/-- A packet that is kept gets one place, another one none. -/
theorem recvTiming_spec (h : s.recvTiming port p pkt = .ok (o, s')) (hs : s.seq.Tidy) :
    Placed s p (if o.keeps then 1 else 0) s' ∧ (s'.packets p).cmd = pkt.cmd := by
  have hself : ((s.setPacket p pkt).packets p).cmd = pkt.cmd := congrArg Packet.cmd setPacket_packets_self
  have hne : ∀ {q}, q ≠ p → ((s.setPacket p pkt).packets q).cmd = (s.packets q).cmd :=
    fun hq => congrArg Packet.cmd (setPacket_packets_of_ne hq)
  obtain ⟨-, h⟩ := of_ensure h
  dsimp only at h
  split at h
  · cases h
    exact ⟨⟨hs, rfl, fun _ => rfl, fun _ => rfl, hne, rfl⟩, hself⟩
  · split at h
    · obtain ⟨⟨ht, ha, hp, ho, hc, hpl⟩, hcmd⟩ := submit_spec h hs hself
      exact ⟨⟨ht, ha, hp, ho, fun hq => (hc hq).trans (hne hq), hpl⟩, hcmd⟩
    · obtain ⟨-, h⟩ := of_ensure h
      cases h
      refine ⟨⟨hs, rfl, fun _ => rfl, fun hq => ?_, hne, ?_⟩, hself⟩
      · change s.pending _ + (p :: s.pio).count _ + _ = _
        rw [count_cons_of_ne hq.symm]
        rfl
      · change s.pending p + (p :: s.pio).count p + s.sent.countP _ = s.pending p + s.pio.count p + s.sent.countP _ + 1
        rw [count_cons_self]
        omega

theorem Inv.recvTiming (hi : s.Inv) (h : s.recvTiming port p pkt = .ok (o, s')) (hp : s.arrived p = none) :
    (s'.arrive p pkt o).Inv := by
  obtain ⟨hpl, hcmd⟩ := recvTiming_spec h hi.tidy
  have hzero : s.places p = 0 := by
    have ha := hi.accounted p
    rwa [Accounted, hp] at ha
  have hplace := hpl.places
  rw [hzero] at hplace
  unfold arrive
  split
  · next hacc =>
    refine ⟨hpl.tidy, fun q => ?_⟩
    by_cases hq : q = p
    · subst hq
      refine (accounted_some (update_self ..)).2 ?_
      cases hk : o.keeps with
      | false =>
        rw [hk] at hplace
        exact ⟨hacc, hplace⟩
      | true =>
        rw [hk] at hplace
        exact ⟨Nat.le_of_eq hplace, fun _ => hplace, fun _ => hcmd⟩
    · refine (hi.accounted q).of_eq (hpl.pending hq) (hpl.others hq) ?_ (hpl.cmd hq)
      dsimp only
      rw [update_of_ne hq, hpl.arrived]
  · next hacc =>
    have hk : o.keeps = false := by
      cases o with
      | refused => rfl
      | inhibited | pio | issued | llscFailed => exact absurd rfl hacc
    refine ⟨hpl.tidy, fun q => ?_⟩
    by_cases hq : q = p
    · subst hq
      rw [Accounted, hpl.arrived, hp]
      rw [hk] at hplace
      exact hplace
    · exact (hi.accounted q).of_eq (hpl.pending hq) (hpl.others hq) (by rw [hpl.arrived]) (hpl.cmd hq)

theorem Inv.kept (hi : s.Inv) (hp : 0 < s.places p) : ∃ pkt o, s.arrived p = some (pkt, o) ∧ o.keeps ∧
    s.places p = 1 ∧ (0 < s.pending p → (s.packets p).cmd = pkt.cmd) := by
  have ha := hi.accounted p
  unfold Accounted at ha
  split at ha
  · omega
  · next pkt o hsome =>
    split at ha
    · omega
    · next hk => exact ⟨pkt, o, hsome, Bool.not_eq_false _ ▸ hk, by omega, ha.2.2⟩

theorem Accounted.of_kept (h : s.arrived p = some (pkt, o)) (hk : o.keeps) (hle : s.places p ≤ 1)
    (hr : pkt.needsResponse → s.places p = 1) (hc : s.pending p = 0) : s.Accounted p := by
  refine (accounted_some h).2 ?_
  rw [hk]
  exact ⟨hle, hr, fun hpos => absurd hc (Nat.ne_of_gt hpos)⟩

theorem hitCallback_spec (h : s.hitCallback port p = .ok s') : s'.seq = s.seq ∧ s'.pio = s.pio ∧
    s'.arrived = s.arrived ∧ (∀ q, q ≠ p → s'.packets q = s.packets q) ∧
    s'.sent = if (s.packets p).needsResponse then (port, p) :: s.sent else s.sent := by
  obtain ⟨⟨physmem, pkt⟩, -, h⟩ := of_bind h
  dsimp only at h
  split at h
  · next hn =>
    obtain ⟨-, rfl⟩ := of_check h
    rw [if_pos hn]
    exact ⟨rfl, rfl, rfl, fun _ hq => setPacket_packets_of_ne hq, rfl⟩
  · next hn =>
    cases h
    rw [if_neg hn]
    exact ⟨rfl, rfl, rfl, fun _ hq => setPacket_packets_of_ne hq, rfl⟩

theorem rubyHitCallback_spec (h : s.rubyHitCallback r data = .ok s') : s'.seq = s.seq ∧ s'.pio = s.pio ∧
    s'.arrived = s.arrived ∧ (∀ q, q ≠ r.pkt → (s'.packets q).cmd = (s.packets q).cmd) ∧
    ∃ port, s'.sent = if (s.packets r.pkt).needsResponse then (port, r.pkt) :: s.sent else s.sent := by
  obtain ⟨⟨port, s₁⟩, h₁, h⟩ := of_bind h
  have hq₀ : Quiet s (s.setPacket r.pkt { s.packets r.pkt with data := (s.seq.hitData r data).1 }) := .setPacket rfl
  have hq := Quiet.popSenderState h₁
  obtain ⟨hseq, hpio, harr, hpk, hsent⟩ := hitCallback_spec h
  have hn : (s₁.packets r.pkt).needsResponse = (s.packets r.pkt).needsResponse :=
    congrArg MemCmd.needsResponse ((hq.cmd _).trans (hq₀.cmd _))
  refine ⟨hseq.trans hq.seq, hpio.trans hq.pio, harr.trans hq.arrived, fun q hne => ?_, port, ?_⟩
  · rw [hpk q hne]
    exact (hq.cmd q).trans (hq₀.cmd q)
  · rw [hsent, hn, hq.sent]
    rfl

theorem Inv.hit {seq : Sequencer} (hi : s.Inv) (ht : seq.Tidy) (hperm : s.seq.requests.Perm (r :: seq.requests))
    (h : { s with seq }.rubyHitCallback r data = .ok s') : s'.Inv := by
  obtain ⟨hseq, hpio, harr, hcmd, port, hsent⟩ := rubyHitCallback_spec h
  change s'.pio = s.pio at hpio
  change s'.sent = if (s.packets r.pkt).needsResponse then (port, r.pkt) :: s.sent else s.sent at hsent
  have hpend : ∀ q, s.pending q = s'.pending q + if r.pkt = q then 1 else 0 := by
    intro q
    rw [pending, pending, hperm.countP_eq, hseq, countP_cons]
    simp
  refine ⟨hseq ▸ ht, fun q => ?_⟩
  by_cases hq : r.pkt = q
  · subst hq
    have hp := hpend r.pkt
    rw [if_pos rfl] at hp
    obtain ⟨pkt, o, harr₀, hk, hone, hc⟩ := hi.kept (p := r.pkt) (by rw [places]; omega)
    have hn : (s.packets r.pkt).needsResponse = pkt.needsResponse :=
      congrArg MemCmd.needsResponse (hc (by omega))
    have hpl : s'.places r.pkt = if pkt.needsResponse then 1 else 0 := by
      rw [places] at hone ⊢
      rw [hsent, hpio, hn]
      split
      · rw [countP_cons_of_pos (by simp)]
        omega
      · omega
    refine .of_kept (harr ▸ harr₀) hk ?_ (fun hne => ?_) ?_
    · rw [hpl]
      split <;> omega
    · rw [hpl, if_pos hne]
    · rw [places] at hone
      omega
  · have hp := hpend q
    rw [if_neg hq] at hp
    have hs : s'.sent.countP (·.2 == q) = s.sent.countP (·.2 == q) := by
      rw [hsent]
      split
      · rw [countP_cons_of_neg (by simpa using hq)]
      · rfl
    refine (hi.accounted q).of_eq hp.symm ?_ (by rw [harr]) (hcmd q (.symm hq))
    rw [places, places, hs, hpio, hp, Nat.add_zero]

theorem Inv.pioResponse (hi : s.Inv) (h : s.pioResponse p pkt = .ok s') (hp : p ∈ s.pio) : s'.Inv := by
  obtain ⟨-, h⟩ := of_ensure h
  obtain ⟨⟨port, s₁⟩, h₁, h⟩ := of_bind h
  cases h
  have hq := Quiet.popSenderState h₁
  have hcount := count_pos_iff.2 hp
  refine ⟨hq.seq ▸ hi.tidy, fun q => ?_⟩
  by_cases hqp : q = p
  · subst hqp
    obtain ⟨pkt', o, harr, hk, hone, -⟩ := hi.kept (p := q) (by rw [places]; omega)
    rw [places] at hone
    have hpend : s.pending q = 0 := by omega
    have hpl : (s₁.seq.requests.countP (·.pkt == q)) + (s₁.pio.erase q).count q +
        ((port, q) :: s₁.sent).countP (·.2 == q) = 1 := by
      rw [hq.seq, hq.pio, hq.sent, count_erase_self, countP_cons_of_pos (by simp)]
      rw [pending] at hone
      omega
    refine .of_kept (hq.arrived ▸ harr) hk (Nat.le_of_eq hpl) (fun _ => hpl) ?_
    change s₁.seq.requests.countP _ = 0
    rw [hq.seq]
    exact hpend
  · have hpend : s₁.pending q = s.pending q := by rw [pending, hq.seq, pending]
    refine (hi.accounted q).of_eq hpend ?_ (congrFun hq.arrived q) ?_
    · change s₁.pending q + (s₁.pio.erase p).count q + ((port, p) :: s₁.sent).countP _ = _
      rw [hpend, hq.pio, hq.sent, count_erase_of_ne hqp, countP_cons_of_neg (by simpa using Ne.symm hqp), places]
    · exact (congrArg Packet.cmd (setPacket_packets_of_ne hqp)).trans (hq.cmd q)

/-- No step loses or doubles a packet. -/
theorem Inv.step {l : Label} (hi : s.Inv) (h : Step s l s') : s'.Inv := by
  obtain ⟨hadm, h⟩ := h
  cases l with
  | recvTiming port p pkt =>
    obtain ⟨⟨o, s₁⟩, h₁, h⟩ := of_bind h
    cases h
    exact hi.recvTiming h₁ hadm
  | writeCallback line data =>
    obtain ⟨⟨r, seq⟩, h₁, h⟩ := of_bind h
    obtain ⟨ht, hperm⟩ := Sequencer.writeCallback_spec h₁ hi.tidy
    exact hi.hit ht hperm h
  | readCallback line data =>
    obtain ⟨⟨r, seq⟩, h₁, h⟩ := of_bind h
    obtain ⟨ht, hperm⟩ := Sequencer.readCallback_spec h₁ hi.tidy
    exact hi.hit ht hperm h
  | pioResponse p pkt => exact hi.pioResponse h hadm
  | protocol dataCache mandatoryQueue =>
    cases h
    obtain ⟨ht, -⟩ : ({ s.seq with dataCache, mandatoryQueue } : Sequencer).Tidy ∧ _ := hi.tidy.of_eq rfl rfl rfl
    exact ⟨ht, fun q => (hi.accounted q).of_eq rfl rfl rfl rfl⟩

/-! ## Packets that are dropped -/

/-- The port forgets the packet when it accepts it: a snooper responds, or it is a store conditional to memory whose
line is not locked for the processor. -/
def Drops (s : RubyPort) (pkt : Packet) : Prop :=
  pkt.memInhibit ∨ (s.isPhysMemAddress pkt.addr ∧ pkt.isLLSC ∧ pkt.isWrite ∧
    s.seq.dataCache (s.seq.lineAddress pkt.addr) ≠ some s.seq.version)

theorem requestType_eq_Locked_Write {type : RubyRequestType} (h : requestType pkt = .ok type) :
    type = .Locked_Write ↔ pkt.isLLSC ∧ pkt.isWrite := by
  unfold requestType at h
  split at h
  · next hl =>
    split at h
    · next hw =>
      cases h
      simp [hl, hw]
    · next hw =>
      obtain ⟨-, h⟩ := of_ensure h
      cases h
      simp [hw]
  · next hl =>
    refine iff_of_false ?_ fun hc => hl hc.1
    rintro rfl
    split at h
    · cases hf : pkt.req.isInstFetch <;> rw [hf] at h <;> cases h
    · split at h <;> cases h

/-- Whether a packet that goes to the sequencer is kept depends on the lock of its line. -/
theorem submit_keeps (h : s.submit p pkt = .ok (o, s')) (ha : o.accepted) : o.keeps ↔
    ¬ (pkt.isLLSC ∧ pkt.isWrite ∧ s.seq.dataCache (s.seq.lineAddress pkt.addr) ≠ some s.seq.version) := by
  obtain ⟨type, ht, h⟩ := of_bind h
  obtain ⟨⟨status, seq⟩, h₁, h⟩ := of_bind h
  have hio : status = .Issued ∧ o = .issued ∨ status = .LlscFailed ∧ o = .llscFailed := by
    cases status with
    | Issued | LlscFailed =>
      cases h
      simp
    | Ready | BufferFull | Aliased =>
      obtain ⟨r, -, h⟩ := of_bind h
      cases h
      cases ha
  rw [← and_assoc, ← requestType_eq_Locked_Write ht]
  rcases Sequencer.makeRequest_eq_ok h₁ with ⟨hst, -⟩ | ⟨q, hq, h₂⟩
  · rcases hio with ⟨rfl, -⟩ | ⟨rfl, -⟩
    · exact absurd rfl hst.1
    · exact absurd rfl hst.2
  · -- the lock has not changed when the request is in its table
    have hsame : q.dataCache = s.seq.dataCache ∧ q.version = s.seq.version ∧ q.lineAddress = s.seq.lineAddress := by
      rcases Sequencer.insertRequest_eq_ok hq with ⟨-, -, rfl⟩ | ⟨-, -, rfl⟩ <;> exact ⟨rfl, rfl, rfl⟩
    rw [hsame.1, hsame.2.1, hsame.2.2] at h₂
    rcases h₂ with ⟨rfl, hne, -⟩ | ⟨rfl, hlock, -⟩ | ⟨rfl, hfail, -⟩
    · obtain rfl : o = .issued := by simpa using hio
      exact iff_of_true rfl fun hc => hne hc.1
    · obtain rfl : o = .issued := by simpa using hio
      exact iff_of_true rfl fun hc => hc.2 hlock
    · obtain rfl : o = .llscFailed := by simpa using hio
      exact iff_of_false Bool.false_ne_true (not_not_intro hfail)

theorem recvTiming_keeps (h : s.recvTiming port p pkt = .ok (o, s')) (ha : o.accepted) : o.keeps ↔ ¬ s.Drops pkt := by
  obtain ⟨-, h⟩ := of_ensure h
  dsimp only at h
  split at h
  · next hm =>
    cases h
    exact iff_of_false Bool.false_ne_true (not_not_intro (.inl hm))
  · next hm =>
    split at h
    · next hp =>
      refine (submit_keeps h ha).trans (not_congr ⟨fun hc => .inr ⟨hp, hc⟩, fun hc => ?_⟩)
      exact (hc.resolve_left hm).2
    · next hp =>
      obtain ⟨-, h⟩ := of_ensure h
      cases h
      exact iff_of_true rfl fun hc => hp (hc.resolve_left hm).1

/-- An accepted packet stays noted. -/
theorem arrived_step {l : Label} {x : Packet × Outcome} (hi : s.Inv) (h : Step s l s') (hx : s.arrived p = some x) :
    s'.arrived p = some x := by
  obtain ⟨hadm, h⟩ := h
  cases l with
  | recvTiming port q pkt =>
    obtain ⟨⟨o, s₁⟩, h₁, h⟩ := of_bind h
    cases h
    have harr := (recvTiming_spec h₁ hi.tidy).1.arrived
    have hne : p ≠ q := by
      rintro rfl
      cases hadm.symm.trans hx
    unfold arrive
    split
    · dsimp only
      rw [update_of_ne hne, harr, hx]
    · rw [harr, hx]
  | writeCallback line data | readCallback line data =>
    obtain ⟨⟨r, seq⟩, -, h⟩ := of_bind h
    rw [(rubyHitCallback_spec h).2.2.1]
    exact hx
  | pioResponse q pkt =>
    obtain ⟨-, h⟩ := of_ensure h
    obtain ⟨⟨port, s₁⟩, h₁, h⟩ := of_bind h
    cases h
    exact (congrFun (Quiet.popSenderState h₁).arrived p).trans hx
  | protocol dataCache mandatoryQueue =>
    cases h
    exact hx

/-- In every state after a packet that needs a response was accepted, it is in exactly one place, iff the port does not
drop it in the state that it arrives in. -/
theorem places_eq_one_iff {ls ls' : List Label} {s₀ s₁ s₂ : RubyPort} (h₀ : s₀.Init) (h₁ : Run Step s₀ ls s₁)
    (hp : Step s₁ (.recvTiming port p pkt) s₂) (hacc : s₂.arrived p ≠ none) (h₂ : Run Step s₂ ls' s)
    (hn : pkt.needsResponse) : s.places p = 1 ↔ ¬ s₁.Drops pkt := by
  have hi : s₁.Inv := h₁.invariant (.init h₀) fun hi hs => hi.step hs
  obtain ⟨⟨o, t⟩, ht, he⟩ := of_bind hp.2
  have harr : o.accepted ∧ s₂.arrived p = some (pkt, o) := by
    cases he
    unfold arrive at hacc ⊢
    split at hacc
    · next ha =>
      rw [if_pos ha]
      exact ⟨ha, update_self ..⟩
    · rw [(recvTiming_spec ht hi.tidy).1.arrived] at hacc
      exact absurd hp.1 hacc
  obtain ⟨hi', ha'⟩ := h₂.invariant (I := fun s => s.Inv ∧ s.arrived p = some (pkt, o)) ⟨hi.step hp, harr.2⟩
    fun hx hs => ⟨hx.1.step hs, arrived_step hx.1 hs hx.2⟩
  have ha := (accounted_some ha').1 (hi'.accounted p)
  rw [← recvTiming_keeps ht harr.1]
  cases hk : o.keeps with
  | false =>
    rw [hk] at ha
    have hz : s.places p = 0 := ha.2
    simp [hz]
  | true =>
    rw [hk] at ha
    exact iff_of_true (ha.2.1 hn) rfl

/-- A port with one line in the data cache, which is not locked. -/
def idle : RubyPort where
  seq := {
    maxOutstandingRequests := 16, blockSizeBytes := 64, dataCache := fun l => if l = 64 then some (-1) else none }
  physmem := { start := 0, size := 1024, pmem := fun _ => 0, lockedAddrList := [] }
  packets := fun _ => { cmd := .InvalidCmd, addr := 0, size := 0 }

theorem idle_init : idle.Init := ⟨rfl, rfl, rfl, rfl, rfl, rfl⟩

def readPacket : Packet := { cmd := .ReadReq, addr := 64, size := 4 }

/-- A read is accepted, and answered by the callback. -/
theorem places_eq_one_iff_read : ∃ s₁ s : RubyPort, Step idle (.recvTiming 0 3 readPacket) s₁ ∧ s₁.places 3 = 1 ∧
    Run Step s₁ [.readCallback 64 fun _ => 0] s ∧ s.sent = [(0, 3)] ∧ s.places 3 = 1 := by
  obtain ⟨s₁, h₁, ha, s, h₂, hs⟩ : ∃ s₁, Step idle (.recvTiming 0 3 readPacket) s₁ ∧ s₁.arrived 3 ≠ none ∧
      ∃ s, Run Step s₁ [.readCallback 64 fun _ => 0] s ∧ s.sent = [(0, 3)] :=
    ⟨_, ⟨rfl, rfl⟩, by decide, _, Run.nil.snoc ⟨trivial, rfl⟩, rfl⟩
  have hd : ¬ idle.Drops readPacket := by
    rintro (h | ⟨-, h, -⟩) <;> cases h
  exact ⟨s₁, s, h₁, (places_eq_one_iff idle_init .nil h₁ ha .nil rfl).2 hd, h₂, hs,
    (places_eq_one_iff idle_init .nil h₁ ha h₂ rfl).2 hd⟩

def storeCondPacket : Packet := { cmd := .StoreCondReq, addr := 64, size := 4 }

/-- A store conditional that fails when it is issued is accepted, and is nowhere after that. -/
theorem storeCond_dropped : ∃ (s₀ s : RubyPort) (ls : List Label) (p : Nat) (pkt : Packet) (o : Outcome),
    s₀.Init ∧ Run Step s₀ ls s ∧ s.arrived p = some (pkt, o) ∧ o.accepted ∧ pkt.needsResponse ∧
    pkt.memInhibit = false ∧ s.places p = 0 := by
  have h : Run Step idle [.recvTiming 0 3 storeCondPacket] _ := Run.nil.snoc ⟨rfl, rfl⟩
  exact ⟨idle, _, _, 3, storeCondPacket, .llscFailed, idle_init, h, rfl, rfl, rfl, rfl, rfl⟩

end RubyPort

end M5.Ruby

import Astral.Proof.Connection
import Astral.Proof.Words

namespace Astral.Net

open Io (Byte)
open Library

variable {base seq rcvnext : Seq} {count start stop : Nat}

/-- The distance from one sequence number forward to another. -/
def distance (base seq : Seq) : Nat := (seq - base).toNat

theorem distance_lt (base seq : Seq) : distance base seq < 2 ^ 32 := (seq - base).isLt

theorem distance_spec (base seq : Seq) : seq = base + BitVec.ofNat 32 (distance base seq) := by
  rw [distance, BitVec.ofNat_toNat, BitVec.setWidth_eq, BitVec.add_comm, BitVec.sub_add_cancel]

@[simp] theorem distance_self (base : Seq) : distance base base = 0 := by
  simp [distance]

theorem distance_add (fits : count < 2 ^ 32) : distance base (base + BitVec.ofNat 32 count) = count := by
  rw [distance, BitVec.add_comm, BitVec.add_sub_cancel, BitVec.toNat_ofNat, Nat.mod_eq_of_lt fits]

/-- The base moves forward and the distances get smaller. -/
theorem distance_shift (past : count ≤ distance base seq) :
    distance (base + BitVec.ofNat 32 count) seq = distance base seq - count := by
  have limit := distance_lt base seq
  unfold distance at past limit ⊢
  simp only [BitVec.toNat_sub, BitVec.toNat_add, BitVec.toNat_ofNat] at past limit ⊢
  omega

/-- The range check accepts every range inside another one, wherever the numbers wrap. -/
theorem seqinrange_inside {low high : Nat} (above : low ≤ start) (some : start < stop) (below : stop ≤ high)
    (limit : high < 2 ^ 31) :
    seqinrange (base + BitVec.ofNat 32 start) (base + BitVec.ofNat 32 stop) (base + BitVec.ofNat 32 low)
      (base + BitVec.ofNat 32 high) = true := by
  unfold seqinrange
  simp only [BitVec.lt_def, BitVec.le_def, GT.gt, GE.ge, BitVec.toNat_add, BitVec.toNat_ofNat]
  split
  · simp only [Bool.not_eq_true', Bool.or_eq_false_iff, Bool.and_eq_false_iff, decide_eq_false_iff_not]
    omega
  · simp only [Bool.and_eq_true, decide_eq_true_eq]
    omega

/-- A segment that passes the window check is in the window unless it alone crosses number zero. -/
theorem seqinrange_window {rcvwindow : Seq} {datalen : Nat}
    (inside : seqinrange seq (seq + BitVec.ofNat 32 datalen) rcvnext (rcvnext + rcvwindow) = true)
    (fits : datalen ≤ rcvwindow.toNat) (limit : rcvwindow.toNat < 2 ^ 31)
    (uncrossed : 2 ^ 32 ≤ seq.toNat + datalen → 2 ^ 32 ≤ rcvnext.toNat + rcvwindow.toNat) :
    distance rcvnext seq + datalen ≤ rcvwindow.toNat := by
  unfold seqinrange at inside
  simp only [BitVec.lt_def, BitVec.le_def, GT.gt, GE.ge, BitVec.toNat_add, BitVec.toNat_ofNat] at inside
  unfold distance
  rw [BitVec.toNat_sub]
  split at inside
  · simp only [Bool.not_eq_true', Bool.or_eq_false_iff, Bool.and_eq_false_iff, decide_eq_false_iff_not] at inside
    omega
  · simp only [Bool.and_eq_true, decide_eq_true_eq] at inside
    omega

/-- The range does not wrap, but the segment does, and both of its ends pass the comparisons. -/
def WrapsOutside (rangestart seq : Seq) (len window : Nat) : Prop :=
  rangestart.toNat + window < 2 ^ 32 ∧ 2 ^ 32 ≤ seq.toNat + len ∧ rangestart ≤ seq ∧
    seq.toNat + len - 2 ^ 32 ≤ rangestart.toNat + window

/-- The range check tells whether a segment lies in the range, except for one that wraps outside of it. -/
theorem seqinrange_contained_iff (rangestart seq : Seq) {len window : Nat} (some : 1 ≤ len) (fits : len ≤ window)
    (limit : window < 2 ^ 31) :
    (seqinrange seq (seq + BitVec.ofNat 32 len) rangestart (rangestart + BitVec.ofNat 32 window) = true ↔
      distance rangestart seq + len ≤ window) ↔ ¬ WrapsOutside rangestart seq len window := by
  unfold seqinrange WrapsOutside distance
  simp only [BitVec.lt_def, BitVec.le_def, GT.gt, GE.ge, BitVec.toNat_add, BitVec.toNat_sub, BitVec.toNat_ofNat]
  split
  -- the gap outside of a range that wraps is longer than the segment
  · simp only [Bool.not_eq_true', Bool.or_eq_false_iff, Bool.and_eq_false_iff, decide_eq_false_iff_not]
    omega
  · simp only [Bool.and_eq_true, decide_eq_true_eq]
    omega

theorem crossingZero_contained :
    seqinrange 0xffffffff (0xffffffff + BitVec.ofNat 32 3) 0xfffffff0 (0xfffffff0 + BitVec.ofNat 32 100) = true ↔
      distance 0xfffffff0 0xffffffff + 3 ≤ 100 :=
  (seqinrange_contained_iff 0xfffffff0 0xffffffff (by decide) (by decide) (by decide)).mpr fun wraps =>
    absurd wraps.1 (by decide)

theorem wrappedSegment_accepted :
    seqinrange 0xffffffff (0xffffffff + BitVec.ofNat 32 2) 0 (0 + BitVec.ofNat 32 2) = true ∧
      ¬ distance 0 0xffffffff + 2 ≤ 2 := by
  decide

section Queue

/-- The segment is not empty and lies in the window. -/
structure Queuedpacket.Within (queued : Queuedpacket) (rcvnext : Seq) (window : Nat) : Prop where
  some : queued.data ≠ []
  inside : distance rcvnext queued.tcpheader.seq + queued.data.length ≤ window

/-- One segment lies before the other. -/
def Apart (rcvnext : Seq) (one two : Queuedpacket) : Prop :=
  distance rcvnext one.tcpheader.seq + one.data.length ≤ distance rcvnext two.tcpheader.seq ∨
    distance rcvnext two.tcpheader.seq + two.data.length ≤ distance rcvnext one.tcpheader.seq

/-- The queued segments lie in the window and do not overlap. -/
structure Held (queue : List Queuedpacket) (rcvnext : Seq) (window : Nat) : Prop where
  within : ∀ queued ∈ queue, queued.Within rcvnext window
  apart : queue.Pairwise (Apart rcvnext)

variable {queue : List Queuedpacket} {window : Nat}

theorem Held.nil (rcvnext : Seq) (window : Nat) : Held [] rcvnext window := ⟨by simp, by simp⟩

theorem Held.sublist {fewer : List Queuedpacket} (held : Held queue rcvnext window) (part : fewer.Sublist queue) :
    Held fewer rcvnext window :=
  ⟨fun queued member => held.within queued (part.subset member), held.apart.sublist part⟩

theorem Held.wider {wide : Nat} (held : Held queue rcvnext window) (wider : window ≤ wide) :
    Held queue rcvnext wide := by
  refine ⟨fun queued member => ?_, held.apart⟩
  have within := held.within queued member
  exact ⟨within.some, within.inside.trans wider⟩

theorem Apart.symm {one two : Queuedpacket} (apart : Apart rcvnext one two) : Apart rcvnext two one :=
  Or.symm apart

/-- A segment that has no conflict with a new one lies apart from it. -/
theorem conflicts_apart {queued fresh : Queuedpacket} (old : queued.Within rcvnext window)
    (new : fresh.Within rcvnext window) (limit : window < 2 ^ 31)
    (free : queued.conflicts fresh.tcpheader.seq fresh.seqend = false) : Apart rcvnext fresh queued := by
  have oldSome := List.length_pos_of_ne_nil old.some
  have newSome := List.length_pos_of_ne_nil new.some
  have oldInside := old.inside
  have newInside := new.inside
  unfold Apart
  unfold Queuedpacket.conflicts Queuedpacket.seqend at free
  have oldSeq := distance_spec rcvnext queued.tcpheader.seq
  have newSeq := distance_spec rcvnext fresh.tcpheader.seq
  generalize distance rcvnext queued.tcpheader.seq = low at *
  generalize distance rcvnext fresh.tcpheader.seq = start at *
  rw [oldSeq, newSeq] at free
  have oldLast : rcvnext + BitVec.ofNat 32 low + BitVec.ofNat 32 queued.data.length - 1 =
      rcvnext + BitVec.ofNat 32 (low + queued.data.length - 1) := by
    have one : (1 : Seq).toNat = 1 := rfl
    apply BitVec.eq_of_toNat_eq
    simp only [BitVec.toNat_sub, BitVec.toNat_add, BitVec.toNat_ofNat, one]
    omega
  have oneMore : rcvnext + BitVec.ofNat 32 low + 1 = rcvnext + BitVec.ofNat 32 (low + 1) := by
    rw [BitVec.ofNat_add, BitVec.add_assoc]
    rfl
  rw [oldLast, oneMore] at free
  simp only [BitVec.add_assoc, ← BitVec.ofNat_add, Bool.or_eq_false_iff] at free
  obtain ⟨⟨inside, first⟩, last⟩ := free
  by_contra overlap
  -- Two ranges that meet have the first or the last number of one of them in common.
  by_cases before : start ≤ low
  · rw [seqinrange_inside before (by omega) (by omega) (by omega)] at first
    cases first
  · by_cases beyond : low + queued.data.length ≤ start + fresh.data.length
    · rw [seqinrange_inside (by omega) (by omega) beyond (by omega)] at last
      cases last
    · rw [seqinrange_inside (by omega) (by omega) (by omega) (by omega)] at inside
      cases inside

theorem insertReceivequeue_perm (packet : Queuedpacket) (previousend : Seq) (queue : List Queuedpacket) :
    (insertReceivequeue packet previousend queue).Perm (packet :: queue) := by
  induction queue generalizing previousend with
  | nil => exact .refl _
  | cons queued rest ih =>
    unfold insertReceivequeue
    split
    · exact .refl _
    · exact ((ih queued.seqend).cons queued).trans (.swap packet queued rest)

/-- A new segment without conflicts joins the queue. -/
theorem Held.insert {packet : Queuedpacket} {previousend : Seq} (held : Held queue rcvnext window)
    (new : packet.Within rcvnext window) (apart : ∀ queued ∈ queue, Apart rcvnext packet queued) :
    Held (insertReceivequeue packet previousend queue) rcvnext window := by
  have perm := insertReceivequeue_perm packet previousend queue
  constructor
  · intro queued member
    rcases List.mem_cons.mp (perm.mem_iff.mp member) with rfl | old
    · exact new
    · exact held.within queued old
  · apply (perm.pairwise_iff (fun apart => apart.symm)).mpr
    exact List.pairwise_cons.mpr ⟨apart, held.apart⟩

/-- The segments follow one another from one distance to another. -/
def Contiguous (rcvnext : Seq) : List Queuedpacket → (start stop : Nat) → Prop
  | [], start, stop => start = stop
  | queued :: rest, start, stop =>
    distance rcvnext queued.tcpheader.seq = start ∧ Contiguous rcvnext rest (start + queued.data.length) stop

/-- What a walk over the queue has taken out of it. -/
structure Flushed (queue flushed rest : List Queuedpacket) (rcvnext : Seq) (window start stop : Nat) : Prop where
  parts : queue = flushed ++ rest
  contiguous : Contiguous rcvnext flushed start stop
  grows : start ≤ stop
  within : stop ≤ window
  past : ∀ queued ∈ rest, stop ≤ distance rcvnext queued.tcpheader.seq

theorem flushReceivequeue_ok (receivebuffer : List Byte) (written : Nat) (held : Held queue rcvnext window)
    (past : ∀ queued ∈ queue, written ≤ distance rcvnext queued.tcpheader.seq) (starts : written ≤ window)
    (room : receivebuffer.length + (window - written) ≤ tcbRingbufferSize) (limit : window < 2 ^ 31) :
    ∃ flushed rest stop, flushReceivequeue queue (rcvnext + BitVec.ofNat 32 written) receivebuffer written =
        .ok (rest, rcvnext + BitVec.ofNat 32 stop, receivebuffer ++ flushed.flatMap (·.data), stop) ∧
      Flushed queue flushed rest rcvnext window written stop := by
  induction queue generalizing receivebuffer written with
  | nil => exact ⟨[], [], written, by simp [flushReceivequeue], rfl, rfl, le_rfl, starts, by simp⟩
  | cons queued rest ih =>
    have first := held.within queued List.mem_cons_self
    have inside := first.inside
    unfold flushReceivequeue
    split
    · rename_i next
      have here : distance rcvnext queued.tcpheader.seq = written := by
        rw [next]
        exact distance_add (by omega)
      have written' : receiveWrite receivebuffer queued.data = .ok (receivebuffer ++ queued.data) := by
        rw [receiveWrite, if_pos (by omega)]
      have later : ∀ other ∈ rest, written + queued.data.length ≤ distance rcvnext other.tcpheader.seq := by
        intro other member
        have apart := List.rel_of_pairwise_cons held.apart member
        have someOther := List.length_pos_of_ne_nil (held.within other (List.mem_cons_of_mem _ member)).some
        have pastOther := past other (List.mem_cons_of_mem _ member)
        unfold Apart at apart
        omega
      have fewer : Held rest rcvnext window := held.sublist (List.sublist_cons_self _ _)
      obtain ⟨flushed, left, stop, ran, result⟩ := ih (receivebuffer ++ queued.data) _ fewer later
        (by omega) (by rw [List.length_append]; omega)
      refine ⟨queued :: flushed, left, stop, ?_, ?_⟩
      · rw [written', BitVec.add_assoc, ← BitVec.ofNat_add]
        change flushReceivequeue rest _ _ _ = _
        rw [ran, List.flatMap_cons, List.append_assoc]
      · have grows := result.grows
        exact ⟨by rw [result.parts, List.cons_append], ⟨here, result.contiguous⟩, by omega, result.within, result.past⟩
    · rename_i next
      refine ⟨[], queued :: rest, written, by simp, rfl, rfl, le_rfl, starts, past⟩

/-- The segments that are left lie in the window that is left. -/
theorem Held.advance (held : Held queue rcvnext window)
    (past : ∀ queued ∈ queue, stop ≤ distance rcvnext queued.tcpheader.seq) :
    Held queue (rcvnext + BitVec.ofNat 32 stop) (window - stop) := by
  constructor
  · intro queued member
    have within := held.within queued member
    have inside := within.inside
    have far := past queued member
    refine ⟨within.some, ?_⟩
    rw [distance_shift far]
    omega
  · apply held.apart.imp_of_mem
    intro one two oneMember twoMember apart
    unfold Apart at apart ⊢
    rw [distance_shift (past one oneMember), distance_shift (past two twoMember)]
    have := past one oneMember
    have := past two twoMember
    omega

end Queue

/-- The length of a packet and the offset of its data have the widths of their fields. -/
structure Packet.Sized (packet : Packet) : Prop where
  length : packet.bytes.length < 2 ^ 16
  dataoffset : packet.header.dataoffset < 2 ^ 8

/-- A segment that fits into the window crosses sequence number zero only if the window does. -/
def Uncrossed (tcb : Tcb) (packet : Packet) : Prop :=
  packet.datalen ≤ tcb.rcvwindow.toNat → 2 ^ 32 ≤ packet.header.seq.toNat + packet.datalen →
    2 ^ 32 ≤ tcb.rcvnext.toNat + tcb.rcvwindow.toNat

/-- The ring and the window have a constant sum, and the queue lies in the window. -/
structure Sound (tcb : Tcb) (total : Nat) : Prop where
  held : Held tcb.receivequeue tcb.rcvnext tcb.rcvwindow.toNat
  sum : tcb.rcvwindow.toNat + tcb.receivebuffer.length = total
  limit : total ≤ tcbRingbufferSize

/-- A packet is dropped, taken in order with a part of the queue, or queued. -/
inductive Queueing (tcb : Tcb) (packet : Packet) : Tcb → Prop where
  | dropped (outside : ¬ InWindow tcb packet) : Queueing tcb packet tcb
  | taken (inside : InWindow tcb packet) (order : packet.header.seq = tcb.rcvnext)
      {flushed rest : List Queuedpacket} {stop : Nat}
      (result : Flushed (tcb.cleared packet) flushed rest tcb.rcvnext tcb.rcvwindow.toNat packet.datalen stop) :
      Queueing tcb packet { tcb with
        receivequeue := rest
        rcvnext := tcb.rcvnext + BitVec.ofNat 32 stop
        receivebuffer := tcb.receivebuffer ++ packet.data ++ flushed.flatMap (·.data)
        rcvwindow := tcb.rcvwindow - BitVec.ofNat 32 stop }
  | queued (inside : InWindow tcb packet) (later : packet.header.seq ≠ tcb.rcvnext) :
      Queueing tcb packet { tcb with
        receivequeue := insertReceivequeue ⟨packet.header, packet.data⟩ tcb.rcvnext (tcb.cleared packet) }
  | forgotten (inside : InWindow tcb packet) (later : packet.header.seq ≠ tcb.rcvnext) :
      Queueing tcb packet { tcb with receivequeue := tcb.cleared packet }

section Queueing

variable {tcb after : Tcb} {packet : Packet} {total : Nat}

theorem Packet.Sized.data_length (sized : packet.Sized) (fits : packet.datalen < 2 ^ 16) :
    packet.data.length = packet.datalen := by
  have length := sized.length
  have offset := sized.dataoffset
  have word := wordSize_eq
  have header : packet.headerlen < 2 ^ 8 := by
    unfold Packet.headerlen
    omega
  unfold Packet.data Packet.datalen at *
  by_cases short : packet.headerlen ≤ packet.bytes.length
  · rw [subWord_eq short (by omega), List.length_drop]
  · rw [subWord, word] at fits
    omega

theorem Sound.window (sound : Sound tcb total) : tcb.rcvwindow.toNat < 2 ^ 16 := by
  have := sound.sum
  have := sound.limit
  have size : tcbRingbufferSize = 65535 := rfl
  omega

/-- The segment of the packet lies in the window. -/
theorem InWindow.within (inside : InWindow tcb packet) (sized : packet.Sized) (uncrossed : Uncrossed tcb packet)
    (limit : tcb.rcvwindow.toNat < 2 ^ 16) :
    Queuedpacket.Within ⟨packet.header, packet.data⟩ tcb.rcvnext tcb.rcvwindow.toNat := by
  have fits := inside.fits
  have length := sized.data_length (by omega)
  constructor
  · intro empty
    change packet.data = [] at empty
    rw [empty] at length
    exact inside.some length.symm
  · change distance tcb.rcvnext packet.header.seq + packet.data.length ≤ _
    rw [length]
    exact seqinrange_window inside.range fits (by omega) (uncrossed fits)

theorem Tcb.cleared_sublist (tcb : Tcb) (packet : Packet) : (tcb.cleared packet).Sublist tcb.receivequeue :=
  List.filter_sublist

/-- The queue without the conflicts lies apart from the packet. -/
theorem cleared_apart (sound : Sound tcb total) (inside : InWindow tcb packet) (sized : packet.Sized)
    (uncrossed : Uncrossed tcb packet) :
    ∀ queued ∈ tcb.cleared packet, Apart tcb.rcvnext ⟨packet.header, packet.data⟩ queued := by
  intro queued member
  have window := sound.window
  have fits := inside.fits
  obtain ⟨old, free⟩ := List.mem_filter.mp member
  apply conflicts_apart (sound.held.within queued old) (inside.within sized uncrossed window) (by omega)
  rw [Queuedpacket.seqend, sized.data_length (by omega)]
  simpa using free

/-- No assertion fails when a packet is queued. -/
theorem queuereceivepacket_ok (sound : Sound tcb total) (sized : packet.Sized) (uncrossed : Uncrossed tcb packet)
    (allocated : Bool) : ∃ shouldack after, tcpQueuereceivepacket tcb packet allocated = .ok (shouldack, after) ∧
      Queueing tcb packet after := by
  unfold tcpQueuereceivepacket
  simp only
  split
  · exact ⟨_, _, rfl, .dropped fun inside => absurd inside.fits (by omega)⟩
  rename_i fits
  split
  · rename_i empty
    exact ⟨_, _, rfl, .dropped fun inside => inside.some empty⟩
  rename_i some
  split
  · rename_i outside
    refine ⟨_, _, rfl, .dropped fun inside => ?_⟩
    rw [inside.range] at outside
    cases outside
  rename_i range
  have inside : InWindow tcb packet := ⟨by omega, some, by simpa using range⟩
  split
  · rename_i order
    have window := sound.window
    have sum := sound.sum
    have limit := sound.limit
    have length := sized.data_length (by omega)
    have apart := cleared_apart sound inside sized uncrossed
    have held : Held (tcb.cleared packet) tcb.rcvnext tcb.rcvwindow.toNat :=
      sound.held.sublist (tcb.cleared_sublist packet)
    have past : ∀ queued ∈ tcb.cleared packet, packet.datalen ≤ distance tcb.rcvnext queued.tcpheader.seq := by
      intro queued member
      have some := List.length_pos_of_ne_nil (held.within queued member).some
      have apart := apart queued member
      simp only [Apart, order, distance_self] at apart
      omega
    have written : receiveWrite tcb.receivebuffer packet.data = .ok (tcb.receivebuffer ++ packet.data) := by
      rw [receiveWrite, if_pos (by omega)]
    obtain ⟨flushed, rest, stop, ran, result⟩ :=
      flushReceivequeue_ok (tcb.receivebuffer ++ packet.data) packet.datalen held past inside.fits
        (by rw [List.length_append]; omega) (by omega)
    refine ⟨true, _, ?_, .taken inside order result⟩
    rw [written]
    change (flushReceivequeue (tcb.cleared packet) _ _ _ >>= _) = _
    rw [ran]
    exact if_pos result.within
  · rename_i later
    split
    · exact ⟨_, _, rfl, .queued inside later⟩
    · exact ⟨_, _, rfl, .forgotten inside later⟩

theorem Contiguous.length {flushed : List Queuedpacket} (contiguous : Contiguous rcvnext flushed start stop) :
    start + (flushed.flatMap (·.data)).length = stop := by
  induction flushed generalizing start with
  | nil => exact contiguous
  | cons queued rest ih =>
    have later := ih contiguous.2
    rw [List.flatMap_cons, List.length_append]
    omega

/-- Queueing a packet keeps the sum and the queue in order. -/
theorem Queueing.sound (queueing : Queueing tcb packet after) (sound : Sound tcb total) (sized : packet.Sized)
    (uncrossed : Uncrossed tcb packet) : Sound after total := by
  cases queueing with
  | dropped _ => exact sound
  | @taken inside order flushed rest stop result =>
    have window := sound.window
    have within := result.within
    have held : Held rest tcb.rcvnext tcb.rcvwindow.toNat := by
      apply (sound.held.sublist (tcb.cleared_sublist packet)).sublist
      rw [result.parts]
      exact List.sublist_append_right _ _
    have left : (tcb.rcvwindow - BitVec.ofNat 32 stop).toNat = tcb.rcvwindow.toNat - stop := by
      rw [BitVec.toNat_sub, BitVec.toNat_ofNat]
      omega
    refine ⟨?_, ?_, sound.limit⟩
    · change Held rest _ (tcb.rcvwindow - BitVec.ofNat 32 stop).toNat
      rw [left]
      exact held.advance result.past
    · change (tcb.rcvwindow - BitVec.ofNat 32 stop).toNat +
        (tcb.receivebuffer ++ packet.data ++ flushed.flatMap (·.data)).length = total
      have length := result.contiguous.length
      have data := sized.data_length (by omega)
      have sum := sound.sum
      rw [left, List.length_append, List.length_append]
      omega
  | queued inside later =>
    refine ⟨?_, sound.sum, sound.limit⟩
    apply (sound.held.sublist (tcb.cleared_sublist packet)).insert
    · exact inside.within sized uncrossed sound.window
    · exact cleared_apart sound inside sized uncrossed
  | forgotten inside later => exact ⟨sound.held.sublist (tcb.cleared_sublist packet), sound.sum, sound.limit⟩

end Queueing

end Astral.Net

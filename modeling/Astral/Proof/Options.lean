import Astral.Construction.Options
import Astral.Proof.Words
import Mathlib.Tactic

namespace Astral.Net.Options

/-- The length of the options in the header. -/
def area (dataoffset : UInt8) : Nat := dataoffset.toNat / 16 * 4 - 20

/-- The value of the first well-formed option for the maximum segment size in an area. -/
def firstMss (size : Nat) (options : Bytes) (place : Nat) : Option Nat :=
  if place < size ∧ options place ≠ 0 then
    if options place = 1 then firstMss size options (place + 1)
    else if options place = optionsMssKind ∧ options (place + 1) = optionsMssLen ∧ place + 4 ≤ size then
      some (options.word (place + 2))
    else if place + 1 < size ∧ options.length place ≠ 0 then firstMss size options (place + options.length place)
    else none
  else none
termination_by size - place

/-- The search ends, reads only the options of the header and returns what they say. -/
def Parses (dataoffset : UInt8) (options : Bytes) : Prop :=
  ∃ fuel reads, (∀ place ∈ reads, place < area dataoffset) ∧ ∀ sndmss, getsendmss dataoffset options fuel sndmss =
    some (reads, min sndmss ((firstMss (area dataoffset) options 0).getD tcpDefaultMss))

/-- The options are closed inside the area by an end or by a maximum segment size of the right length. -/
inductive Regular (size : Nat) (options : Bytes) : Nat → Prop where
  | stop {place : Nat} (inside : place < size) (kind : options place = 0) : Regular size options place
  | nop {place : Nat} (inside : place < size) (kind : options place = 1) (rest : Regular size options (place + 1)) :
      Regular size options place
  | mss {place : Nat} (inside : place + 4 ≤ size) (kind : options place = optionsMssKind)
      (right : options (place + 1) = optionsMssLen ∨
        (firstMss size options place).getD tcpDefaultMss = options.word (place + 2)) : Regular size options place
  | skip {place : Nat} (inside : place + 1 < size) (kind : options place ∉ [0, 1, optionsMssKind])
      (forward : options.length place ≠ 0) (rest : Regular size options (place + options.length place)) :
      Regular size options place

variable {size place fuel mss : Nat} {options : Bytes} {reads : List Nat}

theorem firstMss_stop (kind : options place = 0) : firstMss size options place = none := by
  rw [firstMss, if_neg (by simp [kind])]

theorem firstMss_nop (inside : place < size) (kind : options place = 1) :
    firstMss size options place = firstMss size options (place + 1) := by
  rw [firstMss, if_pos (by simp [kind, inside]), if_pos kind]

theorem firstMss_mss (inside : place + 4 ≤ size) (kind : options place = optionsMssKind)
    (length : options (place + 1) = optionsMssLen) : firstMss size options place = some (options.word (place + 2)) := by
  rw [firstMss, if_pos ⟨by omega, by rw [kind]; decide⟩, if_neg (by rw [kind]; decide), if_pos ⟨kind, length, inside⟩]

theorem firstMss_skip (inside : place + 1 < size) (kind : options place ∉ [0, 1, optionsMssKind])
    (forward : options.length place ≠ 0) :
    firstMss size options place = firstMss size options (place + options.length place) := by
  simp only [List.mem_cons, List.not_mem_nil, or_false, not_or] at kind
  rw [firstMss, if_pos ⟨by omega, kind.1⟩, if_neg kind.2.1, if_neg fun known => kind.2.2 known.1,
    if_pos ⟨inside, forward⟩]

/-- An option of length zero holds the search for ever. -/
theorem readOptions_stuck (kind : options place ∉ [0, 1, optionsMssKind]) (stays : options.length place = 0)
    (fuel : Nat) : readOptions options fuel place = none := by
  simp only [List.mem_cons, List.not_mem_nil, or_false, not_or] at kind
  induction fuel with
  | zero => rfl
  | succ fuel ih =>
    rw [readOptions, if_neg kind.1, if_neg kind.2.1, if_neg kind.2.2, stays]
    simp only [Nat.add_zero, ih, Option.map_none]

/-- A search that ends inside the area with the value of its options went over regular options. -/
theorem regular_of_readOptions
    (ran : readOptions options fuel place = some (reads, (firstMss size options place).getD tcpDefaultMss))
    (within : ∀ read ∈ reads, read < size) : Regular size options place := by
  induction fuel generalizing place reads with
  | zero => cases ran
  | succ fuel ih =>
    have start := ran
    rw [readOptions] at ran
    split_ifs at ran with stop nop kind
    · simp only [Option.some.injEq, Prod.mk.injEq] at ran
      exact .stop (within place (by simp [← ran.1])) stop
    · obtain ⟨rest, again, same⟩ := Option.map_eq_some_iff.1 ran
      simp only [Prod.mk.injEq] at same
      have inside := within place (by simp [← same.1])
      rw [firstMss_nop inside nop] at same
      exact .nop inside nop (ih (by rw [again, ← same.2]) fun read member => within read (by simp [← same.1, member]))
    · simp only [Option.some.injEq, Prod.mk.injEq] at ran
      exact .mss (within (place + 3) (by simp [← ran.1])) kind (.inr ran.2.symm)
    · obtain ⟨rest, again, same⟩ := Option.map_eq_some_iff.1 ran
      simp only [Prod.mk.injEq] at same
      have inside := within (place + 1) (by simp [← same.1])
      have other : options place ∉ [0, 1, optionsMssKind] := by simp [stop, nop, kind]
      have forward : options.length place ≠ 0 := by
        intro stays
        rw [readOptions_stuck other stays] at start
        cases start
      rw [firstMss_skip inside other forward] at same
      exact .skip inside other forward
        (ih (by rw [again, ← same.2]) fun read member => within read (by simp [← same.1, member]))

/-- The search over regular options ends inside the area with their value. -/
theorem Regular.readOptions (regular : Regular size options place) : ∃ fuel reads, (∀ read ∈ reads, read < size) ∧
    readOptions options fuel place = some (reads, (firstMss size options place).getD tcpDefaultMss) := by
  induction regular with
  | stop inside kind => exact ⟨1, [_], by simpa using inside, by simp [Options.readOptions, kind, firstMss_stop kind]⟩
  | @nop place inside kind rest ih =>
    obtain ⟨fuel, reads, within, ran⟩ := ih
    refine ⟨fuel + 1, place :: reads, List.forall_mem_cons.2 ⟨inside, within⟩, ?_⟩
    rw [Options.readOptions, if_neg (by rw [kind]; decide), if_pos kind, ran, firstMss_nop inside kind, Option.map_some]
  | @mss place inside kind right =>
    have value : (firstMss size options place).getD tcpDefaultMss = options.word (place + 2) := by
      obtain length | same := right
      · rw [firstMss_mss inside kind length, Option.getD_some]
      · exact same
    refine ⟨1, [place, place + 2, place + 3], by simp; omega, ?_⟩
    rw [Options.readOptions, if_neg (by rw [kind]; decide), if_neg (by rw [kind]; decide), if_pos kind, value]
  | @skip place inside kind forward rest ih =>
    obtain ⟨fuel, reads, within, ran⟩ := ih
    refine ⟨fuel + 1, place :: (place + 1) :: reads, by simpa using ⟨by omega, inside, within⟩, ?_⟩
    rw [firstMss_skip inside kind forward]
    simp only [List.mem_cons, List.not_mem_nil, or_false, not_or] at kind
    rw [Options.readOptions, if_neg kind.1, if_neg kind.2.1, if_neg kind.2.2, ran, Option.map_some]

/-- The options are searched as they should be only when they are closed inside the header, and when the byte of the
header is the one that the length of the options is computed from. -/
theorem getsendmss_parses_iff (dataoffset : UInt8) (options : Bytes) :
    Parses dataoffset options ↔ dataoffset = 4 ∨ Regular (area dataoffset) options 0 := by
  have skipped : ((dataoffset.toNat : Int) - 4) * 4 = 0 ↔ dataoffset = 4 := by
    rw [← UInt8.toNat_inj]
    simp
    omega
  by_cases four : dataoffset = 4
  · subst four
    refine iff_of_true ⟨0, [], by simp, fun sndmss => ?_⟩ (.inl rfl)
    rw [firstMss, if_neg (by simp [area])]
    rfl
  · simp only [four, false_or, Parses, getsendmss, if_neg (mt skipped.1 four)]
    constructor
    · rintro ⟨fuel, reads, within, ran⟩
      obtain ⟨found, again, -⟩ := Option.map_eq_some_iff.1 (ran 0)
      simp only [again, Option.map_some, Option.some.injEq, Prod.mk.injEq] at ran
      -- a large bound shows the value itself
      have value := (ran (found.2 + (firstMss (area dataoffset) options 0).getD tcpDefaultMss)).2
      rw [min_eq_right (by omega), min_eq_right (by omega)] at value
      exact regular_of_readOptions (by rw [again, ← (ran 0).1, ← value]) within
    · intro regular
      obtain ⟨fuel, reads, within, ran⟩ := regular.readOptions
      exact ⟨fuel, reads, within, fun sndmss => by rw [ran, Option.map_some]⟩

theorem readOptions_word (ran : readOptions options fuel place = some (reads, mss)) : mss < 65536 := by
  fun_induction readOptions options fuel place generalizing reads with
  | case1 => cases ran
  | case2 => cases ran; decide
  | case4 _ place =>
    cases ran
    have high := (options (place + 2)).toNat_lt
    have low := (options (place + 2 + 1)).toNat_lt
    unfold Bytes.word
    omega
  | case3 _ _ _ _ ih | case5 _ _ _ _ _ ih =>
    obtain ⟨rest, again, same⟩ := Option.map_eq_some_iff.1 ran
    cases same
    exact ih again

section Endpoint

variable {tcb : Tcb} (word : tcb.sndmss < 2 ^ 32)

include word

theorem endpoint_getsendmss (small : mss < 65536) : Endpoint.getsendmss tcb mss = min tcb.sndmss mss :=
  minLong_small (by omega) (by omega)

/-- The control block takes its limit from the value that is found. -/
theorem getsendmss_endpoint {dataoffset : UInt8}
    (ran : getsendmss dataoffset options fuel tcb.sndmss = some (reads, mss)) :
    ∃ newsendmss < 65536, mss = Endpoint.getsendmss tcb newsendmss := by
  unfold getsendmss at ran
  split_ifs at ran
  · cases ran
    exact ⟨tcpDefaultMss, by decide, (endpoint_getsendmss word (by decide)).symm⟩
  · obtain ⟨found, again, same⟩ := Option.map_eq_some_iff.1 ran
    cases same
    have small := readOptions_word again
    exact ⟨found.2, small, (endpoint_getsendmss word small).symm⟩

end Endpoint

theorem sendmss_endpoint {tcb : Tcb} {mtu : Nat} (start : tcb.sndmss = mtu % 2 ^ 32) (newsendmss : UInt16) :
    sendmss mtu newsendmss = Endpoint.getsendmss tcb newsendmss.toNat := by
  rw [endpoint_getsendmss (by omega) newsendmss.toNat_lt, start, sendmss]

/-- An option of an unknown kind with the length zero. -/
def zeroLength : Bytes := fun place => if place = 0 then 3 else 0

theorem zeroLength_hangs : (∀ fuel sndmss, getsendmss 0x60 zeroLength fuel sndmss = none) ∧ area 0x60 = 4 ∧
    ¬ Parses 0x60 zeroLength := by
  have hangs (fuel sndmss : Nat) : getsendmss 0x60 zeroLength fuel sndmss = none := by
    rw [getsendmss, if_neg (by decide), readOptions_stuck (by decide) (by decide), Option.map_none]
  refine ⟨hangs, by decide, ?_⟩
  rintro ⟨fuel, reads, -, ran⟩
  have answered := ran 0
  rw [hangs] at answered
  cases answered

/-- Each segment of a connection with this limit fits into the buffer, and with its IPv4 header into the MTU. -/
def SegmentsFit (opening : Opening) (mtu : Nat) (newsendmss : UInt16) : Prop :=
  ∀ endpoint after : Endpoint, endpoint.tcb.sndmss = sendmss mtu newsendmss →
    endpoint.tcb.transmitbuffer.length ≤ tcbRingbufferSize → endpoint.tcpTransmitnextsegment = .ok after →
    after.tcb.retransmitpacketlen ≤ opening.retransmitsize mtu ∧ after.tcb.retransmitpacketlen + 20 ≤ mtu

/-- There is nothing to send, or the buffer was not made by `tcp_bind` and the limit leaves room for the headers. -/
def LeavesRoom (opening : Opening) (mtu : Nat) (newsendmss : UInt16) : Prop :=
  sendmss mtu newsendmss = 0 ∨ opening ≠ .bindConnect ∧ sendmss mtu newsendmss + 40 ≤ mtu ∧
    (opening = .passive → sendmss mtu newsendmss + 20 ≤ mtu % 2 ^ 32)

theorem transmitnextsegment_length {before after : Endpoint} (ran : before.tcpTransmitnextsegment = .ok after) :
    after.tcb.retransmitpacketlen = min before.tcb.sndmss before.tcb.transmitbuffer.length + 20 ∧
      min before.tcb.sndmss before.tcb.transmitbuffer.length ≠ 0 := by
  unfold Endpoint.tcpTransmitnextsegment at ran
  simp only at ran
  split at ran
  · cases ran
  · rename_i some
    cases ran
    rw [← List.length_take]
    exact ⟨rfl, mt List.eq_nil_of_length_eq_zero some⟩

/-- A ring that holds enough data yields a segment of the largest size. -/
theorem transmitnextsegment_largest {size : Nat} (positive : size ≠ 0) (small : size ≤ tcbRingbufferSize) :
    ∃ before after : Endpoint, before.tcb.sndmss = size ∧ before.tcb.transmitbuffer.length ≤ tcbRingbufferSize ∧
      before.tcpTransmitnextsegment = .ok after ∧ after.tcb.retransmitpacketlen = size + 20 := by
  have whole : (List.replicate size (0 : Io.Byte)).take size = List.replicate size 0 := by simp
  refine ⟨⟨{ allocatetcb with sndmss := size, transmitbuffer := List.replicate size 0 }, [], 0⟩, _, rfl, ?_,
    if_neg ?_, ?_⟩
  · simpa using small
  · rw [whole]
    simpa using positive
  · simp [Endpoint.tcpRetransmit, tcpheaderSize]

section Sizes

variable {opening : Opening} {mtu : Nat} {newsendmss : UInt16}

theorem SegmentsFit.leavesRoom (fit : SegmentsFit opening mtu newsendmss) : LeavesRoom opening mtu newsendmss := by
  by_cases zero : sendmss mtu newsendmss = 0
  · exact .inl zero
  · have small : sendmss mtu newsendmss ≤ tcbRingbufferSize := by
      have := newsendmss.toNat_lt
      unfold sendmss tcbRingbufferSize
      omega
    obtain ⟨before, after, limit, ring, ran, length⟩ := transmitnextsegment_largest zero small
    obtain ⟨buffer, whole⟩ := fit before after limit ring ran
    rw [length] at buffer whole
    refine .inr ⟨?_, whole, ?_⟩
    · rintro rfl
      change _ ≤ 1 at buffer
      omega
    · rintro rfl
      exact buffer

theorem LeavesRoom.segmentsFit (room : LeavesRoom opening mtu newsendmss) : SegmentsFit opening mtu newsendmss := by
  intro before after limit _ ran
  obtain ⟨length, some⟩ := transmitnextsegment_length ran
  rcases room with zero | ⟨unbound, whole, passive⟩
  · omega
  · refine ⟨?_, by omega⟩
    cases opening with
    | connect =>
      change _ ≤ mtu
      omega
    | bindConnect => exact absurd rfl unbound
    | passive =>
      have := passive rfl
      change _ ≤ mtu % 2 ^ 32
      omega

end Sizes

/-- All segments fit when the limit leaves room for them, and only then. -/
theorem segments_fit_iff (opening : Opening) (mtu : Nat) (newsendmss : UInt16) :
    SegmentsFit opening mtu newsendmss ↔ LeavesRoom opening mtu newsendmss :=
  ⟨SegmentsFit.leavesRoom, LeavesRoom.segmentsFit⟩

/-- The segments do not fit after a bind, and an announcement without the headers makes them too long for the MTU. -/
theorem ordinary_mtu_overrun : ¬ SegmentsFit .bindConnect 1500 1460 ∧ ¬ SegmentsFit .connect 1500 1480 ∧
    ¬ SegmentsFit .passive 64 536 := by
  refine ⟨mt SegmentsFit.leavesRoom ?_, mt SegmentsFit.leavesRoom ?_, mt SegmentsFit.leavesRoom ?_⟩
  all_goals
    unfold LeavesRoom
    decide

end Astral.Net.Options

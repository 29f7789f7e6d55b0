import Astral.Construction.Ipv4
import Astral.Proof.Words

namespace Astral.Ipv4

/-- The checksum brings the sum of the words to a multiple of the largest word. -/
theorem checksum_spec {words : List Nat} (positive : 0 < words.sum) (small : words.sum ≤ 10 * 65535) :
    checksum words < 65535 ∧ (words.sum + checksum words) % 65535 = 0 := by
  simp only [checksum]
  generalize words.sum = total at positive small
  obtain ⟨high, high_eq⟩ : ∃ high, high = total / 2 ^ 16 := ⟨_, rfl⟩
  obtain ⟨low, low_eq⟩ : ∃ low, low = total % 2 ^ 16 := ⟨_, rfl⟩
  rw [← high_eq, ← low_eq]
  by_cases carries : high + low < 2 ^ 16
  · rw [Nat.div_eq_of_lt carries, Nat.add_zero, Nat.mod_eq_of_lt carries]
    omega
  · have carry : (high + low) / 2 ^ 16 = 1 := by omega
    have rest : (high + low + 1) % 2 ^ 16 = high + low + 1 - 2 ^ 16 := by omega
    rw [carry, rest]
    omega

/-- A header with its checksum has the checksum zero. -/
theorem checksum_cancels {words checked : List Nat} (positive : 0 < words.sum) (small : words.sum ≤ 9 * 65535)
    (sum : checked.sum = words.sum + checksum words) : checksum checked = 0 := by
  obtain ⟨below, multiple⟩ := checksum_spec positive (by omega)
  obtain ⟨checked_below, checked_multiple⟩ := checksum_spec (show 0 < checked.sum by omega) (by omega)
  omega

theorem shiftLeft_or {value amount rest : Nat} (small : rest < 2 ^ amount) :
    value <<< amount ||| rest = value * 2 ^ amount + rest := by
  rw [← Nat.shiftLeft_add_eq_or_of_lt small, Nat.shiftLeft_eq]

theorem getFlags_eq {flags offset : Nat} (few : flags < 8) (small : offset < 2 ^ 16) :
    getFlags (flagsFragoffset flags offset % 2 ^ 16) = flags := by
  rw [flagsFragoffset, Nat.shiftRight_eq_div_pow, shiftLeft_or (by omega), getFlags, Nat.shiftRight_eq_div_pow,
    show 0x7 = 2 ^ 3 - 1 from rfl, Nat.and_two_pow_sub_one_eq_mod]
  omega

theorem getFragoffset_eq {flags offset : Nat} (small : offset < 2 ^ 16) :
    getFragoffset (flagsFragoffset flags offset % 2 ^ 16) = offset / 8 := by
  rw [flagsFragoffset, Nat.shiftRight_eq_div_pow, shiftLeft_or (by omega), getFragoffset,
    show 0x1fff = 2 ^ 13 - 1 from rfl, Nat.and_two_pow_sub_one_eq_mod]
  omega

/-- The offset of a fragment in bytes. -/
def Frame.offset (frame : Frame) : Nat := 8 * getFragoffset frame.flagsFragoffset

def Frame.moreFragments (frame : Frame) : Bool := getFlags frame.flagsFragoffset &&& flagMf ≠ 0

/-- The data of a list of frames. -/
def payloads (frames : List Frame) : List UInt8 := frames.flatMap Frame.payload

/-- The frames are a packet cut at multiples of 8, none of them empty, and a packet that fits is not cut at all. -/
structure Fragmented (netdev : Netdev) (buffer : List UInt8) (ip : UInt32) (proto : Nat) (frames : List Frame) :
    Prop where
  offsets : ∀ index frame, frames[index]? = some frame → frame.offset = (payloads (frames.take index)).length
  lengths : ∀ frame ∈ frames, frame.packetlen = frame.payload.length + frameSize ∧ frame.packetlen ≤ netdev.mtu
  more : ∀ frame ∈ frames.dropLast, frame.moreFragments = true
  last : ∀ frame ∈ frames.getLast?, frame.moreFragments = false
  whole : payloads frames = buffer
  nonempty : ∀ frame ∈ frames, frame.payload ≠ []
  single : buffer.length ≤ devfragmentsize netdev → ∃ frame, frames = [frame] ∧
    ∀ receiver : Netdev, ip = broadcastAddress ∨ ip = receiver.ip →
      ipv4Process receiver frame = some (proto % 2 ^ 8, buffer)

/-- The device takes every fragment. -/
def Netdev.Takes (netdev : Netdev) : Prop := ∀ i, netdev.allocdesc i = none ∧ netdev.sendpacket i = none

section Header

variable {netdev : Netdev} {payload : List UInt8} {offset id proto : Nat} {ip : UInt32} {last : Bool}

theorem stamped_checksum {frame : Frame} (blank : frame.framechecksum = 0) (positive : 0 < frame.words.sum)
    (small : frame.words.sum ≤ 9 * 65535) :
    checksum { frame with framechecksum := checksum frame.words }.words = 0 := by
  apply checksum_cancels positive small
  simp only [Frame.words, List.sum_cons, List.sum_nil, blank]
  omega

theorem dispatchFragment_checksum : checksum (dispatchFragment netdev payload offset id ip proto last).words = 0 := by
  have src := netdev.ip.toNat_lt
  have dst := ip.toNat_lt
  have version : versionLength 4 5 = 69 := rfl
  apply stamped_checksum rfl
  · simp only [Frame.words, version, List.sum_cons]
    omega
  · simp only [Frame.words, version, List.sum_cons, List.sum_nil]
    omega

theorem dispatchFragment_flags (small : offset < 2 ^ 16) :
    (dispatchFragment netdev payload offset id ip proto last).moreFragments = !last := by
  cases last with
  | true =>
    have flags := getFlags_eq (show 0 < 8 by decide) small
    simp only [Frame.moreFragments, dispatchFragment, if_true, flags]
    rfl
  | false =>
    have flags := getFlags_eq (show flagMf < 8 by decide) small
    simp only [Frame.moreFragments, dispatchFragment, Bool.false_eq_true, if_false, flags]
    rfl

theorem dispatchFragment_offset (small : offset < 2 ^ 16) (aligned : offset % 8 = 0) :
    (dispatchFragment netdev payload offset id ip proto last).offset = offset := by
  simp only [Frame.offset, dispatchFragment, getFragoffset_eq small]
  omega

/-- A frame that is not a fragment is accepted by its destination. -/
theorem dispatchFragment_accepted {receiver : Netdev} (addressed : ip = broadcastAddress ∨ ip = receiver.ip) :
    ipv4Process receiver (dispatchFragment netdev payload 0 id ip proto true) = some (proto % 2 ^ 8, payload) := by
  have checked : checksum (dispatchFragment netdev payload 0 id ip proto true).words = 0 := dispatchFragment_checksum
  obtain ⟨frame, frame_eq⟩ : ∃ frame, frame = dispatchFragment netdev payload 0 id ip proto true := ⟨_, rfl⟩
  have version : frame.versionLength = versionLength 4 5 := by rw [frame_eq]; rfl
  have flags : frame.flagsFragoffset = flagsFragoffset 0 0 % 2 ^ 16 := by rw [frame_eq]; rfl
  have destination : frame.dstaddr = ip := by rw [frame_eq]; rfl
  have contents : (frame.protocol, frame.payload) = (proto % 2 ^ 8, payload) := by rw [frame_eq]; rfl
  have whole : ¬ (getFlags (flagsFragoffset 0 0 % 2 ^ 16) &&& flagMf ≠ 0 ∨
      getFragoffset (flagsFragoffset 0 0 % 2 ^ 16) > 0) := by
    decide
  have reaches : ¬ (ip ≠ broadcastAddress ∧ ip ≠ receiver.ip) := by
    rintro ⟨not_broadcast, not_own⟩
    exact addressed.elim not_broadcast not_own
  rw [← frame_eq] at checked ⊢
  unfold ipv4Process
  rw [if_neg (not_not.mpr checked), if_neg (not_not.mpr version), flags, if_neg whole, destination, if_neg reaches,
    contents]

end Header

/-- The fragment with an index. -/
def fragment (netdev : Netdev) (buffer : List UInt8) (ip : UInt32) (proto fragmentcount i : Nat) : Frame :=
  let unit := devfragmentsize netdev
  let last : Bool := i = fragmentcount - 1
  let fragmentlen := if last then buffer.length - unit * (fragmentcount - 1) else unit
  dispatchFragment netdev ((buffer.drop (i * unit)).take fragmentlen) (i * unit) netdev.ipcurrid ip proto last

theorem sendFragments_eq {netdev : Netdev} (takes : netdev.Takes) (buffer : List UInt8) (ip : UInt32)
    (proto fragmentcount remaining i : Nat) : sendFragments netdev buffer ip proto fragmentcount remaining i =
      ((List.range' i remaining).map (fragment netdev buffer ip proto fragmentcount), none) := by
  induction remaining generalizing i with
  | zero => rfl
  | succ remaining ih =>
    obtain ⟨allocates, sends⟩ := takes i
    simp only [sendFragments, allocates, sends, ih, List.range'_succ, List.map_cons]
    rfl

/-- Slices of one size join to the beginning of a list. -/
theorem flatMap_slices (buffer : List UInt8) (unit count : Nat) :
    ((List.range count).flatMap fun i => (buffer.drop (i * unit)).take unit) = buffer.take (count * unit) := by
  induction count with
  | zero => simp
  | succ count ih =>
    rw [List.range_succ, List.flatMap_append, ih, List.flatMap_singleton, Nat.succ_mul, List.take_add]

section Cut

variable {netdev : Netdev} {buffer : List UInt8} {ip : UInt32} {proto : Nat}

theorem devfragmentsize_spec (mtu : 28 ≤ netdev.mtu) (word : netdev.mtu < wordSize) :
    8 ≤ devfragmentsize netdev ∧ devfragmentsize netdev % 8 = 0 ∧ devfragmentsize netdev + frameSize ≤ netdev.mtu := by
  have size : frameSize = 20 := rfl
  have header : subWord netdev.mtu frameSize = netdev.mtu - 20 := subWord_eq (by omega) word
  simp only [devfragmentsize, header]
  omega

/-- The last fragment takes what is left, which is less than a full one. -/
theorem fragment_payload {i : Nat} (positive : 0 < devfragmentsize netdev) :
    (fragment netdev buffer ip proto (buffer.length / devfragmentsize netdev + 1) i).payload =
      (buffer.drop (i * devfragmentsize netdev)).take (devfragmentsize netdev) := by
  simp only [fragment, dispatchFragment, Nat.add_sub_cancel, decide_eq_true_eq]
  split
  · next last =>
    have rest := Nat.mod_lt buffer.length positive
    have left : buffer.length - devfragmentsize netdev * (buffer.length / devfragmentsize netdev) =
        buffer.length % devfragmentsize netdev := by
      rw [Nat.mod_eq_sub]
    have length : (buffer.drop (i * devfragmentsize netdev)).length = buffer.length % devfragmentsize netdev := by
      rw [List.length_drop, last, Nat.mul_comm, left]
    rw [left, List.take_of_length_le length.le, List.take_of_length_le (by omega)]
  · rfl

/-- The frames that are sent when the device takes them all. -/
def fragments (netdev : Netdev) (buffer : List UInt8) (ip : UInt32) (proto : Nat) : List Frame :=
  (List.range (buffer.length / devfragmentsize netdev + 1)).map
    (fragment netdev buffer ip proto (buffer.length / devfragmentsize netdev + 1))

theorem ipv4Sendpacket_eq (takes : netdev.Takes) (small : buffer.length ≤ 65515) :
    ipv4Sendpacket (some netdev) buffer ip proto = (fragments netdev buffer ip proto, none) := by
  have not_large : ¬ buffer.length + frameSize > 65535 := by
    simp only [frameSize]
    omega
  simp only [ipv4Sendpacket, if_neg not_large, sendFragments_eq takes, fragments, List.range_eq_range']

theorem payloads_take (positive : 0 < devfragmentsize netdev) {index : Nat}
    (inside : index ≤ buffer.length / devfragmentsize netdev + 1) :
    payloads ((fragments netdev buffer ip proto).take index) = buffer.take (index * devfragmentsize netdev) := by
  rw [payloads, fragments, ← List.map_take, List.take_range, Nat.min_eq_left inside, List.flatMap_map]
  simp only [fragment_payload positive]
  exact flatMap_slices buffer _ index

theorem mem_fragments {frame : Frame} :
    frame ∈ fragments netdev buffer ip proto ↔ ∃ i ≤ buffer.length / devfragmentsize netdev,
      fragment netdev buffer ip proto (buffer.length / devfragmentsize netdev + 1) i = frame := by
  simp [fragments]

/-- No fragment begins after the end of the packet. -/
theorem fragment_inside {i : Nat} (inside : i ≤ buffer.length / devfragmentsize netdev) :
    i * devfragmentsize netdev ≤ buffer.length :=
  (Nat.mul_le_mul_right _ inside).trans (Nat.div_mul_le_self _ _)

section

variable (small : buffer.length ≤ 65515)
include small

theorem fragments_offsets (aligned : devfragmentsize netdev % 8 = 0) (positive : 0 < devfragmentsize netdev)
    (index : Nat) (frame : Frame) (found : (fragments netdev buffer ip proto)[index]? = some frame) :
    frame.offset = (payloads ((fragments netdev buffer ip proto).take index)).length := by
  obtain ⟨inside, frame_eq⟩ := List.getElem?_eq_some_iff.mp found
  have below : index < buffer.length / devfragmentsize netdev + 1 := by simpa [fragments] using inside
  have within := fragment_inside (Nat.lt_succ_iff.mp below)
  rw [payloads_take positive below.le, List.length_take, Nat.min_eq_left within, ← frame_eq]
  simp only [fragments, List.getElem_map, List.getElem_range]
  apply dispatchFragment_offset (by omega)
  rw [Nat.mul_mod, aligned]
  simp

theorem fragments_lengths (positive : 0 < devfragmentsize netdev)
    (fits : devfragmentsize netdev + frameSize ≤ netdev.mtu) : ∀ frame ∈ fragments netdev buffer ip proto,
      frame.packetlen = frame.payload.length + frameSize ∧ frame.packetlen ≤ netdev.mtu := by
  intro frame member
  obtain ⟨i, inside, same⟩ := mem_fragments.mp member
  have payload : frame.payload = (buffer.drop (i * devfragmentsize netdev)).take (devfragmentsize netdev) := by
    rw [← same, fragment_payload positive]
  have length : frame.packetlen = frame.payload.length + frameSize := by
    have size : frameSize = 20 := rfl
    have short : frame.payload.length + frameSize < 2 ^ 16 := by
      rw [payload, List.length_take, List.length_drop]
      omega
    rw [← same] at short ⊢
    exact Nat.mod_eq_of_lt short
  refine ⟨length, ?_⟩
  rw [length, payload, List.length_take]
  omega

/-- Only the last fragment has no others behind it. -/
theorem fragment_flags {i : Nat} (inside : i ≤ buffer.length / devfragmentsize netdev) :
    (fragment netdev buffer ip proto (buffer.length / devfragmentsize netdev + 1) i).moreFragments =
      !decide (i = buffer.length / devfragmentsize netdev) := by
  have within := fragment_inside inside
  rw [fragment, dispatchFragment_flags (by omega), Nat.add_sub_cancel]

theorem fragments_more : ∀ frame ∈ (fragments netdev buffer ip proto).dropLast, frame.moreFragments = true := by
  intro frame member
  rw [fragments, List.range_succ, List.map_append, List.map_singleton, List.dropLast_concat, List.mem_map] at member
  obtain ⟨i, inside, rfl⟩ := member
  have below := List.mem_range.mp inside
  rw [fragment_flags small below.le, decide_eq_false (Nat.ne_of_lt below)]
  rfl

theorem fragments_last : ∀ frame ∈ (fragments netdev buffer ip proto).getLast?, frame.moreFragments = false := by
  intro frame member
  rw [fragments, List.range_succ, List.map_append, List.map_singleton, List.getLast?_concat] at member
  cases member
  rw [fragment_flags small (le_refl _), decide_eq_true rfl]
  rfl

end

theorem fragments_whole (positive : 0 < devfragmentsize netdev) :
    payloads (fragments netdev buffer ip proto) = buffer := by
  have covers : buffer.length < (buffer.length / devfragmentsize netdev + 1) * devfragmentsize netdev :=
    (Nat.div_lt_iff_lt_mul positive).mp (Nat.lt_succ_self _)
  have all : payloads ((fragments netdev buffer ip proto).take (buffer.length / devfragmentsize netdev + 1)) = _ :=
    payloads_take positive (le_refl _)
  rw [List.take_of_length_le (by simp [fragments]), List.take_of_length_le covers.le] at all
  exact all

/-- The last fragment is empty when the packet is a multiple of the fragment size. -/
theorem fragments_nonempty (positive : 0 < devfragmentsize netdev) :
    (∀ frame ∈ fragments netdev buffer ip proto, frame.payload ≠ []) ↔ ¬ devfragmentsize netdev ∣ buffer.length := by
  constructor
  · intro nonempty divides
    have last := nonempty _ (mem_fragments.mpr ⟨_, le_refl _, rfl⟩)
    rw [fragment_payload positive, Nat.div_mul_cancel divides, List.drop_length, List.take_nil] at last
    exact last rfl
  · intro not_divides frame member
    obtain ⟨i, inside, rfl⟩ := mem_fragments.mp member
    have within := fragment_inside inside
    have before : i * devfragmentsize netdev ≠ buffer.length := fun same => not_divides ⟨i, by rw [← same, Nat.mul_comm]⟩
    rw [fragment_payload positive, ← List.length_pos_iff, List.length_take, List.length_drop]
    omega

theorem fragments_single (smaller : buffer.length < devfragmentsize netdev) :
    ∃ frame, fragments netdev buffer ip proto = [frame] ∧
      ∀ receiver : Netdev, ip = broadcastAddress ∨ ip = receiver.ip →
        ipv4Process receiver frame = some (proto % 2 ^ 8, buffer) := by
  have count : buffer.length / devfragmentsize netdev = 0 := Nat.div_eq_of_lt smaller
  have only : fragment netdev buffer ip proto 1 0 = dispatchFragment netdev buffer 0 netdev.ipcurrid ip proto true := by
    simp [fragment]
  refine ⟨fragment netdev buffer ip proto 1 0, by simp [fragments, count], ?_⟩
  intro receiver addressed
  rw [only]
  exact dispatchFragment_accepted addressed

end Cut

/-- A packet is cut as it should be exactly when its size is not a multiple of the fragment size. -/
theorem fragmentation_iff {netdev : Netdev} {buffer : List UInt8} (ip : UInt32) (proto : Nat)
    (small : buffer.length ≤ 65515) (mtu : 28 ≤ netdev.mtu) (word : netdev.mtu < wordSize) (takes : netdev.Takes) :
    (∃ frames, ipv4Sendpacket (some netdev) buffer ip proto = (frames, none) ∧
      Fragmented netdev buffer ip proto frames) ↔ ¬ devfragmentsize netdev ∣ buffer.length := by
  obtain ⟨size, aligned, fits⟩ := devfragmentsize_spec mtu word
  have positive : 0 < devfragmentsize netdev := by omega
  constructor
  · rintro ⟨frames, sent, fragmented⟩
    rw [ipv4Sendpacket_eq takes small] at sent
    cases sent
    exact (fragments_nonempty positive).mp fragmented.nonempty
  · intro not_divides
    refine ⟨_, ipv4Sendpacket_eq takes small, ?_⟩
    constructor
    case offsets => exact fragments_offsets small aligned positive
    case lengths => exact fragments_lengths small positive fits
    case more => exact fragments_more small
    case last => exact fragments_last small
    case whole => exact fragments_whole positive
    case nonempty => exact (fragments_nonempty positive).mpr not_divides
    case single =>
      intro within
      apply fragments_single
      apply Nat.lt_of_le_of_ne within
      intro same
      exact not_divides (Dvd.intro_left 1 (by omega))

/-- A device with the smallest unit. -/
def narrow : Netdev where
  mtu := 28
  ip := 0x0a000001
  ipcurrid := 0
  allocdesc _ := none
  sendpacket _ := none

/-- Nine bytes go in two fragments. -/
theorem nine_bytes_fragmented :
    ∃ frames, ipv4Sendpacket (some narrow) (List.replicate 9 0) 0x0a000001 0x11 = (frames, none) ∧
      Fragmented narrow (List.replicate 9 0) 0x0a000001 0x11 frames :=
  (fragmentation_iff 0x0a000001 0x11 (by decide) (by decide) (by decide) (fun _ => ⟨rfl, rfl⟩)).mpr (by decide)

/-- Eight bytes that fill one fragment are sent as that one and an empty one, and the first is not accepted. -/
theorem eight_bytes_cut : (ipv4Sendpacket (some narrow) (List.replicate 8 0) 0x0a000001 0x11).1.map (fun frame =>
        (frame.payload.length, frame.moreFragments, frame.offset, (ipv4Process narrow frame).isSome)) =
      [(8, true, 0, false), (0, false, 8, false)] ∧ (List.replicate 8 (0 : UInt8)).length ≤ devfragmentsize narrow := by
  constructor
  · decide +kernel
  · decide

end Astral.Ipv4

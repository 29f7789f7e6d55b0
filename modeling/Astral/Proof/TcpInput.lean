import Astral.Construction.TcpInput
import Astral.Library.Run

namespace Astral.Net.Input

variable {word count sum : Nat} {dataoffset : UInt8}

theorem swap_swap (small : word < 65536) : swap (swap word) = word := by
  unfold swap
  omega

/-- The words of a packet, the last of which may be half a word. -/
def sumWords : List UInt8 → Nat
  | [] => 0
  | [last] => last.toNat * 256
  | high :: low :: rest => high.toNat * 256 + low.toNat + sumWords rest

/-- The words of a list are those of its two parts. -/
theorem sumWords_split (half : Nat) (bytes : List UInt8) :
    sumWords (bytes.take (2 * half)) + sumWords (bytes.drop (2 * half)) = sumWords bytes := by
  induction half generalizing bytes with
  | zero => simp [sumWords]
  | succ half ih =>
    rw [show 2 * (half + 1) = 2 * half + 1 + 1 by omega]
    obtain _ | ⟨high, _ | ⟨low, rest⟩⟩ := bytes
    · simp [sumWords]
    · simp [sumWords]
    · simp only [List.take_succ_cons, List.drop_succ_cons, sumWords, Nat.add_assoc, ih rest]

section Sum

variable {buffer : List UInt8} {place : Nat}

theorem byteAt_inside (inside : place < buffer.length) : byteAt buffer place = .ok buffer[place].toNat := by
  rw [byteAt, List.getElem?_eq_getElem inside]

theorem byteAt_outside (outside : buffer.length ≤ place) : byteAt buffer place = .error .outside := by
  rw [byteAt, List.getElem?_eq_none outside]

/-- The words of a part of the packet are added when the part is inside. -/
theorem addWords_eq (count : Nat) (inside : place ≤ buffer.length) (sum : Nat) : addWords buffer count place sum =
    if place + 2 * count ≤ buffer.length then .ok (sum + sumWords ((buffer.drop place).take (2 * count)))
    else .error .outside := by
  induction count generalizing place sum with
  | zero => simp [addWords, inside, sumWords]
  | succ count ih =>
    rw [addWords]
    by_cases two : place + 2 ≤ buffer.length
    · rw [byteAt_inside (by omega), byteAt_inside (by omega), List.drop_eq_getElem_cons (by omega),
        List.drop_eq_getElem_cons (by omega), Nat.mul_succ, List.take_succ_cons, List.take_succ_cons, sumWords]
      have rest := ih two (sum + (buffer[place].toNat * 256 + buffer[place + 1].toNat))
      simp only [bind, Except.bind, rest, Nat.add_assoc, Nat.add_comm 2]
    · rw [if_neg (by omega)]
      obtain one | none : place + 1 = buffer.length ∨ place = buffer.length := by omega
      · rw [byteAt_inside (by omega), byteAt_outside (by omega)]
        rfl
      · rw [byteAt_outside (by omega)]
        rfl

/-- The last half of a word is added when there is one. -/
theorem addLast_eq (sum : Nat) (ends : place + count = buffer.length) :
    addLast buffer count (place + count / 2 * 2) sum =
      .ok (sum + sumWords ((buffer.drop place).drop (2 * (count / 2)))) := by
  rw [addLast, List.drop_drop]
  split_ifs with even
  · rw [List.drop_eq_nil_of_le (by omega)]
    rfl
  · rw [byteAt_inside (by omega), Nat.mul_comm 2, List.drop_eq_getElem_cons (by omega),
      List.drop_eq_nil_of_le (by omega)]
    rfl

end Sum

/-- The checksum of a packet with its whole header is over all of its words. -/
theorem checksum_eq {pseudo : Pseudoheader} {buffer : List UInt8} (there : buffer[12]? = some dataoffset)
    (header : dataoffset.toNat / 16 * 4 ≤ buffer.length) (size : swap pseudo.length = buffer.length)
    (small : buffer.length < 65536) :
    checksum pseudo buffer = .ok (65535 - folded (pseudo.words.sum + sumWords buffer)) := by
  simp only [checksum, byteAt, there, size, bind, Except.bind]
  obtain ⟨headerlen, length⟩ : ∃ headerlen, headerlen = dataoffset.toNat / 16 * 4 := ⟨_, rfl⟩
  rw [← length] at header ⊢
  have data : (2 ^ 64 + buffer.length - headerlen) % 2 ^ 64 = buffer.length - headerlen := by omega
  have half : 2 * (headerlen / 2) = headerlen := by omega
  rw [data, addWords_eq _ (Nat.zero_le _), if_pos (by omega)]
  dsimp only
  rw [addWords_eq _ header, if_pos (by omega)]
  dsimp only
  rw [addLast_eq _ (by omega), half, List.drop_zero]
  have parts := sumWords_split (headerlen / 2) buffer
  rw [half] at parts
  simp only [Nat.add_assoc, sumWords_split, parts]

section Send

def Pseudoheader.network (pseudo : Pseudoheader) : List UInt8 :=
  cpuToBeD pseudo.source ++ cpuToBeD pseudo.dest ++ [0, .ofNat pseudo.protocol] ++ cpuToBeW (swap pseudo.length)

/-- The bytes that the checksum of a packet is over. -/
def summed (self peer : UInt32) (buffer : List UInt8) : List UInt8 :=
  (pseudoheader self peer buffer.length).network ++ buffer

/-- The words of the bytes, with a byte of zero behind them when their number is odd. -/
def paddedWords : List UInt8 → List Nat
  | [] => []
  | [last] => [last.toNat * 256]
  | high :: low :: rest => (high.toNat * 256 + low.toNat) :: paddedWords rest

/-- The sum of two words, to which its carry is added. -/
def onesAdd (sum word : Nat) : Nat := (sum + word) % 65536 + (sum + word) / 65536

/-- The complement of the one's-complement sum, as RFC 1071 defines it. -/
def internetChecksum (bytes : List UInt8) : Nat := 65535 - (paddedWords bytes).foldl onesAdd 0

theorem sumWords_le (bytes : List UInt8) : sumWords bytes ≤ 32768 * (bytes.length + 1) := by
  fun_induction sumWords bytes with
  | case1 => decide
  | case2 last =>
    have last_small := last.toNat_lt
    simp
    omega
  | case3 high low rest ih =>
    have high_small := high.toNat_lt
    have low_small := low.toNat_lt
    simp only [List.length_cons]
    omega

/-- The two folds take a sum of 32 bits to a word that differs by a multiple of 65535 and is zero only for zero. -/
theorem folded_spec (small : sum < 2 ^ 32) :
    ∃ turns, folded sum + 65535 * turns = sum ∧ folded sum ≤ 65535 ∧ (folded sum = 0 → sum = 0) := by
  obtain ⟨once, first⟩ : ∃ once, once = sum / 65536 + sum % 65536 := ⟨_, rfl⟩
  have twice : once ≤ 131070 := by omega
  have second : folded sum = if once < 65536 then once else once - 65535 := by
    simp only [folded, ← first]
    split_ifs <;> omega
  by_cases carry : once < 65536
  · rw [if_pos carry] at second
    exact ⟨sum / 65536, by omega, by omega, by omega⟩
  · rw [if_neg carry] at second
    exact ⟨sum / 65536 + 1, by omega, by omega, by omega⟩

theorem onesAdd_folded (low : word < 65536) (small : sum + word < 2 ^ 32) :
    onesAdd (folded sum) word = folded (sum + word) := by
  obtain ⟨before, first, _⟩ := folded_spec (Nat.lt_of_le_of_lt (Nat.le_add_right sum word) small)
  obtain ⟨after, second, _⟩ := folded_spec small
  unfold onesAdd
  omega

theorem foldl_onesAdd (bytes : List UInt8) (sum : Nat) (small : sum + sumWords bytes < 2 ^ 32) :
    (paddedWords bytes).foldl onesAdd (folded sum) = folded (sum + sumWords bytes) := by
  fun_induction sumWords bytes generalizing sum with
  | case1 => rfl
  | case2 last =>
    have last_small := last.toNat_lt
    exact onesAdd_folded (by omega) small
  | case3 high low rest ih =>
    have high_small := high.toNat_lt
    have low_small := low.toNat_lt
    rw [← Nat.add_assoc] at small ⊢
    rw [paddedWords, List.foldl_cons, onesAdd_folded (by omega) (by omega), ih _ small]

/-- The complement of a sum completes it to a word of ones. -/
theorem folded_complement (small : sum + 65535 < 2 ^ 32) : folded (sum + (65535 - folded sum)) = 65535 := by
  obtain ⟨before, first, _⟩ := folded_spec (Nat.lt_of_le_of_lt (Nat.le_add_right sum 65535) small)
  obtain ⟨after, second, _⟩ := folded_spec
    (Nat.lt_of_le_of_lt (Nat.add_le_add_left (Nat.sub_le 65535 (folded sum)) sum) small)
  omega

section Buffer

variable (self peer : UInt32) {buffer : List UInt8} (fits : buffer.length < 65536)

include fits

/-- The sum is one of 32 bits even when the checksum is added to it. -/
theorem summed_small : sumWords (summed self peer buffer) + 65535 < 2 ^ 32 := by
  have most := sumWords_le (summed self peer buffer)
  simp only [summed, Pseudoheader.network, cpuToBeD, cpuToBeW, List.length_append, List.length_cons,
    List.length_nil] at most ⊢
  omega

theorem summed_sum : sumWords (summed self peer buffer) =
    (pseudoheader self peer buffer.length).words.sum + sumWords buffer := by
  have self_small := self.toNat_lt
  have peer_small := peer.toNat_lt
  simp [summed, Pseudoheader.network, Pseudoheader.words, pseudoheader, cpuToBeW, cpuToBeD, sumWords, swap_swap fits]
  omega

theorem checksum_summed (there : buffer[12]? = some dataoffset) (whole : dataoffset.toNat / 16 * 4 ≤ buffer.length) :
    checksum (pseudoheader self peer buffer.length) buffer =
      .ok (65535 - folded (sumWords (summed self peer buffer))) := by
  rw [summed_sum self peer fits]
  exact checksum_eq there whole (swap_swap fits) fits

end Buffer

/-- The field of the checksum is a word of its own in the sum. -/
theorem network_sum (header : Tcpheader) (behind : List UInt8) (self peer : UInt32) {field : Nat}
    (word : field < 65536) : sumWords (summed self peer (network header field ++ behind)) =
      sumWords (summed self peer (network header 0 ++ behind)) + field := by
  simp [summed, Pseudoheader.network, network, cpuToBeW, cpuToBeD, sumWords]
  omega

/-- A packet that was sent is accepted, and the checksum of a packet is that of RFC 1071 over its pseudo header, its
header and its data. -/
theorem sent_packet_accepted (header : Tcpheader) (behind : List UInt8) (peer self : UInt32)
    (whole : header.dataoffset % 256 / 16 * 4 ≤ 20 + behind.length) (fits : 20 + behind.length ≤ 65535) :
    (∃ segment, tcpSendpacket header behind peer self = .ok segment ∧
      checksum (pseudoheader self peer segment.length) segment = .ok 0) ∧
    ∀ field, checksum (pseudoheader self peer (20 + behind.length)) (network header field ++ behind) =
      .ok (internetChecksum (summed self peer (network header field ++ behind))) := by
  have length (field : Nat) : (network header field ++ behind).length = 20 + behind.length := by
    simp only [List.length_append]
    rfl
  have value (field : Nat) := checksum_summed self peer (by rw [length field]; omega)
    (show (network header field ++ behind)[12]? = some (.ofNat header.dataoffset) from rfl)
    (by rw [length field]; exact whole)
  have small (field : Nat) : sumWords (summed self peer (network header field ++ behind)) + 65535 < 2 ^ 32 :=
    summed_small self peer (by rw [length field]; omega)
  constructor
  · refine ⟨_, by rw [tcpSendpacket, value 0]; rfl, ?_⟩
    rw [value, network_sum header behind self peer (by omega), folded_complement (small 0)]
  · intro field
    have words := foldl_onesAdd (summed self peer (network header field ++ behind)) 0 (by have := small field; omega)
    rw [Nat.zero_add] at words
    rw [← length field, value, internetChecksum, ← words]
    rfl

/-- A packet with one byte of data is accepted. -/
theorem one_byte_accepted : ∃ segment,
    tcpSendpacket ⟨1024, 80, 7, 9, 0x50, 0x10, 512, 0⟩ [5] 0x0a000002 0x0a000001 = .ok segment ∧
      checksum (pseudoheader 0x0a000001 0x0a000002 segment.length) segment = .ok 0 :=
  (sent_packet_accepted _ [5] _ _ (by decide) (by decide)).1

end Send

/-- The packet has the byte that tells the length of its header, and all of its header. -/
def Received.Whole (packet : Received) : Prop :=
  ∃ dataoffset, packet.payload[12]? = some dataoffset ∧ dataoffset.toNat / 16 * 4 ≤ packet.payload.length

/-- The checksum of the packet is right. -/
def Received.Intact (packet : Received) : Prop :=
  folded (packet.pseudo.words.sum + sumWords packet.payload) = 65535

variable (packet : Received)

theorem swap_length : swap packet.pseudo.length = packet.payload.length :=
  swap_swap (by have := packet.fits; omega)

theorem checksum_whole (whole : packet.Whole) : checksum packet.pseudo packet.payload =
    .ok (65535 - folded (packet.pseudo.words.sum + sumWords packet.payload)) := by
  obtain ⟨dataoffset, there, header⟩ := whole
  have fits := packet.fits
  exact checksum_eq there header (swap_length packet) (by omega)

/-- The checksum of a packet without a whole header reads behind it. -/
theorem checksum_torn (torn : ¬ packet.Whole) : checksum packet.pseudo packet.payload = .error .outside := by
  cases there : packet.payload[12]? with
  | none => simp only [checksum, byteAt, there, bind, Except.bind]
  | some dataoffset =>
    have short : packet.payload.length < dataoffset.toNat / 16 * 4 :=
      Nat.lt_of_not_le fun header => torn ⟨dataoffset, there, header⟩
    simp only [checksum, byteAt, there, bind, Except.bind]
    rw [addWords_eq _ (Nat.zero_le _), if_neg (by omega)]

theorem ringbufferWrite_ok_iff {filled next : Nat} :
    ringbufferWrite filled count = .ok next ↔ count ≤ workerBufferSize - filled ∧ filled + count = next := by
  unfold ringbufferWrite
  split_ifs with room
  · simp [min_eq_left_iff.1 room]
  · simp [mt min_eq_left_iff.2 room]

/-- The three parts are written when there is room for all of them. -/
theorem writeTask_iff (filled length : Nat) : (∃ left, writeTask filled length = .ok left) ↔
    taskSize + (length + pseudoheaderSize) ≤ workerBufferSize - filled := by
  simp only [writeTask, Library.bind_ok, ringbufferWrite_ok_iff, taskSize, pseudoheaderSize, workerBufferSize]
  constructor
  · rintro ⟨left, middle, ⟨task, rfl⟩, last, ⟨header, rfl⟩, done, ⟨payload, rfl⟩, -⟩
    omega
  · intro room
    exact ⟨_, _, ⟨by omega, rfl⟩, _, ⟨by omega, rfl⟩, _, ⟨by omega, rfl⟩, rfl⟩

/-- A packet is handled without a fault when its header is whole and the worker that is chosen for the swapped length
has room for the length. -/
theorem tcpProcess_safe_iff (packet : Received) (attempts : List Nat) : (∃ left, tcpProcess packet attempts = .ok left) ↔
      packet.Whole ∧ (packet.Intact → packet.payload.length ≤ workerInternalBufferSize →
        ∀ filled, getworker (swap packet.payload.length) attempts = some filled →
          taskSize + (packet.payload.length + pseudoheaderSize) ≤ workerBufferSize - filled) := by
  by_cases whole : packet.Whole
  · have limit : folded (packet.pseudo.words.sum + sumWords packet.payload) < 65536 := Nat.mod_lt _ (by decide)
    simp only [whole, true_and, tcpProcess, checksum_whole packet whole, bind, Except.bind, swap_length, ne_eq]
    by_cases intact : packet.Intact
    · rw [intact, if_neg (by decide)]
      by_cases small : packet.payload.length ≤ workerInternalBufferSize
      · rw [if_neg (by omega), show getworker (swap packet.payload.length) attempts =
          getworker packet.pseudo.length attempts from rfl]
        cases getworker packet.pseudo.length attempts with
        | none => simp
        | some filled => simpa [intact, small] using writeTask_iff filled packet.payload.length
      · simp [small, Nat.lt_of_not_le small]
    · rw [if_pos fun zero => intact (by unfold Received.Intact; omega)]
      simp [intact]
  · simp only [whole, false_and, iff_false, tcpProcess, checksum_torn packet whole, bind, Except.bind]
    rintro ⟨left, ran⟩
    cases ran

/-- A packet of 20 bytes that says that its header has 60. -/
def longHeader : Received where
  source := 0
  dest := 0
  protocol := 6
  payload := List.replicate 12 0 ++ [0xf0] ++ List.replicate 7 0
  fits := by decide

/-- An intact packet of 256 bytes, whose length is 1 in the other byte order. -/
def reversedLength : Received where
  source := 0
  dest := 0
  protocol := 6
  payload := List.replicate 12 0 ++ [0x50] ++ List.replicate 241 0 ++ [0xae, 0xf9]
  fits := by simp only [List.length_append, List.length_replicate]; decide

set_option maxRecDepth 8000 in
/-- One packet is read behind its end, and the other one is written to a worker with room for 17 bytes. -/
theorem packets_fault : tcpProcess longHeader [] = .error .outside ∧
    tcpProcess reversedLength [workerBufferSize - 17] = .error .assertion := ⟨by decide, by rfl⟩

end Astral.Net.Input

import Astral.Proof.Localsocket

namespace Astral.Localsocket

open Function Io Astral.Library

variable {data : List UInt8} {buffers : Buffers} {request : Request} {channel : Channel} {count slots ctrllen : Nat}
  {rest : List (List Marked)} {files : List Nat} {first : List Marked}

/-- A byte, together with the files of the send that it begins. -/
abbrev Marked : Type := UInt8 × Option (List Nat)

/-- The first byte of a message carries its files. -/
def Message.marked (message : Message) : List Marked :=
  match message.data with
  | [] => []
  | byte :: rest => (byte, message.files) :: rest.map fun byte => (byte, none)

def stream (sent : List Message) : List Marked := sent.flatMap Message.marked

def dataOf (items : List Marked) : List UInt8 := items.map Prod.fst

def filesOf (items : List Marked) : List Nat := items.flatMap fun item => item.2.getD []

/-- Files are due at most with the first byte. -/
def Unbroken (items : List Marked) : Prop := items ≠ [] ∧ ∀ item ∈ items.tail, item.2 = none

/-- A receive returns a part of the stream and the files that are due with its first byte. -/
structure Receipt.Covers (receipt : Receipt) (items : List Marked) : Prop where
  unbroken : Unbroken items
  data : receipt.data = dataOf items
  files : receipt.files = filesOf items
  whole : receipt.truncated = false
  done : receipt.error = none

/-- The receipts cover the stream up to what is still in the buffers. -/
def Conversation.Delivers (conversation : Conversation) : Prop :=
  ∃ parts pending, stream conversation.sent = parts.flatten ++ pending ∧
    List.Forall₂ Receipt.Covers conversation.received parts ∧
    conversation.channel.ringbuffer = dataOf pending ∧ conversation.channel.fds = filesOf pending

/-- The entries have room for the request, and the peeks behind the first entry start within the free space. -/
def Request.Straight (request : Request) (channel : Channel) : Prop :=
  request.buffers.Ready request.count ∧ (min request.count channel.ringbuffer.length ≤ freespace channel.ringbuffer ∨
      request.buffers.iterator.TakesAll request.count)

/-- A control block comes after an earlier send and within the life of the sections. A send without one comes first or
finds data that was not received yet. A receive takes data away, and has room for all files. The copies start within
the free space, and meet no empty entry and no fault. -/
def Conversation.Proper (conversation : Conversation) : Exchange → Prop
  | .send buffers data files =>
    data ≠ [] ∧ buffers.Ready data.length ∧ conversation.channel.ringbuffer.length + data.length ≤ socketBuffer ∧
      match files with
      | none => conversation.channel.ringbuffer ≠ [] ∨ conversation.sent = []
      | some files =>
        conversation.sent ≠ [] ∧ conversation.channel.barrierwrite + 1 < barrierSize ∧
          conversation.channel.fds.length + files.length ≤ fileCount
  | .recv request =>
    request.peek = false ∧ 0 < request.count ∧ request.Straight conversation.channel ∧ fileCount ≤ request.slots ∧
      ∃ ctrllen, request.ctrllen = some ctrllen ∧ Channel.sockctrlSize + 4 * fileCount ≤ ctrllen ∧ ctrllen < wordSize

section Marks

variable {items : List Marked}

@[simp]
theorem dataOf_append (first second : List Marked) : dataOf (first ++ second) = dataOf first ++ dataOf second :=
  List.map_append

@[simp]
theorem filesOf_append (first second : List Marked) : filesOf (first ++ second) = filesOf first ++ filesOf second :=
  List.flatMap_append

@[simp]
theorem length_dataOf : (dataOf items).length = items.length := List.length_map _

theorem filesOf_unmarked (unmarked : ∀ item ∈ items, item.2 = none) : filesOf items = [] := by
  rw [filesOf, List.flatMap_eq_nil_iff]
  intro item member
  rw [unmarked item member]
  rfl

theorem Unbroken.drop (unbroken : Unbroken items) (positive : 0 < count) :
    ∀ item ∈ items.drop count, item.2 = none := by
  obtain ⟨first, rest, rfl⟩ := List.exists_cons_of_ne_nil unbroken.1
  obtain ⟨count, rfl⟩ := Nat.exists_eq_succ_of_ne_zero positive.ne'
  exact fun item member => unbroken.2 item (List.mem_of_mem_drop member)

theorem Unbroken.take (unbroken : Unbroken items) (positive : 0 < count) :
    Unbroken (items.take count) ∧ filesOf (items.take count) = filesOf items := by
  have dropped := filesOf_unmarked (unbroken.drop positive)
  have all : filesOf (items.take count) = filesOf items := by
    conv_rhs => rw [← List.take_append_drop count items]
    rw [filesOf_append, dropped, List.append_nil]
  obtain ⟨first, rest, rfl⟩ := List.exists_cons_of_ne_nil unbroken.1
  obtain ⟨count, rfl⟩ := Nat.exists_eq_succ_of_ne_zero positive.ne'
  exact ⟨⟨by simp, fun item member => unbroken.2 item (List.mem_of_mem_take member)⟩, all⟩

theorem Unbroken.append (unbroken : Unbroken items) {more : List Marked} (unmarked : ∀ item ∈ more, item.2 = none) :
    Unbroken (items ++ more) := by
  obtain ⟨first, rest, rfl⟩ := List.exists_cons_of_ne_nil unbroken.1
  exact ⟨by simp, List.forall_mem_append.mpr ⟨unbroken.2, unmarked⟩⟩

theorem marked_plain (data : List UInt8) : (Message.mk data none).marked = data.map fun byte => (byte, none) := by
  cases data with
  | nil | cons => rfl

theorem marked_unbroken (message : Message) (nonempty : message.data ≠ []) :
    Unbroken message.marked ∧ dataOf message.marked = message.data ∧ filesOf message.marked = message.files.getD [] := by
  obtain ⟨data, files⟩ := message
  obtain ⟨byte, rest, rfl⟩ := List.exists_cons_of_ne_nil nonempty
  refine ⟨⟨by simp [Message.marked], by simp [Message.marked]⟩, ?_, ?_⟩
  · simp [Message.marked, dataOf, Function.comp_def]
  · simp [Message.marked, filesOf]

end Marks

/-- An entry counts the bytes and the files of a part. -/
def Channel.CountsAt (channel : Channel) (slot : Nat) (items : List Marked) : Prop :=
  channel.bytesremaining slot = items.length ∧ channel.filesremaining slot = (filesOf items).length

/-- The entries from one on count the parts between control blocks. -/
def Channel.Counts (channel : Channel) (slot : Nat) (sections : List (List Marked)) : Prop :=
  ∀ index items, sections[index]? = some items → channel.CountsAt (slot + index) items

section Counts

variable {after : Channel} {sections : List (List Marked)} {items : List Marked} {slot : Nat}

theorem Channel.Counts.congr (counts : channel.Counts slot sections)
    (same : ∀ other, slot ≤ other → other < slot + sections.length → after.bytesremaining other =
      channel.bytesremaining other ∧ after.filesremaining other = channel.filesremaining other) :
    after.Counts slot sections := by
  intro index items found
  have inside : index < sections.length := (List.getElem?_eq_some_iff.mp found).1
  obtain ⟨same_bytes, same_files⟩ := same (slot + index) (by omega) (by omega)
  rw [CountsAt, same_bytes, same_files]
  exact counts index items found

theorem Channel.Counts.append (counts : channel.Counts slot sections)
    (last : channel.CountsAt (slot + sections.length) items) : channel.Counts slot (sections ++ [items]) := by
  intro index found_items found
  rcases Nat.lt_trichotomy index sections.length with below | rfl | above
  · rw [List.getElem?_append_left below] at found
    exact counts index found_items found
  · rw [List.getElem?_concat_length] at found
    cases found
    exact last
  · rw [List.getElem?_eq_none (by rw [List.length_append, List.length_singleton]; omega)] at found
    cases found

theorem Channel.Counts.left (counts : channel.Counts slot (sections ++ rest)) : channel.Counts slot sections := by
  intro index found_items found
  have inside : index < sections.length := (List.getElem?_eq_some_iff.mp found).1
  exact counts index found_items (by rw [List.getElem?_append_left inside, found])

theorem Channel.Counts.cons (first : channel.CountsAt slot items) (rest : channel.Counts (slot + 1) sections) :
    channel.Counts slot (items :: sections) := by
  intro index found_items found
  cases index with
  | zero =>
    cases found
    exact first
  | succ index =>
    have later := rest index found_items found
    rwa [Nat.add_right_comm] at later

theorem Channel.Counts.tail (counts : channel.Counts slot (items :: sections)) :
    channel.Counts (slot + 1) sections := by
  intro index found_items found
  rw [Nat.add_right_comm]
  exact counts (index + 1) found_items found

end Counts

/-- Before the first send there is no section at all. -/
structure Conversation.Untouched (conversation : Conversation) (sections : List (List Marked)) : Prop where
  sent : conversation.sent = []
  none_open : sections = []
  current : conversation.channel.barriercurrent = 0
  write : conversation.channel.barrierwrite = 0
  bytes : conversation.channel.bytesremaining 0 = 0
  files : conversation.channel.filesremaining 0 = 0

/-- Afterwards the last section is the one that is written. -/
structure Conversation.Numbered (conversation : Conversation) (sections : List (List Marked)) : Prop where
  sent : conversation.sent ≠ []
  last : conversation.channel.barriercurrent + sections.length = conversation.channel.barrierwrite + 1
  counts : conversation.channel.Counts conversation.channel.barriercurrent sections

structure Conversation.Aligned (conversation : Conversation) (sections : List (List Marked)) : Prop where
  covered : ∃ parts, stream conversation.sent = parts.flatten ++ sections.flatten ∧
    List.Forall₂ Receipt.Covers conversation.received parts
  ring : conversation.channel.ringbuffer = dataOf sections.flatten
  fds : conversation.channel.fds = filesOf sections.flatten
  unbroken : ∀ items ∈ sections, Unbroken items
  fits : conversation.channel.ringbuffer.length ≤ socketBuffer
  files_fit : conversation.channel.fds.length ≤ fileCount
  below : conversation.channel.barrierwrite < barrierSize
  numbers : conversation.Untouched sections ∨ conversation.Numbered sections

theorem fresh_aligned : Conversation.fresh.Aligned [] where
  covered := ⟨[], rfl, List.Forall₂.nil⟩
  ring := rfl
  fds := rfl
  unbroken := by simp
  fits := Nat.zero_le _
  files_fit := Nat.zero_le _
  below := by decide
  numbers := .inl ⟨rfl, rfl, rfl, rfl, rfl, rfl⟩

variable {conversation : Conversation} {sections : List (List Marked)}

theorem Conversation.Aligned.delivers (aligned : conversation.Aligned sections) : conversation.Delivers := by
  obtain ⟨parts, split, covers⟩ := aligned.covered
  exact ⟨parts, sections.flatten, split, covers, aligned.ring, aligned.fds⟩

theorem toInt_small {value : Int} (lower : 0 ≤ value) (upper : value ≤ socketBuffer) : toInt value = value := by
  simp only [socketBuffer] at upper
  exact Int.bmod_eq_of_le (by omega) (by omega)

/-- A message is added to the sections. -/
theorem Conversation.Aligned.extend (aligned : conversation.Aligned sections) {message : Message}
    {extended : List (List Marked)} (nonempty : message.data ≠ [])
    (flat : extended.flatten = sections.flatten ++ message.marked)
    (ring : channel.ringbuffer = conversation.channel.ringbuffer ++ message.data)
    (fds : channel.fds = conversation.channel.fds ++ message.files.getD [])
    (fits : channel.ringbuffer.length ≤ socketBuffer) (files_fit : channel.fds.length ≤ fileCount)
    (below : channel.barrierwrite < barrierSize) (unbroken : ∀ items ∈ extended, Unbroken items)
    (last : channel.barriercurrent + extended.length = channel.barrierwrite + 1)
    (counts : channel.Counts channel.barriercurrent extended) :
    Conversation.Aligned ⟨channel, conversation.sent ++ [message], conversation.received⟩ extended := by
  obtain ⟨parts, split, covers⟩ := aligned.covered
  obtain ⟨_, data_eq, files_eq⟩ := marked_unbroken message nonempty
  constructor
  case covered =>
    refine ⟨parts, ?_, covers⟩
    rw [flat, ← List.append_assoc, ← split]
    simp [stream]
  case ring => rw [ring, flat, dataOf_append, data_eq, aligned.ring]
  case fds => rw [fds, flat, filesOf_append, files_eq, aligned.fds]
  case unbroken => exact unbroken
  case fits => exact fits
  case files_fit => exact files_fit
  case below => exact below
  case numbers => exact .inr ⟨by simp, last, counts⟩

variable {sent : List Message} {received : List Receipt}

/-- A send that fits is recorded when its control data is taken. -/
theorem step_send {files : Option (List Nat)} {after : Channel} (nonempty : data ≠ []) (ready : buffers.Ready data.length)
    (fits : channel.ringbuffer.length + data.length ≤ socketBuffer)
    (controlled : { channel with ringbuffer := channel.ringbuffer ++ data }.sendctrl
      (files.map fun files => [Conversation.block files]) data.length = .ok (none, after)) :
    Conversation.step ⟨channel, sent, received⟩ (.send buffers data files) = .ok
      ⟨after, sent ++ [⟨data, files⟩], received⟩ := by
  have some_done : data.length ≠ 0 := List.length_eq_zero_iff.not.mpr nonempty
  simp only [Conversation.step, send_fits nonempty ready fits, controlled]
  simp only [bind, Except.bind, pure, Except.pure, List.take_length, if_neg some_done]

/-- A send without control data extends the last section, or opens the first one. -/
theorem Conversation.Aligned.send_plain (aligned : conversation.Aligned sections)
    (proper : conversation.Proper (.send buffers data none)) :
    ∃ next sections, conversation.step (.send buffers data none) = .ok next ∧ next.Aligned sections := by
  obtain ⟨nonempty, ready, fits, allowed⟩ := proper
  have unmarked : ∀ item ∈ (Message.mk data none).marked, item.2 = none := by
    rw [marked_plain]
    intro item member
    obtain ⟨byte, _, rfl⟩ := List.mem_map.mp member
    rfl
  have no_files := filesOf_unmarked unmarked
  have length : (Message.mk data none).marked.length = data.length := by rw [marked_plain, List.length_map]
  have ring := aligned.ring
  -- Before the first send, the first section is there and empty.
  obtain ⟨before, items, flat, write, counts, ⟨bytes, files⟩, old, joined⟩ : ∃ before items,
      sections.flatten = before.flatten ++ items ∧
      conversation.channel.barriercurrent + before.length = conversation.channel.barrierwrite ∧
      conversation.channel.Counts conversation.channel.barriercurrent before ∧
      conversation.channel.CountsAt conversation.channel.barrierwrite items ∧
      (∀ other ∈ before, Unbroken other) ∧ Unbroken (items ++ (Message.mk data none).marked) := by
    rcases aligned.numbers with untouched | numbered
    · have write := untouched.write
      refine ⟨[], [], by simp [untouched.none_open], by simp [untouched.current, write], by simp [Channel.Counts],
        ⟨?_, ?_⟩, by simp, (marked_unbroken ⟨data, none⟩ nonempty).1⟩
      · rw [write, untouched.bytes]
        rfl
      · rw [write, untouched.files]
        rfl
    · have some_open : sections ≠ [] := by
        intro none_open
        rw [none_open] at ring
        exact allowed.elim (fun unread => unread ring) numbered.sent
      obtain ⟨before, items, rfl⟩ := (List.eq_nil_or_concat' sections).resolve_left some_open
      obtain ⟨old, last_unbroken⟩ := List.forall_mem_append.mp aligned.unbroken
      have write : conversation.channel.barriercurrent + before.length = conversation.channel.barrierwrite := by
        simpa [← Nat.add_assoc] using numbered.last
      have last := numbered.counts before.length items List.getElem?_concat_length
      rw [write] at last
      exact ⟨before, items, by simp, write, numbered.counts.left, last, old,
        (last_unbroken items List.mem_cons_self).append unmarked⟩
  have items_fit : items.length + data.length ≤ socketBuffer := by
    rw [ring, flat, length_dataOf, List.length_append] at fits
    omega
  have whole : toInt ((items.length : Int) + data.length) = items.length + data.length :=
    toInt_small (by omega) (by omega)
  refine ⟨_, before ++ [items ++ (Message.mk data none).marked],
    step_send nonempty ready fits (checkIndex_then aligned.below _), ?_⟩
  refine aligned.extend nonempty (by simp [flat]) rfl (by simp) (by simpa using fits) aligned.files_fit aligned.below
    (List.forall_mem_append.mpr ⟨old, by simpa using joined⟩) (by simp [← write, Nat.add_assoc]) ?_
  refine .append (counts.congr fun slot _ _ => ⟨update_of_ne ?_ _ _, rfl⟩) ⟨?_, ?_⟩
  · show slot ≠ conversation.channel.barrierwrite
    omega
  · simp only [write, update_self]
    rw [bytes, whole, List.length_append, length]
    push_cast
    rfl
  · simp only [filesOf_append, no_files, List.append_nil, write]
    exact files

/-- A send with control data opens a section. -/
theorem Conversation.Aligned.send_files (aligned : conversation.Aligned sections)
    (proper : conversation.Proper (.send buffers data (some files))) :
    ∃ next sections, conversation.step (.send buffers data (some files)) = .ok next ∧ next.Aligned sections := by
  obtain ⟨nonempty, ready, fits, later, free, files_fit⟩ := proper
  have numbered : conversation.Numbered sections := aligned.numbers.resolve_left fun untouched => later untouched.sent
  have last := numbered.last
  obtain ⟨unbroken, data_eq, files_eq⟩ := marked_unbroken ⟨data, some files⟩ nonempty
  have length : (Message.mk data (some files)).marked.length = data.length := by
    rw [← length_dataOf, data_eq]
  have block := sendctrl_block { conversation.channel with ringbuffer := conversation.channel.ringbuffer ++ data } files
    data.length files_fit (show conversation.channel.barrierwrite ≠ _ by omega)
  rw [Nat.mod_eq_of_lt free, toInt_small (by omega) (by omega)] at block
  refine ⟨_, sections ++ [(Message.mk data (some files)).marked], step_send nonempty ready fits block, ?_⟩
  refine aligned.extend nonempty (by simp) rfl rfl (by simpa using fits) (by simpa using files_fit) free ?_ ?_ ?_
  · exact List.forall_mem_append.mpr ⟨aligned.unbroken, by simpa using unbroken⟩
  · simp only [List.length_append, List.length_singleton]
    omega
  · refine .append (numbered.counts.congr fun slot _ _ => ?_) ⟨?_, ?_⟩
    · exact ⟨update_of_ne (by omega) _ _, update_of_ne (by omega) _ _⟩
    · simp only [last, update_self, length]
    · simp only [last, update_self, files_eq, Option.getD_some]

/-- All files of a section are inserted when the table has room for them. -/
theorem insertFiles_all (files rest : List Nat) (room : files.length ≤ slots) :
    insertFiles files.length slots (files ++ rest) = .ok (files, rest) := by
  induction files generalizing slots with
  | nil => rfl
  | cons file files ih =>
    cases slots with
    | zero => simp at room
    | succ slots =>
      simp only [List.length_cons, List.cons_append, insertFiles, ih (Nat.le_of_succ_le_succ room)]
      rfl

/-- The files of the current section are taken, and these are left. -/
def Channel.without (channel : Channel) (rest : List Nat) : Channel :=
  { channel with fds := rest, filesremaining := update channel.filesremaining channel.barriercurrent 0 }

/-- With room for the files, all files of the current section are received and none is discarded. -/
theorem recvctrl_all {rest : List Nat} (current : channel.barriercurrent < barrierSize)
    (fds : channel.fds = files ++ rest) (remaining : channel.filesremaining channel.barriercurrent = files.length)
    (few : files.length ≤ fileCount) (room : Channel.sockctrlSize + 4 * fileCount ≤ ctrllen) (word : ctrllen < wordSize)
    (table : fileCount ≤ slots) : channel.recvctrl (some ctrllen) slots = .ok (files, false, channel.without rest) := by
  have capacity : fileCount ≤ subWord ctrllen Channel.sockctrlSize / 4 := by
    simp only [subWord, Channel.sockctrlSize, fileCount, wordSize] at room word ⊢
    omega
  have actual : min (min (subWord ctrllen Channel.sockctrlSize / 4) channel.fds.length) files.length =
      files.length := by
    apply Nat.min_eq_right
    apply Nat.le_min.mpr ⟨few.trans capacity, ?_⟩
    rw [fds, List.length_append]
    exact Nat.le_add_right _ _
  have taken : channel.takeFiles ctrllen slots = .ok (files, channel.without rest) := by
    have inserted : insertFiles files.length slots channel.fds = .ok (files, rest) := by
      rw [fds]
      exact insertFiles_all files rest (few.trans table)
    simp only [Channel.takeFiles, checkIndex_then current, remaining, actual]
    exact bind_ok.mpr ⟨_, inserted, by rw [Nat.sub_self]; rfl⟩
  have discarded : (channel.without rest).discard = .ok (false, channel.without rest) := by
    simp only [Channel.discard, Channel.without, checkIndex_then current, update_self, if_pos (Nat.zero_le _),
      List.drop_zero, update_idem]
    rfl
  exact bind_ok.mpr ⟨_, taken, bind_ok.mpr ⟨_, discarded, rfl⟩⟩

/-- A receive takes bytes from the current section only, and leaves it when it took all of them. -/
theorem stepBarrier_inside (channel : Channel) (recvcount : Nat) {length : Nat}
    (current : channel.barriercurrent < barrierSize)
    (bytes : channel.bytesremaining channel.barriercurrent = length) (positive : 0 < length)
    (fits : length ≤ socketBuffer) :
    channel.stepBarrier recvcount = .ok (min recvcount length, { channel with
      bytesremaining :=
        update channel.bytesremaining channel.barriercurrent ((length - min recvcount length : Nat) : Int)
      barriercurrent := if length ≤ recvcount then channel.barriercurrent + 1 else channel.barriercurrent }) := by
  have slot : channel.barriercurrent % barrierSize = channel.barriercurrent := Nat.mod_eq_of_lt current
  have some_bytes : (length : Int) ≠ 0 := by omega
  have smaller : min (recvcount : Int) length = (min recvcount length : Nat) := (Nat.cast_min recvcount length).symm
  have not_negative : ¬ ((min recvcount length : Nat) : Int) < 0 := by omega
  have left : toInt (length - (min recvcount length : Nat)) = (length - min recvcount length : Nat) := by
    rw [← Nat.cast_sub (Nat.min_le_right _ _)]
    exact toInt_small (by omega) (by omega)
  have none_left : ((length - min recvcount length : Nat) : Int) = 0 ↔ length ≤ recvcount := by omega
  simp only [Channel.stepBarrier, slot, bytes, if_pos some_bytes, checkIndex_then current, smaller, if_neg not_negative,
    left, none_left, Int.toNat_natCast]
  rfl

/-- A receive copies the bytes that it is due. -/
theorem Request.Straight.copies (straight : request.Straight channel)
    (fits : channel.ringbuffer.length ≤ socketBuffer) (positive : 0 < count) (asked : count ≤ request.count)
    (held : count ≤ channel.ringbuffer.length) :
    ∃ final, ((iovecIteratorPeekFromRing 0).faultingAt request.buffers.accessible).run request.buffers.fuel count
        request.buffers.iterator (channel.ringbuffer, []) = some final ∧
      final.side = (channel.ringbuffer, channel.ringbuffer.take count) ∧ final.done = count ∧ final.failed = false := by
  obtain ⟨⟨⟨room, small, stands, filled⟩, resident⟩, reach⟩ := straight
  have ready : request.buffers.iterator.Ready count := ⟨asked.trans room, small, stands, filled⟩
  refine ready.peek positive (asked.trans resident) held fits ?_ (by rw [Buffers.fuel]; omega)
  exact reach.imp (fun near => (Nat.le_min.mpr ⟨asked, held⟩).trans near)
    fun takes entry found => asked.trans (takes entry found)

/-- What a receive does that finds data and has room for all files. -/
theorem step_recv (aligned : Conversation.Aligned ⟨channel, sent, received⟩ (first :: rest))
    (counts : channel.Counts channel.barriercurrent (first :: rest)) (current : channel.barriercurrent < barrierSize)
    (ready : channel.waits request = false) (proper : Conversation.Proper ⟨channel, sent, received⟩ (.recv request)) :
    Conversation.step ⟨channel, sent, received⟩ (.recv request) = .ok ⟨{ channel with
          ringbuffer := channel.ringbuffer.drop (min request.count first.length)
          fds := filesOf rest.flatten
          filesremaining := update channel.filesremaining channel.barriercurrent 0
          bytesremaining := update channel.bytesremaining channel.barriercurrent
            ((first.length - min request.count first.length : Nat) : Int)
          barriercurrent := if first.length ≤ request.count then channel.barriercurrent + 1 else channel.barriercurrent },
        sent, received ++ [⟨dataOf (first.take (min request.count first.length)), filesOf first, false, none⟩]⟩ := by
  obtain ⟨taking, some_asked, straight, table, ctrllen, given, room, word⟩ := proper
  change request.Straight channel at straight
  have ring : channel.ringbuffer = dataOf first ++ dataOf rest.flatten := by
    have ring : channel.ringbuffer = dataOf (first :: rest).flatten := aligned.ring
    rw [ring, List.flatten_cons, dataOf_append]
  have fds : channel.fds = filesOf first ++ filesOf rest.flatten := by
    have fds : channel.fds = filesOf (first :: rest).flatten := aligned.fds
    rw [fds, List.flatten_cons, filesOf_append]
  have ring_length : channel.ringbuffer.length = first.length + (dataOf rest.flatten).length := by
    rw [ring, List.length_append, length_dataOf]
  have files_few : (filesOf first).length ≤ fileCount := by
    have files_fit : channel.fds.length ≤ fileCount := aligned.files_fit
    rw [fds, List.length_append] at files_fit
    exact Nat.le_of_add_right_le files_fit
  have first_fits : first.length ≤ socketBuffer := by
    have fits : channel.ringbuffer.length ≤ socketBuffer := aligned.fits
    rw [ring_length] at fits
    exact Nat.le_of_add_right_le fits
  have positive : 0 < first.length := List.length_pos_iff.mpr (aligned.unbroken first List.mem_cons_self).1
  obtain ⟨bytes, files⟩ := counts 0 first rfl
  have controlled := recvctrl_all current fds files files_few room word table
  have stepped := stepBarrier_inside (channel.without (filesOf rest.flatten))
    (min request.count channel.ringbuffer.length) current bytes positive first_fits
  have taken : min (min request.count channel.ringbuffer.length) first.length = min request.count first.length := by
    omega
  have whole : first.length ≤ min request.count channel.ringbuffer.length ↔ first.length ≤ request.count := by omega
  simp only [taken, whole] at stepped
  have data : channel.ringbuffer.take (min request.count first.length) =
      dataOf (first.take (min request.count first.length)) := by
    rw [ring, List.take_append_of_le_length (by rw [length_dataOf]; exact Nat.min_le_right _ _)]
    exact (List.map_take ..).symm
  obtain ⟨final, copied, side, done, calm⟩ :=
    straight.copies aligned.fits (show 0 < min request.count first.length by omega) (by omega) (by omega)
  have dropped : ringTruncate channel.ringbuffer (min request.count first.length) =
      channel.ringbuffer.drop (min request.count first.length) := by
    rw [ringTruncate, Nat.min_eq_right (by omega)]
  refine bind_ok.mpr ⟨(⟨dataOf (first.take (min request.count first.length)), filesOf first, false, none⟩, _), ?_, rfl⟩
  unfold Channel.localsockRecv
  rw [if_neg (by simpa using ready), given]
  refine bind_ok.mpr ⟨_, controlled, bind_ok.mpr ⟨_, stepped, ?_⟩⟩
  simp only [Channel.without, copied, calm, side, done, data, dropped, taking, Bool.false_eq_true, if_false, if_true]
  rfl

/-- The beginning of the current section is taken away. -/
theorem Conversation.Aligned.consume {left : List (List Marked)} (aligned : conversation.Aligned (first :: rest))
    (positive : 0 < count) (flat : left.flatten = first.drop count ++ rest.flatten)
    (ring : channel.ringbuffer = conversation.channel.ringbuffer.drop count) (fds : channel.fds = filesOf rest.flatten)
    (write : channel.barrierwrite = conversation.channel.barrierwrite) (within : count ≤ first.length)
    (unbroken : ∀ items ∈ left, Unbroken items) (sent : conversation.sent ≠ [])
    (last : channel.barriercurrent + left.length = channel.barrierwrite + 1)
    (counts : channel.Counts channel.barriercurrent left) :
    Conversation.Aligned ⟨channel, conversation.sent,
      conversation.received ++ [⟨dataOf (first.take count), filesOf first, false, none⟩]⟩ left := by
  have first_unbroken := aligned.unbroken first List.mem_cons_self
  obtain ⟨taken_unbroken, taken_files⟩ := first_unbroken.take positive
  have left_files := filesOf_unmarked (first_unbroken.drop positive)
  obtain ⟨parts, split, covers⟩ := aligned.covered
  have cover : Receipt.Covers ⟨dataOf (first.take count), filesOf first, false, none⟩ (first.take count) :=
    ⟨taken_unbroken, rfl, taken_files.symm, rfl, rfl⟩
  have old_ring := aligned.ring
  have old_fds := aligned.fds
  rw [List.flatten_cons] at old_ring old_fds split
  constructor
  case covered =>
    refine ⟨parts ++ [first.take count], ?_, List.rel_append covers (List.Forall₂.cons cover List.Forall₂.nil)⟩
    rw [split, flat, List.flatten_append, List.flatten_singleton, List.append_assoc,
      ← List.append_assoc (first.take count), List.take_append_drop]
  case ring =>
    rw [ring, old_ring, flat, dataOf_append, dataOf_append, List.drop_append_of_le_length (by simpa using within)]
    rw [dataOf, ← List.map_drop]
    rfl
  case fds => rw [fds, flat, filesOf_append, left_files, List.nil_append]
  case unbroken => exact unbroken
  case fits =>
    simp only [ring, List.length_drop]
    exact (Nat.sub_le _ _).trans aligned.fits
  case files_fit =>
    have files_fit := aligned.files_fit
    rw [old_fds, filesOf_append, List.length_append] at files_fit
    simp only [fds]
    exact (Nat.le_add_left _ _).trans files_fit
  case below =>
    simp only [write]
    exact aligned.below
  case numbers => exact .inr ⟨sent, last, counts⟩

/-- A receive covers the beginning of the current section. -/
theorem Conversation.Aligned.recv (aligned : conversation.Aligned sections)
    (ready : conversation.channel.waits request = false) (proper : conversation.Proper (.recv request)) :
    ∃ next sections, conversation.step (.recv request) = .ok next ∧ next.Aligned sections := by
  have unread : conversation.channel.ringbuffer ≠ [] := by
    intro empty
    simp [Channel.waits, empty] at ready
  have ring := aligned.ring
  obtain ⟨first, rest, rfl⟩ : ∃ first rest, sections = first :: rest := by
    apply List.exists_cons_of_ne_nil
    intro none_open
    rw [none_open] at ring
    exact unread ring
  have numbered : conversation.Numbered (first :: rest) :=
    aligned.numbers.resolve_left fun untouched => absurd untouched.none_open (List.cons_ne_nil _ _)
  have last := numbered.last
  have below := aligned.below
  rw [List.length_cons] at last
  have current : conversation.channel.barriercurrent < barrierSize := by omega
  have unbroken := aligned.unbroken first List.mem_cons_self
  have first_positive : 0 < first.length := List.length_pos_iff.mpr unbroken.1
  have positive := proper.2.1
  have taken_positive : 0 < min request.count first.length := by omega
  have ran := step_recv aligned numbered.counts current ready proper
  by_cases whole : first.length ≤ request.count
  · have all_taken : min request.count first.length = first.length := by omega
    rw [if_pos whole] at ran
    refine ⟨_, rest, ran, ?_⟩
    refine aligned.consume taken_positive (by simp [all_taken]) rfl rfl rfl (by omega)
      (fun items member => aligned.unbroken items (List.mem_cons_of_mem _ member)) numbered.sent ?_ ?_
    · simp only
      omega
    · exact numbered.counts.tail.congr fun slot above _ =>
        ⟨update_of_ne (Nat.ne_of_gt above) .., update_of_ne (Nat.ne_of_gt above) ..⟩
  · rw [if_neg whole] at ran
    have left_unmarked := unbroken.drop taken_positive
    refine ⟨_, first.drop (min request.count first.length) :: rest, ran, ?_⟩
    refine aligned.consume taken_positive (by simp) rfl rfl rfl (by omega) ?_ numbered.sent ?_ ?_
    · intro items member
      cases member with
      | head =>
        refine ⟨?_, fun item inside => left_unmarked item (List.mem_of_mem_tail inside)⟩
        rw [← List.length_pos_iff, List.length_drop]
        omega
      | tail _ inside => exact aligned.unbroken items (List.mem_cons_of_mem _ inside)
    · simp only [List.length_cons]
      omega
    · refine .cons ⟨?_, ?_⟩ (numbered.counts.tail.congr fun slot above _ =>
        ⟨update_of_ne (Nat.ne_of_gt above) .., update_of_ne (Nat.ne_of_gt above) ..⟩)
      · simp only [update_self, List.length_drop]
      · simp only [update_self, filesOf_unmarked left_unmarked, List.length_nil]

/-- A proper exchange happens unless it has to wait, and keeps the sections aligned. -/
theorem step_aligned (aligned : conversation.Aligned sections) {exchange : Exchange}
    (proper : conversation.Proper exchange)
    (ready : ∀ request, exchange = .recv request → conversation.channel.waits request = false) :
    ∃ next sections, conversation.step exchange = .ok next ∧ next.Aligned sections := by
  cases exchange with
  | send buffers data files =>
    cases files with
    | none => exact aligned.send_plain proper
    | some files => exact aligned.send_files proper
  | recv request => exact aligned.recv (ready request rfl) proper

theorem waits_blocked (waits : conversation.channel.waits request = true) :
    conversation.step (.recv request) = .error .blocked := by
  simp only [Conversation.step, Channel.localsockRecv, if_pos waits]
  rfl

/-- In proper exchanges the files of a send arrive with its first byte, all of them, once and in order. -/
theorem descriptors_delivered {conversation : Conversation}
    (reached : Reaches Conversation.step Conversation.Proper Conversation.fresh conversation) : conversation.Delivers ∧
      ∀ exchange, conversation.Proper exchange →
        (∀ request, exchange = .recv request → conversation.channel.waits request = false) →
        ∃ next, conversation.step exchange = .ok next := by
  obtain ⟨sections, aligned⟩ : ∃ sections, conversation.Aligned sections := by
    apply reached.keeps (fun conversation => ∃ sections, conversation.Aligned sections)
    · intro state exchange next ⟨sections, aligned⟩ proper moved
      have ready : ∀ request, exchange = .recv request → state.channel.waits request = false := by
        intro request is_recv
        by_contra waits
        rw [is_recv, waits_blocked (by simpa using waits)] at moved
        cases moved
      obtain ⟨reached_next, next_sections, ran, next_aligned⟩ := step_aligned aligned proper ready
      rw [ran] at moved
      cases moved
      exact ⟨next_sections, next_aligned⟩
    · exact ⟨[], fresh_aligned⟩
  refine ⟨aligned.delivers, ?_⟩
  intro exchange proper ready
  obtain ⟨next, _, ran, _⟩ := step_aligned aligned proper ready
  exact ⟨next, ran⟩

/-- Two entries, of which the first takes one byte. -/
def entries (accessible : Nat) : Buffers := ⟨iovecIteratorInit [⟨0x1000, 1⟩, ⟨0x3000, 15⟩], accessible⟩

theorem entries_ready (few : count ≤ 16) : (entries 16).Ready count := by
  refine ⟨⟨few, by decide, ⟨[], ⟨0x1000, 1⟩, [⟨0x3000, 15⟩], ?_, by decide⟩, by decide⟩, few⟩
  constructor <;> decide

/-- A receive with room for sixteen files. -/
def roomy (accessible : Nat) : Request := ⟨false, false, 16, some 80, 16, entries accessible⟩

/-- The conversation after a first byte. -/
def greeted : Conversation :=
  ⟨{ Channel.fresh with
      ringbuffer := [1]
      bytesremaining := update Channel.fresh.bytesremaining 0 (toInt 1) }, [⟨[1], none⟩], []⟩

/-- A file that is sent after a first byte is delivered. -/
theorem second_send_delivered : ∃ conversation next,
      [Exchange.send (entries 16) [1] none, .send (entries 16) [2, 3] (some [7])].foldlM Conversation.step
        Conversation.fresh = .ok conversation ∧
      conversation.Delivers ∧ conversation.step (.recv (roomy 16)) = .ok next ∧ next.Delivers := by
  have begins : Reaches Conversation.step Conversation.Proper Conversation.fresh Conversation.fresh := .refl
  have ready : ∀ count ≤ 16, (entries 16).Ready count := fun _ => entries_ready
  have first : Conversation.fresh.step (.send (entries 16) [1] none) = .ok greeted :=
    step_send (by decide) (ready 1 (by decide)) (by decide) rfl
  have once := begins.next (show Conversation.Proper _ (.send (entries 16) [1] none) from
    ⟨by decide, ready 1 (by decide), by decide, .inr rfl⟩) first
  have second : greeted.step (.send (entries 16) [2, 3] (some [7])) = .ok _ :=
    step_send (by decide) (ready 2 (by decide)) (by decide) (sendctrl_block _ [7] 2 (by decide) (by decide))
  have twice := once.next (show greeted.Proper (.send (entries 16) [2, 3] (some [7])) from
    ⟨by decide, ready 2 (by decide), by decide, by decide, by decide, by decide⟩) second
  obtain ⟨delivers, goes_on⟩ := descriptors_delivered twice
  have proper : ∀ conversation : Conversation, conversation.channel.ringbuffer = [1, 2, 3] →
      conversation.Proper (.recv (roomy 16)) := fun _ ring =>
    ⟨rfl, by decide, ⟨ready 16 (by decide), .inl (by rw [ring]; decide)⟩, by decide, 80, rfl, by decide, by decide⟩
  obtain ⟨next, received⟩ := goes_on (.recv (roomy 16)) (proper _ rfl) (fun request same => by cases same; decide)
  refine ⟨_, next, ?_, delivers, received, (descriptors_delivered (twice.next (proper _ rfl) received)).1⟩
  simp only [List.foldlM_cons, List.foldlM_nil, first, second, bind, Except.bind, pure, Except.pure]

/-- A file that is sent first stays in the buffer when the data is received. Behind a first byte, a receive that meets a
fault hands out the file without the data. An empty entry ends in an assertion. -/
theorem first_files_stay_behind : (∃ conversation,
      [Exchange.send (entries 16) [5] (some [7]), .recv (roomy 16)].foldlM Conversation.step Conversation.fresh =
        .ok conversation ∧
      conversation.received = [⟨[5], [], false, none⟩] ∧ conversation.channel.fds = [7] ∧ ¬ conversation.Delivers) ∧
    Conversation.received <$> [Exchange.send (entries 16) [1] none, .send (entries 16) [5] (some [7]),
      .recv (roomy 16), .recv (roomy 0)].foldlM Conversation.step Conversation.fresh =
        .ok [⟨[1], [], false, none⟩, ⟨[], [7], false, some .epipe⟩] ∧
    Conversation.fresh.step (.send ⟨iovecIteratorInit [⟨0x1000, 0⟩, ⟨0x3000, 1⟩], 1⟩ [1] none) = .error .assertion := by
  refine ⟨?_, by decide +kernel, rfl⟩
  have evaluated : (fun conversation : Conversation =>
      (conversation.sent, conversation.received, conversation.channel.fds)) <$>
        [Exchange.send (entries 16) [5] (some [7]), .recv (roomy 16)].foldlM Conversation.step Conversation.fresh =
      .ok ([⟨[5], some [7]⟩], [⟨[5], [], false, none⟩], [7]) := by
    decide +kernel
  obtain ⟨conversation, ran, result⟩ := map_ok.mp evaluated
  simp only [Prod.mk.injEq] at result
  obtain ⟨sent, received, fds⟩ := result
  refine ⟨conversation, ran, received, fds, ?_⟩
  rintro ⟨parts, pending, split, covers, _, _⟩
  rw [received] at covers
  cases covers with
  | cons cover none_left =>
    rename_i items parts
    cases none_left
    have one : stream [Message.mk [5] (some [7])] = [(5, some [7])] := rfl
    rw [sent, one, List.flatten_singleton] at split
    have nonempty := cover.unbroken.1
    cases items with
    | nil => exact nonempty rfl
    | cons item rest =>
      simp only [List.cons_append, List.cons.injEq] at split
      have files := cover.files
      rw [← split.1] at files
      simp [filesOf] at files

end Astral.Localsocket

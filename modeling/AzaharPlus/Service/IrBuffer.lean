import AzaharPlus.Lib.BlockMemory
import AzaharPlus.Lib.RingQueue

/-!
# The receive buffer of the infrared service

`BufferManager` of `ir_user.cpp` keeps packets in memory that it shares with the application: a ring
of entries, each with the offset and the size of a packet, and behind it a ring of bytes.  Where the
next packet goes is read from the last entry of the table, and where the free bytes end from the
first.

* `Holds.put`, `Holds.release` — what the buffer holds after a packet is put, and after packets are
  released;
* `received_run` — an application that reads the buffer finds exactly the packets that are put and
  not released.

The shared memory is one block, as `GetPointer` takes it to be.
-/

namespace AzaharPlus.Service.Ir

open Bytes BlockMemory RingQueue

/-! ## The manager -/

/-- `BufferInfo` -/
structure BufferInfo where
  beginIndex : Nat
  endIndex : Nat
  packetCount : Nat
  unknown : Nat

/-- The bytes of a `BufferInfo`. -/
def BufferInfo.bytes (info : BufferInfo) : List UInt8 :=
  leBytes 4 info.beginIndex ++ leBytes 4 info.endIndex ++ leBytes 4 info.packetCount ++
    leBytes 4 info.unknown

/-- `PacketInfo` -/
structure PacketInfo where
  offset : Nat
  size : Nat

/-- What stays the same in a `BufferManager`. -/
structure BufferManager where
  infoOffset : Nat
  bufferOffset : Nat
  maxPacketCount : Nat
  maxDataSize : Nat

/-- What changes: the manager's own info, and the shared memory. -/
structure State where
  info : BufferInfo
  memory : Memory

namespace BufferManager

/-- The constructor's fields; the size of the data is cut to 32 bits. -/
def new (infoOffset bufferOffset maxPacketCount bufferSize : Nat) : BufferManager where
  infoOffset := infoOffset
  bufferOffset := bufferOffset
  maxPacketCount := maxPacketCount
  maxDataSize := (bufferSize + 2 ^ 64 - 8 * maxPacketCount) % 2 ^ 64 % 2 ^ 32

variable (m : BufferManager)

/-- `GetPacketInfoPointer`; `GetPointer` takes an offset of 32 bits. -/
def packetInfoPointer (index : Nat) : Nat := (m.bufferOffset + 8 * index) % 2 ^ 32

/-- `SetPacketInfo` -/
def setPacketInfo (mem : Memory) (index : Nat) (e : PacketInfo) : Memory :=
  writeBlock mem (m.packetInfoPointer index) (leBytes 4 e.offset ++ leBytes 4 e.size) 8

/-- `GetPacketInfo` -/
def getPacketInfo (mem : Memory) (index : Nat) : PacketInfo where
  offset := leValue (readBlock mem (m.packetInfoPointer index) 4)
  size := leValue (readBlock mem (m.packetInfoPointer index + 4) 4)

/-- `GetDataBufferPointer` -/
def dataBufferPointer (offset : Nat) : Nat :=
  (m.bufferOffset + 8 * m.maxPacketCount + offset) % 2 ^ 32

/-- `UpdateBufferInfo` -/
def updateBufferInfo (s : State) : State :=
  if m.infoOffset = 0 then s
  else { s with memory := writeBlock s.memory m.infoOffset s.info.bytes 16 }

/-- The constructor, on a shared memory with any bytes. -/
def init (mem : Memory) : State := m.updateBufferInfo { info := ⟨0, 0, 0, 0⟩, memory := mem }

/-- The loop that writes the packet's data, from an offset that is taken around the ring. -/
def writePacketData (mem : Memory) : Nat → List UInt8 → Memory
  | _, [] => mem
  | o, b :: bs =>
      writePacketData (Function.update mem (m.dataBufferPointer (o % m.maxDataSize)) b) (o + 1) bs

/-- Where `Put` writes a packet, if it has room for it. -/
def writeOffset (s : State) (size : Nat) : Option Nat :=
  if s.info.packetCount = 0 then
    if m.maxDataSize < size then none else some 0
  else
    let lastIndex := (s.info.endIndex + m.maxPacketCount - 1) % 2 ^ 32 % m.maxPacketCount
    let first := m.getPacketInfo s.memory s.info.beginIndex
    let last := m.getPacketInfo s.memory lastIndex
    let offset := (last.offset + last.size) % 2 ^ 32 % m.maxDataSize
    let freeSpace := (first.offset + m.maxDataSize + 2 ^ 32 - offset) % 2 ^ 32 % m.maxDataSize
    if freeSpace < size then none else some offset

/-- `Put` -/
def put (s : State) (packet : List UInt8) : Bool × State :=
  if s.info.packetCount = m.maxPacketCount then (false, s)
  else
    match m.writeOffset s packet.length with
    | none => (false, s)
    | some offset =>
        (true, m.updateBufferInfo
          { info :=
              { s.info with
                endIndex := (s.info.endIndex + 1) % 2 ^ 32 % m.maxPacketCount
                packetCount := (s.info.packetCount + 1) % 2 ^ 32 }
            memory := m.writePacketData
              (m.setPacketInfo s.memory s.info.endIndex ⟨offset, packet.length % 2 ^ 32⟩) offset
              packet })

/-- `Release` -/
def release (s : State) (count : Nat) : Bool × State :=
  if s.info.packetCount < count then (false, s)
  else
    (true, m.updateBufferInfo
      { s with
        info :=
          { s.info with
            packetCount := s.info.packetCount - count
            beginIndex := (s.info.beginIndex + count) % 2 ^ 32 % m.maxPacketCount } })

/-! ## What an application reads -/

/-- The info in the shared memory. -/
def sharedInfo (mem : Memory) : BufferInfo where
  beginIndex := leValue (readBlock mem m.infoOffset 4)
  endIndex := leValue (readBlock mem (m.infoOffset + 4) 4)
  packetCount := leValue (readBlock mem (m.infoOffset + 8) 4)
  unknown := leValue (readBlock mem (m.infoOffset + 12) 4)

/-- A byte of the data ring. -/
def dataByte (mem : Memory) (offset : Nat) : UInt8 := mem (m.dataBufferPointer offset)

/-- The bytes of a packet, around the data ring. -/
def packetAt (mem : Memory) (e : PacketInfo) : List UInt8 :=
  contents m.maxDataSize (m.dataByte mem) e.offset e.size

/-- The packets of the table, from the given info. -/
def received (mem : Memory) (info : BufferInfo) : List (List UInt8) :=
  (contents m.maxPacketCount (m.getPacketInfo mem) info.beginIndex info.packetCount).map
    (m.packetAt mem)

/-! ## Where the parts lie -/

/-- The buffer lies in the shared memory, with room for entries and for data, apart from the info
block if there is one. -/
structure Laid : Prop where
  count_pos : 0 < m.maxPacketCount
  data_pos : 0 < m.maxDataSize
  data_lt : m.maxDataSize < 2 ^ 31
  inside : m.bufferOffset + 8 * m.maxPacketCount + m.maxDataSize ≤ 2 ^ 32
  apart : m.infoOffset = 0 ∨ m.infoOffset + 16 ≤ m.bufferOffset ∨
    m.bufferOffset + 8 * m.maxPacketCount + m.maxDataSize ≤ m.infoOffset

/-- The addresses of the buffer. -/
def area : Set Nat :=
  Set.Ico m.bufferOffset (m.bufferOffset + 8 * m.maxPacketCount + m.maxDataSize)

variable {m}

theorem packetInfoPointer_eq (h : m.Laid) {i : Nat} (hi : i < m.maxPacketCount) :
    m.packetInfoPointer i = m.bufferOffset + 8 * i := by
  have := h.inside
  have := h.data_pos
  exact Nat.mod_eq_of_lt (by omega)

theorem dataBufferPointer_eq (h : m.Laid) {k : Nat} (hk : k < m.maxDataSize) :
    m.dataBufferPointer k = m.bufferOffset + 8 * m.maxPacketCount + k := by
  have := h.inside
  exact Nat.mod_eq_of_lt (by omega)

/-- An entry depends on its eight bytes. -/
theorem getPacketInfo_congr {mem mem' : Memory} {i : Nat}
    (heq : Set.EqOn mem' mem (Set.Ico (m.packetInfoPointer i) (m.packetInfoPointer i + 8))) :
    m.getPacketInfo mem' i = m.getPacketInfo mem i := by
  unfold getPacketInfo
  rw [readBlock_congr (heq.mono (Set.Ico_subset_Ico_right (by omega))),
    readBlock_congr (heq.mono (Set.Ico_subset_Ico (by omega) (by omega)))]

/-- The table after an entry is set. -/
theorem getPacketInfo_setPacketInfo (h : m.Laid) (mem : Memory) {j : Nat}
    (hj : j < m.maxPacketCount) {e : PacketInfo} (ho : e.offset < 2 ^ 32) (hs : e.size < 2 ^ 32)
    {i : Nat} (hi : i < m.maxPacketCount) :
    m.getPacketInfo (m.setPacketInfo mem j e) i =
      Function.update (m.getPacketInfo mem) j e i := by
  by_cases hij : i = j
  · subst hij
    rw [Function.update_self]
    unfold getPacketInfo setPacketInfo
    have hlen : (leBytes 4 e.offset ++ leBytes 4 e.size).length = 8 := by simp
    have hfirst := readBlock_writeBlock_part mem (m.packetInfoPointer i) hlen
      (show 0 + 4 ≤ 8 by omega)
    have hsecond := readBlock_writeBlock_part mem (m.packetInfoPointer i) hlen
      (show 4 + 4 ≤ 8 by omega)
    rw [Nat.add_zero, List.drop_zero, List.take_left' (length_leBytes 4 _)] at hfirst
    rw [List.drop_left' (length_leBytes 4 _), List.take_of_length_le (by simp)] at hsecond
    rw [hfirst, hsecond, leValue_leBytes ho, leValue_leBytes hs]
  · rw [Function.update_of_ne hij]
    refine getPacketInfo_congr (eqOn_writeBlock fun a ha => ?_)
    rw [packetInfoPointer_eq h hi] at ha
    rw [packetInfoPointer_eq h hj]
    have := ha.1
    have := ha.2
    omega

theorem memory_writePacketData (h : m.Laid) (mem : Memory) (o : Nat) (packet : List UInt8) {a : Nat}
    (ha : a < m.bufferOffset + 8 * m.maxPacketCount ∨
      m.bufferOffset + 8 * m.maxPacketCount + m.maxDataSize ≤ a) :
    m.writePacketData mem o packet a = mem a := by
  induction packet generalizing mem o with
  | nil => rfl
  | cons b bs ih =>
    have hlt : o % m.maxDataSize < m.maxDataSize := Nat.mod_lt _ h.data_pos
    rw [writePacketData, ih, Function.update_of_ne]
    rw [dataBufferPointer_eq h hlt]
    omega

/-- The data ring after the bytes of a packet are written behind those that are there. -/
theorem contents_writePacketData (h : m.Laid) (mem : Memory) (start count o : Nat)
    (packet : List UInt8) (ho : o % m.maxDataSize = (start + count) % m.maxDataSize)
    (hroom : count + packet.length ≤ m.maxDataSize) :
    contents m.maxDataSize (m.dataByte (m.writePacketData mem o packet)) start
        (count + packet.length) =
      contents m.maxDataSize (m.dataByte mem) start count ++ packet := by
  induction packet generalizing mem count o with
  | nil => simp [writePacketData]
  | cons b bs ih =>
    rw [List.length_cons] at hroom
    have hlt : o % m.maxDataSize < m.maxDataSize := Nat.mod_lt _ h.data_pos
    have hbyte : ∀ k < m.maxDataSize,
        m.dataByte (Function.update mem (m.dataBufferPointer (o % m.maxDataSize)) b) k =
          Function.update (m.dataByte mem) ((start + count) % m.maxDataSize) b k := by
      intro k hk
      unfold dataByte
      rw [← ho, dataBufferPointer_eq h hk, dataBufferPointer_eq h hlt]
      by_cases hko : k = o % m.maxDataSize
      · rw [hko, Function.update_self, Function.update_self]
      · rw [Function.update_of_ne (by omega), Function.update_of_ne hko,
          dataBufferPointer_eq h hk]
    have hnext : (o + 1) % m.maxDataSize = (start + (count + 1)) % m.maxDataSize := by
      rw [Nat.add_mod, ho, ← Nat.add_mod, Nat.add_assoc]
    rw [writePacketData, List.length_cons, Nat.add_comm bs.length 1, ← Nat.add_assoc,
      ih _ (count + 1) (o + 1) hnext (by omega), contents_congr h.data_pos hbyte,
      contents_push _ _ (by omega), List.append_assoc]
    rfl

/-! ## The info block -/

theorem updateBufferInfo_info (s : State) : (m.updateBufferInfo s).info = s.info := by
  unfold updateBufferInfo
  split
  · rfl
  · rfl

/-- The info block lies apart from the buffer. -/
theorem memory_updateBufferInfo (h : m.Laid) (s : State) :
    Set.EqOn (m.updateBufferInfo s).memory s.memory m.area := by
  intro a ha
  unfold updateBufferInfo
  by_cases hinfo : m.infoOffset = 0
  · rw [if_pos hinfo]
  · rw [if_neg hinfo]
    refine eqOn_writeBlock (A := m.area) (fun b hb => ?_) ha
    have := hb.1
    have := hb.2
    rcases h.apart with hzero | hbefore | hbehind
    · exact absurd hzero hinfo
    · omega
    · omega

/-- The application finds the manager's info. -/
theorem sharedInfo_updateBufferInfo (s : State) (hbegin : s.info.beginIndex < 2 ^ 32)
    (hend : s.info.endIndex < 2 ^ 32) (hcount : s.info.packetCount < 2 ^ 32)
    (hunknown : s.info.unknown < 2 ^ 32) (hinfo : m.infoOffset ≠ 0) :
    m.sharedInfo (m.updateBufferInfo s).memory = s.info := by
  have hlen : s.info.bytes.length = 16 := by simp [BufferInfo.bytes]
  have hpart : ∀ k, k + 4 ≤ 16 →
      readBlock (writeBlock s.memory m.infoOffset s.info.bytes 16) (m.infoOffset + k) 4 =
        (s.info.bytes.drop k).take 4 :=
    fun k hk => readBlock_writeBlock_part _ _ hlen hk
  have h₀ : (s.info.bytes.drop 0).take 4 = leBytes 4 s.info.beginIndex := by
    rw [BufferInfo.bytes, List.drop_zero, List.append_assoc, List.append_assoc,
      List.take_left' (length_leBytes 4 _)]
  have h₄ : (s.info.bytes.drop 4).take 4 = leBytes 4 s.info.endIndex := by
    rw [BufferInfo.bytes, List.append_assoc, List.append_assoc,
      List.drop_left' (length_leBytes 4 _), List.take_left' (length_leBytes 4 _)]
  have h₈ : (s.info.bytes.drop 8).take 4 = leBytes 4 s.info.packetCount := by
    rw [BufferInfo.bytes, List.append_assoc, List.drop_left' (by simp),
      List.take_left' (length_leBytes 4 _)]
  have h₁₂ : (s.info.bytes.drop 12).take 4 = leBytes 4 s.info.unknown := by
    rw [BufferInfo.bytes, List.drop_left' (by simp), List.take_of_length_le (by simp)]
  have hmem : (m.updateBufferInfo s).memory =
      writeBlock s.memory m.infoOffset s.info.bytes 16 := by
    rw [updateBufferInfo, if_neg hinfo]
  have hfirst := hpart 0 (by omega)
  rw [Nat.add_zero] at hfirst
  unfold sharedInfo
  rw [hmem, hfirst, hpart 4 (by omega), hpart 8 (by omega), hpart 12 (by omega), h₀, h₄, h₈, h₁₂,
    leValue_leBytes hbegin, leValue_leBytes hend, leValue_leBytes hcount,
    leValue_leBytes hunknown]

/-! ## What the buffer holds -/

variable (m) in
/-- The entries of packets that lie one behind the other. -/
def entries : Nat → List (List UInt8) → List PacketInfo
  | _, [] => []
  | start, p :: ps => ⟨start % m.maxDataSize, p.length⟩ :: entries (start + p.length) ps

theorem length_entries (start : Nat) (ps : List (List UInt8)) :
    (m.entries start ps).length = ps.length := by
  induction ps generalizing start with
  | nil => rfl
  | cons p ps ih => simp [entries, ih]

theorem entries_append (start : Nat) (ps qs : List (List UInt8)) :
    m.entries start (ps ++ qs) = m.entries start ps ++ m.entries (start + ps.flatten.length) qs := by
  induction ps generalizing start with
  | nil => rfl
  | cons p ps ih =>
    rw [List.cons_append, entries, ih, entries, List.cons_append, List.flatten_cons,
      List.length_append, Nat.add_assoc]

/-- The manager's state for the packets that are put and not released, the oldest one first. -/
structure Queued (m : BufferManager) (s : State) (ps : List (List UInt8)) : Prop where
  count : s.info.packetCount = ps.length
  count_le : ps.length ≤ m.maxPacketCount
  begin_lt : s.info.beginIndex < m.maxPacketCount
  end_eq : s.info.endIndex = (s.info.beginIndex + ps.length) % m.maxPacketCount
  unknown : s.info.unknown = 0
  nonempty : ∀ p ∈ ps, p ≠ []
  size_le : ps.flatten.length ≤ m.maxDataSize
  placed : ∃ start,
    contents m.maxPacketCount (m.getPacketInfo s.memory) s.info.beginIndex ps.length =
        m.entries start ps ∧
      contents m.maxDataSize (m.dataByte s.memory) start ps.flatten.length = ps.flatten

/-- The same, with the info in the shared memory too. -/
structure Holds (m : BufferManager) (s : State) (ps : List (List UInt8)) : Prop
    extends m.Queued s ps where
  shared : m.infoOffset = 0 ∨ m.sharedInfo s.memory = s.info

/-- The bytes that the entries point to. -/
theorem map_packetAt_entries (mem : Memory) (start : Nat) (ps : List (List UInt8))
    (hdata : contents m.maxDataSize (m.dataByte mem) start ps.flatten.length = ps.flatten) :
    (m.entries start ps).map (m.packetAt mem) = ps := by
  induction ps generalizing start with
  | nil => rfl
  | cons p ps ih =>
    rw [List.flatten_cons, List.length_append, contents_add] at hdata
    obtain ⟨hp, hps⟩ := List.append_inj hdata (length_contents _ _ _ _)
    rw [entries, List.map_cons, ih _ hps, packetAt, contents_mod, hp]

/-- **An application that follows the table finds the packets.** -/
theorem Holds.received_eq {s : State} {ps : List (List UInt8)} (h : m.Holds s ps) :
    m.received s.memory s.info = ps := by
  obtain ⟨start, hentries, hdata⟩ := h.placed
  rw [received, h.count, hentries, map_packetAt_entries _ _ _ hdata]

/-! ## The operations -/

/-- What the buffer holds, read from memory that is the same in the buffer's area. -/
theorem placed_of_area (h : m.Laid) {mem mem' : Memory} (heq : Set.EqOn mem' mem m.area)
    (index n start k : Nat) :
    contents m.maxPacketCount (m.getPacketInfo mem') index n =
        contents m.maxPacketCount (m.getPacketInfo mem) index n ∧
      contents m.maxDataSize (m.dataByte mem') start k =
        contents m.maxDataSize (m.dataByte mem) start k := by
  constructor
  · refine contents_congr h.count_pos (fun i hi => getPacketInfo_congr (heq.mono ?_)) _ _
    rw [packetInfoPointer_eq h hi]
    exact Set.Ico_subset_Ico (by omega) (by omega)
  · refine contents_congr h.data_pos (fun j hj => heq ?_) _ _
    rw [dataBufferPointer_eq h hj]
    exact ⟨by omega, by omega⟩

theorem count_lt (h : m.Laid) : m.maxPacketCount < 2 ^ 32 := by
  have := h.inside
  have := h.data_pos
  omega

/-- The info is written behind every operation. -/
theorem Queued.update {s : State} {ps : List (List UInt8)} (hm : m.Laid) (h : m.Queued s ps) :
    m.Holds (m.updateBufferInfo s) ps := by
  have hcount := count_lt hm
  have hend : s.info.endIndex < m.maxPacketCount := by
    rw [h.end_eq]
    exact Nat.mod_lt _ hm.count_pos
  have hbegin := h.begin_lt
  have hle := h.count_le
  have hinfo := updateBufferInfo_info (m := m) s
  obtain ⟨start, hentries, hdata⟩ := h.placed
  obtain ⟨htable, hbytes⟩ := placed_of_area hm (memory_updateBufferInfo hm s) s.info.beginIndex
    ps.length start ps.flatten.length
  refine ⟨⟨hinfo ▸ h.count, hle, hinfo ▸ hbegin, hinfo ▸ h.end_eq, hinfo ▸ h.unknown, h.nonempty,
    h.size_le, start, by rw [hinfo, htable, hentries], by rw [hbytes, hdata]⟩, ?_⟩
  by_cases hzero : m.infoOffset = 0
  · exact Or.inl hzero
  · rw [hinfo]
    exact Or.inr (sharedInfo_updateBufferInfo s (by omega) (by omega)
      (by rw [h.count]; omega) (by rw [h.unknown]; decide) hzero)

/-- A new buffer holds nothing. -/
theorem holds_init (hm : m.Laid) (mem : Memory) : m.Holds (m.init mem) [] :=
  Queued.update hm ⟨rfl, Nat.zero_le _, hm.count_pos, (Nat.zero_mod _).symm, rfl, nofun,
    Nat.zero_le _, 0, rfl, rfl⟩

/-- The entry before the end of the queue. -/
theorem last_index {size x : Nat} (hsize : 0 < size) (hlt : size < 2 ^ 31) :
    ((x + 1) % size + size - 1) % 2 ^ 32 % size = x % size := by
  have hmod : (x + 1) % size < size := Nat.mod_lt _ hsize
  rw [Nat.mod_eq_of_lt (show (x + 1) % size + size - 1 < 2 ^ 32 by omega),
    Nat.add_sub_assoc hsize, Nat.mod_add_mod, Nat.add_assoc, Nat.add_sub_cancel' hsize,
    Nat.add_mod_right]

/-- The free bytes between the end of the last packet and the first one. -/
theorem free_space {size start total : Nat} (hpos : 0 < total) (hle : total ≤ size)
    (hlt : size < 2 ^ 31) :
    (start % size + size + 2 ^ 32 - (start + total) % size) % 2 ^ 32 % size = size - total := by
  have hsize : 0 < size := by omega
  have ha : start % size < size := Nat.mod_lt _ hsize
  have hw : (start + total) % size < size := Nat.mod_lt _ hsize
  have hsum : (start + total) % size = (start % size + total) % size := by rw [Nat.mod_add_mod]
  rw [show start % size + size + 2 ^ 32 - (start + total) % size =
      2 ^ 32 + (start % size + size - (start + total) % size) by omega, Nat.add_mod_left,
    Nat.mod_eq_of_lt (show start % size + size - (start + total) % size < 2 ^ 32 by omega), hsum]
  by_cases hwrap : start % size + total < size
  · rw [Nat.mod_eq_of_lt hwrap, show start % size + size - (start % size + total) = size - total by
      omega, Nat.mod_eq_of_lt (by omega)]
  · rw [Nat.mod_eq_sub_mod (Nat.not_lt.1 hwrap), Nat.mod_eq_of_lt (show start % size + total - size <
      size by omega)]
    by_cases hfull : total = size
    · rw [hfull, show start % size + size - (start % size + size - size) = size by omega,
        Nat.mod_self, Nat.sub_self]
    · rw [show start % size + size - (start % size + total - size) = size + (size - total) by omega,
        Nat.add_mod_left, Nat.mod_eq_of_lt (by omega)]

theorem getPacketInfo_first {s : State} {ps : List (List UInt8)} (h : m.Holds s ps) {start : Nat}
    (hentries : contents m.maxPacketCount (m.getPacketInfo s.memory) s.info.beginIndex ps.length =
      m.entries start ps) (hne : ps ≠ []) :
    (m.getPacketInfo s.memory s.info.beginIndex).offset = start % m.maxDataSize := by
  obtain ⟨p, rest, rfl⟩ := List.exists_cons_of_ne_nil hne
  rw [List.length_cons, contents_pop, entries, List.cons.injEq, Nat.mod_eq_of_lt h.begin_lt]
    at hentries
  rw [hentries.1]

theorem getPacketInfo_last (hm : m.Laid) {s : State} {ps : List (List UInt8)} (h : m.Holds s ps)
    {start : Nat}
    (hentries : contents m.maxPacketCount (m.getPacketInfo s.memory) s.info.beginIndex ps.length =
      m.entries start ps) (hne : ps ≠ []) :
    let last := m.getPacketInfo s.memory
      ((s.info.endIndex + m.maxPacketCount - 1) % 2 ^ 32 % m.maxPacketCount)
    (last.offset + last.size) % 2 ^ 32 % m.maxDataSize =
      (start + ps.flatten.length) % m.maxDataSize := by
  obtain ⟨rest, q, rfl⟩ : ∃ rest q, ps = rest ++ [q] :=
    ⟨ps.dropLast, ps.getLast hne, (List.dropLast_append_getLast hne).symm⟩
  have hcount := count_lt hm
  have hinside := hm.inside
  have hlen : (rest ++ [q]).length = rest.length + 1 := by simp
  have hindex : (s.info.endIndex + m.maxPacketCount - 1) % 2 ^ 32 % m.maxPacketCount =
      (s.info.beginIndex + rest.length) % m.maxPacketCount := by
    rw [h.end_eq, hlen, ← Nat.add_assoc]
    exact last_index hm.count_pos (by omega)
  rw [hlen, contents_add, entries_append] at hentries
  obtain ⟨-, hlast⟩ := List.append_inj hentries (by rw [length_contents, length_entries])
  rw [entries, contents_pop, List.cons.injEq] at hlast
  have hsize := h.size_le
  have hdata := hm.data_lt
  rw [List.flatten_append, List.length_append, List.flatten_singleton] at hsize ⊢
  have hlt : (start + rest.flatten.length) % m.maxDataSize < m.maxDataSize :=
    Nat.mod_lt _ hm.data_pos
  simp only [hindex, hlast.1]
  rw [Nat.mod_eq_of_lt (show (start + rest.flatten.length) % m.maxDataSize + q.length < 2 ^ 32 by
    omega), Nat.mod_add_mod, Nat.add_assoc]

/-- `Put` has room for a packet iff the data ring has that many free bytes, and writes it behind
the packets that are there. -/
theorem Holds.writeOffset {s : State} {ps : List (List UInt8)} (hm : m.Laid) (h : m.Holds s ps)
    (size : Nat) :
    (m.maxDataSize < ps.flatten.length + size → m.writeOffset s size = none) ∧
    (ps.flatten.length + size ≤ m.maxDataSize → ∃ start,
      contents m.maxPacketCount (m.getPacketInfo s.memory) s.info.beginIndex ps.length =
          m.entries start ps ∧
        contents m.maxDataSize (m.dataByte s.memory) start ps.flatten.length = ps.flatten ∧
        m.writeOffset s size = some ((start + ps.flatten.length) % m.maxDataSize)) := by
  by_cases hne : ps = []
  · subst hne
    have hzero : s.info.packetCount = 0 := h.count
    have hoffset : m.writeOffset s size = if m.maxDataSize < size then none else some 0 := by
      rw [BufferManager.writeOffset, if_pos hzero]
    rw [List.flatten_nil, List.length_nil, Nat.zero_add]
    refine ⟨fun hfull => ?_, fun hroom => ⟨0, rfl, rfl, ?_⟩⟩
    · rw [hoffset, if_pos hfull]
    · rw [hoffset, if_neg (Nat.not_lt.2 hroom), Nat.zero_mod]
  · have hpos : 0 < ps.flatten.length := by
      obtain ⟨p, rest, rfl⟩ := List.exists_cons_of_ne_nil hne
      have := List.length_pos_of_ne_nil (h.nonempty p List.mem_cons_self)
      rw [List.flatten_cons, List.length_append]
      omega
    have hzero : s.info.packetCount ≠ 0 := by
      rw [h.count]
      exact fun hlen => hne (List.length_eq_zero_iff.1 hlen)
    obtain ⟨start, hentries, hdata⟩ := h.placed
    have hoffset : m.writeOffset s size =
        if m.maxDataSize - ps.flatten.length < size then none
        else some ((start + ps.flatten.length) % m.maxDataSize) := by
      rw [BufferManager.writeOffset, if_neg hzero]
      simp only [getPacketInfo_first h hentries hne, getPacketInfo_last hm h hentries hne]
      rw [free_space hpos h.size_le hm.data_lt]
    have hsize := h.size_le
    refine ⟨fun hfull => ?_, fun hroom => ⟨start, hentries, hdata, ?_⟩⟩
    · rw [hoffset, if_pos (by omega)]
    · rw [hoffset, if_neg (by omega)]

/-- A packet that does not fit changes nothing. -/
theorem Holds.put_refused {s : State} {ps : List (List UInt8)} (hm : m.Laid) (h : m.Holds s ps)
    {packet : List UInt8}
    (hfull : ps.length = m.maxPacketCount ∨
      m.maxDataSize < ps.flatten.length + packet.length) :
    m.put s packet = (false, s) := by
  unfold BufferManager.put
  by_cases hcount : s.info.packetCount = m.maxPacketCount
  · rw [if_pos hcount]
  · have hdata := hfull.resolve_left fun hlen => hcount (h.count.trans hlen)
    rw [if_neg hcount, (h.writeOffset hm packet.length).1 hdata]

/-- The table and the data once a packet is written behind those that are there. -/
theorem placed_append (hm : m.Laid) {mem : Memory} {index count start : Nat}
    {ps : List (List UInt8)} {packet : List UInt8} (hcount : ps.length < m.maxPacketCount)
    (hfit : ps.flatten.length + packet.length ≤ m.maxDataSize)
    (hend : count = (index + ps.length) % m.maxPacketCount)
    (hentries : contents m.maxPacketCount (m.getPacketInfo mem) index ps.length =
      m.entries start ps)
    (hdata : contents m.maxDataSize (m.dataByte mem) start ps.flatten.length = ps.flatten) :
    contents m.maxPacketCount (m.getPacketInfo (m.writePacketData
        (m.setPacketInfo mem count
          ⟨(start + ps.flatten.length) % m.maxDataSize, packet.length % 2 ^ 32⟩)
        ((start + ps.flatten.length) % m.maxDataSize) packet)) index (ps ++ [packet]).length =
        m.entries start (ps ++ [packet]) ∧
      contents m.maxDataSize (m.dataByte (m.writePacketData
        (m.setPacketInfo mem count
          ⟨(start + ps.flatten.length) % m.maxDataSize, packet.length % 2 ^ 32⟩)
        ((start + ps.flatten.length) % m.maxDataSize) packet)) start
          (ps ++ [packet]).flatten.length =
        (ps ++ [packet]).flatten := by
  have hdataLt := hm.data_lt
  have hoffset : (start + ps.flatten.length) % m.maxDataSize < m.maxDataSize :=
    Nat.mod_lt _ hm.data_pos
  have hindex : count < m.maxPacketCount := by
    rw [hend]
    exact Nat.mod_lt _ hm.count_pos
  have hsize : packet.length % 2 ^ 32 = packet.length := Nat.mod_eq_of_lt (by omega)
  rw [hsize]
  constructor
  · have hslots : ∀ i < m.maxPacketCount, m.getPacketInfo (m.writePacketData
        (m.setPacketInfo mem count ⟨(start + ps.flatten.length) % m.maxDataSize, packet.length⟩)
        ((start + ps.flatten.length) % m.maxDataSize) packet) i =
        Function.update (m.getPacketInfo mem) ((index + ps.length) % m.maxPacketCount)
          ⟨(start + ps.flatten.length) % m.maxDataSize, packet.length⟩ i := by
      intro i hi
      have htable : m.getPacketInfo (m.writePacketData
          (m.setPacketInfo mem count ⟨(start + ps.flatten.length) % m.maxDataSize, packet.length⟩)
          ((start + ps.flatten.length) % m.maxDataSize) packet) i =
          m.getPacketInfo (m.setPacketInfo mem count
            ⟨(start + ps.flatten.length) % m.maxDataSize, packet.length⟩) i := by
        refine getPacketInfo_congr fun a ha => memory_writePacketData hm _ _ _ (Or.inl ?_)
        rw [packetInfoPointer_eq hm hi] at ha
        have := ha.2
        omega
      rw [htable, getPacketInfo_setPacketInfo hm mem hindex
        (show (start + ps.flatten.length) % m.maxDataSize < 2 ^ 32 by omega)
        (show packet.length < 2 ^ 32 by omega) hi, hend]
    rw [List.length_append, List.length_singleton, contents_congr hm.count_pos hslots,
      contents_push _ _ hcount, hentries, entries_append]
    rfl
  · have hbytes : ∀ k < m.maxDataSize, m.dataByte (m.setPacketInfo mem count
        ⟨(start + ps.flatten.length) % m.maxDataSize, packet.length⟩) k = m.dataByte mem k := by
      intro k hk
      refine eqOn_writeBlock (A := {m.dataBufferPointer k}) (fun a ha => Or.inr ?_) rfl
      rw [Set.mem_singleton_iff.1 ha, dataBufferPointer_eq hm hk, packetInfoPointer_eq hm hindex]
      omega
    rw [List.flatten_append, List.flatten_singleton, List.length_append,
      contents_writePacketData hm _ _ _ _ _ (Nat.mod_mod _ _) hfit,
      contents_congr hm.data_pos hbytes, hdata]

/-- **A packet that fits is put behind the others.** -/
theorem Holds.put {s : State} {ps : List (List UInt8)} (hm : m.Laid) (h : m.Holds s ps)
    {packet : List UInt8} (hne : packet ≠ []) (hcount : ps.length < m.maxPacketCount)
    (hfit : ps.flatten.length + packet.length ≤ m.maxDataSize) :
    (m.put s packet).1 = true ∧ m.Holds (m.put s packet).2 (ps ++ [packet]) := by
  obtain ⟨start, hentries, hdata, hoffset⟩ := (h.writeOffset hm packet.length).2 hfit
  have hlt := count_lt hm
  have hcountPos := hm.count_pos
  have hendLt : s.info.endIndex < m.maxPacketCount := by
    rw [h.end_eq]
    exact Nat.mod_lt _ hcountPos
  have hcountEq : (s.info.packetCount + 1) % 2 ^ 32 = (ps ++ [packet]).length := by
    rw [h.count, List.length_append, List.length_singleton]
    exact Nat.mod_eq_of_lt (by omega)
  have hendEq : (s.info.endIndex + 1) % 2 ^ 32 % m.maxPacketCount =
      (s.info.beginIndex + (ps ++ [packet]).length) % m.maxPacketCount := by
    rw [Nat.mod_eq_of_lt (show s.info.endIndex + 1 < 2 ^ 32 by omega), h.end_eq, Nat.mod_add_mod,
      List.length_append, List.length_singleton, Nat.add_assoc]
  have hput : m.put s packet = (true, m.updateBufferInfo
      { info :=
          { s.info with
            endIndex := (s.info.endIndex + 1) % 2 ^ 32 % m.maxPacketCount
            packetCount := (s.info.packetCount + 1) % 2 ^ 32 }
        memory := m.writePacketData (m.setPacketInfo s.memory s.info.endIndex
            ⟨(start + ps.flatten.length) % m.maxDataSize, packet.length % 2 ^ 32⟩)
          ((start + ps.flatten.length) % m.maxDataSize) packet }) := by
    rw [BufferManager.put, if_neg (by rw [h.count]; omega), hoffset]
  rw [hput]
  refine ⟨rfl, ?_⟩
  obtain ⟨hentries', hdata'⟩ := placed_append hm hcount hfit h.end_eq hentries hdata
  have hsize : (ps ++ [packet]).flatten.length = ps.flatten.length + packet.length := by
    rw [List.flatten_append, List.flatten_singleton, List.length_append]
  refine Queued.update hm ⟨hcountEq, ?_, h.begin_lt, hendEq, h.unknown, fun p hp => ?_, ?_, start,
    hentries', hdata'⟩
  · rw [List.length_append, List.length_singleton]
    exact hcount
  · rcases List.mem_append.1 hp with hp | hp
    · exact h.nonempty p hp
    · rwa [List.mem_singleton.1 hp]
  · rwa [hsize]

/-- **Packets are released from the front**, if there are as many. -/
theorem Holds.release {s : State} {ps : List (List UInt8)} (hm : m.Laid) (h : m.Holds s ps)
    {n : Nat} (hn : n ≤ ps.length) :
    (m.release s n).1 = true ∧ m.Holds (m.release s n).2 (ps.drop n) := by
  have hlt := count_lt hm
  have hcountLe := h.count_le
  have hbegin := h.begin_lt
  have hinside := hm.inside
  have hdataPos := hm.data_pos
  have hrelease : m.release s n = (true, m.updateBufferInfo
      { s with
        info :=
          { s.info with
            packetCount := s.info.packetCount - n
            beginIndex := (s.info.beginIndex + n) % 2 ^ 32 % m.maxPacketCount } }) := by
    rw [BufferManager.release, if_neg (by rw [h.count]; omega)]
  have hbeginEq : (s.info.beginIndex + n) % 2 ^ 32 % m.maxPacketCount =
      (s.info.beginIndex + n) % m.maxPacketCount := by
    rw [Nat.mod_eq_of_lt (show s.info.beginIndex + n < 2 ^ 32 by omega)]
  obtain ⟨start, hentries, hdata⟩ := h.placed
  obtain ⟨front, back, rfl, hfront⟩ : ∃ front back, ps = front ++ back ∧ front.length = n :=
    ⟨ps.take n, ps.drop n, (List.take_append_drop n ps).symm, List.length_take_of_le hn⟩
  rw [List.drop_left' hfront]
  rw [List.length_append, hfront, contents_add, entries_append] at hentries
  obtain ⟨-, hentries'⟩ := List.append_inj hentries
    (by rw [length_contents, length_entries, hfront])
  rw [List.flatten_append, List.length_append, contents_add] at hdata
  obtain ⟨-, hdata'⟩ := List.append_inj hdata (length_contents _ _ _ _)
  have hlen := h.count
  have hsize := h.size_le
  rw [List.length_append, hfront] at hlen
  rw [List.flatten_append, List.length_append] at hsize
  rw [hrelease]
  refine ⟨rfl, Queued.update hm ⟨?_, ?_, ?_, ?_, h.unknown, fun p hp => ?_, ?_,
    start + front.flatten.length, ?_, hdata'⟩⟩
  · show s.info.packetCount - n = back.length
    omega
  · rw [List.length_append] at hcountLe
    omega
  · show (s.info.beginIndex + n) % 2 ^ 32 % m.maxPacketCount < m.maxPacketCount
    exact Nat.mod_lt _ hm.count_pos
  · show s.info.endIndex =
      ((s.info.beginIndex + n) % 2 ^ 32 % m.maxPacketCount + back.length) % m.maxPacketCount
    rw [hbeginEq, Nat.mod_add_mod, h.end_eq, List.length_append, hfront, Nat.add_assoc]
  · exact h.nonempty p (List.mem_append_right front hp)
  · omega
  · show contents m.maxPacketCount (m.getPacketInfo s.memory)
      ((s.info.beginIndex + n) % 2 ^ 32 % m.maxPacketCount) back.length = _
    rw [hbeginEq, contents_mod, hentries']

/-! ## Runs -/

/-- A call; packets have at least a header and a checksum. -/
inductive Call where
  | put (packet : List UInt8) (nonempty : packet ≠ [])
  | release (count : Nat)

variable (m) in
/-- What a call answers, and the state behind it. -/
def call (s : State) : Call → Bool × State
  | .put packet _ => m.put s packet
  | .release count => m.release s count

/-- The packets that are put and not released, behind a call with this answer. -/
def outstanding (ps : List (List UInt8)) : Call → Bool → List (List UInt8)
  | .put packet _, true => ps ++ [packet]
  | .release count, true => ps.drop count
  | _, false => ps

variable (m) in
/-- A run, and the packets that are put and not released behind it. -/
def run : State → List (List UInt8) → List Call → State × List (List UInt8)
  | s, ps, [] => (s, ps)
  | s, ps, c :: cs => run (m.call s c).2 (outstanding ps c (m.call s c).1) cs

/-- The answer of a call, and what it leaves. -/
theorem Holds.call {s : State} {ps : List (List UInt8)} (hm : m.Laid) (h : m.Holds s ps) (c : Call) :
    m.Holds (m.call s c).2 (outstanding ps c (m.call s c).1) := by
  cases c with
  | put packet hne =>
    by_cases hfull : ps.length = m.maxPacketCount ∨
        m.maxDataSize < ps.flatten.length + packet.length
    · rw [BufferManager.call, h.put_refused hm hfull]
      exact h
    · rw [not_or, Nat.not_lt] at hfull
      obtain ⟨htrue, hholds⟩ :=
        h.put hm hne (Nat.lt_of_le_of_ne h.count_le hfull.1) hfull.2
      rw [BufferManager.call, htrue]
      exact hholds
  | release count =>
    by_cases hcount : ps.length < count
    · have hfalse : m.release s count = (false, s) := by
        rw [BufferManager.release, if_pos (by rwa [h.count])]
      rw [BufferManager.call, hfalse]
      exact h
    · obtain ⟨htrue, hholds⟩ := h.release hm (Nat.not_lt.1 hcount)
      rw [BufferManager.call, htrue]
      exact hholds

theorem Holds.run {s : State} {ps : List (List UInt8)} (hm : m.Laid) (h : m.Holds s ps)
    (calls : List Call) : m.Holds (m.run s ps calls).1 (m.run s ps calls).2 := by
  induction calls generalizing s ps with
  | nil => exact h
  | cons c cs ih => exact ih (h.call hm c)

theorem put_false {s : State} {packet : List UInt8} (h : (m.put s packet).1 = false) :
    (m.put s packet).2 = s := by
  by_cases hcount : s.info.packetCount = m.maxPacketCount
  · rw [BufferManager.put, if_pos hcount]
  · rw [BufferManager.put, if_neg hcount] at h ⊢
    cases hoffset : m.writeOffset s packet.length with
    | none => rfl
    | some offset =>
      rw [hoffset] at h
      cases h

theorem release_false {s : State} {n : Nat} (h : (m.release s n).1 = false) :
    (m.release s n).2 = s := by
  by_cases hcount : s.info.packetCount < n
  · rw [BufferManager.release, if_pos hcount]
  · rw [BufferManager.release, if_neg hcount] at h
    cases h

/-- A call that is refused changes nothing. -/
theorem call_false {s : State} {c : Call} (h : (m.call s c).1 = false) : (m.call s c).2 = s := by
  cases c with
  | put packet hne => exact put_false h
  | release count => exact release_false h

/-- **Behind any run of puts and releases** the application that follows the table, by the manager's
info and by the one in the shared memory, reads the packets that are put and not released; a call
that is refused changes nothing; and a put is refused iff the table is full or the packet is larger
than what the packets leave of the data ring. -/
theorem received_run {infoOffset bufferOffset maxPacketCount bufferSize : Nat}
    (hm : (new infoOffset bufferOffset maxPacketCount bufferSize).Laid) (mem : Memory)
    (calls : List Call) :
    let m := new infoOffset bufferOffset maxPacketCount bufferSize
    let s := (m.run (m.init mem) [] calls).1
    let ps := (m.run (m.init mem) [] calls).2
    m.received s.memory s.info = ps ∧
      (infoOffset = 0 ∨ m.received s.memory (m.sharedInfo s.memory) = ps) ∧
      (∀ c, (m.call s c).1 = false → (m.call s c).2 = s) ∧
      ∀ packet, packet ≠ [] → ((m.put s packet).1 = false ↔
        ps.length = maxPacketCount ∨ m.maxDataSize < ps.flatten.length + packet.length) := by
  intro m s ps
  have hholds : m.Holds s ps := (holds_init hm mem).run hm calls
  refine ⟨hholds.received_eq, ?_, fun c => call_false, fun packet hne => ⟨fun hfalse => ?_, fun h =>
    by rw [hholds.put_refused hm h]⟩⟩
  · rcases hholds.shared with hzero | hshared
    · exact Or.inl hzero
    · rw [hshared]
      exact Or.inr hholds.received_eq
  · by_contra hfull
    rw [not_or, Nat.not_lt] at hfull
    have htrue := (hholds.put hm hne (Nat.lt_of_le_of_ne hholds.count_le hfull.1) hfull.2).1
    rw [hfalse] at htrue
    cases htrue

/-- The buffer as `InitializeIrNopShared` lays it out, with two entries and five bytes of data: the
third packet goes around the end of the data. -/
theorem received_run_wraps :
    let m := new 0x10 0x20 2 21
    let calls := [Call.put [1, 2, 3] (by decide), .put [4, 5] (by decide), .release 1,
      .put [6, 7, 8] (by decide)]
    let s := (m.run (m.init fun _ => 0) [] calls).1
    m.received s.memory (m.sharedInfo s.memory) = [[4, 5], [6, 7, 8]] ∧
      (m.put s [9]).1 = false := by
  have hrun := received_run (show (new 0x10 0x20 2 21).Laid from
    ⟨by decide, by decide, by decide, by decide, Or.inr (Or.inl (by decide))⟩) (fun _ => 0)
    [Call.put [1, 2, 3] (by decide), .put [4, 5] (by decide), .release 1,
      .put [6, 7, 8] (by decide)]
  obtain ⟨-, hshared, -, hput⟩ := hrun
  refine ⟨(hshared.resolve_left (by decide)).trans (by decide +kernel), (hput [9] (by decide)).2 ?_⟩
  exact Or.inl (by decide +kernel)

end BufferManager

end AzaharPlus.Service.Ir

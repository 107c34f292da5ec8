import AzaharPlus.Lib.BlockMemory
import AzaharPlus.Lib.SlotArray

/-!
# The item pockets of the game

A pocket is an array of slots in guest memory, four bytes each: the item and how many of it.
When a battle starts the Poké Balls are moved from the main pocket to the table
`g_RemovedPokeBalls` of the emulator process, and at its end they are put back in front of
what the pocket holds then.

Main results:

* `removeEmptySlots_eq`: the two loops of `RemoveEmptySlots` keep the used slots in order;
* `readPocket_takeOut`, `no_ball_takeOut`: what is left in the pocket, and that it is no ball;
* `mem_held_takeOut`: every ball that was taken out is held, if no two compete for one entry;
* `readPocket_putBack`: the balls held stand in front of the slots that still fit.
-/

namespace AzaharPlus.Poke

open Bytes BlockMemory SlotArray

/-- `ItemEntry`: a slot of a pocket. -/
structure ItemEntry where
  id : UInt16
  qty : UInt16
deriving DecidableEq, Repr

/-- `ItemEntry{}`. -/
def ItemEntry.zero : ItemEntry := ⟨0, 0⟩

/-- `POCKET_START`. -/
def pocketStart : Nat := 0x8C6AC80

/-- `MEDICINE_POCKET_START`. -/
def medicinePocketStart : Nat := 0x8C6B5F0

/-- `SLOT_SIZE`. -/
def slotSize : Nat := 4

/-- `SLOT_COUNT`. -/
def slotCount : Nat := 305

/-- `MEDICINE_SLOT_COUNT`. -/
def medicineSlotCount : Nat := 54

/-! ## Slots as bytes -/

/-- Slot `i` of a buffer. -/
def parseSlot (buffer : List UInt8) (i : Nat) : ItemEntry :=
  ⟨readLE16 buffer (i * slotSize), readLE16 buffer (i * slotSize + 2)⟩

/-- The `n` slots of a buffer. -/
def parseSlots (buffer : List UInt8) (n : Nat) : List ItemEntry :=
  (List.range n).map (parseSlot buffer)

/-- The bytes of a slot. -/
def slotBytes (e : ItemEntry) : List UInt8 := [loByte e.id, hiByte e.id, loByte e.qty, hiByte e.qty]

/-- The `n` slots at an address. -/
def readSlots (mem : Memory) (addr n : Nat) : List ItemEntry :=
  parseSlots (readBlock mem addr (slotSize * n)) n

/-- The memory with `n` slots stored at an address. -/
def writeSlots (mem : Memory) (addr n : Nat) (slots : List ItemEntry) : Memory :=
  writeBlock mem addr (slots.flatMap slotBytes) (slotSize * n)

/-- The slots of the main pocket. -/
def readPocket (mem : Memory) : List ItemEntry := readSlots mem pocketStart slotCount

@[simp] theorem length_readSlots (mem : Memory) (addr n : Nat) : (readSlots mem addr n).length = n := by
  simp [readSlots, parseSlots]

@[simp] theorem length_readPocket (mem : Memory) : (readPocket mem).length = slotCount :=
  length_readSlots mem pocketStart slotCount

theorem length_slotBytes (e : ItemEntry) : (slotBytes e).length = slotSize := rfl

theorem parseSlot_flatMap (slots : List ItemEntry) {i : Nat} (hi : i < slots.length) :
    parseSlot (slots.flatMap slotBytes) i = slots[i] := by
  have hb : ∀ j < slotSize,
      byteAt (slots.flatMap slotBytes) (i * slotSize + j) = byteAt (slotBytes slots[i]) j :=
    fun j hj => byteAt_flatMap length_slotBytes slots hi hj
  have h₀ := hb 0 (by decide)
  have h₁ := hb 1 (by decide)
  have h₂ := hb 2 (by decide)
  have h₃ := hb 3 (by decide)
  rw [Nat.add_zero] at h₀
  unfold parseSlot
  rw [readLE16, readLE16, h₀, h₁, h₂, h₃]
  simp [slotBytes, byteAt]

/-- Behind the last slot of a buffer only empty slots are read. -/
theorem parseSlot_of_length_le {buffer : List UInt8} {i : Nat} (h : buffer.length ≤ i * slotSize) :
    parseSlot buffer i = ItemEntry.zero := by
  have hz : ∀ j, byteAt buffer (i * slotSize + j) = 0 := by
    intro j
    rw [byteAt, List.getD_eq_default _ _ (by omega)]
  have h₀ := hz 0
  rw [Nat.add_zero] at h₀
  unfold parseSlot
  rw [readLE16, readLE16, h₀, hz 1, hz 2, hz (2 + 1)]
  rfl

theorem parseSlots_flatMap (slots : List ItemEntry) {n : Nat} (h : slots.length ≤ n) :
    parseSlots (slots.flatMap slotBytes) n =
      slots ++ List.replicate (n - slots.length) ItemEntry.zero := by
  have hlen := length_flatMap_const length_slotBytes slots
  apply List.ext_getElem
  · simp [parseSlots, h]
  · intro i h₁ h₂
    simp only [parseSlots, List.getElem_map, List.getElem_range]
    by_cases hi : i < slots.length
    · rw [List.getElem_append_left hi]
      exact parseSlot_flatMap slots hi
    · rw [List.getElem_append_right (Nat.not_lt.1 hi), List.getElem_replicate]
      refine parseSlot_of_length_le ?_
      rw [hlen]
      exact Nat.mul_le_mul_right _ (Nat.not_lt.1 hi)

/-- Slots that are stored are read back. -/
theorem readSlots_writeSlots (mem : Memory) (addr : Nat) {n : Nat} {slots : List ItemEntry}
    (h : slots.length = n) : readSlots (writeSlots mem addr n slots) addr n = slots := by
  have hlen : (slots.flatMap slotBytes).length = slotSize * n := by
    rw [length_flatMap_const length_slotBytes, h, Nat.mul_comm]
  rw [readSlots, writeSlots, readBlock_writeBlock _ _ hlen, parseSlots_flatMap slots (by rw [h]), h,
    Nat.sub_self, List.replicate_zero, List.append_nil]

theorem readSlots_congr {mem mem' : Memory} {addr n : Nat}
    (h : Set.EqOn mem' mem (Set.Ico addr (addr + slotSize * n))) :
    readSlots mem' addr n = readSlots mem addr n := by
  rw [readSlots, readSlots, readBlock_congr h]

/-! ## Compaction -/

/-- `RemoveEmptySlots`. -/
def removeEmptySlots (arr : List ItemEntry) (count : Nat) : List ItemEntry :=
  let st := (List.range count).foldl (compactStep (fun e => e.id != 0) ItemEntry.zero) (arr, 0)
  fillFrom ItemEntry.zero st.1 st.2 count

/-- The used slots keep their order, and empty slots follow. -/
theorem removeEmptySlots_eq (arr : List ItemEntry) :
    removeEmptySlots arr arr.length = arr.filter (fun e => e.id != 0) ++
      List.replicate (arr.length - (arr.filter (fun e => e.id != 0)).length) ItemEntry.zero := by
  have h := foldl_compactStep (fun e : ItemEntry => e.id != 0) ItemEntry.zero arr (Nat.le_refl _)
  unfold removeEmptySlots
  dsimp only
  rw [fillFrom_eq _ h.length_eq h.index_le, h.front, h.index_eq, List.take_length]

theorem length_removeEmptySlots (arr : List ItemEntry) :
    (removeEmptySlots arr arr.length).length = arr.length := by
  have := List.length_filter_le (fun e : ItemEntry => e.id != 0) arr
  rw [removeEmptySlots_eq, List.length_append, List.length_replicate]
  omega

/-! ## Taking the balls out -/

/-- `g_RemovedPokeBalls`. -/
abbrev RemovedPokeBalls := Fin 17 → ItemEntry

/-- The entry of `g_RemovedPokeBalls` a Poké Ball is moved to: its id, or the last one for
the item 576.  Other items stay. -/
def ballIndex (id : UInt16) : Option (Fin 17) :=
  if id ≠ 0 ∧ id ≤ 16 then some (Fin.ofNat 17 id.toNat)
  else if id = 576 then some 16
  else none

/-- A slot with Poké Balls in it. -/
def ItemEntry.isBall (e : ItemEntry) : Bool := (ballIndex e.id).isSome

/-- The loop of `RemovePokeballs` over the slots: `g_MainPocket` and `g_RemovedPokeBalls`
after it. -/
def takeBalls : List ItemEntry → RemovedPokeBalls → List ItemEntry × RemovedPokeBalls
  | [], removed => ([], removed)
  | e :: slots, removed =>
      match ballIndex e.id with
      | some k =>
          let rest := takeBalls slots (Function.update removed k e)
          (ItemEntry.zero :: rest.1, rest.2)
      | none =>
          let rest := takeBalls slots removed
          (e :: rest.1, rest.2)

/-- What `RemovePokeballs` does to the pocket once it was decided: guest memory,
`g_MainPocket` and `g_RemovedPokeBalls`. -/
def takeOut (mem : Memory) (removed : RemovedPokeBalls) :
    Memory × List ItemEntry × RemovedPokeBalls :=
  let taken := takeBalls (readPocket mem) removed
  let mainPocket := removeEmptySlots taken.1 slotCount
  (writeSlots mem pocketStart slotCount mainPocket, mainPocket, taken.2)

theorem takeOut_table (mem : Memory) (removed : RemovedPokeBalls) :
    (takeOut mem removed).2.2 = (takeBalls (readPocket mem) removed).2 := by
  rw [takeOut]

theorem takeBalls_fst (slots : List ItemEntry) (removed : RemovedPokeBalls) :
    (takeBalls slots removed).1 = slots.map fun e => if e.isBall then ItemEntry.zero else e := by
  induction slots generalizing removed with
  | nil => rfl
  | cons e slots ih =>
    rw [takeBalls, List.map_cons]
    cases hk : ballIndex e.id with
    | some k => simp [ItemEntry.isBall, hk, ih]
    | none => simp [ItemEntry.isBall, hk, ih]

/-- The slots that stay when the balls are taken out. -/
def stays (e : ItemEntry) : Bool := !e.isBall && e.id != 0

theorem filter_takeBalls (slots : List ItemEntry) (removed : RemovedPokeBalls) :
    (takeBalls slots removed).1.filter (fun e => e.id != 0) = slots.filter stays := by
  rw [takeBalls_fst]
  induction slots with
  | nil => rfl
  | cons e slots ih =>
    rw [List.map_cons]
    by_cases hb : e.isBall
    · have hs : ¬ stays e = true := by simp [stays, hb]
      rw [if_pos hb, List.filter_cons_of_neg (by decide), List.filter_cons_of_neg hs, ih]
    · have hs : stays e = (e.id != 0) := by simp [stays, hb]
      rw [if_neg hb, List.filter_cons, List.filter_cons, hs, ih]

/-- The pocket without its balls: the other slots in order, then empty ones. -/
theorem readPocket_takeOut (mem : Memory) (removed : RemovedPokeBalls) :
    readPocket (takeOut mem removed).1 = (readPocket mem).filter stays ++
      List.replicate (slotCount - ((readPocket mem).filter stays).length) ItemEntry.zero := by
  have hlen : (takeBalls (readPocket mem) removed).1.length = slotCount := by
    rw [takeBalls_fst, List.length_map, length_readPocket]
  have hc := removeEmptySlots_eq (takeBalls (readPocket mem) removed).1
  have hl := length_removeEmptySlots (takeBalls (readPocket mem) removed).1
  rw [hlen] at hc hl
  rw [filter_takeBalls] at hc
  rw [takeOut, readPocket, readSlots_writeSlots _ _ hl, hc]

theorem not_isBall_zero : ItemEntry.zero.isBall = false := by decide

/-- No ball is left in the pocket. -/
theorem no_ball_takeOut (mem : Memory) (removed : RemovedPokeBalls) :
    ∀ e ∈ readPocket (takeOut mem removed).1, e.isBall = false := by
  intro e he
  rw [readPocket_takeOut] at he
  rcases List.mem_append.1 he with he | he
  · have hs := (List.mem_filter.1 he).2
    simp only [stays, Bool.and_eq_true, Bool.not_eq_true'] at hs
    exact hs.1
  · rw [List.eq_of_mem_replicate he]
    exact not_isBall_zero

/-! ## Where the balls go -/

/-- The entries of `g_RemovedPokeBalls` that are put back. -/
def held (removed : RemovedPokeBalls) : List ItemEntry :=
  ((List.finRange 17).map removed).filter fun e => e.qty != 0

theorem mem_held {removed : RemovedPokeBalls} {e : ItemEntry} :
    e ∈ held removed ↔ (∃ k, removed k = e) ∧ e.qty ≠ 0 := by
  simp [held]

theorem length_held_le (removed : RemovedPokeBalls) : (held removed).length ≤ 17 := by
  have := List.length_filter_le (fun e : ItemEntry => e.qty != 0) ((List.finRange 17).map removed)
  simpa [held] using this

/-- The balls of a list of slots. -/
def balls (slots : List ItemEntry) : List ItemEntry := slots.filter ItemEntry.isBall

theorem mem_balls_of_ballIndex {slots : List ItemEntry} {e : ItemEntry} {k : Fin 17} (he : e ∈ slots)
    (hk : ballIndex e.id = some k) : e ∈ balls slots := by
  refine List.mem_filter.2 ⟨he, ?_⟩
  rw [ItemEntry.isBall, hk]
  rfl

/-- No two slots with balls go to the same entry of `g_RemovedPokeBalls`, and none is there
with a quantity of zero. -/
structure BallsDistinct (slots : List ItemEntry) : Prop where
  index_ne : (balls slots).Pairwise fun e f => ballIndex e.id ≠ ballIndex f.id
  qty_ne : ∀ e ∈ balls slots, e.qty ≠ 0

theorem BallsDistinct.tail {e : ItemEntry} {slots : List ItemEntry} (h : BallsDistinct (e :: slots)) :
    BallsDistinct slots :=
  have hsub : (balls slots).Sublist (balls (e :: slots)) := (List.sublist_cons_self e slots).filter _
  ⟨h.index_ne.sublist hsub, fun f hf => h.qty_ne f (hsub.subset hf)⟩

/-- Entries no ball of the pocket goes to are kept. -/
theorem takeBalls_snd_of_ne (slots : List ItemEntry) (removed : RemovedPokeBalls) {k : Fin 17}
    (h : ∀ e ∈ slots, ballIndex e.id ≠ some k) : (takeBalls slots removed).2 k = removed k := by
  induction slots generalizing removed with
  | nil => rfl
  | cons e slots ih =>
    have he := h e List.mem_cons_self
    have hs : ∀ f ∈ slots, ballIndex f.id ≠ some k := fun f hf => h f (List.mem_cons_of_mem e hf)
    rw [takeBalls]
    cases hk : ballIndex e.id with
    | some k' =>
      have hne : k ≠ k' := by
        rintro rfl
        exact he hk
      show (takeBalls slots (Function.update removed k' e)).2 k = removed k
      rw [ih _ hs, Function.update_of_ne hne]
    | none => exact ih removed hs

/-- Every ball is found in the entry it goes to. -/
theorem takeBalls_snd_of_mem {slots : List ItemEntry} (hd : BallsDistinct slots)
    (removed : RemovedPokeBalls) {e : ItemEntry} (he : e ∈ balls slots) :
    ∃ k, (takeBalls slots removed).2 k = e := by
  induction slots generalizing removed with
  | nil => exact absurd he (by simp [balls])
  | cons f slots ih =>
    rw [takeBalls]
    rw [balls, List.mem_filter, List.mem_cons] at he
    obtain ⟨rfl | hmem, hball⟩ := he
    · obtain ⟨k, hk⟩ := Option.isSome_iff_exists.1 hball
      have hcons : balls (e :: slots) = e :: balls slots := List.filter_cons_of_pos hball
      have hp := hd.index_ne
      rw [hcons, List.pairwise_cons] at hp
      rw [hk]
      refine ⟨k, ?_⟩
      show (takeBalls slots (Function.update removed k e)).2 k = e
      rw [takeBalls_snd_of_ne, Function.update_self]
      intro g hg hgk
      exact hp.1 g (mem_balls_of_ballIndex hg hgk) (by rw [hk, hgk])
    · have hin : e ∈ balls slots := List.mem_filter.2 ⟨hmem, hball⟩
      cases hk : ballIndex f.id with
      | some k => exact ih hd.tail (Function.update removed k f) hin
      | none => exact ih hd.tail removed hin

/-- Every ball that is taken out is held. -/
theorem mem_held_takeOut {mem : Memory} (hd : BallsDistinct (readPocket mem))
    (removed : RemovedPokeBalls) {e : ItemEntry} (he : e ∈ balls (readPocket mem)) :
    e ∈ held (takeOut mem removed).2.2 := by
  rw [takeOut_table]
  exact mem_held.2 ⟨takeBalls_snd_of_mem hd removed he, hd.qty_ne e he⟩

theorem nodup_balls {slots : List ItemEntry} (hd : BallsDistinct slots) : (balls slots).Nodup := by
  refine hd.index_ne.imp fun h => ?_
  rintro rfl
  exact h rfl

/-! ## Putting the balls back -/

/-- The memory after `RestorePokeballs`. -/
def putBack (mem : Memory) (removed : RemovedPokeBalls) : Memory :=
  let insertCount := (List.finRange 17).countP fun i => (removed i).qty != 0
  if insertCount = 0 then mem
  else
    let mainPocket := readPocket mem
    -- `memmove` leaves the first entries behind; the loop below overwrites them
    let moved := mainPocket.take insertCount ++ mainPocket.take (slotCount - insertCount)
    let inserted := ((List.finRange 17).map removed).foldl (putStep fun e => e.qty != 0) (moved, 0)
    writeSlots mem pocketStart slotCount inserted.1

theorem countP_eq_length_held (removed : RemovedPokeBalls) :
    ((List.finRange 17).countP fun i => (removed i).qty != 0) = (held removed).length := by
  rw [held, ← List.countP_eq_length_filter, List.countP_map]
  rfl

/-- The balls held stand in front of the slots of the pocket that still fit. -/
theorem readPocket_putBack (mem : Memory) (removed : RemovedPokeBalls) :
    readPocket (putBack mem removed) =
      held removed ++ (readPocket mem).take (slotCount - (held removed).length) := by
  have hle := length_held_le removed
  have hp := length_readPocket mem
  have hsc : slotCount = 305 := rfl
  unfold putBack
  dsimp only
  rw [countP_eq_length_held]
  by_cases h0 : (held removed).length = 0
  · rw [if_pos h0, List.length_eq_zero_iff.1 h0, List.nil_append, List.length_nil, Nat.sub_zero,
      List.take_of_length_le (by rw [hp])]
  · rw [if_neg h0]
    have hfit : 0 + (((List.finRange 17).map removed).filter fun e => e.qty != 0).length ≤
        ((readPocket mem).take (held removed).length ++
          (readPocket mem).take (slotCount - (held removed).length)).length := by
      rw [List.length_append, List.length_take, List.length_take, hp]
      change 0 + (held removed).length ≤ _
      omega
    have hput := foldl_putStep (fun e : ItemEntry => e.qty != 0) ((List.finRange 17).map removed) _ 0 hfit
    have hdrop : ((readPocket mem).take (held removed).length ++
        (readPocket mem).take (slotCount - (held removed).length)).drop (0 + (held removed).length) =
          (readPocket mem).take (slotCount - (held removed).length) := by
      rw [Nat.zero_add, List.drop_left' (by rw [List.length_take, hp]; omega)]
    rw [readPocket, readSlots_writeSlots]
    · rw [hput, List.take_zero, List.nil_append]
      exact congrArg (held removed ++ ·) hdrop
    · rw [hput, List.take_zero, List.nil_append]
      refine (congrArg List.length (congrArg (held removed ++ ·) hdrop)).trans ?_
      rw [List.length_append, List.length_take, hp]
      omega

/-! ## The other pocket -/

/-- The id of a rare candy. -/
def rareCandy : UInt16 := 50

/-- `RemoveCandies`. -/
def removeCandies (mem : Memory) : Memory :=
  let pocket := (readSlots mem medicinePocketStart medicineSlotCount).map fun e =>
    if e.id = rareCandy then ItemEntry.zero else e
  writeSlots mem medicinePocketStart medicineSlotCount (removeEmptySlots pocket medicineSlotCount)

/-- The candies become empty slots, so that what is kept is neither. -/
theorem filter_withoutCandies (slots : List ItemEntry) :
    (slots.map fun e => if e.id = rareCandy then ItemEntry.zero else e).filter (fun e => e.id != 0) =
      slots.filter fun e => e.id != 0 && e.id != rareCandy := by
  induction slots with
  | nil => rfl
  | cons e slots ih =>
    rw [List.map_cons, List.filter_cons, List.filter_cons, ih]
    by_cases h : e.id = rareCandy
    · simp [h, ItemEntry.zero]
    · simp [h]

/-- The slots of the medicine pocket that are used and hold no candies. -/
def keptMedicine (mem : Memory) : List ItemEntry :=
  (readSlots mem medicinePocketStart medicineSlotCount).filter fun e =>
    e.id != 0 && e.id != rareCandy

/-- Used slots keep their order in front of empty ones, so that the medicine pocket keeps what is no
candy, and nothing else is written. -/
theorem pockets_compacted :
    (∀ arr : List ItemEntry, removeEmptySlots arr arr.length =
      arr.filter (fun e => e.id != 0) ++
        List.replicate (arr.length - (arr.filter fun e => e.id != 0).length) ItemEntry.zero) ∧
    ∀ mem : Memory,
      readSlots (removeCandies mem) medicinePocketStart medicineSlotCount =
        keptMedicine mem ++
          List.replicate (medicineSlotCount - (keptMedicine mem).length) ItemEntry.zero ∧
      Set.EqOn (removeCandies mem) mem
        (Set.compl (Set.Ico medicinePocketStart (medicinePocketStart + slotSize * medicineSlotCount))) := by
  refine ⟨removeEmptySlots_eq, fun mem => ⟨?_, fun a ha => ?_⟩⟩
  · have hlength : ((readSlots mem medicinePocketStart medicineSlotCount).map fun e =>
        if e.id = rareCandy then ItemEntry.zero else e).length = medicineSlotCount := by
      rw [List.length_map, length_readSlots]
    have hcompact := removeEmptySlots_eq ((readSlots mem medicinePocketStart medicineSlotCount).map
      fun e => if e.id = rareCandy then ItemEntry.zero else e)
    have hcompactLength := length_removeEmptySlots
      ((readSlots mem medicinePocketStart medicineSlotCount).map
        fun e => if e.id = rareCandy then ItemEntry.zero else e)
    rw [hlength] at hcompact hcompactLength
    rw [removeCandies, readSlots_writeSlots mem medicinePocketStart hcompactLength, hcompact,
      filter_withoutCandies]
    rfl
  · rw [removeCandies, writeSlots, writeBlock]
    exact if_neg ha

end AzaharPlus.Poke

import Mathlib.Algebra.Group.Nat.Defs
import Mathlib.Data.List.Basic
import Mathlib.Logic.Function.Basic
import Mathlib.Tactic.Common

/-!
# The ring buffer between two threads

`RingBuffer` of `ring_buffer.h`: one thread pushes while another one pops.  A call loads both
indices, copies its slots one after the other and stores its own index, and the other thread may go
on between any two of these steps.  The indices are 64-bit numbers that only grow.

`pushed` and `popped` record the slots of the calls that have returned.

* `run_fifo` — what was popped is the beginning of what was pushed, and no thread copies a slot that
  the other one still copies.
-/

namespace AzaharPlus.Common

/-- A power of two, less than half of what an index can be.  A capacity of 0, which passes the
assertions of the source and has no slots, is left out. -/
structure Capacity where
  exponent : Nat
  lt : exponent < 63

def Capacity.slots (c : Capacity) : Nat := 2 ^ c.exponent

namespace RingBuffer

/-- Where a call of `Push` is. -/
inductive Producer (α : Type) where
  | idle
  /-- It has loaded the write index. -/
  | loaded (slots : List α) (writeIndex : Nat)
  /-- Of the slots that there is room for, so many are copied. -/
  | copying (slots : List α) (writeIndex copied : Nat)

/-- Where a call of `Pop` is. -/
inductive Consumer (α : Type) where
  | idle
  /-- It has loaded the read index. -/
  | loaded (maxSlots readIndex : Nat)
  | copying (readIndex popCount : Nat) (out : List α)

structure System (α : Type) where
  readIndex : Nat
  writeIndex : Nat
  data : Nat → α
  producer : Producer α
  consumer : Consumer α
  pushed : List α
  popped : List α

variable {α : Type} (c : Capacity)

/-- The place of a slot of a copy that begins at `index`; the second `memcpy` begins in front. -/
def place (index count i : Nat) : Nat :=
  let pos := index % c.slots
  let firstCopy := min (c.slots - pos) count
  if i < firstCopy then pos + i else i - firstCopy

namespace System

/-- `Size` -/
def size (σ : System α) : Nat := (σ.writeIndex + 2 ^ 64 - σ.readIndex) % 2 ^ 64

/-- The next step of `Push`, or the first one of a call for `input`. -/
def produce (σ : System α) (input : List α) : System α :=
  match σ.producer with
  | .idle => { σ with producer := .loaded input σ.writeIndex }
  | .loaded slots writeIndex =>
    let slotsFree := (c.slots + σ.readIndex + 2 ^ 64 - writeIndex) % 2 ^ 64
    { σ with producer := .copying (slots.take (min slots.length slotsFree)) writeIndex 0 }
  | .copying slots writeIndex copied =>
    match slots[copied]? with
    | some x => { σ with
        data := Function.update σ.data (place c writeIndex slots.length copied) x
        producer := .copying slots writeIndex (copied + 1) }
    | none => { σ with
        writeIndex := (writeIndex + slots.length) % 2 ^ 64
        producer := .idle
        pushed := σ.pushed ++ slots }

/-- The next step of `Pop`, or the first one of a call for at most `maxSlots`. -/
def consume (σ : System α) (maxSlots : Nat) : System α :=
  match σ.consumer with
  | .idle => { σ with consumer := .loaded maxSlots σ.readIndex }
  | .loaded maxSlots readIndex =>
    let slotsFilled := (σ.writeIndex + 2 ^ 64 - readIndex) % 2 ^ 64
    { σ with consumer := .copying readIndex (min slotsFilled maxSlots) [] }
  | .copying readIndex popCount out =>
    if out.length < popCount then
      { σ with consumer :=
          .copying readIndex popCount (out ++ [σ.data (place c readIndex popCount out.length)]) }
    else { σ with
      readIndex := (readIndex + popCount) % 2 ^ 64
      consumer := .idle
      popped := σ.popped ++ out }

end System

/-- A step of one of the two threads. -/
inductive Op (α : Type) where
  | produce (input : List α)
  | consume (maxSlots : Nat)

namespace System

def step (σ : System α) : Op α → System α
  | .produce input => σ.produce c input
  | .consume maxSlots => σ.consume c maxSlots

def initial (data : Nat → α) : System α := ⟨0, 0, data, .idle, .idle, [], []⟩

/-- Any steps of the two threads, in any order. -/
def run (data : Nat → α) (ops : List (Op α)) : System α := ops.foldl (step c) (initial data)

/-- The places that the producer is going to write to. -/
def writes (σ : System α) : List Nat :=
  match σ.producer with
  | .copying slots writeIndex copied =>
    (List.range' copied (slots.length - copied)).map (place c writeIndex slots.length)
  | _ => []

/-- The places that the consumer is going to read. -/
def reads (σ : System α) : List Nat :=
  match σ.consumer with
  | .copying readIndex popCount out =>
    (List.range' out.length (popCount - out.length)).map (place c readIndex popCount)
  | _ => []

end System

/-! ## Places -/

theorem slots_pos : 0 < c.slots := Nat.two_pow_pos _

theorem slots_lt : c.slots < 2 ^ 63 := Nat.pow_lt_pow_right (by decide) c.lt

/-- The two copies go around the buffer. -/
theorem place_eq {n count i : Nat} (hi : i < count) (hcount : count ≤ c.slots) :
    place c (n % 2 ^ 64) count i = (n + i) % c.slots := by
  have hdvd : c.slots ∣ 2 ^ 64 := Nat.pow_dvd_pow 2 (by have := c.lt; omega)
  have hpos : n % c.slots < c.slots := Nat.mod_lt _ (slots_pos c)
  unfold place
  rw [Nat.mod_mod_of_dvd _ hdvd, ← Nat.mod_add_mod]
  generalize n % c.slots = pos at hpos
  by_cases hfirst : pos + i < c.slots
  · rw [Nat.mod_eq_of_lt hfirst]
    exact if_pos (by omega)
  · rw [Nat.mod_eq_sub_mod (by omega), Nat.mod_eq_of_lt (by omega)]
    refine (if_neg (by omega)).trans ?_
    omega

/-- Two places are different when less than the whole buffer lies between them. -/
theorem mod_ne {a b n : Nat} (hlt : a < b) (hnear : b - a < n) : a % n ≠ b % n := by
  intro heq
  have hzero := Nat.sub_mod_eq_zero_of_mod_eq heq.symm
  rw [Nat.mod_eq_of_lt hnear] at hzero
  omega

/-! ## Runs -/

namespace System

/-- The slots of the current call that the producer has copied. -/
def copied (σ : System α) : List α :=
  match σ.producer with
  | .copying slots _ n => slots.take n
  | _ => []

/-- What the two threads know in the middle of their calls. -/
def Producing (σ : System α) : Producer α → Prop
  | .idle => True
  | .loaded _ writeIndex => writeIndex = σ.writeIndex
  | .copying slots writeIndex n => writeIndex = σ.writeIndex ∧ n ≤ slots.length ∧
      σ.pushed.length + slots.length ≤ σ.popped.length + c.slots

def Consuming (σ : System α) : Consumer α → Prop
  | .idle => True
  | .loaded _ readIndex => readIndex = σ.readIndex
  | .copying readIndex popCount out => readIndex = σ.readIndex ∧ out.length ≤ popCount ∧
      σ.popped.length + popCount ≤ σ.pushed.length ∧ σ.popped ++ out <+: σ.pushed

structure Sound (σ : System α) : Prop where
  write : σ.writeIndex = σ.pushed.length % 2 ^ 64
  read : σ.readIndex = σ.popped.length % 2 ^ 64
  fifo : σ.popped <+: σ.pushed
  room : σ.pushed.length ≤ σ.popped.length + c.slots
  data : ∀ i x, σ.popped.length ≤ i → (σ.pushed ++ σ.copied)[i]? = some x →
    σ.data (i % c.slots) = x
  producer : σ.Producing c σ.producer
  consumer : σ.Consuming σ.consumer

variable {c} {σ : System α}

theorem Sound.produce (h : σ.Sound c) (input : List α) : (σ.produce c input).Sound c := by
  have hlt := slots_lt c
  have hle := h.fifo.length_le
  have hroom := h.room
  have hproducer := h.producer
  unfold System.produce
  cases hp : σ.producer with
  | idle =>
    refine ⟨h.write, h.read, h.fifo, h.room, fun i x hi hx => h.data i x hi ?_, rfl, h.consumer⟩
    simpa [copied, hp] using hx
  | loaded slots writeIndex =>
    rw [hp] at hproducer
    cases hproducer
    refine ⟨h.write, h.read, h.fifo, h.room, fun i x hi hx => h.data i x hi ?_,
      ⟨rfl, Nat.zero_le _, ?_⟩, h.consumer⟩
    · simpa [copied, hp] using hx
    · simp only [List.length_take, h.write, h.read]
      omega
  | copying slots writeIndex n =>
    rw [hp] at hproducer
    obtain ⟨rfl, hn, hfits⟩ := hproducer
    have hcopied : σ.copied = slots.take n := by simp [copied, hp]
    dsimp only
    split
    · rename_i x hx
      obtain ⟨hnlt, rfl⟩ := List.getElem?_eq_some_iff.mp hx
      have hplace : place c σ.writeIndex slots.length n = (σ.pushed.length + n) % c.slots := by
        rw [h.write, place_eq c hnlt (by omega)]
      rw [hplace]
      refine ⟨h.write, h.read, h.fifo, h.room, fun i y hi hy => ?_, ⟨rfl, hnlt, hfits⟩, h.consumer⟩
      have htake : σ.pushed ++ slots.take (n + 1) = σ.pushed ++ slots.take n ++ [slots[n]] := by
        rw [List.take_succ_eq_append_getElem hnlt, List.append_assoc]
      have hlength : (σ.pushed ++ slots.take n).length = σ.pushed.length + n := by
        simp [Nat.min_eq_left hn]
      change σ.popped.length ≤ i at hi
      change (σ.pushed ++ slots.take (n + 1))[i]? = some y at hy
      change Function.update σ.data _ slots[n] _ = y
      rw [htake] at hy
      by_cases hlast : i = σ.pushed.length + n
      · rw [hlast, ← hlength, List.getElem?_concat_length] at hy
        cases hy
        rw [hlast, Function.update_self]
      · have hilt := (List.getElem?_eq_some_iff.mp hy).1
        rw [List.length_append, hlength, List.length_singleton] at hilt
        have hne : i % c.slots ≠ (σ.pushed.length + n) % c.slots := mod_ne (by omega) (by omega)
        rw [List.getElem?_append_left (by omega)] at hy
        rw [Function.update_of_ne hne]
        exact h.data i y hi (by rw [hcopied]; exact hy)
    · rename_i hnone
      have hall : slots.take n = slots :=
        List.take_of_length_le (List.getElem?_eq_none_iff.mp hnone)
      refine ⟨?_, h.read, h.fifo.trans (List.prefix_append _ _), ?_,
        fun i x hi hx => h.data i x hi ?_, trivial, ?_⟩
      · simp [h.write]
      · simpa using hfits
      · rw [hcopied, hall]
        simpa [copied] using hx
      · have hconsumer := h.consumer
        revert hconsumer
        change σ.Consuming σ.consumer → Consuming _ σ.consumer
        cases σ.consumer with
        | idle => exact id
        | loaded maxSlots readIndex => exact id
        | copying readIndex popCount out =>
          rintro ⟨hindex, hout, hin, hprefix⟩
          refine ⟨hindex, hout, ?_, hprefix.trans (List.prefix_append _ _)⟩
          simp only [List.length_append]
          omega

theorem Sound.consume (h : σ.Sound c) (maxSlots : Nat) : (σ.consume c maxSlots).Sound c := by
  have hlt := slots_lt c
  have hle := h.fifo.length_le
  have hroom := h.room
  have hconsumer := h.consumer
  unfold System.consume
  cases hq : σ.consumer with
  | idle => exact ⟨h.write, h.read, h.fifo, h.room, h.data, h.producer, rfl⟩
  | loaded maxSlots readIndex =>
    rw [hq] at hconsumer
    cases hconsumer
    refine ⟨h.write, h.read, h.fifo, h.room, h.data, h.producer, rfl, Nat.zero_le _, ?_, ?_⟩
    · simp only [h.write, h.read]
      omega
    · simpa using h.fifo
  | copying readIndex popCount out =>
    rw [hq] at hconsumer
    obtain ⟨rfl, hout, hin, hprefix⟩ := hconsumer
    dsimp only
    split
    · rename_i hnext
      refine ⟨h.write, h.read, h.fifo, h.room, h.data, h.producer, rfl, ?_, hin, ?_⟩
      · rw [List.length_append]
        exact hnext
      -- the slot that is copied is the next one of those that were pushed
      have hinside : σ.popped.length + out.length < σ.pushed.length := by omega
      have hslot : σ.data (place c σ.readIndex popCount out.length) =
          σ.pushed[σ.popped.length + out.length] := by
        rw [h.read, place_eq c hnext (by omega)]
        refine h.data _ _ (Nat.le_add_right _ _) ?_
        rw [List.getElem?_append_left hinside, List.getElem?_eq_getElem]
      rw [hslot, ← List.append_assoc, List.prefix_iff_eq_take.mp hprefix, List.length_append,
        ← List.take_succ_eq_append_getElem hinside]
      exact List.take_prefix _ _
    · have hall : out.length = popCount := by omega
      refine ⟨h.write, ?_, hprefix, ?_, fun i x hi hx => h.data i x ?_ hx, ?_, trivial⟩
      · simp [h.read, hall]
      · simp only [List.length_append]
        omega
      · rw [List.length_append] at hi
        omega
      · have hproducer := h.producer
        revert hproducer
        change σ.Producing c σ.producer → Producing c _ σ.producer
        cases σ.producer with
        | idle => exact id
        | loaded slots writeIndex => exact id
        | copying slots writeIndex n =>
          rintro ⟨hindex, hn, hfits⟩
          refine ⟨hindex, hn, ?_⟩
          simp only [List.length_append]
          omega

theorem Sound.step (h : σ.Sound c) (op : Op α) : (σ.step c op).Sound c := by
  cases op with
  | produce input => exact h.produce input
  | consume maxSlots => exact h.consume maxSlots

theorem sound_run (data : Nat → α) (ops : List (Op α)) : (run c data ops).Sound c := by
  refine List.foldlRecOn ops (step c) ?_ fun _ h op _ => Sound.step h op
  exact ⟨rfl, rfl, List.prefix_rfl, Nat.zero_le _, by simp [initial, copied], trivial, trivial⟩

theorem Sound.mem_writes (h : σ.Sound c) {x : Nat} (hx : x ∈ σ.writes c) :
    ∃ i, σ.pushed.length ≤ i ∧ i < σ.popped.length + c.slots ∧ x = i % c.slots := by
  have hproducer := h.producer
  unfold writes at hx
  split at hx
  · rename_i slots writeIndex n hp
    rw [hp] at hproducer
    obtain ⟨rfl, hn, hfits⟩ := hproducer
    have hle := h.fifo.length_le
    obtain ⟨i, hi, rfl⟩ := List.mem_map.mp hx
    have hin := List.mem_range'_1.mp hi
    refine ⟨σ.pushed.length + i, by omega, by omega, ?_⟩
    rw [h.write, place_eq c (by omega) (by omega)]
  · cases hx

theorem Sound.mem_reads (h : σ.Sound c) {x : Nat} (hx : x ∈ σ.reads c) :
    ∃ i, σ.popped.length ≤ i ∧ i < σ.pushed.length ∧ x = i % c.slots := by
  have hconsumer := h.consumer
  unfold reads at hx
  split at hx
  · rename_i readIndex popCount out hq
    rw [hq] at hconsumer
    obtain ⟨rfl, hout, hin, -⟩ := hconsumer
    have hroom := h.room
    obtain ⟨i, hi, rfl⟩ := List.mem_map.mp hx
    have hi' := List.mem_range'_1.mp hi
    refine ⟨σ.popped.length + i, by omega, by omega, ?_⟩
    rw [h.read, place_eq c (by omega) (by omega)]
  · cases hx

/-- Whatever the order of the steps: slots are popped in the order in which they were pushed, none
twice and none lost, the buffer tells how many are left, and the copies of the two threads stay
inside of it and apart from each other. -/
theorem run_fifo (data : Nat → α) (ops : List (Op α)) :
    (run c data ops).popped <+: (run c data ops).pushed ∧
      (run c data ops).size = (run c data ops).pushed.length - (run c data ops).popped.length ∧
      (run c data ops).size ≤ c.slots ∧
      (∀ x ∈ (run c data ops).writes c, x < c.slots ∧ x ∉ (run c data ops).reads c) ∧
      ∀ x ∈ (run c data ops).reads c, x < c.slots := by
  have h := sound_run (c := c) data ops
  generalize run c data ops = σ at h
  have hle := h.fifo.length_le
  have hroom := h.room
  have hlt := slots_lt c
  have hsize : σ.size = σ.pushed.length - σ.popped.length := by
    rw [size, h.write, h.read]
    omega
  refine ⟨h.fifo, hsize, by omega, fun x hx => ?_, fun x hx => ?_⟩
  · obtain ⟨i, hi, hnear, rfl⟩ := h.mem_writes hx
    refine ⟨Nat.mod_lt _ (slots_pos c), fun hread => ?_⟩
    obtain ⟨j, hj, hbefore, heq⟩ := h.mem_reads hread
    exact mod_ne (by omega) (by omega) heq.symm
  · obtain ⟨i, -, -, rfl⟩ := h.mem_reads hx
    exact Nat.mod_lt _ (slots_pos c)

end System

end RingBuffer

end AzaharPlus.Common

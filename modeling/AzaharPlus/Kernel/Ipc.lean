import AzaharPlus.Kernel.HandleTable

/-!
# Handles in IPC commands

The model of `TranslateCommandBuffer` (`core/hle/kernel/ipc.cpp`) and of
`HLERequestContext::PopulateFromIncomingCommandBuffer` (`core/hle/kernel/hle_ipc.cpp`):
a command is a header, some plain words, and a list of descriptors with the words
that belong to them.  Handle words are replaced by references the receiver can use.
A `CallingPid` or buffer descriptor in the last word of a full buffer uses the word
behind it, which the array of the source does not have and `cmdBuf` does.

The two functions have one loop, `translateParams`, which is given how a word is read,
how a handle is sent, and what happens when a descriptor announces more handles than
the command holds.  What the descriptors of buffers do to the memory of the two
processes is a parameter: it touches no handle table.
-/

namespace AzaharPlus.Kernel

/-! ## Headers and descriptors -/

/-- `IPC::COMMAND_BUFFER_LENGTH`. -/
def commandBufferLength : Nat := 64

/-- The field `translate_params_size` of a header. -/
def translateParamsSize (header : UInt32) : Nat := (header &&& 0x3F).toNat

/-- The field `normal_params_size` of a header. -/
def normalParamsSize (header : UInt32) : Nat := ((header >>> 6) &&& 0x3F).toNat

/-- `IPC::DescriptorType`, with the one value of its mask that has no name. -/
inductive DescriptorType
  | copyHandle
  | moveHandle
  | callingPid
  | unnamed
  | mappedBuffer
  | pxiBuffer
  | staticBuffer
  deriving DecidableEq, Repr

/-- The number `IPC::DescriptorType::MoveHandle`. -/
def moveHandleValue : UInt32 := 0x10

/-- `IPC::IsHandleDescriptor`. -/
def isHandleDescriptor (descriptor : UInt32) : Bool := descriptor &&& 0xF = 0

/-- `IPC::GetDescriptorType`. -/
def getDescriptorType (descriptor : UInt32) : DescriptorType :=
  if isHandleDescriptor descriptor then
    if descriptor &&& 0x30 = 0 then .copyHandle
    else if descriptor &&& 0x30 = moveHandleValue then .moveHandle
    else if descriptor &&& 0x30 = 0x20 then .callingPid
    else .unnamed
  else if descriptor &&& 0x08 ≠ 0 then .mappedBuffer
  else if descriptor &&& 0x04 ≠ 0 then .pxiBuffer
  else .staticBuffer

/-- `IPC::HandleNumberFromDesc`. -/
def handleNumberFromDesc (descriptor : UInt32) : Nat := (descriptor >>> 26).toNat + 1

/-! ## The loop over the descriptors -/

/-- What the functions return. -/
inductive TranslateResult
  | success
  | commandTooLarge
  deriving DecidableEq, Repr

/-- The state of the loop: the command buffer that is written, the handle table of the
sender, what the receiver has got, and the memory of both. -/
structure Translation (Obj R Mem : Type) where
  cmdBuf : Nat → UInt32
  src : HandleTable Obj
  receiver : R
  mem : Mem

/-- What the two functions do in their own way.  `none` is a failed assertion. -/
structure Translator (Obj R Mem : Type) where
  /-- Reads a word that was not translated yet. -/
  reads : (Nat → UInt32) → Nat → UInt32
  /-- Sends one handle of a descriptor, and gives the word for the receiver. -/
  send : UInt32 → Handle → HandleTable Obj → R → Option (UInt32 × HandleTable Obj × R)
  /-- What becomes of a descriptor with more handles than the command holds. -/
  tooManyHandles : Option TranslateResult
  processId : UInt32
  /-- The word of a buffer descriptor, and what happens to the memory. -/
  buffer : Mem → UInt32 → UInt32 → Option (UInt32 × Mem)

namespace Translator

variable {Obj R Mem : Type} (T : Translator Obj R Mem)

/-- The loop over the handles of one descriptor. -/
def translateHandles (descriptor : UInt32) :
    Nat → Nat → Translation Obj R Mem → Option (Translation Obj R Mem)
  | 0, _, s => some s
  | n + 1, i, s =>
      (T.send descriptor (T.reads s.cmdBuf i) s.src s.receiver).bind fun (word, src, receiver) =>
        translateHandles descriptor n (i + 1)
          { s with cmdBuf := Function.update s.cmdBuf i word, src := src, receiver := receiver }

/-- How a turn of the loop ends: the function returns, or `i` has moved on. -/
inductive Turn (Obj R Mem : Type)
  | returns (result : TranslateResult) (s : Translation Obj R Mem)
  | next (i : Nat) (s : Translation Obj R Mem)

/-- The branch for `CopyHandle` and `MoveHandle`; `i` is behind the descriptor. -/
def translateHandleParam (commandSize i : Nat) (descriptor : UInt32) (s : Translation Obj R Mem) :
    Option (Turn Obj R Mem) :=
  let numHandles := handleNumberFromDesc descriptor
  if i + numHandles > commandSize then T.tooManyHandles.map (.returns · s)
  else (T.translateHandles descriptor numHandles i s).map (.next (i + numHandles) ·)

/-- The branches for `StaticBuffer` and `MappedBuffer`. -/
def translateBufferParam (i : Nat) (descriptor : UInt32) (s : Translation Obj R Mem) :
    Option (Turn Obj R Mem) :=
  (T.buffer s.mem descriptor (T.reads s.cmdBuf i)).map fun (word, mem) =>
    .next (i + 1) { s with cmdBuf := Function.update s.cmdBuf i word, mem := mem }

/-- The body of the loop: the descriptor at `i` and the words that belong to it. -/
def translateParam (commandSize i : Nat) (s : Translation Obj R Mem) : Option (Turn Obj R Mem) :=
  let descriptor := T.reads s.cmdBuf i
  let s := { s with cmdBuf := Function.update s.cmdBuf i descriptor }
  let i := i + 1
  match getDescriptorType descriptor with
  | .copyHandle | .moveHandle => T.translateHandleParam commandSize i descriptor s
  | .callingPid => some (.next (i + 1) { s with cmdBuf := Function.update s.cmdBuf i T.processId })
  | .staticBuffer | .mappedBuffer => T.translateBufferParam i descriptor s
  -- `UNIMPLEMENTED_MSG` only writes to the log
  | .pxiBuffer | .unnamed => some (.next i s)

/-- The loop `while (i < command_size)`.  Every turn moves `i` on, so `commandSize` turns
are enough. -/
def translateParams (commandSize : Nat) :
    Nat → Nat → Translation Obj R Mem → Option (TranslateResult × Translation Obj R Mem)
  | fuel, i, s =>
      if i < commandSize then
        match fuel with
        | 0 => none
        | fuel + 1 =>
            match T.translateParam commandSize i s with
            | none => none
            | some (.returns result s) => some (result, s)
            | some (.next i s) => translateParams commandSize fuel i s
      else some (.success, s)

/-- Both functions: the sizes are taken from the header, and the loop starts behind the
plain words. -/
def translate (header : UInt32) (s : Translation Obj R Mem) :
    Option (TranslateResult × Translation Obj R Mem) :=
  let untranslatedSize := 1 + normalParamsSize header
  let commandSize := untranslatedSize + translateParamsSize header
  if commandSize ≤ commandBufferLength then
    T.translateParams commandSize commandSize untranslatedSize s
  else none

end Translator

/-! ## Sending a handle -/

section

variable {Obj : Type}

/-- `HandleTable::Close`, where its result is not looked at. -/
def HandleTable.closeQuietly (t : HandleTable Obj) (handle : Handle) : HandleTable Obj :=
  match t.close handle with
  | .ok t' => t'
  | .error _ => t

/-- The sender of a command in the kernel: the thread and the process its pseudo-handles
stand for. -/
structure Sender (Obj : Type) where
  thread : Obj
  process : Obj

/-- The object of a handle word in `TranslateCommandBuffer`, and the table of the sender
after it. -/
def takeObject (sender : Sender Obj) (descriptor : UInt32) (handle : Handle)
    (src : HandleTable Obj) : Option Obj × HandleTable Obj :=
  if handle = currentThreadHandle then (some sender.thread, src)
  else if handle = currentProcessHandle then (some sender.process, src)
  else if handle ≠ 0 then
    (src.getGeneric ⟨some sender.thread, some sender.process⟩ handle,
      if descriptor = moveHandleValue then src.closeQuietly handle else src)
  else (none, src)

/-- One handle of `TranslateCommandBuffer`: the receiver is the handle table of the other
process. -/
def sendToProcess (sender : Sender Obj) (descriptor : UInt32) (handle : Handle)
    (src dst : HandleTable Obj) : Option (UInt32 × HandleTable Obj × HandleTable Obj) :=
  match takeObject sender descriptor handle src with
  | (none, src) => some (0, src, dst)
  | (some object, src) =>
      match dst.create object with
      | .ok (h, dst) => some (h, src, dst)
      | .error _ => none

/-- One handle of `PopulateFromIncomingCommandBuffer`: the receiver is `request_handles`,
and the word is an index into it. -/
def sendToService (k : KernelContext Obj) (descriptor : UInt32) (handle : Handle)
    (src : HandleTable Obj) (requestHandles : List (Option Obj)) :
    Option (UInt32 × HandleTable Obj × List (Option Obj)) :=
  if handle ≠ 0 then
    match src.getGeneric k handle with
    | none => none
    | some object =>
        some (UInt32.ofNat requestHandles.length,
          if descriptor = moveHandleValue then src.closeQuietly handle else src,
          requestHandles ++ [some object])
  else some (UInt32.ofNat requestHandles.length, src, requestHandles ++ [none])

/-- `TranslateCommandBuffer`: the words are translated in place. -/
def kernelTranslator {Mem : Type} (sender : Sender Obj) (processId : UInt32)
    (buffer : Mem → UInt32 → UInt32 → Option (UInt32 × Mem)) :
    Translator Obj (HandleTable Obj) Mem where
  reads := fun cmdBuf i => cmdBuf i
  send := sendToProcess sender
  tooManyHandles := some .commandTooLarge
  processId := processId
  buffer := buffer

/-- `PopulateFromIncomingCommandBuffer`: the words are read from `src_cmdbuf`. -/
def hleTranslator {Mem : Type} (srcCmdbuf : Nat → UInt32) (k : KernelContext Obj)
    (processId : UInt32) (buffer : Mem → UInt32 → UInt32 → Option (UInt32 × Mem)) :
    Translator Obj (List (Option Obj)) Mem where
  reads := fun _ i => srcCmdbuf i
  send := sendToService k
  tooManyHandles := none
  processId := processId
  buffer := buffer

end

end AzaharPlus.Kernel

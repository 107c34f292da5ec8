import AzaharPlus.Pica.ShaderUnit

/-!
# Loading vertices

`VertexLoader` of `video_core/pica/vertex_loader.cpp`: the attributes of a vertex are read from memory
as the registers lay them out.

* `VertexLoader.ofRegs`, `VertexLoader.loadVertex` — the constructor and `LoadVertex`.
* `VertexLoader.loaded_loadVertex` — what is loaded does not depend on what was in the buffer.
-/

namespace AzaharPlus.Pica

/-- `VertexAttributeFormat` -/
inductive VertexAttributeFormat where
  | byte
  | ubyte
  | short
  | float
  deriving DecidableEq, Repr

/-- The conversions to the floats of the code: those of `FloatFormats`, and of an integer by way of
`float`. -/
structure VertexFloats (F : Type) extends FloatFormats F where
  fromInt : Int → F
  zero : F
  one : F

/-! ## The registers -/

section Regs

variable (regs : Nat → BitVec 32)

/-- `GetPhysicalBaseAddress` -/
def physicalBaseAddress : Nat := bitField (regs 0x200) 1 28 * 16

/-- The format with a number. -/
def formatOf : Nat → VertexAttributeFormat
  | 0 => .byte
  | 1 => .ubyte
  | 2 => .short
  | _ => .float

/-- The word with the format and size of an attribute, and their position there. -/
def descriptor (n : Nat) : BitVec 32 × Nat :=
  if n < 8 then (regs 0x201, 4 * n) else (regs 0x202, 4 * (n - 8))

/-- `GetFormat` -/
def attributeFormat (n : Nat) : VertexAttributeFormat :=
  formatOf (bitField (descriptor regs n).1 (descriptor regs n).2 2)

/-- `GetNumElements` -/
def numElements (n : Nat) : Nat := bitField (descriptor regs n).1 ((descriptor regs n).2 + 2) 2 + 1

/-- `GetElementSizeInBytes` -/
def elementSizeInBytes (n : Nat) : Nat :=
  match attributeFormat regs n with
  | .float => 4
  | .short => 2
  | _ => 1

/-- `GetStride` -/
def attributeStride (n : Nat) : Nat := numElements regs n * elementSizeInBytes regs n

/-- `IsDefaultAttribute` -/
def isDefaultAttribute (id : Nat) : Bool :=
  decide (id ≥ 12) || (bitField (regs 0x202) 16 12).testBit id

/-- `GetNumTotalAttributes` -/
def numTotalAttributes : Nat := bitField (regs 0x202) 28 4 + 1

/-- `data_offset` of a loader. -/
def dataOffset (loader : Nat) : Nat := bitField (regs (0x203 + 3 * loader)) 0 28

/-- `GetComponent` of a loader. -/
def loaderComponent (loader n : Nat) : Nat :=
  if n < 8 then bitField (regs (0x204 + 3 * loader)) (4 * n) 4
  else bitField (regs (0x205 + 3 * loader)) (4 * (n - 8)) 4

/-- `byte_count` of a loader. -/
def loaderByteCount (loader : Nat) : Nat := bitField (regs (0x205 + 3 * loader)) 16 8

/-- `component_count` of a loader. -/
def loaderComponentCount (loader : Nat) : Nat := bitField (regs (0x205 + 3 * loader)) 28 4

end Regs

/-! ## The loader -/

/-- `VertexLoader` -/
structure VertexLoader where
  sources : Nat → Nat
  strides : Nat → Nat
  formats : Nat → VertexAttributeFormat
  elements : Nat → Nat
  isDefault : Nat → Bool
  numTotalAttributes : Nat

/-- `AlignUp` -/
def alignUp (value size : Nat) : Nat :=
  if value % size = 0 then value else value - value % size + size

namespace VertexLoader

section Code

variable (regs : Nat → BitVec 32)

/-- A turn of the loop over the components of a loader, with the offset before it. -/
def addComponent (number : Nat) (l : VertexLoader × Nat) (component : Nat) : VertexLoader × Nat :=
  if component ≥ 12 then l
  else
    let i := loaderComponent regs number component
    if i < 12 then
      let offset := alignUp l.2 (elementSizeInBytes regs i)
      ({ l.1 with
        sources := Function.update l.1.sources i (dataOffset regs number + offset)
        strides := Function.update l.1.strides i (loaderByteCount regs number)
        formats := Function.update l.1.formats i (attributeFormat regs i)
        elements := Function.update l.1.elements i (numElements regs i) },
        offset + attributeStride regs i)
    else (l.1, alignUp l.2 4 + (i - 11) * 4)

/-- A turn of the loop over the loaders. -/
def addLoader (l : VertexLoader) (number : Nat) : VertexLoader :=
  ((List.range (loaderComponentCount regs number)).foldl (addComponent regs number) (l, 0)).1

/-- The constructor, with the formats that were in memory. -/
def ofRegs (formats : Nat → VertexAttributeFormat) : VertexLoader :=
  (List.range 12).foldl (addLoader regs)
    { sources := fun _ => 0xdeadbeef
      strides := fun _ => 0
      formats := formats
      elements := fun _ => 0
      isDefault := isDefaultAttribute regs
      numTotalAttributes := Pica.numTotalAttributes regs }

end Code

variable {F : Type} (floats : VertexFloats F) (memory : Nat → BitVec 8)

/-- Bytes of memory as a number. -/
def bytesAt (address : Nat) : Nat → Nat
  | 0 => 0
  | n + 1 => (memory address).toNat + 2 ^ 8 * bytesAt (address + 1) n

/-- An element of an array, converted to a float. -/
def elementAt (address comp : Nat) : VertexAttributeFormat → F
  | .byte => floats.fromInt (memory (address + comp)).toInt
  | .ubyte => floats.fromInt (memory (address + comp)).toNat
  | .short => floats.fromInt (BitVec.ofNat 16 (bytesAt memory (address + 2 * comp) 2)).toInt
  | .float => floats.fromFloat32 (BitVec.ofNat 32 (bytesAt memory (address + 4 * comp) 4))

variable (l : VertexLoader)

/-- `source_addr` -/
def sourceAddr (baseAddress vertex i : Nat) : Nat :=
  (baseAddress + l.sources i + l.strides i * vertex) % 2 ^ 32

/-- `LoadAttribute`, and the components behind those that are loaded. -/
def loadAttribute (baseAddress vertex i : Nat) : Vec4 F := fun comp =>
  if comp.val < l.elements i then
    elementAt floats memory (l.sourceAddr baseAddress vertex i) comp.val (l.formats i)
  else if comp.val = 3 then floats.one
  else floats.zero

/-- `LoadVertex`, for the attributes below a number. -/
def loadAttributesBelow (baseAddress vertex : Nat) (defaults : AttributeBuffer F) :
    Nat → AttributeBuffer F → AttributeBuffer F
  | 0, input => input
  | i + 1, input =>
      let before := loadAttributesBelow baseAddress vertex defaults i input
      if l.isDefault i then Function.update before i (defaults i)
      else if l.elements i = 0 then before
      else Function.update before i (l.loadAttribute floats memory baseAddress vertex i)

/-- `LoadVertex` -/
def loadVertex (baseAddress vertex : Nat) (defaults input : AttributeBuffer F) :
    AttributeBuffer F :=
  l.loadAttributesBelow floats memory baseAddress vertex defaults l.numTotalAttributes input

/-! ## The attributes that are loaded -/

/-- `LoadVertex` sets an attribute. -/
def Loads (i : Nat) : Prop := i < l.numTotalAttributes ∧ (l.isDefault i = true ∨ l.elements i ≠ 0)

instance (i : Nat) : Decidable (l.Loads i) := inferInstanceAs (Decidable (_ ∧ _))

/-- The attributes of a buffer that `LoadVertex` sets. -/
def loaded (input : AttributeBuffer F) (i : Nat) : Option (Vec4 F) :=
  if l.Loads i then some (input i) else none

/-- The attributes of a vertex. -/
def attributes (baseAddress vertex : Nat) (defaults : AttributeBuffer F) (i : Nat) :
    Option (Vec4 F) :=
  if l.Loads i then
    some (if l.isDefault i then defaults i
      else l.loadAttribute floats memory baseAddress vertex i)
  else none

variable {floats memory l}

theorem loadAttributesBelow_apply (baseAddress vertex : Nat) (defaults input : AttributeBuffer F)
    (n i : Nat) :
    l.loadAttributesBelow floats memory baseAddress vertex defaults n input i =
      if i < n ∧ (l.isDefault i = true ∨ l.elements i ≠ 0) then
        if l.isDefault i then defaults i
        else l.loadAttribute floats memory baseAddress vertex i
      else input i := by
  induction n with
  | zero => simp [loadAttributesBelow]
  | succ n ih =>
    rw [loadAttributesBelow]
    rcases Nat.lt_trichotomy i n with hlt | heq | hgt
    · have hne : i ≠ n := Nat.ne_of_lt hlt
      simp only [hlt, Nat.lt_succ_of_lt hlt, true_and] at ih ⊢
      split
      · rw [Function.update_of_ne hne, ih]
      · split
        · exact ih
        · rw [Function.update_of_ne hne, ih]
    · subst heq
      simp only [Nat.lt_irrefl, false_and, if_false] at ih
      by_cases hdefault : l.isDefault i = true
      · simp [hdefault]
      · by_cases helements : l.elements i = 0
        · simp [hdefault, helements, ih]
        · simp [hdefault, helements]
    · have hne : i ≠ n := Nat.ne_of_gt hgt
      have hn : ¬ i < n := by omega
      have hsucc : ¬ i < n + 1 := by omega
      simp only [hn, hsucc, false_and, if_false] at ih ⊢
      split
      · rw [Function.update_of_ne hne, ih]
      · split
        · exact ih
        · rw [Function.update_of_ne hne, ih]

/-- What is loaded is read from memory and the default attributes alone. -/
theorem loaded_loadVertex (baseAddress vertex : Nat) (defaults input : AttributeBuffer F) :
    l.loaded (l.loadVertex floats memory baseAddress vertex defaults input) =
      l.attributes floats memory baseAddress vertex defaults := by
  funext i
  unfold loaded attributes
  by_cases hloads : l.Loads i
  · rw [if_pos hloads, if_pos hloads, loadVertex, loadAttributesBelow_apply]
    exact congrArg some (if_pos hloads)
  · rw [if_neg hloads, if_neg hloads]

end VertexLoader

end AzaharPlus.Pica

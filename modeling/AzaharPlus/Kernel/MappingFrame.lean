import AzaharPlus.Kernel.MapUnmap

/-!
# What allocating does to other pages

`HeapAllocate`, `LinearAllocate`, `Map` and `SharedMemory::Map` map memory behind a target.  The pages of the target
are then as they were asked for; whether all others are left alone depends on what lies next to it.

* `allocating_frames_iff`: in every reachable state a call that succeeds leaves the pages outside of the target (and
  of the source of a `Map`) exactly if it does not catch one of the two pages next to the target;
* `allocating_changes_other_page`: a page of the linear heap is allocated for reading and writing, and the next one
  for reading only, and then the first one cannot be written any more.
-/

namespace AzaharPlus.Kernel

open Tiling

/-- A call that maps memory. -/
inductive MappingCall
  | heapAllocate (target size : UInt32) (perms : VMAPermission) (state : MemoryState) (skipRangeCheck : Bool)
  | linearAllocate (target size : UInt32) (perms : VMAPermission)
  | map (target source size : UInt32) (perms : VMAPermission)
  | mapBlock (block : SharedMemory) (address permissions otherPermissions : UInt32)

namespace MappingCall

/-- The call, with the address the memory is mapped at if it succeeds. -/
def run (isCached : Nat → Bool) (p : ProcessMemory) : MappingCall → Option (Option Nat × ProcessMemory)
  | heapAllocate target size perms state skipRangeCheck =>
      (p.heapAllocate isCached target.toNat size.toNat perms state skipRangeCheck).map fun (r, p) => (r.toOption, p)
  | linearAllocate target size perms =>
      (p.linearAllocate isCached target.toNat size.toNat perms).map fun (r, p) => (r.toOption, p)
  | map target source size perms =>
      (p.map isCached target.toNat source.toNat size.toNat perms).map fun (r, p) =>
        (r.toOption.map fun _ => target.toNat, p)
  | mapBlock block address permissions otherPermissions =>
      (block.map isCached p address.toNat permissions otherPermissions).map fun (r, p) =>
        (r.toOption.map fun _ => block.targetAddress address.toNat, p)

/-- How much memory is mapped. -/
def size : MappingCall → Nat
  | heapAllocate _ size _ _ _ | linearAllocate _ size _ | map _ _ size _ => size.toNat
  | mapBlock block _ _ _ => block.size

/-- The permissions that are asked for. -/
def perms : MappingCall → VMAPermission
  | heapAllocate _ _ perms _ _ | linearAllocate _ _ perms | map _ _ _ perms => perms
  | mapBlock _ _ permissions _ => SharedMemory.convertPermissions permissions

/-- The state that is asked for. -/
def state : MappingCall → MemoryState
  | heapAllocate _ _ _ state _ => state
  | linearAllocate .. => .continuous
  | map .. => .alias_
  | mapBlock .. => .shared

/-- A page of the source of a `Map`. -/
def IsSource (page : Nat) : MappingCall → Prop
  | map _ source size _ => InRange source.toNat size.toNat page
  | _ => False

/-- A memory block is one that the process has a handle of. -/
def Known (s : KernelMemory) : MappingCall → Prop
  | mapBlock block _ _ _ => block ∈ s.blocks
  | _ => True

/-- The call catches a page next to its target: the memory it maps, with other permissions than read and write, lies
next to the memory of a page before or behind the target that is in the same state and has read and write
permission. -/
def Catches (p : ProcessMemory) : MappingCall → Prop
  | heapAllocate target size perms state _ => ∃ A region, p.memoryRegion.heapAllocate size.toNat = some (A, region) ∧
      p.vmManager.pageMap.Caught state perms (fcramBlocks A) target.toNat
  | linearAllocate target size perms => ∃ offset addr region,
      p.linearPlace target.toNat size.toNat = some (.ok (offset, addr), region) ∧
      p.vmManager.pageMap.Caught .continuous perms [(⟨fcramMem, offset⟩, size.toNat)] addr
  | map target source size perms =>
      p.vmManager.pageMap.CatchesAlias perms target.toNat source.toNat size.toNat
  | mapBlock block address permissions _ => p.vmManager.pageMap.Caught .shared
      (SharedMemory.convertPermissions permissions) block.backingBlocks (block.targetAddress address.toNat)

/-- The pages of the target are as they were asked for, and all others as they were. -/
structure Frames (call : MappingCall) (p p' : ProcessMemory) (target : Nat) : Prop where
  target_pages : p'.vmManager.pageMap.All target call.size fun a =>
    a.permissions = call.perms ∧ a.meminfoState = call.state
  others : ∀ page, ¬ InRange target call.size page → ¬ call.IsSource page →
    p'.vmManager.pageMap page = p.vmManager.pageMap page

end MappingCall

variable {isCached : Nat → Bool} {p p' : ProcessMemory}

/-- The blocks are mapped, into the address space as it was. -/
theorem frames_iff_of_mapBlocks {call : MappingCall} {blocks : List (MemoryRef × Nat)} {target : Nat}
    (hm : Consistent isCached p.vmManager) (hroom : ∀ b ∈ blocks, b.1.offset + b.2 ≤ b.1.backingMem.size)
    (hsize : blocksSize blocks = call.size) (hsource : ∀ page, ¬ call.IsSource page)
    (h : p.vmManager.mapBlocks isCached call.state call.perms blocks target = some p'.vmManager) :
    call.Frames p p' target ↔ ¬ p.vmManager.pageMap.Caught call.state call.perms blocks target := by
  rw [← mapBlocks_frame_iff hm hroom h (fun _ => False) (fun _ hfalse => hfalse.elim), hsize]
  constructor
  · exact fun hframes page hout _ => hframes.others page hout (hsource page)
  · refine fun hkeeps => ⟨fun page hpage => ?_, fun page hout _ => hkeeps page hout id⟩
    obtain ⟨memory, -, hvalue⟩ := mapBlocks_target hm hroom h hpage.1 (by rw [hsize]; exact hpage.2)
    exact ⟨_, hvalue, rfl, rfl⟩

/-- The blocks of the source of a `Map` are mapped, once the source has been marked. -/
theorem frames_map_iff {target source size : UInt32} {perms : VMAPermission} {m : VMManager}
    {blocks : List (MemoryRef × Nat)}
    (h : Mapped isCached p p' target.toNat source.toNat size.toNat perms m blocks)
    (hm : Consistent isCached p.vmManager) :
    (MappingCall.map target source size perms).Frames p p' target.toNat ↔
      ¬ (MappingCall.map target source size perms).Catches p := by
  have hframe := mapBlocks_frame_iff h.marked.consistent h.room h.mapped (InRange source.toNat size.toNat)
    h.source_not_alias
  rw [h.caught_iff hm, h.size_eq] at hframe
  refine Iff.trans ?_ hframe
  constructor
  · intro hframes page hout hsource
    rw [hframes.others page hout hsource, h.marked.pageMap_eq, if_neg hsource]
  · refine fun hkeeps => ⟨fun page hpage => ?_, fun page hout hsource => ?_⟩
    · obtain ⟨memory, -, hvalue⟩ := mapBlocks_target h.marked.consistent h.room h.mapped hpage.1
        (by rw [h.size_eq]; exact hpage.2)
      exact ⟨_, hvalue, rfl, rfl⟩
    · rw [hkeeps page hout hsource, h.marked.pageMap_eq]
      exact if_neg hsource

theorem toOption_eq_some {ε α : Type} {r : Except ε α} {a : α} (h : r.toOption = some a) : r = .ok a := by
  cases r with
  | error e => cases h
  | ok b => exact congrArg Except.ok (Option.some.inj h)

/-- In every reachable state, and for every call that succeeds: each page of the target has the permissions and the
state that were asked for and every other page, but for those of the source of a `Map`, keeps its attributes, exactly
if the call catches no page next to the target. -/
theorem allocating_frames_iff (isCached : Nat → Bool) (s : KernelMemory) (hreach : MemoryReachable isCached s)
    (call : MappingCall) (hknown : call.Known s) (target : Nat) (p' : ProcessMemory)
    (h : call.run isCached s.process = some (some target, p')) :
    call.Frames s.process p' target ↔ ¬ call.Catches s.process := by
  have hp := hreach.orderly.process
  cases call with
  | heapAllocate target₀ size perms state skip =>
      obtain ⟨⟨r, p''⟩, hcall, heq⟩ := Option.map_eq_some_iff.1 h
      obtain ⟨hr, rfl⟩ := Prod.mk.inj heq
      obtain ⟨e, he, -⟩ | ⟨A, region, m, hok, htake, hne, hmap, rfl⟩ :=
        ProcessMemory.heapAllocate_cases hp.region.used hcall
      · rw [he] at hr
        cases hr
      obtain rfl : target₀.toNat = target := Except.ok.inj (hok.symm.trans (toOption_eq_some hr))
      obtain ⟨-, hsub, hcard, -⟩ := (heapAllocate_takes hp.region.unlocked htake).resolve_left
        fun hA => hne (blocks_eq_nil_iff.2 hA.1)
      refine Iff.trans (frames_iff_of_mapBlocks hp.consistent (fcramBlocks_fit (hsub.trans hp.region.free))
        (by rw [blocksSize_fcramBlocks, hcard]; rfl) (fun _ => id) hmap) (not_congr ?_)
      constructor
      · exact fun hcaught => ⟨A, region, htake, hcaught⟩
      · rintro ⟨A', region', htake', hcaught⟩
        obtain ⟨rfl, -⟩ := Prod.mk.inj (Option.some.inj (htake.symm.trans htake'))
        exact hcaught
  | linearAllocate target₀ size perms =>
      obtain ⟨⟨r, p''⟩, hcall, heq⟩ := Option.map_eq_some_iff.1 h
      obtain ⟨hr, rfl⟩ := Prod.mk.inj heq
      obtain ⟨e, he, -⟩ | ⟨offset, addr, region, m, hok, hplace, hfit, hmap, rfl⟩ :=
        ProcessMemory.linearAllocate_cases hp.region size.toNat_lt hcall
      · rw [he] at hr
        cases hr
      obtain rfl : addr = target := Except.ok.inj (hok.symm.trans (toOption_eq_some hr))
      have hroom : ∀ b ∈ [((⟨fcramMem, offset⟩, size.toNat) : MemoryRef × Nat)],
          b.1.offset + b.2 ≤ b.1.backingMem.size := by
        simpa using hfit
      refine Iff.trans (frames_iff_of_mapBlocks hp.consistent hroom (by simp [MappingCall.size])
        (fun _ => id) hmap) (not_congr ?_)
      constructor
      · exact fun hcaught => ⟨offset, addr, region, hplace, hcaught⟩
      · rintro ⟨offset', addr', region', hplace', hcaught⟩
        obtain ⟨hpair, -⟩ := Prod.mk.inj (Option.some.inj (hplace.symm.trans hplace'))
        obtain ⟨rfl, rfl⟩ := Prod.mk.inj (Except.ok.inj hpair)
        exact hcaught
  | map target₀ source size perms =>
      obtain ⟨⟨r, p''⟩, hcall, heq⟩ := Option.map_eq_some_iff.1 h
      obtain ⟨hr, rfl⟩ := Prod.mk.inj heq
      obtain ⟨u, hok, rfl⟩ := Option.map_eq_some_iff.1 hr
      rw [toOption_eq_some hok] at hcall
      obtain ⟨m, blocks, hmapped⟩ := map_mapped hp source.toNat_lt target₀.toNat_lt hcall
      exact frames_map_iff hmapped hp.consistent
  | mapBlock block address permissions otherPermissions =>
      obtain ⟨⟨r, p''⟩, hcall, heq⟩ := Option.map_eq_some_iff.1 h
      obtain ⟨hr, rfl⟩ := Prod.mk.inj heq
      obtain ⟨u, hok, rfl⟩ := Option.map_eq_some_iff.1 hr
      obtain ⟨e, he, -⟩ | ⟨m, -, hmap, rfl⟩ := SharedMemory.map_cases hcall
      · rw [he] at hok
        cases hok
      have hfits := hreach.orderly.blocks block hknown
      exact frames_iff_of_mapBlocks hp.consistent hfits.blocks hfits.size_eq (fun _ => id) hmap

/-- A page of the heap is allocated for a process that has no memory yet. -/
theorem allocating_frames_fresh :
    ∃ p', (MappingCall.heapAllocate 0x08000000 0x1000 permReadWrite .private_ false).run (fun _ => false)
        freshProcess = some (some 0x08000000, p') ∧
      (MappingCall.heapAllocate 0x08000000 0x1000 permReadWrite .private_ false).Frames freshProcess p'
        0x08000000 := by
  have hrun : ((MappingCall.heapAllocate 0x08000000 0x1000 permReadWrite .private_ false).run (fun _ => false)
      freshProcess).map Prod.fst = some (some 0x08000000) := by
    decide +kernel
  obtain ⟨⟨r, p'⟩, hcall, rfl⟩ := Option.map_eq_some_iff.1 hrun
  refine ⟨p', hcall, ?_⟩
  refine (allocating_frames_iff (fun _ => false) freshKernel reachable_freshKernel
    (.heapAllocate 0x08000000 0x1000 permReadWrite .private_ false) trivial _ p' hcall).2 ?_
  rintro ⟨A, region, -, hperms, -⟩
  exact hperms rfl

/-- A page of the linear heap is committed, with read and write permission. -/
def linearPage : Option ProcessMemory := controlPage 0 0 0x10003 freshProcess

/-- The next page of the linear heap is allocated with read permission, and the first one loses its write
permission. -/
theorem allocating_changes_other_page :
    ¬ ∀ (isCached : Nat → Bool) (s : KernelMemory), MemoryReachable isCached s → ∀ call : MappingCall,
      call.Known s → ∀ (target : Nat) (p' : ProcessMemory), call.run isCached s.process = some (some target, p') →
      call.Frames s.process p' target := by
  intro hall
  have hrun : (linearPage.bind fun p =>
      ((MappingCall.linearAllocate 0 0x1000 1).run (fun _ => false) p).map fun r =>
        decide (r.1 = some 0x30001000 ∧
          (p.vmManager.pageMap 0x30000).map Attributes.permissions = some permReadWrite ∧
          (r.2.vmManager.pageMap 0x30000).map Attributes.permissions = some 1)) = some true := by
    decide +kernel
  obtain ⟨p, hp, hrun⟩ := Option.bind_eq_some_iff.1 hrun
  obtain ⟨⟨r, p'⟩, hcall, hfacts⟩ := Option.map_eq_some_iff.1 hrun
  obtain ⟨rfl, hbefore, hafter⟩ := of_decide_eq_true hfacts
  have hreach : MemoryReachable (fun _ => false) { freshKernel with process := p } :=
    reachable_freshKernel.controlPage hp
  have hframes := hall _ _ hreach (.linearAllocate 0 0x1000 1) trivial 0x30001000 p' hcall
  have hsame := hframes.others 0x30000 (by decide) id
  rw [hsame, hbefore] at hafter
  cases hafter

end AzaharPlus.Kernel

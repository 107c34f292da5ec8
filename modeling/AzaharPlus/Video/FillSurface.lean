import AzaharPlus.Lib.BlockMemory
import AzaharPlus.Lib.IntervalSet

/-!
# Writing fill surfaces back

`DownloadFillSurface` and `FlushRegion` of `video_core/rasterizer_cache/rasterizer_cache.h`.  What
`FlushRegion` does with surfaces of other kinds is a parameter.  Addresses are those of guest
memory; a reference to it is an address together with the number of bytes behind it, and `none`
stands for a failed assertion and for an access outside the memory of a reference.

* `downloadFillSurface_eq`, `downloadFillSurface_outside` — what a download writes.
* `flushTurn_fill_iff` — when the flush of a part of a fill surface writes its pattern in place.
-/

namespace AzaharPlus.Video

open Bytes BlockMemory Intervals

/-! ## Guest memory -/

/-- `memory_areas` of `MemorySystem::GetPhysicalRef`: first addresses and sizes. -/
def memoryAreas : List (Nat × Nat) :=
  [(0x18000000, 0x00600000), (0x1FF00000, 0x00080000), (0x20000000, 0x10000000),
    (0x1F000000, 0x00400000)]

/-- `MemorySystem::GetPhysicalRef`: how many bytes the reference has, `none` for `nullptr`. -/
def getPhysicalRef (address : Nat) : Option Nat :=
  (memoryAreas.find? fun area => area.1 ≤ address && address ≤ area.1 + area.2).map fun area =>
    area.1 + area.2 - address

/-- Guest memory has a byte at the address. -/
def IsGuest (address : Nat) : Prop :=
  ∃ area ∈ memoryAreas, area.1 ≤ address ∧ address < area.1 + area.2

/-- Bytes that are read through a reference. -/
def loadRef (mem : Memory) (start size offset n : Nat) : Option (List UInt8) :=
  if offset + n ≤ size then some (readBlock mem (start + offset) n) else none

/-- Bytes that are written through a reference. -/
def storeRef (mem : Memory) (start size offset : Nat) (data : List UInt8) (n : Nat) :
    Option Memory :=
  if offset + n ≤ size then some (writeBlock mem (start + offset) data n) else none

/-! ## Surfaces -/

/-- The fields of a fill surface, as `AccelerateFill` makes them. -/
structure FillSurface where
  addr : Nat
  «end» : Nat
  fillSize : Nat
  fillData : List UInt8
  size_ok : fillSize = 2 ∨ fillSize = 3 ∨ fillSize = 4

namespace FillSurface

variable (s : FillSurface)

theorem two_le_fillSize : 2 ≤ s.fillSize := by
  rcases s.size_ok with h | h | h <;> omega

/-- `start_offset` -/
def startOffset (interval : Interval) : Nat := interval.lower - s.addr

/-- `coarse_start_offset` -/
def coarseStartOffset (interval : Interval) : Nat :=
  s.startOffset interval - s.startOffset interval % s.fillSize

/-- `backup_bytes` -/
def backupBytes (interval : Interval) : Nat := s.startOffset interval % s.fillSize

/-- `download_size` -/
def downloadSize (interval : Interval) (size : Nat) : Nat :=
  min (interval.upper - interval.lower) size

/-- The loop of `DownloadFillSurface` over the offsets. -/
def fillLoop (start size downloadSize offset : Nat) (mem : Memory) : Option Memory :=
  if offset < downloadSize then
    (storeRef mem start size offset s.fillData (min s.fillSize (downloadSize - offset))).bind
      fun mem => fillLoop start size downloadSize (offset + s.fillSize) mem
  else some mem
termination_by downloadSize - offset
decreasing_by
  have := s.two_le_fillSize
  omega

/-- `DownloadFillSurface` -/
def downloadFillSurface (interval : Interval) (mem : Memory) : Option Memory :=
  if s.addr ≤ interval.lower ∧ interval.upper ≤ s.«end» then
    match getPhysicalRef interval.lower with
    | none => some mem
    | some size =>
        (if s.backupBytes interval ≠ 0 then
          loadRef mem interval.lower size (s.coarseStartOffset interval) (s.backupBytes interval)
        else some []).bind fun backupData =>
          (s.fillLoop interval.lower size (downloadSize interval size) (s.coarseStartOffset interval)
            mem).bind fun mem =>
              if s.backupBytes interval ≠ 0 then
                storeRef mem interval.lower size (s.coarseStartOffset interval) backupData
                  (s.backupBytes interval)
              else some mem
  else none

end FillSurface

/-- What `FlushRegion` looks at in a surface: `invalid_regions`, and its fields if it is a fill
surface. -/
structure CachedSurface where
  invalidRegions : IntervalSet
  fill : Option FillSurface

/-- What `FlushRegion` looks at in the cache: `dirty_regions` and `slot_surfaces`. -/
structure RasterizerCache where
  dirtyRegions : List (Interval × Nat)
  slotSurfaces : Nat → CachedSurface

/-- The part of a dirty region that is flushed. -/
def flushedInterval (region flushInterval : Interval) (size : Nat) : Interval :=
  if size ≤ 8 then region
  else ⟨max region.lower flushInterval.lower, min region.upper flushInterval.upper⟩

/-- One turn of the loop of `FlushRegion`: the memory and the intervals that are flushed. -/
def flushTurn (downloadLevels : Nat → Interval → Memory → Option Memory) (cache : RasterizerCache)
    (flushInterval : Interval) (size : Nat) (flushSurface : Option Nat)
    (s : Memory × IntervalSet) (entry : Interval × Nat) : Option (Memory × IntervalSet) :=
  if flushSurface.isSome && flushSurface ≠ some entry.2 then some s
  else
    let interval := flushedInterval entry.1 flushInterval size
    let surface := cache.slotSurfaces entry.2
    if surface.invalidRegions.intersects interval then none
    else
      (match surface.fill with
        | some fill => fill.downloadFillSurface interval s.1
        | none => downloadLevels entry.2 interval s.1).map fun mem => (mem, s.2.insert interval)

/-- `FlushRegion` -/
def flushRegion (downloadLevels : Nat → Interval → Memory → Option Memory) (cache : RasterizerCache)
    (addr size : Nat) (flushSurface : Option Nat) (mem : Memory) :
    Option (Memory × RasterizerCache) :=
  if size = 0 then some (mem, cache)
  else
    let flushInterval : Interval := ⟨addr, (addr + size) % 2 ^ 32⟩
    ((cache.dirtyRegions.filter fun entry =>
      entry.1.lower < flushInterval.upper && flushInterval.lower < entry.1.upper).foldlM
        (flushTurn downloadLevels cache flushInterval size flushSurface)
        (mem, IntervalSet.empty)).map fun s =>
      (s.1, { cache with
        dirtyRegions := cache.dirtyRegions.flatMap fun entry =>
          (s.2.blocks.foldl (fun l i => eraseList i l) [entry.1]).map (·, entry.2) })

/-! ## What a download writes -/

/-- A block that is guest memory lies in one area, and a reference to its start reaches its end. -/
theorem getPhysicalRef_of_guest {a b : Nat} (hlt : a < b) (h : ∀ p, a ≤ p → p < b → IsGuest p) :
    ∃ size, getPhysicalRef a = some size ∧ b - a ≤ size := by
  obtain ⟨area, harea, hlower, hupper⟩ := h a (Nat.le_refl a) hlt
  have hends : b ≤ area.1 + area.2 := by
    by_contra hbeyond
    -- behind an area there is no guest memory
    obtain ⟨next, hnext, hnextLower, hnextUpper⟩ := h (area.1 + area.2) (by omega) (by omega)
    simp only [memoryAreas, List.mem_cons, List.not_mem_nil, or_false] at harea hnext
    rcases harea with rfl | rfl | rfl | rfl <;> rcases hnext with rfl | rfl | rfl | rfl <;>
      simp only at hnextLower hnextUpper <;> omega
  refine ⟨area.1 + area.2 - a, ?_, by omega⟩
  simp only [memoryAreas, List.mem_cons, List.not_mem_nil, or_false] at harea
  rcases harea with rfl | rfl | rfl | rfl <;> simp only at hlower hupper <;>
    simp only [getPhysicalRef, memoryAreas, List.find?_cons] <;> grind

namespace FillSurface

variable (s : FillSurface)

/-- The loop fills the bytes behind its offset with the pattern. -/
theorem fillLoop_eq (start : Nat) {size downloadSize : Nat} (hsize : downloadSize ≤ size)
    (offset : Nat) (mem : Memory) :
    s.fillLoop start size downloadSize offset mem = some fun p =>
      if start + offset ≤ p ∧ p < start + downloadSize then
        byteAt s.fillData ((p - (start + offset)) % s.fillSize) else mem p := by
  have htwo := s.two_le_fillSize
  induction offset, mem using fillLoop.induct s downloadSize with
  | case1 offset mem hlt ih =>
    have hfits : offset + min s.fillSize (downloadSize - offset) ≤ size := by omega
    rw [fillLoop, if_pos hlt, storeRef, if_pos hfits, Option.bind_some, ih]
    refine congrArg some (funext fun p => ?_)
    by_cases hnext : start + (offset + s.fillSize) ≤ p ∧ p < start + downloadSize
    · have hmod : p - (start + offset) = p - (start + (offset + s.fillSize)) + s.fillSize := by
        omega
      rw [if_pos hnext, if_pos (by omega), hmod, Nat.add_mod_right]
    · rw [if_neg hnext, writeBlock]
      by_cases hhere : start + offset ≤ p ∧ p < start + downloadSize
      · rw [if_pos hhere, if_pos (by omega), Nat.mod_eq_of_lt (by omega)]
      · rw [if_neg hhere, if_neg (by omega)]
  | case2 offset mem hend =>
    rw [fillLoop, if_neg hend]
    refine congrArg some (funext fun p => ?_)
    rw [if_neg (by omega)]

theorem startOffset_eq (interval : Interval) :
    s.coarseStartOffset interval + s.backupBytes interval = s.startOffset interval :=
  Nat.sub_add_cancel (Nat.mod_le _ _)

/-- A download leaves as many bytes alone as lie in front of its start in the surface, and begins
the pattern anew a little earlier. -/
theorem downloadFillSurface_eq {interval : Interval} {size : Nat} (mem : Memory)
    (hlower : s.addr ≤ interval.lower) (hupper : interval.upper ≤ s.«end»)
    (href : getPhysicalRef interval.lower = some size)
    (hbackup : s.backupBytes interval = 0 ∨ s.startOffset interval ≤ size) :
    s.downloadFillSurface interval mem = some fun p =>
      if interval.lower + s.startOffset interval ≤ p ∧
          p < interval.lower + downloadSize interval size then
        byteAt s.fillData ((p - (interval.lower + s.coarseStartOffset interval)) % s.fillSize)
      else mem p := by
  have hoffset := s.startOffset_eq interval
  have hle : downloadSize interval size ≤ size := Nat.min_le_right _ size
  have hloop := s.fillLoop_eq interval.lower hle (s.coarseStartOffset interval) mem
  rw [downloadFillSurface, if_pos ⟨hlower, hupper⟩, href]
  simp only
  by_cases hwhole : s.backupBytes interval = 0
  · have hcoarse : s.coarseStartOffset interval = s.startOffset interval := by omega
    rw [if_neg (not_not_intro hwhole), Option.bind_some, hloop, Option.bind_some,
      if_neg (not_not_intro hwhole), hcoarse]
  · have hfits : s.coarseStartOffset interval + s.backupBytes interval ≤ size :=
      hoffset ▸ hbackup.resolve_left hwhole
    rw [if_pos hwhole, loadRef, if_pos hfits, Option.bind_some, hloop, Option.bind_some,
      if_pos hwhole, storeRef, if_pos hfits]
    refine congrArg some (funext fun p => ?_)
    rw [writeBlock]
    by_cases hsaved : interval.lower + s.coarseStartOffset interval ≤ p ∧
        p < interval.lower + s.coarseStartOffset interval + s.backupBytes interval
    · -- the bytes of the backup
      rw [if_pos hsaved, if_neg (by omega), byteAt_readBlock _ _ (by omega)]
      exact congrArg mem (by omega)
    · rw [if_neg hsaved]
      by_cases hfilled : interval.lower + s.startOffset interval ≤ p ∧
          p < interval.lower + downloadSize interval size
      · rw [if_pos hfilled, if_pos (by omega)]
      · rw [if_neg hfilled, if_neg (by omega)]

/-- The backup is taken as far behind the start as the start lies behind the surface's, which may be
outside the memory. -/
theorem downloadFillSurface_outside {interval : Interval} {size : Nat} (mem : Memory)
    (href : getPhysicalRef interval.lower = some size)
    (hwhole : s.backupBytes interval ≠ 0) (hsize : size < s.startOffset interval) :
    s.downloadFillSurface interval mem = none := by
  have hoffset := s.startOffset_eq interval
  by_cases hinside : s.addr ≤ interval.lower ∧ interval.upper ≤ s.«end»
  · rw [downloadFillSurface, if_pos hinside, href]
    simp only
    rw [if_pos hwhole, loadRef, if_neg (by omega), Option.bind_none]
  · rw [downloadFillSurface, if_neg hinside]

/-! ## When the pattern is in place -/

/-- The byte that the surface has at an address. -/
def pattern (p : Nat) : UInt8 := byteAt s.fillData ((p - s.addr) % s.fillSize)

/-- The pattern is in guest memory on an interval, and nothing else has changed. -/
def InPlace (interval : Interval) (mem mem' : Memory) : Prop :=
  (∀ p, interval.lower ≤ p → p < interval.upper → IsGuest p ∧ mem' p = s.pattern p) ∧
    ∀ p, ¬ (interval.lower ≤ p ∧ p < interval.upper) → mem' p = mem p

/-- The flush begins where the surface does, or its beginning does no harm: as many bytes as lie in
front of it in the surface hold the pattern already, the pattern is the same when it is moved by the
part of it that begins before the flush, and the backup of that part is in the memory. -/
structure Harmless (interval : Interval) (mem : Memory) : Prop where
  guest : ∀ p, interval.lower ≤ p → p < interval.upper → IsGuest p
  backup : s.backupBytes interval = 0 ∨
    ∀ size, getPhysicalRef interval.lower = some size → interval.lower - s.addr ≤ size
  first : ∀ p, interval.lower ≤ p → p < interval.upper →
    p < interval.lower + (interval.lower - s.addr) → mem p = s.pattern p
  rest : ∀ n < interval.upper - interval.lower - (interval.lower - s.addr),
    byteAt s.fillData ((n + s.backupBytes interval) % s.fillSize) =
      byteAt s.fillData ((n + 2 * s.backupBytes interval) % s.fillSize)

/-- A flush that begins where the surface does is harmless. -/
theorem harmless_of_eq {interval : Interval} {mem : Memory} (h : interval.lower = s.addr)
    (hguest : ∀ p, interval.lower ≤ p → p < interval.upper → IsGuest p) :
    s.Harmless interval mem := by
  have hzero : s.backupBytes interval = 0 := by
    rw [backupBytes, startOffset, h, Nat.sub_self, Nat.zero_mod]
  refine ⟨hguest, Or.inl hzero, fun p hlower _ hfirst => by omega, fun n _ => ?_⟩
  rw [hzero]

/-- The byte that the loop writes behind the backup, and the one that belongs there. -/
theorem pattern_behind {interval : Interval} (hlower : s.addr ≤ interval.lower) (n : Nat) :
    (interval.lower + s.startOffset interval + n -
        (interval.lower + s.coarseStartOffset interval)) % s.fillSize =
        (n + s.backupBytes interval) % s.fillSize ∧
      (interval.lower + s.startOffset interval + n - s.addr) % s.fillSize =
        (n + 2 * s.backupBytes interval) % s.fillSize := by
  have hoffset := s.startOffset_eq interval
  constructor
  · congr 1
    omega
  · have htwice : interval.lower + s.startOffset interval + n - s.addr =
        n + 2 * s.startOffset interval := by
      unfold startOffset
      omega
    rw [htwice, backupBytes, Nat.add_mod, Nat.mul_mod, Nat.add_mod n, Nat.mul_mod 2 (_ % _),
      Nat.mod_mod]

theorem downloadFillSurface_iff {interval : Interval} (mem : Memory)
    (hlower : s.addr ≤ interval.lower) (hlt : interval.lower < interval.upper)
    (hupper : interval.upper ≤ s.«end») :
    (∃ mem', s.downloadFillSurface interval mem = some mem' ∧ s.InPlace interval mem mem') ↔
      s.Harmless interval mem := by
  constructor
  · rintro ⟨mem', hdownload, hin, hout⟩
    have hguest := fun p h h' => (hin p h h').1
    obtain ⟨size, href, hsize⟩ := getPhysicalRef_of_guest hlt hguest
    have hbackup : s.backupBytes interval = 0 ∨ s.startOffset interval ≤ size := by
      by_contra hbad
      push Not at hbad
      rw [s.downloadFillSurface_outside mem href hbad.1 hbad.2] at hdownload
      cases hdownload
    have hfull : downloadSize interval size = interval.upper - interval.lower :=
      Nat.min_eq_left hsize
    rw [s.downloadFillSurface_eq mem hlower hupper href hbackup, hfull] at hdownload
    have hmem' := congrFun (Option.some.inj hdownload)
    refine ⟨hguest, hbackup.imp_right fun h size' h' => ?_, fun p h h' hfirst => ?_, fun n hn => ?_⟩
    · cases href.symm.trans h'
      exact h
    · have hp := hmem' p
      rw [if_neg (by unfold startOffset; omega), (hin p h h').2] at hp
      exact hp
    · obtain ⟨hwritten, hbelongs⟩ := s.pattern_behind hlower n
      have hp := hmem' (interval.lower + s.startOffset interval + n)
      have hrange : interval.lower + s.startOffset interval + n < interval.upper := by
        unfold startOffset
        omega
      rw [if_pos (by omega), (hin _ (by omega) hrange).2, hwritten] at hp
      rw [hp, pattern, hbelongs]
  · intro h
    obtain ⟨size, href, hsize⟩ := getPhysicalRef_of_guest hlt h.guest
    have hfull : downloadSize interval size = interval.upper - interval.lower :=
      Nat.min_eq_left hsize
    refine ⟨_, s.downloadFillSurface_eq mem hlower hupper href
      (h.backup.imp_right fun h => h size href), fun p hp hp' => ⟨h.guest p hp hp', ?_⟩, ?_⟩
    · simp only [hfull]
      by_cases hfirst : p < interval.lower + s.startOffset interval
      · rw [if_neg (by omega)]
        exact h.first p hp hp' hfirst
      · obtain ⟨n, rfl⟩ := Nat.exists_eq_add_of_le (Nat.le_of_not_lt hfirst)
        obtain ⟨hwritten, hbelongs⟩ := s.pattern_behind hlower n
        rw [if_pos (by omega), hwritten, pattern, hbelongs]
        exact h.rest n (by unfold startOffset at hp'; omega)
    · intro p hp
      simp only [hfull]
      rw [if_neg (by omega)]

end FillSurface

/-! ## A flush -/

/-- `FlushRegion` downloads the region of an entry: it is not skipped, and the surface is valid
there. -/
structure Downloads (cache : RasterizerCache) (flushInterval : Interval) (size : Nat)
    (flushSurface : Option Nat) (entry : Interval × Nat) : Prop where
  chosen : flushSurface = none ∨ flushSurface = some entry.2
  valid : (cache.slotSurfaces entry.2).invalidRegions.intersects
    (flushedInterval entry.1 flushInterval size) = false

/-- The turn of a fill surface is its download. -/
theorem flushTurn_fill {downloadLevels : Nat → Interval → Memory → Option Memory}
    {cache : RasterizerCache} {flushInterval : Interval} {size : Nat} {flushSurface : Option Nat}
    {entry : Interval × Nat} (h : Downloads cache flushInterval size flushSurface entry)
    {fill : FillSurface} (hfill : (cache.slotSurfaces entry.2).fill = some fill)
    (mem : Memory) (flushed : IntervalSet) :
    flushTurn downloadLevels cache flushInterval size flushSurface (mem, flushed) entry =
      (fill.downloadFillSurface (flushedInterval entry.1 flushInterval size) mem).map fun mem =>
        (mem, flushed.insert (flushedInterval entry.1 flushInterval size)) := by
  have hskip : ¬ ((flushSurface.isSome && flushSurface ≠ some entry.2) = true) := by
    rcases h.chosen with hnone | hsome
    · rw [hnone]
      simp
    · rw [hsome]
      simp
  rw [flushTurn, if_neg hskip]
  simp only [h.valid, hfill]
  rfl

/-- Every turn of a flush that downloads a part of a fill surface puts the pattern in place there,
and changes nothing else, if and only if the download is harmless. -/
theorem flushTurn_fill_iff (downloadLevels : Nat → Interval → Memory → Option Memory)
    (cache : RasterizerCache) (flushInterval : Interval) (size : Nat) (flushSurface : Option Nat)
    (entry : Interval × Nat) (h : Downloads cache flushInterval size flushSurface entry)
    (fill : FillSurface) (hfill : (cache.slotSurfaces entry.2).fill = some fill)
    (hlower : fill.addr ≤ (flushedInterval entry.1 flushInterval size).lower)
    (hlt : (flushedInterval entry.1 flushInterval size).lower <
      (flushedInterval entry.1 flushInterval size).upper)
    (hupper : (flushedInterval entry.1 flushInterval size).upper ≤ fill.«end»)
    (mem : Memory) (flushed : IntervalSet) :
    (∃ s, flushTurn downloadLevels cache flushInterval size flushSurface (mem, flushed) entry =
        some s ∧ fill.InPlace (flushedInterval entry.1 flushInterval size) mem s.1) ↔
      fill.Harmless (flushedInterval entry.1 flushInterval size) mem := by
  rw [flushTurn_fill h hfill, ← fill.downloadFillSurface_iff mem hlower hlt hupper]
  constructor
  · rintro ⟨s, hturn, hplace⟩
    obtain ⟨mem', hdownload, rfl⟩ := Option.map_eq_some_iff.1 hturn
    exact ⟨mem', hdownload, hplace⟩
  · rintro ⟨mem', hdownload, hplace⟩
    rw [hdownload]
    exact ⟨_, rfl, hplace⟩

/-! ## A fill of 64 bytes -/

/-- 64 bytes of video memory, filled with a pattern of two bytes. -/
def smallFill : FillSurface := ⟨0x18000000, 0x18000040, 2, [1, 2, 0, 0], Or.inl rfl⟩

/-- A cache that has nothing but that surface. -/
def smallCache : RasterizerCache where
  dirtyRegions := [(⟨0x18000000, 0x18000040⟩, 1)]
  slotSurfaces := fun _ => ⟨IntervalSet.empty, some smallFill⟩

theorem flushTurn_small :
    ∃ s, flushTurn (fun _ _ mem => some mem) smallCache ⟨0x18000000, 0x18000010⟩ 16 none
        (fun _ => 0, IntervalSet.empty) (⟨0x18000000, 0x18000040⟩, 1) = some s ∧
      smallFill.InPlace ⟨0x18000000, 0x18000010⟩ (fun _ => 0) s.1 := by
  refine (flushTurn_fill_iff (fun _ _ mem => some mem) smallCache ⟨0x18000000, 0x18000010⟩ 16 none
    (⟨0x18000000, 0x18000040⟩, 1) ⟨Or.inl rfl, rfl⟩ smallFill rfl (by decide) (by decide)
    (by decide) (fun _ => 0) IntervalSet.empty).2 (smallFill.harmless_of_eq rfl fun p h h' => ?_)
  exact ⟨(0x18000000, 0x00600000), List.mem_cons_self, h, by
    have hend : p < 0x18000010 := h'
    omega⟩

/-- Sixteen bytes from the sixteenth on are flushed: nothing is written. -/
theorem flushRegion_behind :
    flushedInterval ⟨0x18000000, 0x18000040⟩ ⟨0x18000010, 0x18000020⟩ 16 =
        ⟨0x18000010, 0x18000020⟩ ∧
      ∃ s, flushRegion (fun _ _ mem => some mem) smallCache 0x18000010 16 none (fun _ => 0) =
          some s ∧ ¬ smallFill.InPlace ⟨0x18000010, 0x18000020⟩ (fun _ => 0) s.1 := by
  have hread : ((flushRegion (fun _ _ mem => some mem) smallCache 0x18000010 16 none
      (fun _ => 0)).map fun s => s.1 0x18000010) = some 0 := by
    decide +kernel
  obtain ⟨s, hflush, hzero⟩ := Option.map_eq_some_iff.1 hread
  refine ⟨by decide, s, hflush, fun hplace => ?_⟩
  have hone := (hplace.1 0x18000010 (by decide) (by decide)).2
  rw [hzero] at hone
  exact absurd hone (by decide)

end AzaharPlus.Video

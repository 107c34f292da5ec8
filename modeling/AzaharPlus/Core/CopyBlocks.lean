import AzaharPlus.Core.WordAccess

/-!
# Copying between two address spaces

`CopyBlock` goes through the source page by page and hands each piece to `WriteBlock` or
`ZeroBlock`, which cut it again at the pages of the destination.  Seen through the two page tables
it is one read followed by one write.

* `zeroBlock_eq`, `writeBlockFrom_eq` — zeroing is a write of zeros, and a write from host memory is
  one of its bytes, as long as it does not reach them;
* `copyBlock_reads_then_writes` — a copy between ranges that share no memory.
-/

namespace AzaharPlus.Core

open Kernel Bytes BlockMemory Lib.MappedMemory

/-! ## The loops -/

section Loops

variable (dev : Devices) (pages : GuestPages dev.pluginFb)

/-- One turn of the loop of `ZeroBlock`. -/
def zeroPage (s : HostState) (page offset amount : Nat) : HostState :=
  match (pages.table s.marked).attributes page with
  | .unmapped => s
  | .memory =>
      match (pages.table s.marked).pointers page with
      | some r => s.copyTo ((place r).shift offset) (List.replicate amount 0)
      | none => s
  | .rasterizerCachedMemory =>
      match getPointerForRasterizerCache dev.pluginFb (page * citraPageSize + offset) with
      | some p =>
          (dev.invalidate s (page * citraPageSize + offset) amount).copyTo p
            (List.replicate amount 0)
      | none => dev.invalidate s (page * citraPageSize + offset) amount

/-- The loop of `ZeroBlock`, with at most `turns` turns. -/
def zeroBlockLoop : Nat → HostState → Nat → Nat → Nat → HostState
  | 0, s, _, _, _ => s
  | turns + 1, s, page, offset, remaining =>
      if remaining = 0 then s
      else
        zeroBlockLoop turns
          (zeroPage dev pages s page offset (min (citraPageSize - offset) remaining))
          (page + 1) 0 (remaining - min (citraPageSize - offset) remaining)

/-- `ZeroBlock` -/
def zeroBlock (s : HostState) (vaddr size : Nat) : HostState :=
  zeroBlockLoop dev pages size s (vaddr / citraPageSize) (vaddr % citraPageSize) size

/-- The loop of `WriteBlockImpl` on a buffer that is itself host memory: every turn copies from
what is there by then. -/
def writeBlockFromLoop : Nat → HostState → Nat → Nat → Place → Nat → HostState
  | 0, s, _, _, _, _ => s
  | turns + 1, s, page, offset, p, remaining =>
      if remaining = 0 then s
      else
        writeBlockFromLoop turns
          (writePage dev pages s page offset
            (s.copyFrom p (min (citraPageSize - offset) remaining)))
          (page + 1) 0 (p.shift (min (citraPageSize - offset) remaining))
          (remaining - min (citraPageSize - offset) remaining)

/-- `WriteBlock` with a pointer into host memory. -/
def writeBlockFrom (s : HostState) (vaddr : Nat) (p : Place) (size : Nat) : HostState :=
  writeBlockFromLoop dev pages size s (vaddr / citraPageSize) (vaddr % citraPageSize) p size

end Loops

section Copy

variable (dev : Devices) (destPages srcPages : GuestPages dev.pluginFb)

/-- One turn of the loop of `CopyBlock`. -/
def copyPage (s : HostState) (dest page offset amount : Nat) : HostState :=
  match (srcPages.table s.marked).attributes page with
  | .unmapped => zeroBlock dev destPages s dest amount
  | .memory =>
      match (srcPages.table s.marked).pointers page with
      | some r => writeBlockFrom dev destPages s dest ((place r).shift offset) amount
      | none => s
  | .rasterizerCachedMemory =>
      match getPointerForRasterizerCache dev.pluginFb (page * citraPageSize + offset) with
      | some p =>
          writeBlockFrom dev destPages (dev.flush s (page * citraPageSize + offset) amount) dest p
            amount
      | none => dev.flush s (page * citraPageSize + offset) amount

/-- The loop of `CopyBlock`, with at most `turns` turns; the destination is a 32-bit address. -/
def copyBlockLoop : Nat → HostState → Nat → Nat → Nat → Nat → HostState
  | 0, s, _, _, _, _ => s
  | turns + 1, s, dest, page, offset, remaining =>
      if remaining = 0 then s
      else
        copyBlockLoop turns
          (copyPage dev destPages srcPages s dest page offset
            (min (citraPageSize - offset) remaining))
          ((dest + min (citraPageSize - offset) remaining) % 2 ^ 32) (page + 1) 0
          (remaining - min (citraPageSize - offset) remaining)

/-- `CopyBlock` -/
def copyBlock (s : HostState) (dest src size : Nat) : HostState :=
  copyBlockLoop dev destPages srcPages size s dest (src / citraPageSize) (src % citraPageSize) size

end Copy

variable {dev : Devices} {pages : GuestPages dev.pluginFb}

/-! ## Zeros and host memory as the data of a write -/

/-- Zeroing a page writes zeros to it. -/
theorem zeroPage_eq (s : HostState) (page offset amount : Nat) :
    zeroPage dev pages s page offset amount =
      writePage dev pages s page offset (List.replicate amount 0) := by
  cases hattributes : (pages.table s.marked).attributes page with
  | unmapped => simp only [zeroPage, writePage, hattributes]
  | memory => cases hpointer : (pages.table s.marked).pointers page <;>
      simp [zeroPage, writePage, hattributes, hpointer]
  | rasterizerCachedMemory =>
    cases hpointer : getPointerForRasterizerCache dev.pluginFb (page * citraPageSize + offset) <;>
      simp [zeroPage, writePage, hattributes, hpointer]

theorem zeroBlockLoop_eq (turns : Nat) (s : HostState) (page offset n : Nat) :
    zeroBlockLoop dev pages turns s page offset n =
      writeBlockLoop dev pages turns s page offset (List.replicate n 0) := by
  induction turns generalizing s page offset n with
  | zero => rfl
  | succ turns ih =>
    by_cases hn : n = 0
    · rw [zeroBlockLoop, if_pos hn, writeBlockLoop, if_pos (by rw [hn]; rfl)]
    · rw [zeroBlockLoop, if_neg hn, writeBlockLoop, if_neg (by simpa using hn), ih, zeroPage_eq,
        List.take_replicate, List.drop_replicate]
      congr 2
      omega

/-- Zeroing a block writes zeros to it. -/
theorem zeroBlock_eq (s : HostState) (a n : Nat) :
    zeroBlock dev pages s a n = writeBlock dev pages s a (List.replicate n 0) := by
  rw [zeroBlock, zeroBlockLoop_eq, writeBlock, List.length_replicate]

@[simp] theorem length_copyFrom (s : HostState) (p : Place) (n : Nat) :
    (s.copyFrom p n).length = n :=
  length_readBlock _ _ _

theorem writeBlockFromLoop_next (turns : Nat) (s : HostState) (a : Nat) (p : Place) (n : Nat) :
    writeBlockFromLoop dev pages turns s (a / citraPageSize + 1) 0 p
        (n - min (citraPageSize - a % citraPageSize) n) =
      writeBlockFromLoop dev pages turns s
        ((a + min (citraPageSize - a % citraPageSize) n) / citraPageSize)
        ((a + min (citraPageSize - a % citraPageSize) n) % citraPageSize) p
        (n - min (citraPageSize - a % citraPageSize) n) := by
  rcases next_page a n with hrest | ⟨hdiv, hmod⟩
  · rw [hrest]
    cases turns <;> simp [writeBlockFromLoop]
  · rw [hdiv, hmod]

/-- A buffer in memory that the write does not reach is written as it was before, if the rasterizer
has nothing newer for it. -/
theorem writeBlockFromLoop_eq {turns : Nat} {s : HostState} {a n : Nat} {p : Place}
    (hturns : n ≤ turns) (hclean : Unpending pages s a n)
    (hbuffer : ∀ j < n, s.newerAt (p.shift j) = none)
    (hapart : ∀ i < n, ∀ j < n, pages.target (a + i) ≠ some (p.shift j)) :
    writeBlockFromLoop dev pages turns s (a / citraPageSize) (a % citraPageSize) p n =
      writeBlockLoop dev pages turns s (a / citraPageSize) (a % citraPageSize)
        (s.copyFrom p n) := by
  induction turns generalizing s a n p with
  | zero => rfl
  | succ turns ih =>
    by_cases hn : n = 0
    · rw [writeBlockFromLoop, if_pos hn, writeBlockLoop, if_pos]
      rw [← List.length_eq_zero_iff, length_copyFrom]
      exact hn
    · have hlt : a % citraPageSize < citraPageSize := Nat.mod_lt a (by decide)
      have hne : s.copyFrom p n ≠ [] := by
        rw [← List.length_pos_iff, length_copyFrom]
        omega
      rw [writeBlockFromLoop, if_neg hn, writeBlockFromLoop_next, writeBlockLoop, if_neg hne,
        writeBlockLoop_next, length_copyFrom]
      obtain ⟨k, hk⟩ : ∃ k, k = min (citraPageSize - a % citraPageSize) n := ⟨_, rfl⟩
      have hcut : (s.copyFrom p n).take (citraPageSize - a % citraPageSize) = s.copyFrom p k ∧
          (s.copyFrom p n).drop (citraPageSize - a % citraPageSize) =
            s.copyFrom (p.shift k) (n - k) := by
        have hsplit := s.copyFrom_add p k (n - k)
        rw [Nat.add_sub_cancel' (by omega)] at hsplit
        by_cases hle : n ≤ citraPageSize - a % citraPageSize
        · have hkn : k = n := by omega
          subst hkn
          rw [List.take_of_length_le (by rwa [length_copyFrom]),
            List.drop_of_length_le (by rwa [length_copyFrom]), Nat.sub_self]
          exact ⟨rfl, rfl⟩
        · have hkp : citraPageSize - a % citraPageSize = (s.copyFrom p k).length := by
            rw [length_copyFrom]
            omega
          rw [hkp, hsplit, List.take_left, List.drop_left]
          exact ⟨rfl, rfl⟩
      rw [hcut.1, hcut.2, ← hk]
      obtain ⟨l, rfl⟩ : ∃ l, n = k + l := ⟨n - k, by omega⟩
      rw [Nat.add_sub_cancel_left]
      have hfit : a % citraPageSize + (s.copyFrom p k).length ≤ citraPageSize := by
        rw [length_copyFrom]
        omega
      have hleft : Unpending pages s a (s.copyFrom p k).length := by
        rw [length_copyFrom]
        exact hclean.left
      obtain ⟨-, hset, hbyte⟩ := writePage_seen (inPiece_of_fit hfit) (covered_of_fit hleft hfit)
      rw [length_copyFrom] at hbyte
      have hrest : ∀ i < l, s.newerAt ((p.shift k).shift i) = none := by
        intro i hi
        rw [shift_shift]
        exact hbuffer (k + i) (by omega)
      rw [ih (a := a + k) (by omega) (hclean.right.settles hset) fun i hi =>
        hset.settled _ (hrest i hi)]
      · rw [HostState.copyFrom_congr fun i hi => hbyte _ (hrest i hi) fun j hj => ?_]
        rw [shift_shift]
        exact hapart j (by omega) (k + i) (by omega)
      · intro i hi j hj
        rw [Nat.add_assoc, shift_shift]
        exact hapart (k + i) (by omega) (k + j) (by omega)

theorem writeBlockFrom_eq {s : HostState} {a n : Nat} {p : Place} (hclean : Unpending pages s a n)
    (hbuffer : ∀ j < n, s.newerAt (p.shift j) = none)
    (hapart : ∀ i < n, ∀ j < n, pages.target (a + i) ≠ some (p.shift j)) :
    writeBlockFrom dev pages s a p n = writeBlock dev pages s a (s.copyFrom p n) := by
  rw [writeBlockFrom, writeBlockFromLoop_eq (Nat.le_refl n) hclean hbuffer hapart, writeBlock,
    length_copyFrom]

/-! ## The copy -/

section Copy

variable {destPages srcPages : GuestPages dev.pluginFb}

/-- The source and the destination share no memory. -/
def Apart (destPages srcPages : GuestPages dev.pluginFb) (dest src size : Nat) : Prop :=
  ∀ i < size, ∀ j < size, ∀ p, srcPages.target (src + i) = some p →
    destPages.target (dest + j) ≠ some p

/-- One turn copies the bytes of one page of the source. -/
theorem copyPage_seen {s : HostState} {dest src n : Nat}
    (hfit : src % citraPageSize + n ≤ citraPageSize) (hsrc : Unpending srcPages s src n)
    (hdest : Unpending destPages s dest n) (hapart : Apart destPages srcPages dest src n) :
    (copyPage dev destPages srcPages s dest (src / citraPageSize) (src % citraPageSize) n).current =
        putBytes destPages.target s.current dest (seeBytes 0 srcPages.target s.current src n) ∧
      Settles dev.pluginFb s
        (copyPage dev destPages srcPages s dest (src / citraPageSize) (src % citraPageSize) n) := by
  have hpiece : InPiece srcPages src n := inPiece_of_fit hfit
  have hcovered : Covered srcPages s src n := covered_of_fit hsrc hfit
  obtain ⟨hdata, hcurrent, hset⟩ := readPage_seen hpiece hcovered
  -- the turn is a read of the page and a write of what was read
  suffices heq : copyPage dev destPages srcPages s dest (src / citraPageSize)
      (src % citraPageSize) n =
      writeBlock dev destPages
        (readPage dev srcPages s (src / citraPageSize) (src % citraPageSize) n).2 dest
        (readPage dev srcPages s (src / citraPageSize) (src % citraPageSize) n).1 by
    have hclean : Unpending destPages
        (readPage dev srcPages s (src / citraPageSize) (src % citraPageSize) n).2 dest
        (readPage dev srcPages s (src / citraPageSize) (src % citraPageSize) n).1.length := by
      rw [hdata, length_seeBytes]
      exact hdest.settles hset
    obtain ⟨hwritten, hset'⟩ := writeBlock_seen hclean
    rw [heq]
    exact ⟨by rw [hwritten, hdata, hcurrent], hset.trans hset'⟩
  rcases srcPages.page_cases s.marked (src / citraPageSize) with
    ⟨ha, -, -⟩ | ⟨r, ha, hr, h₁⟩ | ⟨p, ha, -, hp, h₁⟩
  · rw [readPage_unmapped ha, copyPage, ha]
    exact zeroBlock_eq s dest n
  · have htarget := fun j => hpiece.target h₁ (i := j)
    rw [readPage_memory ha hr, copyPage, ha]
    simp only [hr]
    exact writeBlockFrom_eq hdest (fun j hj => hcovered.of_memory ha hj (htarget j hj))
      fun i hi j hj => hapart j hj i hi _ (htarget j hj)
  · have htarget := fun j => hpiece.target h₁ (i := j)
    rw [readPage_cached ha hp, copyPage, ha, vaddr_eq, pointer_of_page hp]
    refine writeBlockFrom_eq (hdest.settles (settles_flush s _ _)) (fun j hj => ?_)
      fun i hi j hj => hapart j hj i hi _ (htarget j hj)
    -- the flush has written back what was newer for the page
    rcases hcovered j hj _ (htarget j hj) with hnone | ⟨-, hin⟩
    · exact dev.flush_none _ _ _ _ hnone
    · exact dev.flush_region _ _ _ _ hin

theorem copyBlockLoop_next (turns : Nat) (s : HostState) (dest a n : Nat) :
    copyBlockLoop dev destPages srcPages turns s dest (a / citraPageSize + 1) 0
        (n - min (citraPageSize - a % citraPageSize) n) =
      copyBlockLoop dev destPages srcPages turns s dest
        ((a + min (citraPageSize - a % citraPageSize) n) / citraPageSize)
        ((a + min (citraPageSize - a % citraPageSize) n) % citraPageSize)
        (n - min (citraPageSize - a % citraPageSize) n) := by
  rcases next_page a n with hrest | ⟨hdiv, hmod⟩
  · rw [hrest]
    cases turns <;> simp [copyBlockLoop]
  · rw [hdiv, hmod]

theorem copyBlockLoop_zero (turns : Nat) (s : HostState) (dest page offset : Nat) :
    copyBlockLoop dev destPages srcPages turns s dest page offset 0 = s := by
  cases turns <;> simp [copyBlockLoop]

/-- A copy puts the bytes of the whole source into the destination. -/
theorem copyBlockLoop_seen {turns : Nat} {s : HostState} {dest src n : Nat} (hturns : n ≤ turns)
    (hend : dest + n ≤ 2 ^ 32) (hsrc : Unpending srcPages s src n)
    (hdest : Unpending destPages s dest n) (hapart : Apart destPages srcPages dest src n) :
    (copyBlockLoop dev destPages srcPages turns s dest (src / citraPageSize) (src % citraPageSize)
        n).current =
      putBytes destPages.target s.current dest (seeBytes 0 srcPages.target s.current src n) ∧
    Settles dev.pluginFb s (copyBlockLoop dev destPages srcPages turns s dest (src / citraPageSize)
      (src % citraPageSize) n) := by
  induction turns generalizing s dest src n with
  | zero =>
    rw [Nat.le_zero.1 hturns]
    exact ⟨rfl, Settles.refl _ s⟩
  | succ turns ih =>
    by_cases hn : n = 0
    · rw [copyBlockLoop, if_pos hn, hn]
      exact ⟨rfl, Settles.refl _ s⟩
    · have hlt : src % citraPageSize < citraPageSize := Nat.mod_lt src (by decide)
      rw [copyBlockLoop, if_neg hn, copyBlockLoop_next]
      obtain ⟨k, hk⟩ : ∃ k, k = min (citraPageSize - src % citraPageSize) n := ⟨_, rfl⟩
      rw [← hk]
      obtain ⟨l, rfl⟩ : ∃ l, n = k + l := ⟨n - k, by omega⟩
      rw [Nat.add_sub_cancel_left]
      obtain ⟨hcurrent, hset⟩ := copyPage_seen (by omega) hsrc.left hdest.left
        fun i hi j hj => hapart i (by omega) j (by omega)
      by_cases hl : l = 0
      · subst hl
        rw [copyBlockLoop_zero]
        exact ⟨hcurrent, hset⟩
      · have hdest32 : (dest + k) % 2 ^ 32 = dest + k := Nat.mod_eq_of_lt (by omega)
        rw [hdest32]
        have hapart' : Apart destPages srcPages (dest + k) (src + k) l := by
          intro i hi j hj p hp
          rw [Nat.add_assoc] at hp ⊢
          exact hapart (k + i) (by omega) (k + j) (by omega) p hp
        obtain ⟨hcurrent', hset'⟩ := @ih _ (dest + k) (src + k) l (by omega) (by omega)
          (hsrc.right.settles hset) (hdest.right.settles hset) hapart'
        refine ⟨?_, hset.trans hset'⟩
        rw [hcurrent', hcurrent, seeBytes_putBytes, seeBytes_add, putBytes_append,
          length_seeBytes]
        intro i hi j hj p hp
        rw [length_seeBytes] at hj
        rw [Nat.add_assoc] at hp
        exact hapart (k + i) (by omega) j (by omega) p hp

theorem copyBlock_seen {s : HostState} {dest src n : Nat} (hend : dest + n ≤ 2 ^ 32)
    (hsrc : Unpending srcPages s src n) (hdest : Unpending destPages s dest n)
    (hapart : Apart destPages srcPages dest src n) :
    (copyBlock dev destPages srcPages s dest src n).current =
        putBytes destPages.target s.current dest (seeBytes 0 srcPages.target s.current src n) ∧
      Settles dev.pluginFb s (copyBlock dev destPages srcPages s dest src n) :=
  copyBlockLoop_seen (Nat.le_refl n) hend hsrc hdest hapart

end Copy
end AzaharPlus.Core

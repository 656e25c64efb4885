import Linux011.Buffer.Init
import Linux011.Mm.PageCount

/-!
# Who owns the memory (`main` in `init/main.c`, `mem_init` in `mm/memory.c`)

`main` asks the BIOS how much memory there is, and divides it. The kernel comes first, then the buffers, up
to 1MB, 2MB or 4MB; then the RAM disk, if there is one; and the rest is handed out in pages.

The numbers are those of the code, with 32 bits. `mem_init` rounds the beginning of the pages down, and
their number too. So the first page meets the RAM disk unless that ends at a page, and the last one is not
used.
-/

namespace Linux011.Boot

open Buffer.Init (Addr Region BufferHead Memory memoryEnd bufferMemoryEnd)

/-- `main_memory_start`; `RAMDISK` is 0 when it is not defined. -/
def mainMemoryStart (extMemK : BitVec 16) (ramdisk : Nat) : Addr :=
  bufferMemoryEnd extMemK + .ofNat 32 (ramdisk * 1024)

/-- What `mem_init` makes of `mem_map`. -/
def memInit (startMem endMem : Addr) : Nat → Nat :=
  let i := (startMem - 0x100000).sshiftRight 12
  let n := (endMem - startMem).sshiftRight 12
  Mm.clearCounts (fun _ => Mm.used) i.toNat n.toInt.toNat

/-- The memory behind `mem_init`. -/
def mainMem (extMemK : BitVec 16) (ramdisk : Nat) (m : Mm.Mem) : Mm.Mem :=
  { Mm.setupPaging m with
    highMemory := (memoryEnd extMemK).toNat / 4096
    memMap := memInit (mainMemoryStart extMemK ramdisk) (memoryEnd extMemK) }

/-! ## The numbers -/

variable {extMemK : BitVec 16} {ramdisk : Nat} {start : Addr}

theorem mask_page (x : Addr) : x &&& (0xfffff000 : Addr) = (x >>> 12) <<< 12 := by
  have hmask : ∀ i < 32, (0xfffff000 : Addr).getLsbD i = decide (12 ≤ i) := by decide
  apply BitVec.eq_of_getLsbD_eq
  intro i hi
  rw [BitVec.getLsbD_and, hmask i hi, BitVec.getLsbD_shiftLeft, BitVec.getLsbD_ushiftRight]
  by_cases h : 12 ≤ i
  · simp [h, hi, Nat.not_lt.mpr h, Nat.add_sub_cancel' h]
  · simp [h]

/-- The memory ends at a page, between 1MB and 16MB. -/
theorem memoryEnd_bounds (extMemK : BitVec 16) : 0x100000 ≤ (memoryEnd extMemK).toNat ∧
    (memoryEnd extMemK).toNat ≤ 0x1000000 ∧ (memoryEnd extMemK).toNat % 4096 = 0 := by
  have hext := extMemK.isLt
  have hsum : (((1 : Addr) <<< 20) + (extMemK.zeroExtend 32 <<< 10)).toNat = 0x100000 + extMemK.toNat * 1024 := by
    have hone : ((1 : Addr) <<< 20).toNat = 0x100000 := by decide
    rw [BitVec.toNat_add, hone, BitVec.toNat_shiftLeft, BitVec.zeroExtend_eq_setWidth,
      BitVec.toNat_setWidth, Nat.shiftLeft_eq]
    omega
  have hmask : ((((1 : Addr) <<< 20) + (extMemK.zeroExtend 32 <<< 10)) &&& 0xfffff000).toNat
      = (0x100000 + extMemK.toNat * 1024) / 4096 * 4096 := by
    rw [mask_page, BitVec.toNat_shiftLeft, BitVec.toNat_ushiftRight, hsum, Nat.shiftRight_eq_div_pow,
      Nat.shiftLeft_eq]
    omega
  unfold memoryEnd
  dsimp only
  split
  · decide
  · next hslt =>
    rw [BitVec.slt_iff_toInt_lt, BitVec.toInt_eq_toNat_of_lt (by decide),
      BitVec.toInt_eq_toNat_of_lt (by rw [hmask]; omega)] at hslt
    rw [hmask] at hslt ⊢
    have h16 : ((16 * 1024 * 1024 : Addr)).toNat = 0x1000000 := by decide
    rw [h16] at hslt
    omega

theorem slt_memoryEnd {x : Addr} (hx : 2 * x.toNat < 2 ^ 32) :
    x.slt (memoryEnd extMemK) = true ↔ x.toNat < (memoryEnd extMemK).toNat := by
  have hbounds := memoryEnd_bounds extMemK
  rw [BitVec.slt_iff_toInt_lt, BitVec.toInt_eq_toNat_of_lt hx, BitVec.toInt_eq_toNat_of_lt (by omega)]
  omega

/-- The buffers end at a page, in the memory. -/
theorem bufferMemoryEnd_bounds (extMemK : BitVec 16) : 0x100000 ≤ (bufferMemoryEnd extMemK).toNat ∧
    (bufferMemoryEnd extMemK).toNat ≤ (memoryEnd extMemK).toNat ∧
    (bufferMemoryEnd extMemK).toNat % 4096 = 0 := by
  have hbounds := memoryEnd_bounds extMemK
  unfold bufferMemoryEnd
  split
  · next h =>
    have hlt := (slt_memoryEnd (by decide)).mp h
    have h12 : ((12 * 1024 * 1024 : Addr)).toNat = 0xC00000 := by decide
    have h4 : ((4 * 1024 * 1024 : Addr)).toNat = 0x400000 := by decide
    omega
  · split
    · next h =>
      have hlt := (slt_memoryEnd (by decide)).mp h
      have h6 : ((6 * 1024 * 1024 : Addr)).toNat = 0x600000 := by decide
      have h2 : ((2 * 1024 * 1024 : Addr)).toNat = 0x200000 := by decide
      omega
    · have h1 : ((1 * 1024 * 1024 : Addr)).toNat = 0x100000 := by decide
      omega

/-- The RAM disk fits in the memory. -/
def Fits (extMemK : BitVec 16) (ramdisk : Nat) : Prop :=
  (bufferMemoryEnd extMemK).toNat + ramdisk * 1024 ≤ (memoryEnd extMemK).toNat

theorem mainMemoryStart_toNat (h : Fits extMemK ramdisk) :
    (mainMemoryStart extMemK ramdisk).toNat = (bufferMemoryEnd extMemK).toNat + ramdisk * 1024 := by
  have hbounds := memoryEnd_bounds extMemK
  unfold Fits at h
  rw [mainMemoryStart, BitVec.toNat_add, BitVec.toNat_ofNat]
  omega

/-- Where `mem_init` begins. -/
theorem startNr (hfits : Fits extMemK ramdisk) :
    ((mainMemoryStart extMemK ramdisk - 0x100000).sshiftRight 12).toNat
      = Mm.mapNr ((mainMemoryStart extMemK ramdisk).toNat / 4096) := by
  obtain ⟨-, htop, -⟩ := memoryEnd_bounds extMemK
  obtain ⟨hbuffer, -, -⟩ := bufferMemoryEnd_bounds extMemK
  have hstart := mainMemoryStart_toNat hfits
  unfold Fits at hfits
  have hi : (mainMemoryStart extMemK ramdisk - 0x100000).toNat
      = (mainMemoryStart extMemK ramdisk).toNat - 0x100000 := by
    have hlowMem : ((0x100000 : Addr)).toNat = 0x100000 := by decide
    rw [BitVec.toNat_sub, hlowMem]
    omega
  rw [BitVec.sshiftRight_eq_of_msb_false (BitVec.msb_eq_false_iff_two_mul_lt.mpr (by omega)),
    BitVec.toNat_ushiftRight, hi, Nat.shiftRight_eq_div_pow, Mm.mapNr, Mm.lowMem]
  omega

/-- How many pages it makes free. -/
theorem pages_count (hfits : Fits extMemK ramdisk) :
    ((memoryEnd extMemK - mainMemoryStart extMemK ramdisk).sshiftRight 12).toInt.toNat
      = ((memoryEnd extMemK).toNat - (mainMemoryStart extMemK ramdisk).toNat) / 4096 := by
  obtain ⟨-, htop, -⟩ := memoryEnd_bounds extMemK
  have hstart := mainMemoryStart_toNat hfits
  unfold Fits at hfits
  have hn : (memoryEnd extMemK - mainMemoryStart extMemK ramdisk).toNat
      = (memoryEnd extMemK).toNat - (mainMemoryStart extMemK ramdisk).toNat := by
    rw [BitVec.toNat_sub]
    omega
  rw [BitVec.toInt_sshiftRight, BitVec.toInt_eq_toNat_of_lt (by omega), Int.shiftRight_eq_div_pow, hn]
  norm_cast

/-- `mem_init` counts in pages when the RAM disk ends at one. -/
theorem mainMem_eq (hfits : Fits extMemK ramdisk) (hpage : ramdisk % 4 = 0) (m : Mm.Mem) :
    mainMem extMemK ramdisk m
      = Mm.boot ((mainMemoryStart extMemK ramdisk).toNat / 4096) ((memoryEnd extMemK).toNat / 4096) m := by
  obtain ⟨-, -, hend⟩ := memoryEnd_bounds extMemK
  obtain ⟨-, -, hbufferPage⟩ := bufferMemoryEnd_bounds extMemK
  have hstart := mainMemoryStart_toNat hfits
  have hcount : ((memoryEnd extMemK).toNat - (mainMemoryStart extMemK ramdisk).toNat) / 4096
      = (memoryEnd extMemK).toNat / 4096 - (mainMemoryStart extMemK ramdisk).toNat / 4096 := by
    omega
  unfold mainMem Mm.boot Mm.memInit memInit
  dsimp only
  rw [startNr hfits, pages_count hfits, hcount]

/-! ## The owners -/

/-- A page of the memory. -/
def pageRegion (f : Nat) : Region := ⟨4096 * f, 4096⟩

def kernelRegion (start : Addr) : Region := ⟨0, start.toNat⟩

def ramDiskRegion (extMemK : BitVec 16) (ramdisk : Nat) : Region :=
  ⟨(bufferMemoryEnd extMemK).toNat, ramdisk * 1024⟩

/-- The kernel, the buffers with their heads, and the RAM disk. -/
def owned (extMemK : BitVec 16) (ramdisk : Nat) (start : Addr) (m : Memory) : List Region :=
  kernelRegion start :: (m.regions start ++ [ramDiskRegion extMemK ramdisk])

/-- There is a buffer head behind the kernel. -/
theorem start_le {m : Memory} (hlaid : m.Laid start (bufferMemoryEnd extMemK)) :
    start.toNat ≤ (bufferMemoryEnd extMemK).toNat := by
  have hfirst : Memory.headRegion start 0 ∈ m.regions start :=
    List.mem_append_left _ (List.mem_map.mpr ⟨0, List.mem_range.mpr hlaid.pos, rfl⟩)
  obtain ⟨hlow, hhigh⟩ := hlaid.within _ hfirst
  omega

/-- What is owned does not meet anything else that is. -/
theorem owned_apart {m : Memory} (hlaid : m.Laid start (bufferMemoryEnd extMemK)) :
    (owned extMemK ramdisk start m).Pairwise Region.Disjoint := by
  have hstart := start_le hlaid
  refine List.pairwise_cons.mpr ⟨fun r hr => Or.inl ?_, List.pairwise_append.mpr
    ⟨hlaid.disjoint, List.pairwise_singleton _ _, fun r hr d hd => Or.inl ?_⟩⟩
  · show 0 + start.toNat ≤ r.base
    rw [Nat.zero_add]
    rcases List.mem_append.mp hr with hr | hr
    · exact (hlaid.within r hr).1
    · rw [List.mem_singleton] at hr
      subst hr
      exact hstart
  · rw [List.mem_singleton] at hd
    subst hd
    exact (hlaid.within r hr).2

/-- What is owned ends before the pages begin. -/
theorem owned_below {m : Memory} (hlaid : m.Laid start (bufferMemoryEnd extMemK)) {r : Region}
    (hr : r ∈ owned extMemK ramdisk start m) :
    r.base + r.size ≤ (bufferMemoryEnd extMemK).toNat + ramdisk * 1024 := by
  have hstart := start_le hlaid
  rcases List.mem_cons.mp hr with rfl | hr
  · show 0 + start.toNat ≤ _
    omega
  · rcases List.mem_append.mp hr with hr | hr
    · have := (hlaid.within r hr).2
      omega
    · rw [List.mem_singleton] at hr
      subst hr
      exact Nat.le_refl _

/-- A page that is handed out meets nothing that is owned, nor the screen and the BIOS, and there is memory
for it. -/
structure Apart (extMemK : BitVec 16) (ramdisk : Nat) (start : Addr) (m : Memory) (f : Nat) : Prop where
  owned : ∀ r ∈ owned extMemK ramdisk start m, (pageRegion f).Disjoint r
  hole : (pageRegion f).Disjoint Buffer.Init.hole
  inside : 4096 * f + 4096 ≤ (memoryEnd extMemK).toNat

theorem apart_of_range {m : Memory} {f : Nat} (hlaid : m.Laid start (bufferMemoryEnd extMemK))
    (hfits : Fits extMemK ramdisk) (hpage : ramdisk % 4 = 0)
    (hlo : (mainMemoryStart extMemK ramdisk).toNat / 4096 ≤ f) (hhi : f < (memoryEnd extMemK).toNat / 4096) :
    Apart extMemK ramdisk start m f := by
  obtain ⟨hlow, -, hbufferPage⟩ := bufferMemoryEnd_bounds extMemK
  obtain ⟨-, -, hend⟩ := memoryEnd_bounds extMemK
  have hstart := mainMemoryStart_toNat hfits
  have hbase : (bufferMemoryEnd extMemK).toNat + ramdisk * 1024 ≤ 4096 * f := by omega
  refine ⟨fun r hr => Or.inr ?_, Or.inr ?_, by omega⟩
  · exact (owned_below hlaid hr).trans hbase
  · show 0xA0000 + 0x60000 ≤ 4096 * f
    omega

/-- The states that calls of the memory manager reach from `main`. -/
def MainReach (extMemK : BitVec 16) (ramdisk : Nat) : Mm.Pages → Prop :=
  Lib.Reach Mm.pageStep (fun _ _ => True) fun s => ∃ m, s = ⟨mainMem extMemK ramdisk m, fun _ => false⟩

/-- THE MEMORY IS PARTED. What `main` gives to the kernel, the buffers and the RAM disk does not overlap,
and no page that is ever handed out overlaps any of it; nor does a page that some task can write to. -/
theorem memory_parted (extMemK : BitVec 16) (ramdisk : Nat) (start : Addr)
    (head₀ : Addr → BufferHead) (hashTable : Nat → Addr) (fuel : Nat)
    (hstart : start.toNat < 640 * 1024 - 1024 - 36) (hfuel : 4096 ≤ fuel) (hfits : Fits extMemK ramdisk)
    (hpage : ramdisk % 4 = 0) :
    ∃ m, Buffer.Init.bufferInit fuel start (bufferMemoryEnd extMemK) head₀ hashTable = some m ∧
      (owned extMemK ramdisk start m).Pairwise Region.Disjoint ∧
      ∀ s, MainReach extMemK ramdisk s →
        (∀ f m', Mm.getFreePage s.mem = some (f, m') → Apart extMemK ramdisk start m f) ∧
        ∀ d i, Mm.present (s.mem.pte d i) = true → Mm.writable (s.mem.pte d i) = true →
          Apart extMemK ramdisk start m (Mm.frame (s.mem.pte d i)) := by
  obtain ⟨m, hm, hlaid⟩ := Buffer.Init.buffer_init_layout start (bufferMemoryEnd extMemK) head₀ hashTable hstart
    (Buffer.Init.bufferMemoryEnd_cases extMemK) fuel hfuel
  refine ⟨m, hm, owned_apart hlaid, fun s hs => ?_⟩
  obtain ⟨hlow, -, -⟩ := bufferMemoryEnd_bounds extMemK
  obtain ⟨-, htop, -⟩ := memoryEnd_bounds extMemK
  have hbegin := mainMemoryStart_toNat hfits
  have hle : (mainMemoryStart extMemK ramdisk).toNat ≤ (memoryEnd extMemK).toNat := by
    rw [hbegin]
    exact hfits
  have hsound : Mm.Sound ((mainMemoryStart extMemK ramdisk).toNat / 4096) ((memoryEnd extMemK).toNat / 4096)
      s.mem s.held := by
    refine Mm.PagesReach.sound (Nat.div_le_div_right (c := 4096) (by omega : 0x100000 ≤ _))
      (Nat.div_le_div_right hle) (Nat.div_le_of_le_mul (by unfold Mm.lowMem Mm.pagingPages; omega)) ?_
    refine Lib.Reach.invariant (I := Mm.PagesReach _ _) ?_ (fun u op u' hu hg hstep => .next op hu hg hstep) hs
    rintro _ ⟨mem, rfl⟩
    exact .start ⟨mem, by rw [mainMem_eq hfits hpage]⟩
  refine ⟨fun f m' hget => ?_, fun d i hpresent hwritable => ?_⟩
  · have hrange := (Mm.getFreePage_spec hsound hget).range
    exact apart_of_range hlaid hfits hpage hrange.1 hrange.2
  · rcases hsound.acct.page hpresent with ⟨-, hread⟩ | ⟨hlo, hhi⟩
    · rw [hread] at hwritable
      cases hwritable
    · exact apart_of_range hlaid hfits hpage hlo hhi

/-- 15MB above the first one, and a RAM disk of 512KB. -/
theorem memory_parted_large :
    ∃ m, Buffer.Init.bufferInit 4096 0x20000 (bufferMemoryEnd 0x3C00)
        (fun _ => ⟨0, 0, 0, 0, 0, 0, 0, 0, 0, 0, 0, 0⟩) (fun _ => 0) = some m ∧
      (owned 0x3C00 512 0x20000 m).Pairwise Region.Disjoint ∧
      ∀ s, MainReach 0x3C00 512 s →
        (∀ f m', Mm.getFreePage s.mem = some (f, m') → Apart 0x3C00 512 0x20000 m f) ∧
        ∀ d i, Mm.present (s.mem.pte d i) = true → Mm.writable (s.mem.pte d i) = true →
          Apart 0x3C00 512 0x20000 m (Mm.frame (s.mem.pte d i)) :=
  memory_parted 0x3C00 512 0x20000 _ _ 4096 (by decide) (Nat.le_refl _) (by unfold Fits; decide) (by decide)

end Linux011.Boot

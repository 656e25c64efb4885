import Mathlib.Data.List.Nodup
import Linux011.Minix.Grow

/-!
# Giving the blocks of a file back (`fs/truncate.c`)

`truncate` walks the three levels of the block map and frees each block it meets. In a sound disk no
two pointers lead to one block, so each block is freed once, its bit is still set when its turn
comes, and no buffer of it is in use: no `free_block` panics or refuses. In the end the file has no
block, and all blocks it had can be had again.
-/

namespace Linux011.Minix

open Fs (Id Byte Block)
open Inode (Dev)
open Lib (Path Forest)

/-- The loop over the 512 pointers of a block that is read. -/
def freeEntries (free : Disk → Dev → Block → Option Disk) (d : Disk) (dev : Dev) (block : Block) :
    Option Disk :=
  (List.range 512).foldlM (fun d k =>
    let p := pointer (d.block dev block) k
    if p ≠ 0 then free d dev p else some d) d

/-- An index block and what its pointers lead to, each freed with `free`. -/
def freeIndex (free : Disk → Dev → Block → Option Disk) (d : Disk) (dev : Dev) (block : Block) :
    Option Disk :=
  if block = 0 then some d
  else
    (freeEntries free (d.bread dev block) dev block).bind fun d =>
      freeBlock (d.brelse dev block) dev block

/-- `free_ind`. -/
def freeInd (d : Disk) (dev : Dev) (block : Block) : Option Disk := freeIndex freeBlock d dev block

/-- `free_dind`. -/
def freeDind (d : Disk) (dev : Dev) (block : Block) : Option Disk := freeIndex freeInd d dev block

/-- The loop of `truncate` over the direct zones. -/
def freeDirect (d : Disk) (i : Id) (ks : List Nat) : Option Disk :=
  ks.foldlM (fun d k =>
    if (d.inode i).zone k ≠ 0 then
      (freeBlock d i.dev ((d.inode i).zone k)).map fun d => d.setZone i k 0
    else some d) d

def truncate (d : Disk) (i : Id) : Option Disk :=
  if (d.inode i).isFile then
    (freeDirect d i (List.range 7)).bind fun d =>
      (freeInd d i.dev ((d.inode i).zone 7)).bind fun d =>
        (freeDind d i.dev ((d.inode i).zone 8)).bind fun d =>
          let d := (d.setZone i 7 0).setZone i 8 0
          some (d.setInode i { d.inode i with size := 0 })
  else some d

/-! ## Sets of pointers -/

/-- The bit of a block in the zone map. -/
def bitOf (sb : SuperBlock) (b : Block) : Nat := b.toNat - (sb.firstdatazone - 1)

section
variable (F : Forest Inode.Num Nat Block) (n : Inode.Num) (dev : Dev) (sb : SuperBlock)

/-- The blocks that the pointers `Q` of inode `n` lead to can be freed in `d`. -/
structure Left (Q : Path Nat → Prop) (d : Disk) : Prop where
  super : d.super dev = some sb
  child : (fun b k => pointer (d.block dev b) k) = F.child
  bit : ∀ q, Q q → F.ref n q ≠ 0 → d.zmap dev (bitOf sb (F.ref n q)) = true
  count : ∀ q, Q q → F.ref n q ≠ 0 → d.bcount dev (F.ref n q) = 0

/-- From `d` to `d'` the blocks that the pointers `Q` lead to have been freed. -/
structure Frees (Q : Path Nat → Prop) (d d' : Disk) : Prop where
  super : d'.super = d.super
  imap : d'.imap = d.imap
  block : d'.block = d.block
  bcount : d'.bcount = d.bcount
  other : ∀ e, e ≠ dev → d'.zmap e = d.zmap e
  clear : ∀ q, Q q → F.ref n q ≠ 0 → d'.zmap dev (bitOf sb (F.ref n q)) = false
  keep : ∀ j, (∀ q, Q q → F.ref n q ≠ 0 → j ≠ bitOf sb (F.ref n q)) → d'.zmap dev j = d.zmap dev j

/-- A separate forest whose allocated blocks are in the data area. -/
structure Area : Prop where
  first : 1 ≤ sb.firstdatazone
  inj : ∀ {p q}, IsZone p → IsZone q → F.ref n p ≠ 0 → F.ref n p = F.ref n q → p = q
  area : ∀ {p}, IsZone p → F.ref n p ≠ 0 →
    sb.firstdatazone ≤ (F.ref n p).toNat ∧ (F.ref n p).toNat < sb.nzones

end

variable {F : Forest Inode.Num Nat Block} {n : Inode.Num} {dev : Dev} {sb : SuperBlock} {d d' d'' : Disk}
  {Q R : Path Nat → Prop} {p q : Path Nat}

theorem Area.bitOf_inj (A : Area F n sb) (hp : IsZone p) (hq : IsZone q) (h0 : F.ref n p ≠ 0)
    (h1 : F.ref n q ≠ 0) (h : bitOf sb (F.ref n p) = bitOf sb (F.ref n q)) : p = q := by
  have hfirst := A.first
  have harea := (A.area hp h0).1
  have harea' := (A.area hq h1).1
  unfold bitOf at h
  exact A.inj hp hq h0 (BitVec.eq_of_toNat_eq (by omega))

theorem Left.mono (L : Left F n dev sb Q d) (h : ∀ q, R q → Q q) : Left F n dev sb R d :=
  ⟨L.super, L.child, fun q hq => L.bit q (h q hq), fun q hq => L.count q (h q hq)⟩

theorem Frees.refl (h : ∀ q, Q q → F.ref n q = 0) (d : Disk) : Frees F n dev sb Q d d :=
  ⟨rfl, rfl, rfl, rfl, fun _ _ => rfl, fun q hq h0 => absurd (h q hq) h0, fun _ _ => rfl⟩

theorem Frees.trans (H : Frees F n dev sb Q d d') (H' : Frees F n dev sb R d' d'') :
    Frees F n dev sb (fun q => Q q ∨ R q) d d'' where
  super := H'.super.trans H.super
  imap := H'.imap.trans H.imap
  block := H'.block.trans H.block
  bcount := H'.bcount.trans H.bcount
  other e he := (H'.other e he).trans (H.other e he)
  clear q hq h0 := by
    by_cases hj : ∃ r, R r ∧ F.ref n r ≠ 0 ∧ bitOf sb (F.ref n q) = bitOf sb (F.ref n r)
    · obtain ⟨r, hr, hr0, hbit⟩ := hj
      rw [hbit]
      exact H'.clear r hr hr0
    · rw [H'.keep _ fun r hr hr0 hbit => hj ⟨r, hr, hr0, hbit⟩]
      rcases hq with hq | hq
      · exact H.clear q hq h0
      · exact absurd ⟨q, hq, h0, rfl⟩ hj
  keep j hj := by
    rw [H'.keep j fun r hr hr0 => hj r (Or.inr hr) hr0]
    exact H.keep j fun q hq h0 => hj q (Or.inl hq) h0

theorem Frees.congr (H : Frees F n dev sb Q d d') (h : ∀ q, R q ↔ Q q) : Frees F n dev sb R d d' :=
  ⟨H.super, H.imap, H.block, H.bcount, H.other, fun q hq => H.clear q ((h q).mp hq),
    fun j hj => H.keep j fun q hq => hj q ((h q).mpr hq)⟩

/-- What can be freed can still be freed after other pointers' blocks have been. -/
theorem Left.after (A : Area F n sb) (L : Left F n dev sb R d) (H : Frees F n dev sb Q d d')
    (hQ : ∀ q, Q q → IsZone q) (hR : ∀ q, R q → IsZone q) (hdisj : ∀ q, Q q → ¬ R q) :
    Left F n dev sb R d' where
  super := H.super ▸ L.super
  child := H.block ▸ L.child
  bit r hr hr0 := by
    rw [H.keep _ fun q hq hq0 h => ?_]
    · exact L.bit r hr hr0
    · obtain rfl := A.bitOf_inj (hR r hr) (hQ q hq) hr0 hq0 h
      exact hdisj r hq hr
  count r hr hr0 := by
    rw [H.bcount]
    exact L.count r hr hr0

/-! ## The loops -/

theorem freeBlock_spec (A : Area F n sb) (L : Left F n dev sb (· = q) d) (hq : IsZone q)
    (h0 : F.ref n q ≠ 0) : ∃ d', freeBlock d dev (F.ref n q) = some d' ∧
      Frees F n dev sb (· = q) d d' ∧ d'.inode = d.inode := by
  obtain ⟨hfirst, hlast⟩ := A.area hq h0
  have hbit := L.bit q rfl h0
  refine ⟨d.setZmap dev (bitOf sb (F.ref n q)) false, ?_, ⟨rfl, rfl, rfl, rfl, fun e he => ?_,
    fun r hr _ => ?_, fun j hj => ?_⟩, rfl⟩
  · unfold freeBlock
    rw [L.super]
    dsimp only
    rw [if_neg (by omega), if_neg fun h => h (L.count q rfl h0)]
    exact if_pos hbit
  · funext k
    exact if_neg fun h => he h.1
  · subst hr
    exact if_pos ⟨rfl, rfl⟩
  · exact if_neg fun h => hj q rfl h0 h.2

/-- A loop whose rounds free disjoint sets of pointers frees all of them. -/
theorem frees_foldlM (A : Area F n sb) {body : Disk → Nat → Option Disk} {P : Nat → Path Nat → Prop}
    (hP : ∀ k q, P k q → IsZone q) (hdisj : ∀ j k q, P j q → P k q → j = k)
    {m : Nat} (hbody : ∀ k < m, ∀ d, Left F n dev sb (P k) d → ∃ d', body d k = some d' ∧
      Frees F n dev sb (P k) d d' ∧ d'.inode = d.inode) :
    ∀ {ks : List Nat} {d : Disk}, ks.Nodup → (∀ k ∈ ks, k < m) → Left F n dev sb (fun q => ∃ k ∈ ks, P k q) d →
      ∃ d', ks.foldlM body d = some d' ∧ Frees F n dev sb (fun q => ∃ k ∈ ks, P k q) d d' ∧
        d'.inode = d.inode := by
  intro ks
  induction ks with
  | nil =>
    intro d _ _ _
    exact ⟨d, rfl, .refl (fun q h => by obtain ⟨k, hk, -⟩ := h; cases hk) d, rfl⟩
  | cons k ks ih =>
    intro d hnd hm L
    obtain ⟨hk, hnd⟩ := List.nodup_cons.mp hnd
    obtain ⟨d1, h1, H1, hi1⟩ := hbody k (hm k List.mem_cons_self) d (L.mono fun q hq => ⟨k, List.mem_cons_self, hq⟩)
    have L1 : Left F n dev sb (fun q => ∃ l ∈ ks, P l q) d1 :=
      (L.mono fun q hq => by
        obtain ⟨l, hl, hq⟩ := hq
        exact ⟨l, List.mem_cons_of_mem _ hl, hq⟩).after A H1 (hP k)
        (fun q hq => by obtain ⟨l, -, hq⟩ := hq; exact hP l q hq)
        fun q hq hq' => by
          obtain ⟨l, hl, hq'⟩ := hq'
          exact hk (hdisj k l q hq hq' ▸ hl)
    obtain ⟨d2, h2, H2, hi2⟩ := ih hnd (fun l hl => hm l (List.mem_cons_of_mem _ hl)) L1
    refine ⟨d2, ?_, (H1.trans H2).congr fun q => ?_, hi2.trans hi1⟩
    · rw [List.foldlM_cons, h1]
      exact h2
    · simp only [List.mem_cons, exists_eq_or_imp]

/-- The pointer itself, and all in the sets `P k` below it. -/
def Under (p : Path Nat) (P : Nat → Path Nat → Prop) (q : Path Nat) : Prop :=
  q = p ∨ ∃ k ∈ List.range 512, P k q

/-- An index block is freed with what its pointers lead to. -/
theorem freeIndex_spec (A : Area F n sb) {free : Disk → Dev → Block → Option Disk}
    {P : Nat → Path Nat → Prop} (hp : IsZone p) (hP : ∀ k q, P k q → IsZone q)
    (hdisj : ∀ j k q, P j q → P k q → j = k) (hne : ∀ k q, P k q → q ≠ p)
    (hzero : ∀ k q, P k q → F.ref n (.step p k) = 0 → F.ref n q = 0)
    (hfree : ∀ k < 512, ∀ d, Left F n dev sb (P k) d → F.ref n (.step p k) ≠ 0 →
      ∃ d', free d dev (F.ref n (.step p k)) = some d' ∧ Frees F n dev sb (P k) d d' ∧
        d'.inode = d.inode)
    (L : Left F n dev sb (Under p P) d) : ∃ d', freeIndex free d dev (F.ref n p) = some d' ∧
      Frees F n dev sb (Under p P) d d' ∧ d'.inode = d.inode := by
  unfold freeIndex
  by_cases h0 : F.ref n p = 0
  · rw [if_pos h0]
    refine ⟨d, rfl, .refl (fun q hq => ?_) d, rfl⟩
    rcases hq with rfl | ⟨k, -, hq⟩
    · exact h0
    · exact hzero k q hq (Forest.ref_step_of_zero h0)
  · rw [if_neg h0]
    have hstep : ∀ k, F.ref n (.step p k) = F.child (F.ref n p) k := fun k =>
      Forest.ref_step_of_ne h0
    -- the index block is in use during the loop, so it is not freed there
    have L1 : Left F n dev sb (fun q => ∃ k ∈ List.range 512, P k q) (d.bread dev (F.ref n p)) := by
      refine ⟨L.super, L.child, fun q hq => L.bit q (Or.inr hq), fun q hq hq0 => ?_⟩
      obtain ⟨k, hk, hPq⟩ := hq
      have hother : F.ref n q ≠ F.ref n p := fun h => hne k q hPq (A.inj (hP k q hPq) hp hq0 h)
      exact (if_neg fun h => hother h.2).trans (L.count q (Or.inr ⟨k, hk, hPq⟩) hq0)
    have hbody : ∀ k < 512, ∀ d, Left F n dev sb (P k) d → ∃ d', (if pointer (d.block dev (F.ref n p)) k ≠ 0 then
        free d dev (pointer (d.block dev (F.ref n p)) k) else some d) = some d' ∧
        Frees F n dev sb (P k) d d' ∧ d'.inode = d.inode := by
      intro k hk512 d L
      have hptr : pointer (d.block dev (F.ref n p)) k = F.ref n (.step p k) := by
        rw [hstep, ← L.child]
      rw [hptr]
      by_cases hk : F.ref n (.step p k) = 0
      · rw [if_neg fun h => h hk]
        exact ⟨d, rfl, .refl (fun q hq => hzero k q hq hk) d, rfl⟩
      · rw [if_pos hk]
        exact hfree k hk512 d L hk
    obtain ⟨d1, h1, H1, hi1⟩ := frees_foldlM A hP hdisj hbody List.nodup_range
      (fun k hk => List.mem_range.mp hk) L1
    have hloop : freeEntries free (d.bread dev (F.ref n p)) dev (F.ref n p) = some d1 := h1
    have H1' : Frees F n dev sb (fun q => ∃ k ∈ List.range 512, P k q) d
        (d1.brelse dev (F.ref n p)) :=
      ⟨H1.super, H1.imap, H1.block, (by
          have h := congrArg Disk.bcount (d.brelse_bread dev (F.ref n p))
          rw [← h]
          funext e c
          show (if _ then d1.bcount e c - 1 else d1.bcount e c) = _
          rw [H1.bcount]
          rfl), H1.other, H1.clear, H1.keep⟩
    have L2 : Left F n dev sb (· = p) (d1.brelse dev (F.ref n p)) :=
      (L.mono fun q hq => Or.inl hq).after A H1'
        (fun q hq => by obtain ⟨k, -, hq⟩ := hq; exact hP k q hq)
        (fun q hq => by rw [hq]; exact hp)
        fun q hq h => by obtain ⟨k, -, hq⟩ := hq; exact hne k q hq h
    obtain ⟨d2, h2, H2, hi2⟩ := freeBlock_spec A L2 hp h0
    refine ⟨d2, ?_, (H1'.trans H2).congr fun q => or_comm, hi2.trans hi1⟩
    rw [hloop]
    exact h2

/-- The pointers that an index block at `p` holds, and the pointer to it. -/
def Ind (p : Path Nat) : Path Nat → Prop := Under p fun k q => k < 512 ∧ q = .step p k

/-- The pointers in the index blocks that a block at `p` leads to, those to the index blocks, and
the pointer to it. -/
def Dind (p : Path Nat) : Path Nat → Prop := Under p fun k q => k < 512 ∧ Ind (.step p k) q

theorem Path.ne_step {κ : Type*} (p : Path κ) (k : κ) : p ≠ .step p k := fun h => by
  have := congrArg sizeOf h
  simp only [Path.step.sizeOf_spec] at this
  omega

theorem freeInd_spec (A : Area F n sb) (hp : IsZone p) (hk : ∀ k < 512, IsZone (.step p k))
    (L : Left F n dev sb (Ind p) d) : ∃ d', freeInd d dev (F.ref n p) = some d' ∧
      Frees F n dev sb (Ind p) d d' ∧ d'.inode = d.inode := by
  refine freeIndex_spec A hp ?_ ?_ ?_ ?_ ?_ L
  · rintro k q ⟨hlt, rfl⟩
    exact hk k hlt
  · rintro j k q ⟨-, rfl⟩ ⟨-, h⟩
    cases h
    rfl
  · rintro k q ⟨-, rfl⟩ h
    exact Path.ne_step p k h.symm
  · rintro k q ⟨-, rfl⟩ h
    exact h
  · intro k hlt d L h0
    obtain ⟨d', h, H, hi⟩ := freeBlock_spec A (L.mono fun q hq => ⟨hlt, hq⟩) (hk k hlt) h0
    exact ⟨d', h, H.congr fun q => and_iff_right hlt, hi⟩

theorem Ind.isZone (hp : IsZone p) (hk : ∀ k < 512, IsZone (.step p k)) (h : Ind p q) : IsZone q := by
  rcases h with rfl | ⟨k, -, hlt, rfl⟩
  · exact hp
  · exact hk k hlt

theorem freeDind_spec (A : Area F n sb) (L : Left F n dev sb (Dind (.root 8)) d) :
    ∃ d', freeDind d dev (F.ref n (.root 8)) = some d' ∧
      Frees F n dev sb (Dind (.root 8)) d d' ∧ d'.inode = d.inode := by
  have hroot : IsZone (.root 8) := (by decide : 8 < 9)
  have hone : ∀ k < 512, IsZone (.step (.root 8) k) := fun k hk => ⟨Or.inr rfl, hk⟩
  have htwo : ∀ k < 512, ∀ l < 512, IsZone (.step (.step (.root 8) k) l) := fun k hk l hl => ⟨rfl, hk, hl⟩
  refine freeIndex_spec A hroot ?_ ?_ ?_ ?_ ?_ L
  · rintro k q ⟨hlt, hq⟩
    exact hq.isZone (hone k hlt) (htwo k hlt)
  · rintro j k q ⟨-, rfl | ⟨l, -, -, rfl⟩⟩ ⟨-, h | ⟨m, -, -, h⟩⟩ <;> cases h <;> rfl
  · rintro k q ⟨-, rfl | ⟨l, -, -, rfl⟩⟩ h <;> cases h
  · rintro k q ⟨-, rfl | ⟨l, -, -, rfl⟩⟩ h
    · exact h
    · exact Forest.ref_step_of_zero h
  · intro k hlt d L h0
    obtain ⟨d', h, H, hi⟩ := freeInd_spec A (hone k hlt) (htwo k hlt) (L.mono fun q hq => ⟨hlt, hq⟩)
    exact ⟨d', h, H.congr fun q => and_iff_right hlt, hi⟩

/-- The direct zones are freed and emptied. -/
theorem freeDirect_spec {i : Id} (A : Area F i.num sb) {ks : List Nat} {d : Disk} (hnd : ks.Nodup)
    (h9 : ∀ k ∈ ks, k < 9) (hroot : ∀ k ∈ ks, (d.inode i).zone k = F.ref i.num (.root k))
    (L : Left F i.num i.dev sb (fun q => ∃ k ∈ ks, q = .root k) d) :
    ∃ d', freeDirect d i ks = some d' ∧
      Frees F i.num i.dev sb (fun q => ∃ k ∈ ks, q = .root k) d d' ∧
      d'.inode = Function.update d.inode i { d.inode i with
        zone := fun k => if k ∈ ks then 0 else (d.inode i).zone k } := by
  induction ks generalizing d with
  | nil =>
    refine ⟨d, rfl, .refl (fun q h => by obtain ⟨k, hk, -⟩ := h; cases hk) d, ?_⟩
    exact (Function.update_eq_self i d.inode).symm
  | cons k ks ih =>
    obtain ⟨hk, hnd⟩ := List.nodup_cons.mp hnd
    have hk9 := h9 k List.mem_cons_self
    have hkroot := hroot k List.mem_cons_self
    -- one round
    obtain ⟨d1, h1, H1, hi1⟩ : ∃ d1, (if (d.inode i).zone k ≠ 0 then
        (freeBlock d i.dev ((d.inode i).zone k)).map fun d => d.setZone i k 0
        else some d) = some d1 ∧ Frees F i.num i.dev sb (· = .root k) d d1 ∧
        d1.inode = Function.update d.inode i { d.inode i with
          zone := Function.update (d.inode i).zone k 0 } := by
      by_cases h0 : (d.inode i).zone k = 0
      · refine ⟨d, if_neg fun h => h h0, .refl (fun q hq => ?_) d, ?_⟩
        · rw [hq, ← hkroot, h0]
        · rw [← h0, Function.update_eq_self]
          exact (Function.update_eq_self i d.inode).symm
      · rw [if_pos h0, hkroot]
        obtain ⟨d1, h1, H1, hi1⟩ := freeBlock_spec A (L.mono fun q hq => ⟨k, List.mem_cons_self, hq⟩)
          hk9 (hkroot ▸ h0)
        refine ⟨d1.setZone i k 0, by rw [h1]; rfl,
          ⟨H1.super, H1.imap, H1.block, H1.bcount, H1.other, H1.clear, H1.keep⟩, ?_⟩
        show Function.update d1.inode i _ = _
        rw [hi1]
    have hself : d1.inode i = { d.inode i with zone := Function.update (d.inode i).zone k 0 } := by
      rw [hi1, Function.update_self]
    have hzone : ∀ l ∈ ks, (d1.inode i).zone l = (d.inode i).zone l := by
      intro l hl
      rw [hself]
      exact Function.update_of_ne (fun h : l = k => hk (h ▸ hl)) ..
    have L1 : Left F i.num i.dev sb (fun q => ∃ l ∈ ks, q = .root l) d1 :=
      (L.mono fun q hq => by
        obtain ⟨l, hl, hq⟩ := hq
        exact ⟨l, List.mem_cons_of_mem _ hl, hq⟩).after A H1 (fun q hq => by rw [hq]; exact hk9)
        (fun q hq => by
          obtain ⟨l, hl, rfl⟩ := hq
          exact h9 l (List.mem_cons_of_mem _ hl))
        fun q hq hq' => by
          obtain ⟨l, hl, rfl⟩ := hq'
          cases hq
          exact hk hl
    obtain ⟨d2, h2, H2, hi2⟩ := ih hnd (fun l hl => h9 l (List.mem_cons_of_mem _ hl))
      (fun l hl => (hzone l hl).trans (hroot l (List.mem_cons_of_mem _ hl))) L1
    refine ⟨d2, ?_, (H1.trans H2).congr fun q => ?_, ?_⟩
    · unfold freeDirect at h2 ⊢
      rw [List.foldlM_cons, h1]
      exact h2
    · simp only [List.mem_cons, exists_eq_or_imp]
    · rw [hi2, hself, hi1, Function.update_idem]
      refine congrArg (fun z => Function.update d.inode i { d.inode i with zone := z }) ?_
      funext l
      show (if l ∈ ks then (0 : Block) else Function.update (d.inode i).zone k 0 l) =
        if l ∈ k :: ks then 0 else (d.inode i).zone l
      by_cases hl : l = k
      · subst hl
        rw [if_pos List.mem_cons_self, if_neg hk, Function.update_self]
      · rw [Function.update_of_ne hl]
        exact if_congr (by rw [List.mem_cons, or_iff_right hl]) rfl rfl

/-! ## `truncate` -/

/-- From `d` to `d'` file `i` has lost its blocks and its size. -/
structure Disk.Emptied (i : Id) (d d' : Disk) : Prop where
  super : d'.super = d.super
  imap : d'.imap = d.imap
  block : d'.block = d.block
  bcount : d'.bcount = d.bcount
  inode : d'.inode = Function.update d.inode i { d.inode i with
    zone := fun k => if k < 9 then 0 else (d.inode i).zone k
    size := 0 }

/-- The pointers of an inode, in the order in which `truncate` meets them. -/
theorem isZone_iff (q : Path Nat) : IsZone q ↔
    ((∃ k ∈ List.range 7, q = .root k) ∨ Ind (.root 7) q) ∨ Dind (.root 8) q := by
  constructor
  · intro h
    match q, h with
    | .root k, h =>
      have hk : k < 9 := h
      by_cases h7 : k < 7
      · exact Or.inl (Or.inl ⟨k, List.mem_range.mpr h7, rfl⟩)
      · by_cases hk7 : k = 7
        · subst hk7
          exact Or.inl (Or.inr (Or.inl rfl))
        · obtain rfl : k = 8 := by omega
          exact Or.inr (Or.inl rfl)
    | .step (.root k) l, ⟨hk, hl⟩ =>
      rcases hk with rfl | rfl
      · exact Or.inl (Or.inr (Or.inr ⟨l, List.mem_range.mpr hl, hl, rfl⟩))
      · exact Or.inr (Or.inr ⟨l, List.mem_range.mpr hl, hl, Or.inl rfl⟩)
    | .step (.step (.root k) l) m, ⟨hk, hl, hm⟩ =>
      subst hk
      exact Or.inr (Or.inr ⟨l, List.mem_range.mpr hl, hl, Or.inr ⟨m, List.mem_range.mpr hm, hm, rfl⟩⟩)
  · rintro ((⟨k, hk, rfl⟩ | h) | h)
    · exact Nat.lt_trans (List.mem_range.mp hk) (by decide)
    · exact h.isZone (p := .root 7) (by decide : 7 < 9) fun k hk => ⟨Or.inl rfl, hk⟩
    · rcases h with rfl | ⟨k, -, hk, h⟩
      · exact (by decide : 8 < 9)
      · exact h.isZone (p := .step (.root 8) k) ⟨Or.inr rfl, hk⟩ fun l hl => ⟨rfl, hk, hl⟩

theorem Disk.Sound.area (S : d.Sound) (hsb : d.super dev = some sb) :
    Area (d.forest dev) n sb where
  first := (S.layout hsb).1
  inj hp hq h0 h := ((S.zones hsb).inj hp hq h0 h).2
  area {p} hp h0 := by
    have hused := ((S.zones hsb).used_iff h0).mpr ⟨n, p, hp, rfl⟩
    exact ⟨hused.1, hused.2.1⟩

/-- In a sound disk all blocks of an inode can be freed. -/
theorem Disk.Sound.left (S : d.Sound) (Q : d.Quiet) (hsb : d.super dev = some sb) :
    Left (d.forest dev) n dev sb IsZone d where
  super := hsb
  child := rfl
  bit q hq h0 := (((S.zones hsb).used_iff h0).mpr ⟨n, q, hq, rfl⟩).2.2
  count _ _ _ := Q dev _

/-- The disk without the blocks of a file is sound again. -/
theorem Disk.Sound.emptied {i : Id} (S : d.Sound) (hsb : d.super i.dev = some sb)
    (H : Frees (d.forest i.dev) i.num i.dev sb IsZone d d')
    (hother : ∀ j, j ≠ i → d'.inode j = d.inode j)
    (hzone : ∀ k < 9, (d'.inode i).isFile = true → (d'.inode i).zone k = 0) : d'.Sound := by
  have A : Area (d.forest i.dev) i.num sb := S.area hsb
  have hzero : ∀ q, IsZone q → (d'.forest i.dev).ref i.num q = 0 := by
    intro q
    induction q with
    | root k =>
      intro hk
      show (if (d'.inode i).isFile then (d'.inode i).zone k else 0) = 0
      split
      · next hf => exact hzone k hk hf
      · rfl
    | step q k ih => exact fun hq => Forest.ref_step_of_zero (ih (isZone_shape q k hq))
  have hchild : ∀ e, (d'.forest e).child = (d.forest e).child := fun e => by
    unfold Disk.forest
    rw [H.block]
  have hroot : ∀ e n k, (⟨e, n⟩ : Id) ≠ i → (d'.forest e).root n k = (d.forest e).root n k := by
    intro e n k hne
    show (if (d'.inode ⟨e, n⟩).isFile then (d'.inode ⟨e, n⟩).zone k else 0) = _
    rw [hother _ hne]
    rfl
  -- the other inodes keep their pointers
  have hkept : ∀ e n q, (⟨e, n⟩ : Id) ≠ i → (d'.forest e).ref n q = (d.forest e).ref n q := by
    intro e n q hne
    induction q with
    | root k => exact hroot e n k hne
    | step q k ih => rw [Forest.ref, Forest.ref, ih, hchild]
  refine ⟨fun {e tb} h => S.layout (H.super ▸ h), fun {e tb} h j hj hres => ?_, fun {e tb} h => ?_⟩
  · rw [H.super] at h
    by_cases he : e = i.dev
    · subst he
      obtain rfl : sb = tb := Option.some.inj (hsb.symm.trans h)
      rw [H.keep j fun q hq h0 hbit => ?_]
      · exact S.reserved hsb j hj hres
      · obtain ⟨h1, h2⟩ := A.area hq h0
        have := A.first
        unfold bitOf at hbit
        omega
    · rw [H.other e he]
      exact S.reserved h j hj hres
  · rw [H.super] at h
    by_cases he : e = i.dev
    · subst he
      obtain rfl : sb = tb := Option.some.inj (hsb.symm.trans h)
      have hused : d'.Used i.dev sb = fun a => d.Used i.dev sb a ∧
          ∀ p, IsZone p → (d.forest i.dev).ref i.num p ≠ a := by
        funext a
        refine propext ⟨fun hu => ?_, fun hu => ?_⟩
        · obtain ⟨h1, h2, hbit⟩ := hu
          have hne : ∀ p, IsZone p → (d.forest i.dev).ref i.num p ≠ a := by
            rintro p hp rfl
            have h0 : (d.forest i.dev).ref i.num p ≠ 0 := fun h0 => by
              have := A.first
              rw [h0, show (0 : Block).toNat = 0 from rfl] at h1
              omega
            have hclear := H.clear p hp h0
            unfold bitOf at hclear
            rw [hclear] at hbit
            cases hbit
          refine ⟨⟨h1, h2, ?_⟩, hne⟩
          rw [← hbit, H.keep]
          intro p hp h0 heq
          refine hne p hp (BitVec.eq_of_toNat_eq ?_)
          have := (A.area hp h0).1
          have := A.first
          unfold bitOf at heq
          omega
        · obtain ⟨⟨h1, h2, hbit⟩, hne⟩ := hu
          refine ⟨h1, h2, ?_⟩
          rw [H.keep]
          · exact hbit
          · intro p hp h0 heq
            refine hne p hp (BitVec.eq_of_toNat_eq ?_)
            have := (A.area hp h0).1
            have := A.first
            unfold bitOf at heq
            omega
      rw [hused]
      refine (S.zones hsb).release fun j q hq => ?_
      split
      · next hj => exact hj ▸ hzero q hq
      · next hj => exact hkept _ _ _ fun h => hj (congrArg Id.num h)
    · have hused : d'.Used e tb = d.Used e tb := by
        unfold Disk.Used
        rw [H.other e he]
      rw [hused]
      exact (S.zones h).congr fun j q _ => hkept e j q fun h => he (congrArg Id.dev h)

/-- The inode that `truncate` leaves. -/
def MInode.emptied (h : MInode) : MInode :=
  { h with
    zone := fun k => if k < 9 then 0 else h.zone k
    size := 0 }

/-- When all blocks of a file can be freed, `truncate` frees them, and panics on none. -/
theorem truncate_frees {i : Id} (A : Area (d.forest i.dev) i.num sb)
    (L : Left (d.forest i.dev) i.num i.dev sb IsZone d) (hi : (d.inode i).isFile = true) :
    ∃ d', truncate d i = some d' ∧ Frees (d.forest i.dev) i.num i.dev sb IsZone d d' ∧
      d'.inode = Function.update d.inode i (d.inode i).emptied := by
  have hroot : ∀ k, (d.inode i).zone k = (d.forest i.dev).ref i.num (.root k) := fun k => (if_pos hi).symm
  have hind : ∀ q, Ind (.root 7) q → IsZone q := fun q h => (isZone_iff q).mpr (Or.inl (Or.inr h))
  have hdind : ∀ q, Dind (.root 8) q → IsZone q := fun q h => (isZone_iff q).mpr (Or.inr h)
  have hdirect : ∀ q, (∃ k ∈ List.range 7, q = .root k) → IsZone q := fun q h =>
    (isZone_iff q).mpr (Or.inl (Or.inl h))
  -- the three sets of pointers have none in common
  have h12 : ∀ q, (∃ k ∈ List.range 7, q = .root k) → ¬ Ind (.root 7) q := by
    rintro q ⟨k, hk, rfl⟩ (h | ⟨l, -, -, h⟩)
    · cases h
      exact absurd (List.mem_range.mp hk) (by decide)
    · cases h
  have h13 : ∀ q, (∃ k ∈ List.range 7, q = .root k) → ¬ Dind (.root 8) q := by
    rintro q ⟨k, hk, rfl⟩ (h | ⟨l, -, -, h | ⟨m, -, -, h⟩⟩)
    · cases h
      exact absurd (List.mem_range.mp hk) (by decide)
    · cases h
    · cases h
  have h23 : ∀ q, Ind (.root 7) q → ¬ Dind (.root 8) q := by
    rintro q (rfl | ⟨k, -, -, rfl⟩) (h | ⟨l, -, -, h | ⟨m, -, -, h⟩⟩) <;> cases h
  obtain ⟨d1, h1, H1, hi1⟩ := freeDirect_spec A (List.nodup_range (n := 7))
    (fun k hk => Nat.lt_trans (List.mem_range.mp hk) (by decide)) (fun k _ => hroot k) (L.mono hdirect)
  have hself1 : d1.inode i = { d.inode i with
      zone := fun k => if k ∈ List.range 7 then 0 else (d.inode i).zone k } := by
    rw [hi1, Function.update_self]
  have hz7 : (d1.inode i).zone 7 = (d.forest i.dev).ref i.num (.root 7) := by
    rw [hself1]
    exact hroot 7
  have hz8 : (d1.inode i).zone 8 = (d.forest i.dev).ref i.num (.root 8) := by
    rw [hself1]
    exact hroot 8
  obtain ⟨d2, h2, H2, hi2⟩ := freeInd_spec A (p := .root 7) (by decide : 7 < 9)
    (fun k hk => ⟨Or.inl rfl, hk⟩) ((L.mono hind).after A H1 hdirect hind h12)
  obtain ⟨d3, h3, H3, hi3⟩ := freeDind_spec A
    (((L.mono hdind).after A H1 hdirect hdind h13).after A H2 hind hdind h23)
  have H := ((H1.trans H2).trans H3).congr isZone_iff
  have hinode : d3.inode = d1.inode := hi3.trans hi2
  have hd' : ((d3.setZone i 7 0).setZone i 8 0).setInode i
      { ((d3.setZone i 7 0).setZone i 8 0).inode i with size := 0 } =
      { d3 with inode := Function.update d.inode i { d.inode i with
        zone := fun k => if k < 9 then 0 else (d.inode i).zone k
        size := 0 } } := by
    simp only [Disk.setZone, Disk.setInode_setInode, Disk.setInode_inode]
    show { d3 with inode := Function.update d3.inode i _ } = _
    rw [hinode, hself1, hi1, Function.update_idem]
    refine congrArg (fun z => { d3 with inode := Function.update d.inode i { d.inode i with
      zone := z, size := 0 } }) ?_
    funext k
    show Function.update (Function.update
      (fun k => if k ∈ List.range 7 then (0 : Block) else (d.inode i).zone k) 7 0) 8 0 k = _
    simp only [Function.update_apply, List.mem_range]
    by_cases h8 : k = 8
    · rw [if_pos h8, if_pos (by omega)]
    · by_cases h7 : k = 7
      · rw [if_neg h8, if_pos h7, if_pos (by omega)]
      · rw [if_neg h8, if_neg h7]
        exact if_congr (by omega) rfl rfl
  refine ⟨{ d3 with inode := Function.update d.inode i (d.inode i).emptied }, ?_,
    ⟨H.super, H.imap, H.block, H.bcount, H.other, H.clear, H.keep⟩, rfl⟩
  unfold MInode.emptied
  rw [← hd']
  unfold truncate
  rw [if_pos hi, h1, Option.bind_some, hz7, h2, Option.bind_some, hi2, hz8, h3]
  rfl

/-- `truncate` gives all blocks of a file back, and panics on none. -/
theorem truncate_spec {i : Id} (S : d.Sound) (Q : d.Quiet) (hsb : d.super i.dev = some sb)
    (hi : (d.inode i).isFile = true) :
    ∃ d', truncate d i = some d' ∧ d'.Sound ∧ d.Emptied i d' := by
  obtain ⟨d', h, H, hinode⟩ := truncate_frees (S.area hsb) (S.left Q hsb) hi
  refine ⟨d', h, S.emptied hsb H (fun j hj => ?_) fun k hk _ => ?_,
    H.super, H.imap, H.block, H.bcount, hinode⟩
  · rw [hinode]
    exact Function.update_of_ne hj ..
  · rw [hinode, Function.update_self]
    exact if_pos hk

end Linux011.Minix

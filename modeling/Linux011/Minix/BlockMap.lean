import Linux011.Minix.Bmap

/-!
# The laws of the block map

`_bmap` seen from one inode: its nine zones and the index blocks they lead to are one tree, whatever
the rest of the disk holds. `get_diskBlock` reads a pointer of the tree. `create_diskBlock` fills the
empty pointers on the way to one block of the file and leaves all others as they are.

That needs the tree to have no block twice, and it needs more: a block of the tree that the zone map
shows as free is a block that `new_block` hands out again and clears. Nothing in `_bmap` looks for
that. With both, the tree stays as good as it was, and the blocks taken from the map are in it.
-/

namespace Linux011.Minix

open Fs (Id Byte Block)
open Inode (Dev)
open Lib (Path Forest)

/-! ## The tree of an inode -/

/-- The zones of an inode and the pointers of its index blocks. -/
def Disk.tree (d : Disk) (i : Id) : Forest Unit Nat Block where
  root _ k := (d.inode i).zone k
  child b k := pointer (d.block i.dev b) k

/-- The block at the end of a path, 0 when there is none. -/
def Disk.ref (d : Disk) (i : Id) (p : Path Nat) : Block := (d.tree i).ref () p

/-- No block is referenced twice. -/
def Disk.Once (d : Disk) (i : Id) : Prop :=
  ∀ {p q}, IsZone p → IsZone q → d.ref i p ≠ 0 → d.ref i p = d.ref i q → p = q

/-- The block is one of the tree. -/
def Disk.Owns (d : Disk) (i : Id) (b : Block) : Prop := ∃ p, IsZone p ∧ d.ref i p = b

/-- The zone map shows `b` as free: it is the block of a clear bit. -/
def Disk.Vacant (d : Disk) (dev : Dev) (sb : SuperBlock) (b : Block) : Prop :=
  b.toNat < sb.nzones ∧ ∃ j, d.zmap dev j = false ∧ j + sb.firstdatazone - 1 = b.toNat

/-- The block tree of an inode is in order. -/
structure Disk.Mapped (d : Disk) (i : Id) (sb : SuperBlock) : Prop where
  layout : 1 ≤ sb.firstdatazone ∧ sb.nzones ≤ 2 ^ 16
  once : d.Once i
  marked : ∀ {p}, IsZone p → d.ref i p ≠ 0 → ¬ d.Vacant i.dev sb (d.ref i p)

variable {d d' d'' : Disk} {dev : Dev} {sb : SuperBlock} {i : Id} {a b : Block} {j k l m n : Nat}
  {p q : Path Nat} {create : Bool} {js ks : List Nat}

theorem Disk.ref_step (h : d.ref i p ≠ 0) :
    d.ref i (.step p k) = pointer (d.block i.dev (d.ref i p)) k :=
  Forest.ref_step_of_ne h

theorem Disk.ref_step_of_zero (h : d.ref i p = 0) : d.ref i (.step p k) = 0 :=
  Forest.ref_step_of_zero h

theorem Disk.ref_brelse : (d.brelse dev a).ref i p = d.ref i p := rfl

/-! ## Pointers that are not filled -/

theorem shiftRight_nine (n : Nat) : n >>> 9 = n / 512 := Nat.shiftRight_eq_div_pow n 9

theorem and_511 (n : Nat) : n &&& 511 = n % 512 := Nat.and_two_pow_sub_one_eq_mod n 9

/-- A pointer is only read when it is set, or when no block is to be created. -/
theorem fillZone_read (h : create = false ∨ d.ref i (.root k) ≠ 0) :
    fillZone d i k create = some (d.ref i (.root k), d) := by
  have hempty : ¬ (create = true ∧ (d.inode i).zone k = 0) := by
    rintro ⟨hcreate, hzero⟩
    rcases h with h | h
    · rw [h] at hcreate
      cases hcreate
    · exact h hzero
  unfold fillZone
  rw [if_neg hempty]
  rfl

theorem fillEntry_read (h0 : d.ref i p ≠ 0) (h : create = false ∨ d.ref i (.step p k) ≠ 0) :
    fillEntry d i.dev (d.ref i p) k create = some (d.ref i (.step p k), d) := by
  have hempty : ¬ (create = true ∧ pointer (d.block i.dev (d.ref i p)) k = 0) := by
    rintro ⟨hcreate, hzero⟩
    rcases h with h | h
    · rw [h] at hcreate
      cases hcreate
    · exact h ((Disk.ref_step h0).trans hzero)
  unfold fillEntry
  dsimp only
  have hdata : (d.bread i.dev (d.ref i p)).block = d.block := rfl
  rw [hdata, if_neg hempty, Disk.brelse_bread, Disk.ref_step h0]

/-- The pointers on the way to one that is set are set. -/
theorem read_of_step (h : create = false ∨ d.ref i (.step p k) ≠ 0) :
    create = false ∨ d.ref i p ≠ 0 :=
  h.imp_right fun h h0 => h (Disk.ref_step_of_zero h0)

/-- The part of `_bmap` behind a pointer to an index block. -/
theorem fillEntry_read_of_step (h : create = false ∨ d.ref i (.step p k) ≠ 0) :
    (if d.ref i p = 0 then some (0, d) else fillEntry d i.dev (d.ref i p) k create) =
      some (d.ref i (.step p k), d) := by
  by_cases h0 : d.ref i p = 0
  · rw [if_pos h0, Disk.ref_step_of_zero h0]
  · rw [if_neg h0, fillEntry_read h0 h]

theorem bmap_read (hn : n < 7 + 512 + 512 * 512) (h : create = false ∨ d.ref i (slot n) ≠ 0) :
    bmap d i n create = some (d.ref i (slot n), d) := by
  unfold slot at h ⊢
  unfold bmap
  rw [if_neg (by omega)]
  by_cases h7 : n < 7
  · rw [if_pos h7] at h ⊢
    rw [if_pos h7]
    exact fillZone_read h
  · rw [if_neg h7] at h ⊢
    rw [if_neg h7]
    by_cases h512 : n - 7 < 512
    · rw [if_pos h512] at h ⊢
      simp only [if_pos h512]
      rw [fillZone_read (read_of_step h), Option.bind_some]
      exact fillEntry_read_of_step h
    · rw [if_neg h512] at h ⊢
      simp only [if_neg h512]
      rw [Nat.sub_sub, shiftRight_nine, and_511, fillZone_read (read_of_step (read_of_step h)),
        Option.bind_some]
      have hind := fillEntry_read_of_step (read_of_step h)
      by_cases h0 : d.ref i (.root 8) = 0
      · dsimp only
        rw [if_pos h0, Disk.ref_step_of_zero (Disk.ref_step_of_zero h0)]
      · dsimp only
        rw [if_neg h0] at hind ⊢
        rw [hind, Option.bind_some]
        exact fillEntry_read_of_step h

/-- `get_diskBlock` returns the block of the tree, and changes nothing. -/
theorem getDiskBlock_read (hn : n < 7 + 512 + 512 * 512) :
    getDiskBlock d i n = some (d.ref i (slot n), d) :=
  bmap_read hn (Or.inl rfl)

/-- Where a block is, `create_diskBlock` returns it and changes nothing. -/
theorem createDiskBlock_read (hn : n < 7 + 512 + 512 * 512) (h : d.ref i (slot n) ≠ 0) :
    createDiskBlock d i n = some (d.ref i (slot n), d) :=
  bmap_read hn (Or.inr h)

/-! ## Taking a block -/

/-- What `new_block` does when it returns `b`: at most one bit is set, and it is that of `b`, or it
stands for no block. -/
structure Takes (d : Disk) (dev : Dev) (sb : SuperBlock) (b : Block) (js : List Nat) (d' : Disk) :
    Prop where
  inode : d'.inode = d.inode
  super : d'.super = d.super
  zmap : ∀ j, d'.zmap dev j = true ↔ d.zmap dev j = true ∨ j ∈ js
  clear : ∀ j ∈ js, d.zmap dev j = false
  length : js.length ≤ 1
  block : ∀ c, c ≠ b → d'.block dev c = d.block dev c
  blank : b ≠ 0 → d'.block dev b = fun _ => 0
  vacant : b ≠ 0 → d.Vacant dev sb b ∧ ¬ d'.Vacant dev sb b
  only : ∀ j ∈ js, j + sb.firstdatazone - 1 < sb.nzones → j + sb.firstdatazone - 1 = b.toNat

theorem Takes.refl (d : Disk) (dev : Dev) (sb : SuperBlock) : Takes d dev sb 0 [] d where
  inode := rfl
  super := rfl
  zmap j := by simp
  clear := by simp
  length := Nat.zero_le 1
  block _ _ := rfl
  blank h := absurd rfl h
  vacant h := absurd rfl h
  only := by simp

theorem Disk.setZmap_zmap (d : Disk) (dev : Dev) (j k : Nat) :
    (d.setZmap dev j true).zmap dev k = true ↔ d.zmap dev k = true ∨ k ∈ [j] := by
  have hbit : (d.setZmap dev j true).zmap dev k = if k = j then true else d.zmap dev k :=
    if_congr (and_iff_right rfl) rfl rfl
  rw [hbit, List.mem_singleton]
  by_cases hk : k = j
  · simp [hk]
  · simp [hk]

/-- The bit of a block is not shown as free after it has been set. -/
theorem not_vacant (hlayout : 1 ≤ sb.firstdatazone) (hj : j + sb.firstdatazone - 1 = b.toNat)
    (hset : d.zmap dev j = true) : ¬ d.Vacant dev sb b := by
  rintro ⟨-, k, hclear, hk⟩
  obtain rfl : k = j := by omega
  rw [hset] at hclear
  cases hclear

theorem newBlock_takes (hsb : d.super dev = some sb)
    (hlayout : 1 ≤ sb.firstdatazone ∧ sb.nzones ≤ 2 ^ 16) (h : newBlock d dev = some (b, d')) :
    ∃ js, Takes d dev sb b js d' := by
  unfold newBlock at h
  rw [hsb] at h
  dsimp only at h
  cases hj : firstZero (d.zmap dev) mapBits 0 with
  | none =>
    rw [hj] at h
    cases h
    exact ⟨[], .refl d dev sb⟩
  | some j =>
    rw [hj] at h
    dsimp only at h
    have hclear : d.zmap dev j = false := (firstZero_some hj).2.2
    have hcl : ∀ k ∈ [j], d.zmap dev k = false := by
      intro k hk
      rw [List.mem_singleton.mp hk]
      exact hclear
    split at h
    · next hend =>
      -- the bit stands for no zone: it has been set all the same
      cases h
      refine ⟨[j], rfl, rfl, d.setZmap_zmap dev j, hcl, Nat.le_refl 1, fun _ _ => rfl,
        fun h0 => absurd rfl h0, fun h0 => absurd rfl h0, fun k hk hlt => ?_⟩
      rw [List.mem_singleton.mp hk] at hlt
      omega
    · next hend =>
      split at h
      · cases h
      · cases h
        have hnat : (BitVec.ofNat 16 (j + sb.firstdatazone - 1)).toNat =
            j + sb.firstdatazone - 1 := by
          rw [BitVec.toNat_ofNat]
          exact Nat.mod_eq_of_lt (by omega)
        have hset : (d.setZmap dev j true).zmap dev j = true :=
          (d.setZmap_zmap dev j j).mpr (Or.inr (List.mem_singleton.mpr rfl))
        refine ⟨[j], rfl, rfl, d.setZmap_zmap dev j, hcl, Nat.le_refl 1, fun c hc => ?_,
          fun _ => ?_, fun _ => ⟨⟨?_, j, hclear, hnat.symm⟩, ?_⟩, fun k hk _ => ?_⟩
        · exact if_neg fun h => hc h.2
        · exact if_pos ⟨rfl, rfl⟩
        · rw [hnat]
          exact Nat.lt_of_not_le hend
        · exact not_vacant hlayout.1 hnat.symm hset
        · rw [List.mem_singleton.mp hk, hnat]

/-! ## Filling a pointer -/

/-- From `d` to `d'` the pointers on the way to `p` have been filled, the last one with `b`; `js` are
the bits that were set. -/
structure Extends (d : Disk) (i : Id) (sb : SuperBlock) (p : Path Nat) (b : Block) (js : List Nat)
    (d' : Disk) : Prop where
  mapped : d'.Mapped i sb
  super : d'.super = d.super
  ref : d'.ref i p = b
  old : ∀ {q}, IsZone q → d.ref i q ≠ 0 → d'.ref i q = d.ref i q
  kept : ∀ {q}, IsData q → q ≠ p → d'.ref i q = d.ref i q
  zmap : ∀ j, d'.zmap i.dev j = true ↔ d.zmap i.dev j = true ∨ j ∈ js
  clear : ∀ j ∈ js, d.zmap i.dev j = false
  owned : ∀ j ∈ js, 0 < j + sb.firstdatazone - 1 → j + sb.firstdatazone - 1 < sb.nzones →
    ∃ c, d'.Owns i c ∧ c.toNat = j + sb.firstdatazone - 1

theorem Extends.refl (M : d.Mapped i sb) (p : Path Nat) : Extends d i sb p (d.ref i p) [] d where
  mapped := M
  super := rfl
  ref := rfl
  old _ _ := rfl
  kept _ _ := rfl
  zmap j := by simp
  clear := by simp
  owned := by simp

/-- A pointer behind an index block that is not there. -/
theorem Extends.none (E : Extends d i sb p 0 js d') (hp : IsZone (.step p k)) :
    Extends d i sb (.step p k) 0 js d' where
  mapped := E.mapped
  super := E.super
  ref := Disk.ref_step_of_zero E.ref
  old := E.old
  kept hq _ := E.kept hq fun h => hq.not_step (h ▸ hp)
  zmap := E.zmap
  clear := E.clear
  owned := E.owned

theorem Extends.trans (E : Extends d i sb p a js d') (E' : Extends d' i sb (.step p k) b ks d'')
    (hp : IsZone (.step p k)) : Extends d i sb (.step p k) b (js ++ ks) d'' where
  mapped := E'.mapped
  super := E'.super.trans E.super
  ref := E'.ref
  old hq h0 := by
    have h1 := E.old hq h0
    rw [E'.old hq (h1 ▸ h0), h1]
  kept hq hne := by
    -- an index block's own pointer is no pointer to a block of the file
    rw [E'.kept hq hne, E.kept hq fun h => hq.not_step (h ▸ hp)]
  zmap j := by rw [E'.zmap, E.zmap, List.mem_append, or_assoc]
  clear j hj := by
    rcases List.mem_append.mp hj with hj | hj
    · exact E.clear j hj
    · have hclear := E'.clear j hj
      by_contra hset
      rw [(E.zmap j).mpr (Or.inl (Bool.eq_true_of_not_eq_false hset))] at hclear
      cases hclear
  owned j hj hpos hlt := by
    rcases List.mem_append.mp hj with hj | hj
    · obtain ⟨c, ⟨q, hq, hqc⟩, hc⟩ := E.owned j hj hpos hlt
      have h0 : d'.ref i q ≠ 0 := by
        rintro h0
        rw [← hqc, h0] at hc
        exact absurd (show (0 : Nat) = _ from hc) (by omega)
      exact ⟨c, ⟨q, hq, (E'.old hq h0).trans hqc⟩, hc⟩
    · exact E'.owned j hj hpos hlt

/-- What the two ways to fill an empty pointer have in common. -/
theorem Disk.Mapped.fill {d1 : Disk} (M : d.Mapped i sb) (T : Takes d i.dev sb b js d1)
    (hp : IsZone p) (hzero : d.ref i p = 0)
    (href : ∀ q, IsZone q → d'.ref i q = if q = p then b else d.ref i q)
    (hsuper : d'.super = d.super) (hzmap : d'.zmap = d1.zmap) : Extends d i sb p b js d' := by
  have hself : d'.ref i p = b := by rw [href p hp, if_pos rfl]
  have hnew : b ≠ 0 → ∀ q, IsZone q → d.ref i q ≠ b := fun h0 q hq h =>
    M.marked hq (h ▸ h0) (h ▸ (T.vacant h0).1)
  have hvacant : ∀ c, d'.Vacant i.dev sb c → d.Vacant i.dev sb c := by
    rintro c ⟨hlt, j, hclear, hj⟩
    refine ⟨hlt, j, ?_, hj⟩
    by_contra hset
    rw [hzmap, (T.zmap j).mpr (Or.inl (Bool.eq_true_of_not_eq_false hset))] at hclear
    cases hclear
  refine ⟨⟨M.layout, fun {q r} hq hr h0 heq => ?_, fun {q} hq h0 => ?_⟩, hsuper, hself,
    fun {q} hq h0 => ?_, fun {q} hq hne => ?_, fun j => ?_, T.clear, fun j hj _ hlt => ?_⟩
  · rw [href q hq] at h0 heq
    rw [href r hr] at heq
    by_cases hqp : q = p
    · by_cases hrp : r = p
      · exact hqp.trans hrp.symm
      · rw [if_pos hqp] at h0 heq
        rw [if_neg hrp] at heq
        exact absurd heq.symm (hnew h0 r hr)
    · rw [if_neg hqp] at h0 heq
      by_cases hrp : r = p
      · rw [if_pos hrp] at heq
        exact absurd heq (hnew (heq ▸ h0) q hq)
      · rw [if_neg hrp] at heq
        exact M.once hq hr h0 heq
  · rw [href q hq] at h0 ⊢
    by_cases hqp : q = p
    · rw [if_pos hqp] at h0 ⊢
      rintro ⟨hlt, j, hclear, hj⟩
      exact (T.vacant h0).2 ⟨hlt, j, hzmap ▸ hclear, hj⟩
    · rw [if_neg hqp] at h0 ⊢
      exact fun hv => M.marked hq h0 (hvacant _ hv)
  · rw [href q hq, if_neg]
    rintro rfl
    exact h0 hzero
  · rw [href q hq.isZone, if_neg hne]
  · rw [hzmap]
    exact T.zmap j
  · exact ⟨b, ⟨p, hp, hself⟩, (T.only j hj hlt).symm⟩

/-- An empty zone of the inode. -/
theorem Disk.Mapped.ref_setZone {d1 : Disk} (M : d.Mapped i sb) (T : Takes d i.dev sb b js d1)
    (hzero : d.ref i (.root k) = 0) (hq : IsZone q) :
    (d1.setZone i k b).ref i q = if q = .root k then b else d.ref i q := by
  have hinode : (d1.setZone i k b).inode i =
      { d.inode i with zone := Function.update (d.inode i).zone k b } := by
    rw [← T.inode]
    exact Function.update_self ..
  have hroots : ∀ l, ((d1.setZone i k b).tree i).root () l =
      if l = k then b else (d.tree i).root () l := by
    intro l
    show ((d1.setZone i k b).inode i).zone l = _
    rw [hinode]
    by_cases hl : l = k
    · rw [if_pos hl, hl]
      exact Function.update_self ..
    · rw [if_neg hl]
      exact Function.update_of_ne hl ..
  have hchild : ∀ c l, c ≠ b → ((d1.setZone i k b).tree i).child c l = (d.tree i).child c l := by
    intro c l hc
    show pointer (d1.block i.dev c) l = pointer (d.block i.dev c) l
    rw [T.block c hc]
  by_cases h0 : b = 0
  · -- no block was left: the zone stays empty
    subst h0
    have hsame : (d1.setZone i k 0).ref i q = d.ref i q := by
      refine Forest.ref_congr isZone_shape ?_ (fun _ r l _ hr => hchild _ l hr) q hq
      funext _ l
      rw [hroots]
      split
      · next hl => exact (hl ▸ hzero : d.ref i (.root l) = 0).symm
      · rfl
    rw [hsame]
    split
    · next hqk => rw [hqk, hzero]
    · rfl
  · have hnew : ∀ (_ : Unit) r, IsZone r → (d.tree i).ref () r ≠ b := fun _ r hr h =>
      M.marked hr (fun hz => h0 (h.symm.trans hz)) ((show d.ref i r = b from h) ▸ (T.vacant h0).1)
    have hblank : ∀ l, ((d1.setZone i k b).tree i).child b l = 0 := by
      intro l
      show pointer (d1.block i.dev b) l = 0
      rw [T.blank h0, pointer_zero]
    have hset : ((d1.setZone i k b).tree i).ref () q =
        if () = () ∧ q = .root k then b else (d.tree i).ref () q :=
      Forest.ref_setRoot hzero h0 hblank
        (fun _ l => (hroots l).trans (if_congr (and_iff_right rfl).symm rfl rfl)) hchild hnew
        isZone_shape q hq
    exact hset.trans (if_congr (and_iff_right rfl) rfl rfl)

/-- An empty pointer of an index block. -/
theorem Disk.Mapped.ref_setEntry {d1 : Disk} (M : d.Mapped i sb) (T : Takes d i.dev sb b js d1)
    (ha : d.ref i p ≠ 0) (hp : IsZone (.step p k)) (hzero : d.ref i (.step p k) = 0) (h0 : b ≠ 0)
    (hq : IsZone q) :
    (d1.setEntry i.dev (d.ref i p) k b).ref i q = if q = .step p k then b else d.ref i q := by
  have hne : ∀ r, IsZone r → d.ref i r ≠ b := fun r hr h =>
    M.marked hr (fun hz => h0 (h.symm.trans hz)) (h ▸ (T.vacant h0).1)
  have hab := hne p (isZone_shape p k hp)
  have hself : d1.block i.dev (d.ref i p) = d.block i.dev (d.ref i p) := T.block _ hab
  have hblock : ∀ c, (d1.setEntry i.dev (d.ref i p) k b).block i.dev c =
      if c = d.ref i p then setPointer (d.block i.dev (d.ref i p)) k b else d1.block i.dev c := by
    intro c
    rw [← hself]
    exact if_congr (and_iff_right rfl) rfl rfl
  have hroot : ((d1.setEntry i.dev (d.ref i p) k b).tree i).root = (d.tree i).root := by
    funext _ l
    show (d1.inode i).zone l = (d.inode i).zone l
    rw [T.inode]
  have hblank : ∀ l, ((d1.setEntry i.dev (d.ref i p) k b).tree i).child b l = 0 := by
    intro l
    show pointer ((d1.setEntry i.dev (d.ref i p) k b).block i.dev b) l = 0
    rw [hblock, if_neg hab.symm, T.blank h0, pointer_zero]
  have hchild : ∀ c l, c ≠ b → ((d1.setEntry i.dev (d.ref i p) k b).tree i).child c l =
      if c = (d.tree i).ref () p ∧ l = k then b else (d.tree i).child c l := by
    intro c l hc
    show pointer ((d1.setEntry i.dev (d.ref i p) k b).block i.dev c) l =
      if c = d.ref i p ∧ l = k then b else pointer (d.block i.dev c) l
    rw [hblock]
    by_cases hcp : c = d.ref i p
    · rw [if_pos hcp, hcp]
      by_cases hl : l = k
      · rw [hl, pointer_setPointer, if_pos ⟨rfl, rfl⟩]
      · rw [pointer_setPointer_of_ne hl, if_neg fun h => hl h.2]
    · rw [if_neg hcp, if_neg fun h => hcp h.1, T.block c hc]
  have S : (d.tree i).Separate IsZone (d.Owns i) :=
    { inj := fun hp hq h0 h => ⟨rfl, M.once hp hq h0 h⟩
      used_iff := fun _ => ⟨fun ⟨p, hp, h⟩ => ⟨(), p, hp, h⟩, fun ⟨_, p, hp, h⟩ => ⟨p, hp, h⟩⟩ }
  have hfresh : ¬ d.Owns i b := fun ⟨r, hr, h⟩ => hne r hr h
  have hempty : (d.tree i).child ((d.tree i).ref () p) k = 0 := (Disk.ref_step ha).symm.trans hzero
  have hset : ((d1.setEntry i.dev (d.ref i p) k b).tree i).ref () q =
      if () = () ∧ q = .step p k then b else (d.tree i).ref () q :=
    Forest.ref_setChild S isZone_shape hp ha hempty h0 hfresh hblank hroot hchild q hq
  exact hset.trans (if_congr (and_iff_right rfl) rfl rfl)

/-- A zone of the inode is filled when it is empty. -/
theorem fillZone_extends (hsb : d.super i.dev = some sb) (M : d.Mapped i sb) (hk : k < 9)
    (h : fillZone d i k true = some (b, d')) :
    ∃ js, js.length ≤ 1 ∧ Extends d i sb (.root k) b js d' := by
  by_cases hzero : d.ref i (.root k) = 0
  · unfold fillZone at h
    rw [if_pos ⟨rfl, hzero⟩] at h
    obtain ⟨⟨c, d1⟩, hnew, hret⟩ := Option.map_eq_some_iff.mp h
    obtain ⟨js, T⟩ := newBlock_takes hsb M.layout hnew
    cases hret
    exact ⟨js, T.length, M.fill T hk hzero (fun q hq => M.ref_setZone T hzero hq) T.super rfl⟩
  · rw [fillZone_read (Or.inr hzero)] at h
    cases h
    exact ⟨[], Nat.zero_le 1, .refl M _⟩

/-- A pointer of an index block of the inode is filled when it is empty. -/
theorem fillEntry_extends (hsb : d.super i.dev = some sb) (M : d.Mapped i sb) (ha : d.ref i p ≠ 0)
    (hp : IsZone (.step p k)) (h : fillEntry d i.dev (d.ref i p) k true = some (b, d')) :
    ∃ js, js.length ≤ 1 ∧ Extends d i sb (.step p k) b js d' := by
  by_cases hzero : d.ref i (.step p k) = 0
  · unfold fillEntry at h
    dsimp only at h
    have hempty : pointer ((d.bread i.dev (d.ref i p)).block i.dev (d.ref i p)) k = 0 :=
      (Disk.ref_step ha).symm.trans hzero
    rw [if_pos ⟨rfl, hempty⟩] at h
    obtain ⟨⟨c, d1⟩, hnew, hret⟩ := Option.map_eq_some_iff.mp h
    obtain ⟨js, T'⟩ := newBlock_takes (d := d.bread i.dev (d.ref i p)) hsb M.layout hnew
    -- the reference to the index block's buffer is not seen by what follows
    have T : Takes d i.dev sb c js d1 :=
      ⟨T'.inode, T'.super, T'.zmap, T'.clear, T'.length, T'.block, T'.blank, T'.vacant, T'.only⟩
    cases hret
    by_cases h0 : c = 0
    · subst h0
      rw [if_neg fun h => h rfl]
      refine ⟨js, T.length, M.fill T hp hzero (fun q hq => ?_) T.super rfl⟩
      have hsame : d1.ref i q = d.ref i q := by
        refine Forest.ref_congr isZone_shape ?_ (fun _ r l _ hr => ?_) q hq
        · funext _ l
          show (d1.inode i).zone l = (d.inode i).zone l
          rw [T.inode]
        · show pointer (d1.block i.dev _) l = pointer (d.block i.dev _) l
          rw [T.block _ hr]
      rw [Disk.ref_brelse, hsame]
      split
      · next hqp => rw [hqp, hzero]
      · rfl
    · rw [if_pos h0]
      refine ⟨js, T.length, M.fill T hp hzero (fun q hq => ?_) T.super rfl⟩
      rw [Disk.ref_brelse]
      exact M.ref_setEntry T ha hp hzero h0 hq
  · rw [fillEntry_read ha (Or.inr hzero)] at h
    cases h
    exact ⟨[], Nat.zero_le 1, .refl M _⟩

/-- The part of `_bmap` behind a pointer that has been filled. -/
theorem Extends.entry (E : Extends d i sb p a js d') (hsb : d.super i.dev = some sb)
    (hp : IsZone (.step p k))
    (h : (if a = 0 then some (0, d') else fillEntry d' i.dev a k true) = some (b, d'')) :
    ∃ ks, ks.length ≤ js.length + 1 ∧ Extends d i sb (.step p k) b ks d'' := by
  by_cases h0 : a = 0
  · rw [if_pos h0] at h
    cases h
    exact ⟨js, Nat.le_succ _, (h0 ▸ E).none hp⟩
  · rw [if_neg h0] at h
    obtain rfl := E.ref
    obtain ⟨ks, hlen, E'⟩ := fillEntry_extends (E.super ▸ hsb) E.mapped h0 hp h
    refine ⟨js ++ ks, ?_, E.trans E' hp⟩
    rw [List.length_append]
    exact Nat.add_le_add_left hlen _

theorem createDiskBlock_extends (hsb : d.super i.dev = some sb) (M : d.Mapped i sb)
    (hn : n < 7 + 512 + 512 * 512) (h : createDiskBlock d i n = some (b, d')) :
    ∃ js, js.length ≤ 3 ∧ Extends d i sb (slot n) b js d' := by
  unfold createDiskBlock bmap at h
  unfold slot
  rw [if_neg (by omega)] at h
  by_cases h7 : n < 7
  · rw [if_pos h7] at h ⊢
    obtain ⟨js, hlen, E⟩ := fillZone_extends hsb M (by omega) h
    exact ⟨js, by omega, E⟩
  · rw [if_neg h7] at h ⊢
    by_cases h512 : n - 7 < 512
    · simp only [if_pos h512] at h ⊢
      obtain ⟨⟨ind, d1⟩, h1, h2⟩ := Option.bind_eq_some_iff.mp h
      obtain ⟨js, hlen, E⟩ := fillZone_extends hsb M (by decide) h1
      obtain ⟨ks, hks, E'⟩ := E.entry hsb ⟨Or.inl rfl, h512⟩ h2
      exact ⟨ks, by omega, E'⟩
    · simp only [if_neg h512] at h ⊢
      rw [Nat.sub_sub, shiftRight_nine, and_511] at h
      obtain ⟨⟨dind, d1⟩, h1, h2⟩ := Option.bind_eq_some_iff.mp h
      obtain ⟨js, hlen, E⟩ := fillZone_extends hsb M (by decide) h1
      have hl : IsZone (.step (.root 8) ((n - 519) / 512)) := ⟨Or.inr rfl, by omega⟩
      have hm : IsZone (.step (.step (.root 8) ((n - 519) / 512)) ((n - 519) % 512)) :=
        ⟨rfl, by omega, Nat.mod_lt _ (by decide)⟩
      dsimp only at h2
      by_cases hdind : dind = 0
      · rw [if_pos hdind] at h2
        cases h2
        exact ⟨js, by omega, ((hdind ▸ E).none hl).none hm⟩
      · rw [if_neg hdind] at h2
        obtain ⟨⟨ind, d2⟩, h2, h3⟩ := Option.bind_eq_some_iff.mp h2
        obtain ⟨ks, hks, E'⟩ := E.entry hsb hl (by rw [if_neg hdind]; exact h2)
        obtain ⟨ls, hls, E''⟩ := E'.entry hsb hm h3
        exact ⟨ls, by omega, E''⟩

/-! ## The laws -/

/-- `get_diskBlock` changes nothing, and gives two blocks of the file different blocks of the disk. A
block that `create_diskBlock` returns is the one that is there from then on; the rest of the file
stays where it is; and what has been taken from the zone map, at most three blocks, is in the tree,
which is in order again. -/
theorem block_map_laws (hsb : d.super i.dev = some sb) (M : d.Mapped i sb)
    (hn : n < 7 + 512 + 512 * 512) (hm : m < 7 + 512 + 512 * 512) (hne : m ≠ n) :
    (∃ a c, getDiskBlock d i n = some (a, d) ∧ getDiskBlock d i m = some (c, d) ∧
      (a ≠ 0 → a ≠ c)) ∧
    ∀ b d', createDiskBlock d i n = some (b, d') →
      (b ≠ 0 → getDiskBlock d' i n = some (b, d') ∧ createDiskBlock d' i n = some (b, d')) ∧
      (∃ c, getDiskBlock d i m = some (c, d) ∧ getDiskBlock d' i m = some (c, d') ∧
        (b ≠ 0 → b ≠ c)) ∧
      d'.Mapped i sb ∧
      ∃ js : List Nat, js.length ≤ 3 ∧ (∀ j ∈ js, d.zmap i.dev j = false) ∧
        (∀ j, d'.zmap i.dev j = true ↔ d.zmap i.dev j = true ∨ j ∈ js) ∧
        ∀ j ∈ js, 0 < j + sb.firstdatazone - 1 → j + sb.firstdatazone - 1 < sb.nzones →
          ∃ c, d'.Owns i c ∧ c.toNat = j + sb.firstdatazone - 1 := by
  have hslot : slot m ≠ slot n := fun h => hne (slot_inj h)
  have hzn := (slot_isData hn).isZone
  have hzm := (slot_isData hm).isZone
  refine ⟨⟨_, _, getDiskBlock_read hn, getDiskBlock_read hm, fun h0 heq => ?_⟩, fun b d' h => ?_⟩
  · exact hslot (M.once hzn hzm h0 heq).symm
  · obtain ⟨js, hlen, E⟩ := createDiskBlock_extends hsb M hn h
    have hkept := E.kept (slot_isData hm) hslot
    have hget : getDiskBlock d' i n = some (b, d') := by rw [getDiskBlock_read hn, E.ref]
    refine ⟨fun h0 => ⟨hget, ?_⟩, ⟨_, getDiskBlock_read hm, ?_, fun h0 heq => ?_⟩, E.mapped, js, hlen,
      E.clear, E.zmap, E.owned⟩
    · have hthere : d'.ref i (slot n) ≠ 0 := E.ref.symm ▸ h0
      rw [createDiskBlock_read hn hthere, E.ref]
    · rw [getDiskBlock_read hm, hkept]
    · have hthere : d'.ref i (slot n) ≠ 0 := E.ref.symm ▸ h0
      exact hslot (E.mapped.once hzn hzm hthere (by rw [E.ref, hkept, heq])).symm

/-! ## A block of the tree that is shown as free -/

/-- Every file has an index block, block 5, that leads to block 6; one bit of the zone map is clear.
Bit 1 is that of block 5. -/
def indexedDisk (bit : Nat) : Disk where
  inode _ := { MInode.zero with zone := fun k => if k = 7 then 5 else 0 }
  super _ := some ⟨5, 10, 8⟩
  zmap _ j := j != bit
  imap _ _ := true
  block _ b := if b = 5 then setPointer (fun _ => 0) 0 6 else fun _ => 0
  bcount _ _ := 0

theorem indexedDisk_ref (bit : Nat) (i : Id) (p : Path Nat) :
    (indexedDisk bit).ref i p =
      match p with
      | .root k => if k = 7 then 5 else 0
      | .step (.root k) l => if k = 7 ∧ l = 0 then 6 else 0
      | _ => 0 := by
  have hpointer : ∀ l, pointer ((indexedDisk bit).block i.dev 5) l = if l = 0 then 6 else 0 := by
    intro l
    show pointer (setPointer (fun _ => 0) 0 6) l = _
    by_cases hl : l = 0
    · rw [if_pos hl, hl, pointer_setPointer]
    · rw [if_neg hl, pointer_setPointer_of_ne hl, pointer_zero]
  have hroot : ∀ k, (indexedDisk bit).ref i (.root k) = if k = 7 then 5 else 0 := fun _ => rfl
  have hstep : ∀ k l, (indexedDisk bit).ref i (.step (.root k) l) = if k = 7 ∧ l = 0 then 6 else 0 := by
    intro k l
    by_cases hk : k = 7
    · have h5 : (indexedDisk bit).ref i (.root k) = 5 := by rw [hroot, if_pos hk]
      rw [Disk.ref_step (by rw [h5]; decide), h5, hpointer]
      exact if_congr (and_iff_right hk).symm rfl rfl
    · rw [Disk.ref_step_of_zero (by rw [hroot, if_neg hk]), if_neg fun h => hk h.1]
  have hlong : ∀ p l m, (indexedDisk bit).ref i (.step (.step p l) m) = 0 := by
    intro p l m
    induction p generalizing l m with
    | root k =>
      by_cases hkl : k = 7 ∧ l = 0
      · have h6 : (indexedDisk bit).ref i (.step (.root k) l) = 6 := by rw [hstep, if_pos hkl]
        rw [Disk.ref_step (by rw [h6]; decide), h6]
        exact pointer_zero m
      · exact Disk.ref_step_of_zero (by rw [hstep, if_neg hkl])
    | step p k ih => exact Disk.ref_step_of_zero (ih k l)
  match p with
  | .root k => exact hroot k
  | .step (.root k) l => exact hstep k l
  | .step (.step p k) l => exact hlong p k l

theorem indexedDisk_once (bit : Nat) (i : Id) : (indexedDisk bit).Once i := by
  intro p q _ _ h0 heq
  rw [indexedDisk_ref] at h0 heq
  rw [indexedDisk_ref] at heq
  match p, q with
  | .root k, .root l =>
    dsimp only at h0 heq
    grind
  | .root k, .step (.root l) m =>
    dsimp only at h0 heq
    grind
  | .step (.root l) m, .root k =>
    dsimp only at h0 heq
    grind
  | .step (.root k) l, .step (.root m) n =>
    dsimp only at h0 heq
    grind
  | .step (.step p k) l, _ => exact absurd rfl h0
  | .root k, .step (.step q l) m => exact absurd heq h0
  | .step (.root k) l, .step (.step q m) n => exact absurd heq h0

/-- Block 0 of the file gets the index block itself, which is cleared: block 7 of the file is gone. -/
theorem create_takes_vacant_index :
    ∃ d i sb, d.super (Id.dev i) = some sb ∧ 1 ≤ sb.firstdatazone ∧ sb.nzones ≤ 2 ^ 16 ∧ d.Once i ∧
      ∃ d', createDiskBlock d i 0 = some (5, d') ∧ getDiskBlock d i 7 = some (6, d) ∧
        getDiskBlock d' i 7 = some (0, d') := by
  have hcreate : createDiskBlock (indexedDisk 1) ⟨1, 1⟩ 0 =
      some (5, (((indexedDisk 1).setZmap 1 1 true).setBlock 1 5 fun _ => 0).setZone ⟨1, 1⟩ 0 5) := rfl
  refine ⟨indexedDisk 1, ⟨1, 1⟩, ⟨5, 10, 8⟩, rfl, by decide, by decide, indexedDisk_once 1 _, _, hcreate,
    ?_, ?_⟩
  · rw [getDiskBlock_read (by decide), indexedDisk_ref]
    rfl
  · rw [getDiskBlock_read (by decide)]
    rfl

theorem indexedDisk_mapped : (indexedDisk 3).Mapped ⟨1, 1⟩ ⟨5, 10, 8⟩ where
  layout := by decide
  once := indexedDisk_once 3 _
  marked {p} _ h0 := by
    have hclear : ∀ j, (indexedDisk 3).zmap 1 j = false → j = 3 := by
      intro j hj
      exact (by simpa [indexedDisk] using hj : j = 3)
    rintro ⟨-, j, hj, hbit⟩
    obtain rfl := hclear j hj
    rw [indexedDisk_ref] at h0 hbit
    match p with
    | .root k =>
      dsimp only at h0 hbit
      grind
    | .step (.root k) l =>
      dsimp only at h0 hbit
      grind
    | .step (.step p k) l => exact h0 rfl

/-- With bit 3 clear, block 0 of the file gets block 7, and block 7 of the file is kept. -/
theorem block_map_laws_indexedDisk :
    ∃ d', createDiskBlock (indexedDisk 3) ⟨1, 1⟩ 0 = some (7, d') ∧
      getDiskBlock d' ⟨1, 1⟩ 0 = some (7, d') ∧ getDiskBlock d' ⟨1, 1⟩ 7 = some (6, d') := by
  have hcreate : createDiskBlock (indexedDisk 3) ⟨1, 1⟩ 0 =
      some (7, (((indexedDisk 3).setZmap 1 3 true).setBlock 1 7 fun _ => 0).setZone ⟨1, 1⟩ 0 7) := rfl
  have hsb : (indexedDisk 3).super (Id.dev ⟨1, 1⟩) = some ⟨5, 10, 8⟩ := rfl
  obtain ⟨hn, ⟨c, hm, hm', -⟩, -⟩ := (block_map_laws hsb indexedDisk_mapped
    (show 0 < 7 + 512 + 512 * 512 by decide) (show 7 < 7 + 512 + 512 * 512 by decide)
    (by decide)).2 _ _ hcreate
  have hc : getDiskBlock (indexedDisk 3) ⟨1, 1⟩ 7 = some (6, indexedDisk 3) := by
    rw [getDiskBlock_read (by decide), indexedDisk_ref]
    rfl
  obtain rfl : c = 6 := congrArg Prod.fst (Option.some.inj (hm.symm.trans hc))
  exact ⟨_, hcreate, (hn (by decide)).1, hm'⟩

end Linux011.Minix

import Linux011.FileSys.Calls

/-!
# Inodes and their slots in the inode table

`GoodBut x` is what is true of the inodes in memory at every moment, but for inode `x`, of which a
field has been assigned and `i_dirt` not yet: an inode that is not dirty is the same as its slot on
the disk, and no two inodes have one slot. At the end of a call there is no such `x`.

A predicate about inodes is `Stable` if it is kept when an inode is written back; most of what a call
does in between keeps all such predicates. It is `Steady` if it is kept too when an inode is changed and
marked, and `Editable i` if it is, whatever happens to the fields of inode `i`.
-/

namespace Linux011.FileSys

/-! ## Slots -/

/-- What `check_in_superb` finds. -/
def State.superAt {C : Type} (s : State C) (dev : Dev) : Option SuperBlock :=
  if dev = 0 then none else ((List.range 8).find? fun k => (s.super k).dev == dev).map s.super

/-- The `struct d_inode` of an inode, as seen through the buffer cache. -/
def State.slot (s : State Tables) (dev : Dev) (num : Num) : Option DInode :=
  (s.superAt dev).map fun sb => s.contents.inode dev (sb.inodeBlock num) (inodePlace num)

/-- A number is known from its quotient and its remainder. -/
theorem eq_of_div_mod {x y : Block} (hdiv : x / 32 = y / 32) (hmod : x % 32 = y % 32) : x = y := by
  have hd := congrArg BitVec.toNat hdiv
  have hm := congrArg BitVec.toNat hmod
  rw [BitVec.toNat_udiv, BitVec.toNat_udiv] at hd
  rw [BitVec.toNat_umod, BitVec.toNat_umod] at hm
  refine BitVec.eq_of_toNat_eq ?_
  rw [← Nat.div_add_mod x.toNat (BitVec.toNat (32 : Block)), hd, hm, Nat.div_add_mod]

/-- No two inodes of a device have one place. -/
theorem SuperBlock.inodeBlock_inj {sb : SuperBlock} {a b : Num} (hb : sb.inodeBlock a = sb.inodeBlock b)
    (hp : inodePlace a = inodePlace b) : a = b := by
  have hsub : (a.zeroExtend 32 - 1 : Block) = b.zeroExtend 32 - 1 :=
    eq_of_div_mod ((BitVec.add_right_inj _).mp hb) (BitVec.eq_of_toNat_eq hp)
  have hext : (a.zeroExtend 32 : Block) = b.zeroExtend 32 := by
    have h := congrArg (· + 1) hsub
    simpa only [BitVec.sub_add_cancel] using h
  have hback := congrArg (BitVec.setWidth 16) hext
  rwa [BitVec.setWidth_setWidth_of_le _ (by decide), BitVec.setWidth_setWidth_of_le _ (by decide),
    BitVec.setWidth_eq, BitVec.setWidth_eq] at hback

section

variable {C : Type} {s : State C} {i j : Nat} {h : MInode}

theorem setInode_self : (s.setInode i h).inode i = h := Function.update_self ..

theorem setInode_of_ne (hj : j ≠ i) : (s.setInode i h).inode j = s.inode j :=
  Function.update_of_ne hj ..

variable [Contents C]

theorem storeInode_self (bh : Bh) : (s.storeInode i bh).inode i = { s.inode i with dirt := false } :=
  setInode_self

theorem storeInode_of_ne (bh : Bh) (hj : j ≠ i) : (s.storeInode i bh).inode j = s.inode j :=
  setInode_of_ne hj

end

section

variable {s : State Tables} {i j : Nat} {h : MInode} {sb : SuperBlock}

theorem slot_setInode (dev : Dev) (num : Num) : (s.setInode i h).slot dev num = s.slot dev num := rfl

/-- The inode is in its own slot then, and no other slot has changed. -/
theorem slot_storeInode (hsb : s.superAt (s.inode i).dev = some sb) (dev : Dev) (num : Num) :
    (s.storeInode i ((s.inode i).dev, sb.inodeBlock (s.inode i).num)).slot dev num =
      if dev = (s.inode i).dev ∧ num = (s.inode i).num then some (s.inode i).disk
      else s.slot dev num := by
  have hslot : (s.storeInode i ((s.inode i).dev, sb.inodeBlock (s.inode i).num)).slot dev num =
      (s.superAt dev).map fun sb' =>
        if dev = (s.inode i).dev ∧ sb'.inodeBlock num = sb.inodeBlock (s.inode i).num ∧
          inodePlace num = inodePlace (s.inode i).num then (s.inode i).disk
        else s.contents.inode dev (sb'.inodeBlock num) (inodePlace num) := rfl
  rw [hslot]
  by_cases hdev : dev = (s.inode i).dev
  · subst hdev
    rw [hsb, Option.map_some]
    by_cases hnum : num = (s.inode i).num
    · subst hnum
      rw [if_pos ⟨rfl, rfl, rfl⟩, if_pos ⟨rfl, rfl⟩]
    · rw [if_neg fun h => hnum (SuperBlock.inodeBlock_inj h.2.1 h.2.2), if_neg fun h => hnum h.2]
      unfold State.slot
      rw [hsb, Option.map_some]
  · rw [if_neg fun h => hdev h.1]
    unfold State.slot
    congr 1
    funext sb'
    rw [if_neg fun h => hdev h.1]

end

/-! ## What is true of the inodes -/

/-- Of all inodes but `x` that are not dirty the slot is up to date, and no slot has two inodes. -/
structure GoodBut (x : Option Nat) (s : State Tables) : Prop where
  clean : ∀ i, some i ≠ x → (s.inode i).dev ≠ 0 → (s.inode i).dirt = false →
    s.slot (s.inode i).dev (s.inode i).num = some (s.inode i).disk
  unique : ∀ i j, (s.inode i).dev ≠ 0 → (s.inode i).dev = (s.inode j).dev →
    (s.inode i).num = (s.inode j).num → i = j
  inTable : ∀ i, (s.inode i).dev ≠ 0 → i < 32
  noPipe : ∀ i, (s.inode i).pipe = false

/-- At the end of a call. -/
def Good : State Tables → Prop := GoodBut none

namespace GoodBut

variable {x : Option Nat} {s : State Tables} {i : Nat} {h : MInode}

/-- An inode of the table gets other contents. -/
theorem setInode (hs : GoodBut x s)
    (hunique : h.dev ≠ 0 → i < 32 ∧ ∀ j, j ≠ i → ¬ ((s.inode j).dev = h.dev ∧ (s.inode j).num = h.num))
    (hpipe : h.pipe = false) {y : Option Nat} (hxy : ∀ j, j ≠ i → some j = x → some j = y)
    (hclean : some i ≠ y → h.dev ≠ 0 → h.dirt = false → s.slot h.dev h.num = some h.disk) :
    GoodBut y (s.setInode i h) where
  clean j hj hdev hdirt := by
    rw [slot_setInode]
    by_cases hji : j = i
    · subst hji
      rw [setInode_self] at hdev hdirt ⊢
      exact hclean hj hdev hdirt
    · rw [setInode_of_ne hji] at hdev hdirt ⊢
      exact hs.clean j (fun hx => hj (hxy j hji hx)) hdev hdirt
  unique j k hdev hsame hnum := by
    by_cases hji : j = i
    · subst hji
      by_contra hkj
      have hkj : k ≠ j := fun h => hkj h.symm
      rw [setInode_self] at hdev hsame hnum
      rw [setInode_of_ne hkj] at hsame hnum
      exact (hunique hdev).2 k hkj ⟨hsame.symm, hnum.symm⟩
    · rw [setInode_of_ne hji] at hdev hsame hnum
      by_cases hki : k = i
      · subst hki
        rw [setInode_self] at hsame hnum
        exact absurd ⟨hsame, hnum⟩ ((hunique (hsame ▸ hdev)).2 j hji)
      · rw [setInode_of_ne hki] at hsame hnum
        exact hs.unique j k hdev hsame hnum
  inTable j hdev := by
    by_cases hji : j = i
    · subst hji
      rw [setInode_self] at hdev
      exact (hunique hdev).1
    · rw [setInode_of_ne hji] at hdev
      exact hs.inTable j hdev
  noPipe j := by
    by_cases hji : j = i
    · subst hji
      rw [setInode_self]
      exact hpipe
    · rw [setInode_of_ne hji]
      exact hs.noPipe j

/-- The inode stays the same one, and may become the exception. -/
theorem edit (hs : GoodBut x s) {y : Option Nat} (hdev : h.dev = (s.inode i).dev)
    (hnum : h.num = (s.inode i).num) (hpipe : h.pipe = (s.inode i).pipe)
    (hxy : ∀ j, j ≠ i → some j = x → some j = y)
    (hclean : some i ≠ y → h.dev ≠ 0 → h.dirt = false → s.slot h.dev h.num = some h.disk) :
    GoodBut y (s.setInode i h) := by
  refine hs.setInode (fun hne => ?_) (hpipe.trans (hs.noPipe i)) hxy hclean
  have hne : (s.inode i).dev ≠ 0 := hdev ▸ hne
  refine ⟨hs.inTable i hne, fun j hj hsame => hj ?_⟩
  exact (hs.unique i j hne (hdev.symm.trans hsame.1.symm) (hnum.symm.trans hsame.2.symm)).symm

/-- A field that is not on the disk is assigned, or `i_dirt` set. -/
theorem keep (hs : GoodBut x s) (hdev : h.dev = (s.inode i).dev) (hnum : h.num = (s.inode i).num)
    (hpipe : h.pipe = (s.inode i).pipe) (hdisk : h.disk = (s.inode i).disk)
    (hdirt : h.dirt = false → (s.inode i).dirt = false) : GoodBut x (s.setInode i h) := by
  refine hs.edit hdev hnum hpipe (fun _ _ hx => hx) fun hi hne hd => ?_
  rw [hdev, hnum, hdisk]
  exact hs.clean i hi (hdev ▸ hne) (hdirt hd)

/-- A field is assigned, and `i_dirt` set. -/
theorem mark (hs : GoodBut x s) (f : DInode → DInode) : GoodBut x (s.setInode i ((s.inode i).mark f)) :=
  hs.edit rfl rfl rfl (fun _ _ hx => hx) fun _ _ hdirt => nomatch hdirt

/-- `i_dirt` of the exception is set. -/
theorem markExcept (hs : GoodBut (some i) s) (f : DInode → DInode) :
    Good (s.setInode i ((s.inode i).mark f)) :=
  hs.edit rfl rfl rfl (fun _ hj hx => absurd (Option.some.inj hx) hj) fun _ _ hdirt => nomatch hdirt

/-- The entry of the table becomes free. -/
theorem clear (hs : GoodBut (some i) s) (hdev : h.dev = 0) (hpipe : h.pipe = false) :
    Good (s.setInode i h) :=
  hs.setInode (fun hne => absurd hdev hne) hpipe (fun _ hj hx => absurd (Option.some.inj hx) hj)
    fun _ hne _ => absurd hdev hne

end GoodBut

/-- The exception is dirty, or as its slot. -/
theorem GoodBut.settle {s : State Tables} {i : Nat} (hs : GoodBut (some i) s)
    (hi : (s.inode i).dev ≠ 0 → (s.inode i).dirt = false →
      s.slot (s.inode i).dev (s.inode i).num = some (s.inode i).disk) : Good s :=
  { hs with
    clean := fun j _ hdev hdirt => by
      by_cases hj : j = i
      · subst hj
        exact hi hdev hdirt
      · exact hs.clean j (fun h => hj (Option.some.inj h)) hdev hdirt }

theorem Good.except {s : State Tables} (hs : Good s) (i : Nat) : GoodBut (some i) s :=
  { hs with clean := fun j _ => hs.clean j nofun }

/-! ## What the steps of a call keep -/

/-- The predicate is about inodes and their slots. -/
structure Framed (P : State Tables → Prop) : Prop where
  frame : ∀ {s s' : State Tables}, s'.inode = s.inode → s'.contents.inode = s.contents.inode →
    s'.super = s.super → P s → P s'

/-- It holds when an inode has been written back. -/
structure Stable (P : State Tables → Prop) : Prop extends Framed P where
  store : ∀ {s : State Tables} {i : Nat} {sb : SuperBlock}, (s.inode i).dev ≠ 0 →
    s.superAt (s.inode i).dev = some sb → P s →
    P (s.storeInode i ((s.inode i).dev, sb.inodeBlock (s.inode i).num))

/-- It holds when a field of an inode, not `i_nlinks`, has been assigned, and `i_dirt` set. -/
structure Steady (P : State Tables → Prop) : Prop extends Stable P where
  mark : ∀ {s : State Tables} {i : Nat} {f : DInode → DInode}, (∀ d, (f d).nlinks = d.nlinks) → P s →
    P (s.setInode i ((s.inode i).mark f))

/-- It holds when fields of inode `i` have been assigned. -/
structure Editable (i : Nat) (P : State Tables → Prop) : Prop extends Stable P where
  edit : ∀ {s : State Tables} {h : MInode}, h.dev = (s.inode i).dev → h.num = (s.inode i).num →
    h.pipe = (s.inode i).pipe → P s → P (s.setInode i h)

theorem Stable.and {P Q : State Tables → Prop} (hP : Stable P) (hQ : Stable Q) :
    Stable fun s => P s ∧ Q s where
  frame hi hc hs h := ⟨hP.frame hi hc hs h.1, hQ.frame hi hc hs h.2⟩
  store hdev hsb h := ⟨hP.store hdev hsb h.1, hQ.store hdev hsb h.2⟩

theorem Steady.and {P Q : State Tables → Prop} (hP : Steady P) (hQ : Steady Q) :
    Steady fun s => P s ∧ Q s where
  toStable := hP.toStable.and hQ.toStable
  mark hf h := ⟨hP.mark hf h.1, hQ.mark hf h.2⟩

theorem Editable.and {i : Nat} {P Q : State Tables → Prop} (hP : Editable i P) (hQ : Editable i Q) :
    Editable i fun s => P s ∧ Q s where
  toStable := hP.toStable.and hQ.toStable
  edit hdev hnum hpipe h := ⟨hP.edit hdev hnum hpipe h.1, hQ.edit hdev hnum hpipe h.2⟩

/-- An inode that was written back is not changed but for `i_dirt`. -/
theorem storeInode_inode {C : Type} [Contents C] (s : State C) (i : Nat) (bh : Bh) (j : Nat) :
    ∃ b, (s.storeInode i bh).inode j = { s.inode j with dirt := b } ∧
      (b = true → (s.inode j).dirt = true) := by
  by_cases hj : j = i
  · subst hj
    exact ⟨false, storeInode_self bh, nofun⟩
  · exact ⟨(s.inode j).dirt, storeInode_of_ne bh hj, fun h => h⟩

/-- A predicate on one inode that does not look at `i_dirt`. -/
theorem Stable.ofInode {p : MInode → Prop} (hp : ∀ h b, p h → p { h with dirt := b }) (i : Nat) :
    Stable fun s => p (s.inode i) where
  frame hi _ _ h := by rwa [hi]
  store {s j sb} _ _ h := by
    obtain ⟨b, hb, -⟩ := storeInode_inode s j ((s.inode j).dev, sb.inodeBlock (s.inode j).num) i
    rw [hb]
    exact hp _ _ h

theorem GoodBut.stable (x : Option Nat) : Stable (GoodBut x) where
  frame {s s'} hi hc hs h := by
    have hslot : s'.slot = s.slot := by
      unfold State.slot State.superAt
      rw [hc, hs]
    exact ⟨by rw [hi, hslot]; exact h.clean, by rw [hi]; exact h.unique, by rw [hi]; exact h.inTable,
      by rw [hi]; exact h.noPipe⟩
  store {s i sb} hdev hsb h := by
    have hsame : ∀ j, ∃ b, (s.storeInode i ((s.inode i).dev, sb.inodeBlock (s.inode i).num)).inode j =
        { s.inode j with dirt := b } := fun j =>
      let ⟨b, hb, _⟩ := storeInode_inode s i _ j
      ⟨b, hb⟩
    refine ⟨fun j hj hne hdirt => ?_, fun j k hne heq hnum => ?_, fun j hne => ?_, fun j => ?_⟩
    · rw [slot_storeInode hsb]
      by_cases hji : j = i
      · subst hji
        rw [storeInode_self, if_pos ⟨rfl, rfl⟩]
      · rw [storeInode_of_ne _ hji] at hne hdirt ⊢
        rw [if_neg fun hsame => hji (h.unique j i hne hsame.1 hsame.2)]
        exact h.clean j hj hne hdirt
    · obtain ⟨b, hb⟩ := hsame j
      obtain ⟨c, hc⟩ := hsame k
      rw [hb] at hne heq hnum
      rw [hc] at heq hnum
      exact h.unique j k hne heq hnum
    · obtain ⟨b, hb⟩ := hsame j
      rw [hb] at hne
      exact h.inTable j hne
    · obtain ⟨b, hb⟩ := hsame j
      rw [hb]
      exact h.noPipe j

theorem GoodBut.steady (x : Option Nat) : Steady (GoodBut x) where
  toStable := GoodBut.stable x
  mark _ h := h.mark _

theorem GoodBut.editable (i : Nat) : Editable i (GoodBut (some i)) where
  toStable := GoodBut.stable _
  edit hdev hnum hpipe h := h.edit hdev hnum hpipe (fun _ _ hx => hx) fun hi => absurd rfl hi

/-! ## A new inode -/

/-- The last reference to the inode has been given back, or there is one, and `p` holds of the links. -/
def Fresh (p : BitVec 8 → Prop) (i : Nat) (s : State Tables) : Prop :=
  (s.inode i).count = 0 ∨ (s.inode i).count = 1 ∧ p (s.inode i).disk.nlinks

theorem Fresh.steady (p : BitVec 8 → Prop) (i : Nat) : Steady (Fresh p i) where
  toStable := Stable.ofInode (p := fun h => h.count = 0 ∨ h.count = 1 ∧ p h.disk.nlinks)
    (fun _ _ h => h) i
  mark {s j f} hf h := by
    unfold Fresh
    by_cases hj : i = j
    · subst hj
      rw [setInode_self]
      exact h.imp_right fun h => ⟨h.1, (hf _).symm ▸ h.2⟩
    · rw [setInode_of_ne hj]
      exact h

/-! ## The persistent part of an inode -/

/-- Whoever asks for the inode gets `d`: it is in memory, not as a mount point, and dirty if its slot
is not up to date, or the slot has it. -/
structure Persists (dev : Dev) (num : Num) (d : DInode) (s : State Tables) : Prop where
  held : ∀ i, (s.inode i).dev = dev → (s.inode i).num = num →
    (s.inode i).disk = d ∧ (s.inode i).mount = false
  stored : s.slot dev num = some d ∨
    ∃ i, (s.inode i).dev = dev ∧ (s.inode i).num = num ∧ (s.inode i).dirt = true

namespace Persists

variable {dev : Dev} {num : Num} {d : DInode} {s : State Tables} {i : Nat} {h : MInode}

theorem stable : Stable (Persists dev num d) where
  frame {s s'} hi hc hs h := by
    have hslot : s'.slot = s.slot := by
      unfold State.slot State.superAt
      rw [hc, hs]
    exact ⟨by rw [hi]; exact h.held, by rw [hi, hslot]; exact h.stored⟩
  store {s i sb} hdev hsb h := by
    refine ⟨fun j hjd hjn => ?_, ?_⟩
    · obtain ⟨b, hb, -⟩ := storeInode_inode s i ((s.inode i).dev, sb.inodeBlock (s.inode i).num) j
      rw [hb] at hjd hjn ⊢
      exact h.held j hjd hjn
    · rw [slot_storeInode hsb]
      by_cases hsame : dev = (s.inode i).dev ∧ num = (s.inode i).num
      · rw [if_pos hsame]
        exact .inl (congrArg some (h.held i hsame.1.symm hsame.2.symm).1)
      · rw [if_neg hsame]
        refine h.stored.imp_right fun ⟨j, hjd, hjn, hdirt⟩ => ⟨j, ?_⟩
        have hji : j ≠ i := fun hji => hsame ⟨hji ▸ hjd.symm, hji ▸ hjn.symm⟩
        rw [storeInode_of_ne _ hji]
        exact ⟨hjd, hjn, hdirt⟩

/-- Another inode is changed, or this one is not. -/
theorem setInode (hs : Persists dev num d s)
    (hheld : h.dev = dev → h.num = num → h.disk = d ∧ h.mount = false)
    (hdirt : (s.inode i).dev = dev → (s.inode i).num = num → (s.inode i).dirt = true →
      s.slot dev num = some d ∨ h.dev = dev ∧ h.num = num ∧ h.dirt = true) :
    Persists dev num d (s.setInode i h) where
  held j hjd hjn := by
    by_cases hji : j = i
    · subst hji
      rw [setInode_self] at hjd hjn ⊢
      exact hheld hjd hjn
    · rw [setInode_of_ne hji] at hjd hjn ⊢
      exact hs.held j hjd hjn
  stored := by
    rw [slot_setInode]
    obtain hslot | ⟨j, hjd, hjn, hj⟩ := hs.stored
    · exact .inl hslot
    · by_cases hji : j = i
      · subst hji
        refine (hdirt hjd hjn hj).imp_right fun hnew => ⟨j, ?_⟩
        rw [setInode_self]
        exact hnew
      · refine .inr ⟨j, ?_⟩
        rw [setInode_of_ne hji]
        exact ⟨hjd, hjn, hj⟩

/-- Of an inode in memory. -/
theorem ofInode (hs : Good s) (hdev : (s.inode i).dev ≠ 0) (hmount : (s.inode i).mount = false) :
    Persists (s.inode i).dev (s.inode i).num (s.inode i).disk s where
  held j hjd hjn := by
    cases hs.unique i j hdev hjd.symm hjn.symm
    exact ⟨rfl, hmount⟩
  stored := by
    cases hdirt : (s.inode i).dirt with
    | false => exact .inl (hs.clean i nofun hdev hdirt)
    | true => exact .inr ⟨i, rfl, rfl, hdirt⟩

/-- The inode is not in memory. -/
theorem slot_of_absent (hs : Persists dev num d s)
    (habsent : ∀ i, ¬ ((s.inode i).dev = dev ∧ (s.inode i).num = num)) : s.slot dev num = some d :=
  hs.stored.resolve_right fun ⟨i, hd, hn, _⟩ => habsent i ⟨hd, hn⟩

end Persists

end Linux011.FileSys

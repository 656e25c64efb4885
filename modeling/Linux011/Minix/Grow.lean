import Linux011.Minix.BlockMap

/-!
# Filling in blocks

`create_diskBlock` gives a file a block where it has none. Nothing else changes: pointers that are
set stay, no other file is touched, and what the file has there reads as zeros, as the hole did.
When the disk is full it may stop half way, with index blocks that lead nowhere yet.
-/

namespace Linux011.Minix

open Fs (Id Byte Block)
open Inode (Dev)
open Lib (Path Forest)

variable {d d' d'' : Disk} {dev : Dev} {sb : SuperBlock} {i : Id} {a b v : Block} {k n : Nat}
  {p q : Path Nat}

/-- From `d` to `d'` only empty pointers of `i` have been set, to new blocks. -/
structure Disk.Grows (i : Id) (d d' : Disk) : Prop where
  super : d'.super = d.super
  imap : d'.imap = d.imap
  bcount : d'.bcount = d.bcount
  inode : ∀ j, d'.inode j = { d.inode j with zone := (d'.inode j).zone }
  other : ∀ j, j ≠ i → d'.inode j = d.inode j
  ref : ∀ {dev n q}, IsZone q → (d.forest dev).ref n q ≠ 0 →
    (d'.forest dev).ref n q = (d.forest dev).ref n q
  frame : ∀ {dev n q}, IsZone q → ⟨dev, n⟩ ≠ i → (d'.forest dev).ref n q = (d.forest dev).ref n q
  data : ∀ {dev n q}, IsData q → (d.forest dev).ref n q ≠ 0 →
    d'.block dev ((d.forest dev).ref n q) = d.block dev ((d.forest dev).ref n q)
  blank : ∀ {dev n q}, IsData q → (d.forest dev).ref n q = 0 → (d'.forest dev).ref n q ≠ 0 →
    d'.block dev ((d'.forest dev).ref n q) = fun _ => 0

theorem Disk.Grows.refl (i : Id) (d : Disk) : d.Grows i d where
  super := rfl
  imap := rfl
  bcount := rfl
  inode _ := rfl
  other _ _ := rfl
  ref _ _ := rfl
  frame _ _ := rfl
  data _ _ := rfl
  blank _ h h' := absurd h h'

theorem Disk.Grows.trans (G : d.Grows i d') (G' : d'.Grows i d'') : d.Grows i d'' where
  super := G'.super.trans G.super
  imap := G'.imap.trans G.imap
  bcount := G'.bcount.trans G.bcount
  inode j := by rw [G'.inode j, G.inode j]
  other j hj := (G'.other j hj).trans (G.other j hj)
  ref hq h0 := by
    have h1 := G.ref hq h0
    rw [G'.ref hq (h1 ▸ h0), h1]
  frame hq hne := (G'.frame hq hne).trans (G.frame hq hne)
  data {dev n q} hq h0 := by
    have h1 := G.ref hq.isZone h0
    have h2 := G'.data hq (h1 ▸ h0)
    rw [h1] at h2
    exact h2.trans (G.data hq h0)
  blank {dev n q} hq h0 h2 := by
    by_cases h1 : (d'.forest dev).ref n q = 0
    · exact G'.blank hq h1 h2
    · rw [G'.ref hq.isZone h1, G'.data hq h1]
      exact G.blank hq h0 h1

/-! ## One pointer -/

/-- What the two ways to set an empty pointer have in common. -/
theorem Disk.Sound.attach (S : d.Sound) (hsb : d.super i.dev = some sb) (hv : d.Fresh i.dev sb v)
    (hp : IsZone p) (hzero : (d.forest i.dev).ref i.num p = 0)
    (href : ∀ j q, IsZone q → (d'.forest i.dev).ref j q =
      if j = i.num ∧ q = p then v else (d.forest i.dev).ref j q)
    (hsuper : d'.super = d.super) (hzmap : d'.zmap = (d.alloc i.dev sb v).zmap)
    (himap : d'.imap = d.imap) (hbcount : d'.bcount = d.bcount)
    (hinode : ∀ j, d'.inode j = { d.inode j with zone := (d'.inode j).zone })
    (hother : ∀ j, j ≠ i → d'.inode j = d.inode j)
    (hblock : ∀ e b, e ≠ i.dev → d'.block e b = d.block e b)
    (hdata : ∀ n q, IsData q → (d.forest i.dev).ref n q ≠ 0 →
      d'.block i.dev ((d.forest i.dev).ref n q) = d.block i.dev ((d.forest i.dev).ref n q))
    (hblank : IsData p → d'.block i.dev v = fun _ => 0) : d'.Sound ∧ d.Grows i d' := by
  have hforest : ∀ e, e ≠ i.dev → d'.forest e = d.forest e := by
    intro e he
    have hne : ∀ n, (⟨e, n⟩ : Id) ≠ i := fun n h => he (h ▸ rfl)
    unfold Disk.forest
    congr 1
    · funext n k
      rw [hother _ (hne n)]
    · funext b k
      rw [hblock e b he]
  have hv0 := hv.ne_zero S hsb
  constructor
  · refine ⟨fun {e tb} h => S.layout (hsuper ▸ h), fun {e tb} h j hj hres => ?_, fun {e tb} h => ?_⟩
    · rw [hzmap]
      show (if e = i.dev ∧ j = _ then true else d.zmap e j) = true
      split
      · rfl
      · exact S.reserved (hsuper ▸ h) j hj hres
    · rw [hsuper] at h
      by_cases he : e = i.dev
      · subst he
        obtain rfl : sb = tb := Option.some.inj (hsb.symm.trans h)
        have hused : d'.Used i.dev sb = fun a => a = v ∨ d.Used i.dev sb a := by
          rw [← Disk.used_alloc S hsb hv]
          unfold Disk.Used
          rw [hzmap]
        rw [hused]
        exact (S.zones hsb).attach hp hzero hv0 hv.not_used href
      · have hused : d'.Used e tb = d.Used e tb := by
          unfold Disk.Used
          rw [hzmap]
          funext b
          show (_ ∧ _ ∧ (if e = i.dev ∧ _ then true else d.zmap e _) = true) = _
          rw [if_neg fun h => he h.1]
        rw [hused, hforest e he]
        exact S.zones h
  · refine ⟨hsuper, himap, hbcount, hinode, hother, fun {e n q} hq h0 => ?_, fun {e n q} hq hne => ?_,
      fun {e n q} hq h0 => ?_, fun {e n q} hq h0 h1 => ?_⟩ <;> by_cases he : e = i.dev
    · subst he
      rw [href n q hq, if_neg]
      rintro ⟨rfl, rfl⟩
      exact h0 hzero
    · rw [hforest e he]
    · subst he
      rw [href n q hq, if_neg]
      rintro ⟨rfl, rfl⟩
      exact hne rfl
    · rw [hforest e he]
    · subst he
      exact hdata n q hq h0
    · exact hblock e _ he
    · subst he
      rw [href n q hq.isZone] at h1 ⊢
      split at h1
      · next hnq =>
        rw [if_pos hnq]
        exact hblank (hnq.2 ▸ hq)
      · exact absurd h0 h1
    · rw [hforest e he] at h1
      exact absurd h0 h1

/-- A block that no pointer leads to is the end of no path. -/
theorem Disk.Sound.ref_ne_fresh (S : d.Sound) (hsb : d.super dev = some sb) (hv : d.Fresh dev sb v)
    (n : Inode.Num) (hq : IsZone q) : (d.forest dev).ref n q ≠ v := fun h =>
  hv.not_used (((S.zones hsb).used_iff (hv.ne_zero S hsb)).mpr ⟨n, q, hq, h⟩)

/-- The pointers after a zone of a file has been set to a blank block that nothing leads to. -/
theorem Disk.ref_setZone (hv0 : v ≠ 0)
    (hfresh : ∀ j q, IsZone q → (d.forest i.dev).ref j q ≠ v) (hi : (d.inode i).isFile = true)
    (hzero : (d.inode i).zone k = 0) (j : Inode.Num) (hq : IsZone q) :
    (((d.setBlock i.dev v fun _ => 0).setZone i k v).forest i.dev).ref j q =
      if j = i.num ∧ q = .root k then v else (d.forest i.dev).ref j q := by
  have hroot : (d.forest i.dev).root i.num k = 0 := (if_pos hi).trans hzero
  have hself : ((d.setBlock i.dev v fun _ => 0).setZone i k v).inode i =
      { d.inode i with zone := Function.update (d.inode i).zone k v } := Function.update_self ..
  have hblock : ∀ b, ((d.setBlock i.dev v fun _ => 0).setZone i k v).block i.dev b =
      if b = v then fun _ => 0 else d.block i.dev b := fun b =>
    if_congr (and_iff_right rfl) rfl rfl
  refine Forest.ref_setRoot hroot hv0 (fun l => ?_) (fun n l => ?_) (fun b l hb => ?_) hfresh
    isZone_shape q hq
  · show pointer (((d.setBlock i.dev v fun _ => 0).setZone i k v).block i.dev v) l = 0
    rw [hblock, if_pos rfl, pointer_zero]
  · by_cases hn : n = i.num
    · subst hn
      show (if (((d.setBlock i.dev v fun _ => 0).setZone i k v).inode i).isFile then _ else _) = _
      rw [hself]
      have hfile : ({ d.inode i with zone := Function.update (d.inode i).zone k v } :
          MInode).isFile = true := hi
      rw [if_pos hfile]
      show Function.update (d.inode i).zone k v l = _
      by_cases hl : l = k
      · rw [hl, Function.update_self, if_pos ⟨rfl, rfl⟩]
      · rw [Function.update_of_ne hl, if_neg fun h => hl h.2]
        exact (if_pos hi).symm
    · have hne : ((d.setBlock i.dev v fun _ => 0).setZone i k v).inode ⟨i.dev, n⟩ =
          d.inode ⟨i.dev, n⟩ := Function.update_of_ne (fun h => hn (congrArg Id.num h)) ..
      rw [if_neg fun h => hn h.1]
      show (if (((d.setBlock i.dev v fun _ => 0).setZone i k v).inode ⟨i.dev, n⟩).isFile
        then _ else _) = _
      rw [hne]
      rfl
  · show pointer (((d.setBlock i.dev v fun _ => 0).setZone i k v).block i.dev b) l = _
    rw [hblock, if_neg hb]
    rfl

/-- The pointers after a pointer of an index block has been set to a blank block that nothing leads
to. -/
theorem Disk.ref_setEntry {used : Block → Prop} (S : (d.forest i.dev).Separate IsZone used)
    (hfresh : ¬ used v) (hv0 : v ≠ 0) (ha : (d.forest i.dev).ref i.num p = a) (h0 : a ≠ 0)
    (hp : IsZone (.step p k)) (hzero : pointer (d.block i.dev a) k = 0) (j : Inode.Num) (hq : IsZone q) :
    (((d.setBlock i.dev v fun _ => 0).setEntry i.dev a k v).forest i.dev).ref j q =
      if j = i.num ∧ q = .step p k then v else (d.forest i.dev).ref j q := by
  subst ha
  have hav : (d.forest i.dev).ref i.num p ≠ v := fun h =>
    hfresh ((S.used_iff hv0).mpr ⟨i.num, p, isZone_shape p k hp, h⟩)
  have hkept : (d.setBlock i.dev v fun _ => 0).block i.dev ((d.forest i.dev).ref i.num p) =
      d.block i.dev ((d.forest i.dev).ref i.num p) := if_neg fun h => hav h.2
  have hblock : ∀ b, ((d.setBlock i.dev v fun _ => 0).setEntry i.dev
        ((d.forest i.dev).ref i.num p) k v).block i.dev b =
      if b = (d.forest i.dev).ref i.num p then
        setPointer (d.block i.dev ((d.forest i.dev).ref i.num p)) k v
      else if b = v then fun _ => 0 else d.block i.dev b := fun b => by
    rw [← hkept]
    exact if_congr (and_iff_right rfl) rfl (if_congr (and_iff_right rfl) rfl rfl)
  refine Forest.ref_setChild S isZone_shape hp h0 hzero hv0 hfresh (fun l => ?_) ?_
    (fun b l hb => ?_) q hq
  · show pointer (((d.setBlock i.dev v fun _ => 0).setEntry i.dev _ k v).block i.dev v) l = 0
    rw [hblock, if_neg hav.symm, if_pos rfl, pointer_zero]
  · rfl
  · show pointer (((d.setBlock i.dev v fun _ => 0).setEntry i.dev _ k v).block i.dev b) l = _
    rw [hblock]
    by_cases hb' : b = (d.forest i.dev).ref i.num p
    · rw [if_pos hb']
      by_cases hl : l = k
      · rw [hl, pointer_setPointer, if_pos ⟨hb', rfl⟩]
      · rw [pointer_setPointer_of_ne hl, if_neg fun h => hl h.2, hb']
        rfl
    · rw [if_neg hb', if_neg hb, if_neg fun h => hb' h.1]
      rfl

/-- An empty zone of a file gets a new block. -/
theorem Disk.Sound.setZone (S : d.Sound) (hsb : d.super i.dev = some sb) (hv : d.Fresh i.dev sb v)
    (hi : (d.inode i).isFile = true) (hk : k < 9) (hzero : (d.inode i).zone k = 0) :
    ((d.alloc i.dev sb v).setZone i k v).Sound ∧ d.Grows i ((d.alloc i.dev sb v).setZone i k v) := by
  have hfresh : ∀ j q, IsZone q → (d.forest i.dev).ref j q ≠ v := fun j q hq =>
    S.ref_ne_fresh hsb hv j hq
  have hself : ((d.alloc i.dev sb v).setZone i k v).inode i =
      { d.inode i with zone := Function.update (d.inode i).zone k v } := Function.update_self ..
  have hne : ∀ j, j ≠ i → ((d.alloc i.dev sb v).setZone i k v).inode j = d.inode j := fun j hj =>
    Function.update_of_ne hj ..
  have hblock : ∀ e b, ((d.alloc i.dev sb v).setZone i k v).block e b =
      if e = i.dev ∧ b = v then fun _ => 0 else d.block e b := fun _ _ => rfl
  refine S.attach (p := .root k) hsb hv hk ((if_pos hi).trans hzero)
    (fun j q hq => Disk.ref_setZone (hv.ne_zero S hsb) hfresh hi hzero j hq) rfl rfl rfl rfl
    (fun j => ?_) hne (fun e b he => ?_) (fun n q hq h0 => ?_) (fun _ => ?_)
  · by_cases hj : j = i
    · rw [hj, hself]
    · rw [hne j hj]
  · rw [hblock, if_neg fun h => he h.1]
  · rw [hblock, if_neg fun h => hfresh n q hq.isZone h.2]
  · rw [hblock, if_pos ⟨rfl, rfl⟩]

/-- An empty pointer of an index block of a file gets a new block. -/
theorem Disk.Sound.setEntry (S : d.Sound) (hsb : d.super i.dev = some sb) (hv : d.Fresh i.dev sb v)
    (ha : (d.forest i.dev).ref i.num p = a) (h0 : a ≠ 0) (hp : IsZone (.step p k))
    (hzero : pointer (d.block i.dev a) k = 0) :
    ((d.alloc i.dev sb v).setEntry i.dev a k v).Sound ∧
      d.Grows i ((d.alloc i.dev sb v).setEntry i.dev a k v) := by
  have hv0 := hv.ne_zero S hsb
  have hav : a ≠ v := ha ▸ S.ref_ne_fresh hsb hv i.num (isZone_shape p k hp)
  have hblock : ∀ e b, e ≠ i.dev ∨ b ≠ a →
      ((d.alloc i.dev sb v).setEntry i.dev a k v).block e b =
        if e = i.dev ∧ b = v then fun _ => 0 else d.block e b := fun e b h =>
    if_neg fun hab => h.elim (fun he => he hab.1) fun hb => hb hab.2
  refine S.attach (p := .step p k) hsb hv hp ?_
    (fun j q hq => Disk.ref_setEntry (S.zones hsb) hv.not_used hv0 ha h0 hp hzero j hq) rfl rfl rfl
    rfl (fun _ => rfl) (fun _ _ => rfl) (fun e b he => ?_) (fun n q hq hn => ?_) (fun _ => ?_)
  · rw [Forest.ref_step_of_ne (ha ▸ h0), ha]
    exact hzero
  · rw [hblock e b (Or.inl he), if_neg fun h => he h.1]
  · rw [hblock _ _ (Or.inr (ha ▸ S.ref_ne hsb hq hp hn)),
      if_neg fun h => S.ref_ne_fresh hsb hv n hq.isZone h.2]
  · rw [hblock _ _ (Or.inr hav.symm), if_pos ⟨rfl, rfl⟩]

/-! ## `_bmap` -/

/-- No buffer is in use. -/
def Disk.Quiet (d : Disk) : Prop := ∀ dev b, d.bcount dev b = 0

theorem Disk.Grows.quiet (G : d.Grows i d') (Q : d.Quiet) : d'.Quiet := fun dev b => by
  rw [G.bcount]
  exact Q dev b

/-- What one pointer of the file is filled with: `b`, or nothing when the disk is full. -/
structure Fills (d : Disk) (i : Id) (p : Path Nat) (b : Block) (d' : Disk) : Prop where
  sound : d'.Sound
  grows : d.Grows i d'
  ref : (d'.forest i.dev).ref i.num p = b

theorem Disk.setZone_eq_self (h : (d.inode i).zone k = b) : d.setZone i k b = d := by
  have hinode : (d.setZone i k b).inode = d.inode := by
    show Function.update d.inode i _ = d.inode
    rw [← h, Function.update_eq_self]
    exact Function.update_eq_self i d.inode
  calc d.setZone i k b
      = { d with inode := (d.setZone i k b).inode } := rfl
    _ = d := by rw [hinode]

theorem fillZone_spec (S : d.Sound) (Q : d.Quiet) (hsb : d.super i.dev = some sb)
    (hi : (d.inode i).isFile = true) (hk : k < 9) :
    ∃ b d', fillZone d i k true = some (b, d') ∧ Fills d i (.root k) b d' := by
  have hroot : (d.forest i.dev).ref i.num (.root k) = (d.inode i).zone k := if_pos hi
  unfold fillZone
  by_cases hzero : (d.inode i).zone k = 0
  · rw [if_pos ⟨rfl, hzero⟩]
    rcases newBlock_spec S hsb with h | ⟨v, hv, h⟩
    · refine ⟨0, d.setZone i k 0, by rw [h]; rfl, ?_⟩
      rw [Disk.setZone_eq_self hzero]
      exact ⟨S, .refl i d, hroot.trans hzero⟩
    · obtain ⟨hS, hG⟩ := S.setZone hsb hv hi hk hzero
      refine ⟨v, _, by rw [h (Q i.dev v)]; rfl, hS, hG, ?_⟩
      have hself : ((d.alloc i.dev sb v).setZone i k v).inode i =
          { d.inode i with zone := Function.update (d.inode i).zone k v } := Function.update_self ..
      show (if (((d.alloc i.dev sb v).setZone i k v).inode i).isFile then
        (((d.alloc i.dev sb v).setZone i k v).inode i).zone k else 0) = v
      rw [hself]
      exact (if_pos hi).trans (Function.update_self ..)
  · rw [if_neg fun h => hzero h.2]
    exact ⟨_, d, rfl, S, .refl i d, hroot⟩

theorem fillEntry_spec (S : d.Sound) (Q : d.Quiet) (hsb : d.super i.dev = some sb)
    (ha : (d.forest i.dev).ref i.num p = a) (h0 : a ≠ 0) (hp : IsZone (.step p k)) :
    ∃ b d', fillEntry d i.dev a k true = some (b, d') ∧ Fills d i (.step p k) b d' := by
  have hstep : (d.forest i.dev).ref i.num (.step p k) = pointer (d.block i.dev a) k := by
    rw [Forest.ref_step_of_ne (ha ▸ h0), ha]
    rfl
  unfold fillEntry
  dsimp only
  have hdata : (d.bread i.dev a).block = d.block := rfl
  rw [hdata]
  by_cases hzero : pointer (d.block i.dev a) k = 0
  · rw [if_pos ⟨rfl, hzero⟩]
    -- the index block itself is in use meanwhile, and is not the new block
    have S' : (d.bread i.dev a).Sound := ⟨S.layout, S.reserved, S.zones⟩
    rcases newBlock_spec S' hsb with h | ⟨v, hv, h⟩
    · refine ⟨0, d, ?_, S, .refl i d, hstep.trans hzero⟩
      rw [h]
      exact congrArg (fun d => some (0, d)) (d.brelse_bread i.dev a)
    · have hv : d.Fresh i.dev sb v := ⟨hv.first, hv.last, hv.clear⟩
      have hva : v ≠ a := fun h => S.ref_ne_fresh hsb hv i.num (isZone_shape p k hp) (ha.trans h.symm)
      have hcount : (d.bread i.dev a).bcount i.dev v = 0 := (if_neg fun h => hva h.2).trans (Q i.dev v)
      obtain ⟨hS, hG⟩ := S.setEntry hsb hv ha h0 hp hzero
      refine ⟨v, (d.alloc i.dev sb v).setEntry i.dev a k v, ?_, hS, hG, ?_⟩
      · rw [h hcount, Option.map_some, if_pos (hv.ne_zero S hsb)]
        exact congrArg (fun d => some (v, d))
          (((d.alloc i.dev sb v).setEntry i.dev a k v).brelse_bread i.dev a)
      · have hpa := hG.ref (isZone_shape p k hp) (ha ▸ h0)
        rw [Forest.ref_step_of_ne (hpa ▸ ha ▸ h0), hpa, ha]
        show pointer (((d.alloc i.dev sb v).setEntry i.dev a k v).block i.dev a) k = v
        rw [Disk.setEntry, Disk.setBlock]
        dsimp only
        rw [if_pos ⟨rfl, rfl⟩, pointer_setPointer]
  · rw [if_neg fun h => hzero h.2]
    exact ⟨_, d, congrArg (fun d => some (_, d)) (d.brelse_bread i.dev a), S, .refl i d, hstep⟩

theorem Fills.trans {p q : Path Nat} (F : Fills d i p a d') (F' : Fills d' i q b d'') :
    Fills d i q b d'' :=
  ⟨F'.sound, F.grows.trans F'.grows, F'.ref⟩

/-- A pointer that would be in an index block that is not there. -/
theorem Fills.none (F : Fills d i p 0 d') : Fills d i (.step p k) 0 d' :=
  ⟨F.sound, F.grows, Forest.ref_step_of_zero F.ref⟩

/-- What `fillEntry` does after the block of the index has been filled in. -/
theorem Fills.entry (F : Fills d i p a d') (Q : d.Quiet) (hsb : d.super i.dev = some sb)
    (hp : IsZone (.step p k)) :
    ∃ b d'', (if a = 0 then some (0, d') else fillEntry d' i.dev a k true) = some (b, d'') ∧
      Fills d i (.step p k) b d'' := by
  by_cases h0 : a = 0
  · rw [if_pos h0]
    exact ⟨0, d', rfl, (h0 ▸ F).none⟩
  · rw [if_neg h0]
    have hsb' : d'.super i.dev = some sb := F.grows.super ▸ hsb
    obtain ⟨b, d'', h, F'⟩ := fillEntry_spec F.sound (F.grows.quiet Q) hsb' F.ref h0 hp
    exact ⟨b, d'', h, F.trans F'⟩

/-- `create_diskBlock` returns the block that the file then has there, 0 when there is none left. -/
theorem createDiskBlock_spec (S : d.Sound) (Q : d.Quiet) (hsb : d.super i.dev = some sb)
    (hi : (d.inode i).isFile = true) (hn : n < 7 + 512 + 512 * 512) :
    ∃ b d', createDiskBlock d i n = some (b, d') ∧ Fills d i (slot n) b d' := by
  unfold createDiskBlock bmap slot
  rw [if_neg (by omega)]
  by_cases h7 : n < 7
  · rw [if_pos h7, if_pos h7]
    exact fillZone_spec S Q hsb hi (by omega)
  · rw [if_neg h7, if_neg h7]
    by_cases h512 : n - 7 < 512
    · simp only [if_pos h512]
      obtain ⟨ind, d1, h1, F1⟩ := fillZone_spec S Q hsb hi (show 7 < 9 by decide)
      rw [h1]
      exact F1.entry Q hsb ⟨Or.inl rfl, h512⟩
    · simp only [if_neg h512]
      rw [Nat.sub_sub, shiftRight_nine, and_511]
      obtain ⟨dind, d1, h1, F1⟩ := fillZone_spec S Q hsb hi (show 8 < 9 by decide)
      rw [h1]
      obtain ⟨ind, d2, h2, F2⟩ := F1.entry (k := (n - 519) / 512) Q hsb ⟨Or.inr rfl, by omega⟩
      obtain ⟨b, d3, h3, F3⟩ := F2.entry (k := (n - 519) % 512) Q hsb
        ⟨rfl, by omega, Nat.mod_lt _ (by decide)⟩
      refine ⟨b, d3, ?_, F3⟩
      rw [Option.bind_some]
      by_cases hdind : dind = 0
      · rw [if_pos hdind] at h2 ⊢
        obtain ⟨rfl, rfl⟩ : (0 : Block) = ind ∧ d1 = d2 := by
          cases h2
          exact ⟨rfl, rfl⟩
        rw [if_pos rfl] at h3
        exact h3
      · rw [if_neg hdind] at h2 ⊢
        rw [h2, Option.bind_some]
        exact h3

/-! ## When the disk is full -/

/-- `new_block` returns 0 only if there is no free block. -/
theorem newBlock_zero (S : d.Sound) (hsb : d.super dev = some sb)
    (h : newBlock d dev = some (0, d')) (v : Block) : ¬ d'.Fresh dev sb v := by
  obtain ⟨hfirst, hn⟩ := S.layout hsb
  unfold newBlock at h
  rw [hsb] at h
  dsimp only at h
  cases hj : firstZero (d.zmap dev) mapBits 0 with
  | none =>
    rw [hj] at h
    cases h
    intro hv
    have hset := firstZero_none hj (v.toNat - (sb.firstdatazone - 1)) (Nat.zero_le _)
      (by have := v.isLt; unfold mapBits; omega)
    rw [hv.clear] at hset
    cases hset
  | some j =>
    obtain ⟨-, hlt, hclear⟩ := firstZero_some hj
    have hres : ¬ (j = 0 ∨ sb.nzones ≤ j + sb.firstdatazone - 1) := fun h => by
      have := S.reserved hsb j (by omega) h
      rw [hclear] at this
      cases this
    rw [hj] at h
    dsimp only at h
    rw [if_neg fun h => hres (Or.inr h)] at h
    split at h
    · cases h
    · have hzero := congrArg BitVec.toNat (congrArg Prod.fst (Option.some.inj h))
      dsimp only at hzero
      rw [BitVec.toNat_ofNat, Nat.mod_eq_of_lt (by omega)] at hzero
      exact absurd hzero (by show ¬ _ = 0; omega)

theorem fillZone_zero (S : d.Sound) (hsb : d.super i.dev = some sb)
    (h : fillZone d i k true = some (0, d')) (v : Block) : ¬ d'.Fresh i.dev sb v := by
  unfold fillZone at h
  split at h
  · obtain ⟨⟨b, d1⟩, hnew, hret⟩ := Option.map_eq_some_iff.mp h
    obtain ⟨rfl, rfl⟩ := Prod.mk.inj hret
    exact fun hv => newBlock_zero S hsb hnew v ⟨hv.first, hv.last, hv.clear⟩
  · next hset =>
    obtain ⟨hzero, rfl⟩ := Prod.mk.inj (Option.some.inj h)
    exact absurd ⟨rfl, hzero⟩ hset

theorem fillEntry_zero (S : d.Sound) (hsb : d.super dev = some sb)
    (h : fillEntry d dev a k true = some (0, d')) (v : Block) : ¬ d'.Fresh dev sb v := by
  unfold fillEntry at h
  dsimp only at h
  split at h
  · obtain ⟨⟨b, d1⟩, hnew, hret⟩ := Option.map_eq_some_iff.mp h
    obtain ⟨rfl, rfl⟩ := Prod.mk.inj hret
    have S' : (d.bread dev a).Sound := ⟨S.layout, S.reserved, S.zones⟩
    exact fun hv => newBlock_zero S' hsb hnew v ⟨hv.first, hv.last, hv.clear⟩
  · next hset =>
    obtain ⟨hzero, rfl⟩ := Prod.mk.inj (Option.some.inj h)
    exact absurd ⟨rfl, hzero⟩ hset

/-- What `fillEntry` does behind a pointer that could be filled or not. -/
theorem Fills.entry_zero (F : Fills d i p a d') (hsb : d.super i.dev = some sb)
    (hfull : a = 0 → ∀ v, ¬ d'.Fresh i.dev sb v)
    (h : (if a = 0 then some (0, d') else fillEntry d' i.dev a k true) = some (b, d'')) :
    b = 0 → ∀ v, ¬ d''.Fresh i.dev sb v := by
  rintro rfl
  split at h
  · next h0 =>
    obtain ⟨-, rfl⟩ := Prod.mk.inj (Option.some.inj h)
    exact hfull h0
  · exact fillEntry_zero F.sound (F.grows.super ▸ hsb) h

/-- `create_diskBlock` returns 0 only if there is no free block left. -/
theorem createDiskBlock_zero (S : d.Sound) (Q : d.Quiet) (hsb : d.super i.dev = some sb)
    (hi : (d.inode i).isFile = true) (hn : n < 7 + 512 + 512 * 512)
    (h : createDiskBlock d i n = some (0, d')) (v : Block) : ¬ d'.Fresh i.dev sb v := by
  unfold createDiskBlock bmap at h
  rw [if_neg (by omega)] at h
  by_cases h7 : n < 7
  · rw [if_pos h7] at h
    exact fillZone_zero S hsb h v
  · rw [if_neg h7] at h
    by_cases h512 : n - 7 < 512
    · simp only [if_pos h512] at h
      obtain ⟨ind, d1, h1, F1⟩ := fillZone_spec S Q hsb hi (show 7 < 9 by decide)
      rw [h1] at h
      exact F1.entry_zero hsb (fun h0 => fillZone_zero S hsb (h0 ▸ h1)) h rfl v
    · simp only [if_neg h512] at h
      obtain ⟨dind, d1, h1, F1⟩ := fillZone_spec S Q hsb hi (show 8 < 9 by decide)
      rw [h1, Option.bind_some] at h
      obtain ⟨ind, d2, h2, F2⟩ := F1.entry (k := (n - 7 - 512) >>> 9) Q hsb
        ⟨Or.inr rfl, by rw [shiftRight_nine]; omega⟩
      have hfull := F1.entry_zero hsb (fun h0 => fillZone_zero S hsb (h0 ▸ h1)) h2
      dsimp only at h
      by_cases hdind : dind = 0
      · rw [if_pos hdind] at h h2
        obtain ⟨rfl, rfl⟩ := Prod.mk.inj (Option.some.inj h2)
        obtain ⟨-, rfl⟩ := Prod.mk.inj (Option.some.inj h)
        exact hfull rfl v
      · rw [if_neg hdind] at h h2
        rw [h2, Option.bind_some] at h
        exact F2.entry_zero hsb hfull h rfl v

/-- The forest of a device has the tree of each of its files. -/
theorem Disk.forest_ref (hi : (d.inode i).isFile = true) (p : Path Nat) :
    (d.forest i.dev).ref i.num p = d.ref i p := by
  induction p with
  | root k => exact if_pos hi
  | step p k ih =>
    by_cases h0 : d.ref i p = 0
    · rw [Disk.ref_step_of_zero h0, Forest.ref_step_of_zero (ih.trans h0)]
    · rw [Disk.ref_step h0, Forest.ref_step_of_ne (ih ▸ h0), ih]
      rfl

/-- `get_diskBlock` returns the block of the file, and changes nothing. -/
theorem getDiskBlock_eq (hi : (d.inode i).isFile = true) (hn : n < 7 + 512 + 512 * 512) :
    getDiskBlock d i n = some ((d.forest i.dev).ref i.num (slot n), d) := by
  rw [getDiskBlock_read hn, Disk.forest_ref hi]

end Linux011.Minix

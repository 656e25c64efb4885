import Linux011.Malloc.Heap
import Linux011.Lib.Chain
import Mathlib.Data.List.Perm.Subperm
import Mathlib.Data.List.Nodup
import Mathlib.Data.List.FinRange

/-!
# What the allocator keeps in its pages

Every descriptor is on one list: on the chain of a bucket size, or on `free_bucket_desc`. A chained
descriptor has a page of its own, and the objects of the page are those of its free list and those that
clients have, each once (`Bucket`). The pages taken are the pages of descriptors and the pages of
chained descriptors, without repetition (`Inv`).

Two facts keep the pieces apart: pages are aligned and distinct, and a descriptor is 16 bytes long and
aligned. So a store to an object changes no descriptor, and a store to a descriptor no other one.
-/

namespace Linux011.Malloc

open Linux011.Lib

variable {h h' : Heap} {live live' : List (Nat × Nat)} {chains : Nat → List Nat} {free : List Nat}
  {i d p o a b n : Nat} {l l' : List Nat} {mem : Nat → Nat}

/-! ## Runs of cells -/

/-- A pointer; 0 points nowhere. -/
def ptr (w : Nat) : Option Nat := if w = 0 then none else some w

theorem ptr_some (hp : p ≠ 0) : ptr p = some p := if_neg hp

theorem of_ptr (h : ptr p = some a) : p = a := by
  unfold ptr at h
  split at h
  · cases h
  · exact Option.some.inj h

/-- `n` addresses a stride apart, from `a` on. -/
def cellRun (stride : Nat) : Nat → Nat → List Nat
  | _, 0 => []
  | a, n + 1 => a :: cellRun stride (a + stride) n

/-- The objects of a page. -/
def cells (sz p : Nat) : List Nat := cellRun sz p (4096 / sz)

/-- The descriptors of a page. -/
def descsOf (p : Nat) : List Nat := cellRun 16 p 256

theorem mem_cellRun {stride : Nat} : o ∈ cellRun stride a n ↔ ∃ k < n, o = a + stride * k := by
  induction n generalizing a with
  | zero => exact ⟨fun hm => (nomatch hm), fun ⟨k, hk, _⟩ => absurd hk (Nat.not_lt_zero k)⟩
  | succ n ih =>
    rw [cellRun, List.mem_cons, ih]
    constructor
    · rintro (rfl | ⟨k, hk, rfl⟩)
      · exact ⟨0, by omega, by omega⟩
      · exact ⟨k + 1, by omega, by rw [Nat.mul_add]; omega⟩
    · rintro ⟨k, hk, rfl⟩
      cases k with
      | zero => exact Or.inl (by omega)
      | succ k => exact Or.inr ⟨k, by omega, by rw [Nat.mul_add]; omega⟩

theorem cellRun_nodup {stride : Nat} (hs : 0 < stride) : (cellRun stride a n).Nodup := by
  induction n generalizing a with
  | zero => exact List.nodup_nil
  | succ n ih =>
    refine List.nodup_cons.mpr ⟨fun hm => ?_, ih⟩
    obtain ⟨k, -, hk⟩ := mem_cellRun.mp hm
    omega

/-! ## Linking a run -/

theorem linkRun_frame {stride off last : Nat} (hb : ∀ o ∈ cellRun stride a (n + 1), b ≠ o + off) :
    Heap.linkRun stride off last n a mem b = mem b := by
  induction n generalizing a mem with
  | zero =>
    rw [Heap.linkRun]
    exact Function.update_of_ne (hb a List.mem_cons_self) _ _
  | succ n ih =>
    rw [Heap.linkRun, ih fun o ho => hb o (List.mem_cons_of_mem _ ho)]
    exact Function.update_of_ne (hb a List.mem_cons_self) _ _

/-- The cells of the run, one behind the other, and then the list that was there. -/
theorem linkRun_chain {stride off last : Nat} (hs : 0 < stride) (ha : a ≠ 0)
    (hl : Chain (fun o => ptr (Heap.linkRun stride off last n a mem (o + off))) (ptr last) l) :
    Chain (fun o => ptr (Heap.linkRun stride off last n a mem (o + off))) (ptr a)
      (cellRun stride a (n + 1) ++ l) := by
  induction n generalizing a mem with
  | zero =>
    rw [ptr_some ha]
    refine Chain.cons ?_
    rw [Heap.linkRun] at hl ⊢
    simp only [Function.update_self]
    exact hl
  | succ n ih =>
    rw [ptr_some ha]
    refine Chain.cons ?_
    have hself : Heap.linkRun stride off last (n + 1) a mem (a + off) = a + stride := by
      rw [Heap.linkRun, linkRun_frame, Function.update_self]
      intro o ho hoff
      obtain ⟨k, -, hk⟩ := mem_cellRun.mp ho
      omega
    rw [hself]
    rw [Heap.linkRun] at hl ⊢
    exact ih (by omega) hl

/-! ## One chained descriptor -/

/-- The objects of a page that clients have. -/
def onPage (live : List (Nat × Nat)) (p : Nat) : List Nat :=
  (live.map Prod.fst).filter fun o => o / 4096 * 4096 = p

structure Bucket (h : Heap) (live : List (Nat × Nat)) (i d : Nat) : Prop where
  sized : h.bucketSize d = size i
  objects : ∃ fl, Chain (fun o => ptr (h.mem o)) (ptr (h.freeptr d)) fl ∧
    (fl ++ onPage live (h.page d)).Perm (cells (size i) (h.page d))
  count : h.refcnt d = (onPage live (h.page d)).length

theorem size_pos (hi : i < 9) : 0 < size i :=
  (by decide : ∀ i < 9, 0 < size i) i hi

theorem size_mul (hi : i < 9) : size i * (4096 / size i) = 4096 :=
  (by decide : ∀ i < 9, size i * (4096 / size i) = 4096) i hi

theorem size_le (hi : i < 9) : 4096 / size i ≤ 256 :=
  (by decide : ∀ i < 9, 4096 / size i ≤ 256) i hi

theorem size_count (hi : i < 9) : 4096 / size i - 1 + 1 = 4096 / size i :=
  (by decide : ∀ i < 9, 4096 / size i - 1 + 1 = 4096 / size i) i hi

/-- An object lies in its page as a whole. -/
theorem mem_cells (hi : i < 9) (hp : p % 4096 = 0) (ho : o ∈ cells (size i) p) :
    p ≤ o ∧ o + size i ≤ p + 4096 ∧ o / 4096 * 4096 = p := by
  obtain ⟨k, hk, rfl⟩ := mem_cellRun.mp ho
  have hpos := size_pos hi
  have hmul := size_mul hi
  have hle : size i * (k + 1) ≤ size i * (4096 / size i) := Nat.mul_le_mul_left _ hk
  rw [hmul, Nat.mul_add, Nat.mul_one] at hle
  exact ⟨by omega, by omega, by omega⟩

/-- Two objects of a page do not overlap. -/
theorem cells_apart (ho : o ∈ cells (size i) p) (ha : a ∈ cells (size i) p) (hne : o ≠ a) :
    o + size i ≤ a ∨ a + size i ≤ o := by
  obtain ⟨k, -, rfl⟩ := mem_cellRun.mp ho
  obtain ⟨m, -, rfl⟩ := mem_cellRun.mp ha
  rcases Nat.lt_trichotomy k m with hk | rfl | hk
  · have := Nat.mul_le_mul_left (size i) hk
    rw [Nat.succ_eq_add_one, Nat.mul_add, Nat.mul_one] at this
    omega
  · exact absurd rfl hne
  · have := Nat.mul_le_mul_left (size i) hk
    rw [Nat.succ_eq_add_one, Nat.mul_add, Nat.mul_one] at this
    omega

/-- A bucket is kept when its own fields, its page, and its objects with clients are. -/
theorem Bucket.congr (B : Bucket h live i d) (hi : i < 9) (hp : h.page d % 4096 = 0)
    (hf : ∀ off, off = 0 ∨ off = 8 ∨ off = 12 ∨ off = 14 → h'.mem (d + off) = h.mem (d + off))
    (hc : ∀ a, a / 4096 * 4096 = h.page d → h'.mem a = h.mem a)
    (hl : onPage live' (h.page d) = onPage live (h.page d)) : Bucket h' live' i d := by
  have h0 : h'.page d = h.page d := hf 0 (Or.inl rfl)
  have h8 : h'.freeptr d = h.freeptr d := hf 8 (Or.inr (Or.inl rfl))
  have h12 : h'.refcnt d = h.refcnt d := hf 12 (Or.inr (Or.inr (Or.inl rfl)))
  have h14 : h'.bucketSize d = h.bucketSize d := hf 14 (Or.inr (Or.inr (Or.inr rfl)))
  obtain ⟨hs, ⟨fl, hfl, hperm⟩, hcount⟩ := B
  refine ⟨h14.trans hs, ⟨fl, ?_, ?_⟩, ?_⟩
  · rw [h8]
    refine hfl.congr fun o ho => ?_
    have hmem : o ∈ cells (size i) (h.page d) :=
      hperm.subset (List.mem_append_left _ ho)
    rw [hc o (mem_cells hi hp hmem).2.2]
  · rw [h0, hl]
    exact hperm
  · rw [h12, h0, hl]
    exact hcount

/-! ## The whole allocator -/

/-- The chained descriptors. -/
def chained (chains : Nat → List Nat) : List Nat := (List.range 9).flatMap chains

theorem mem_chained : d ∈ chained chains ↔ ∃ i < 9, d ∈ chains i := by
  unfold chained
  rw [List.mem_flatMap]
  exact ⟨fun ⟨i, hi, hd⟩ => ⟨i, List.mem_range.mp hi, hd⟩, fun ⟨i, hi, hd⟩ => ⟨i, List.mem_range.mpr hi, hd⟩⟩

structure Inv (h : Heap) (live : List (Nat × Nat)) (chains : Nat → List Nat) (free : List Nat) :
    Prop where
  chain : ∀ i < 9, Chain (fun d => ptr (h.next d)) (ptr (h.chain i)) (chains i)
  freeChain : Chain (fun d => ptr (h.next d)) (ptr h.freeDesc) free
  descs : (chained chains ++ free).Perm (h.descPages.flatMap descsOf)
  pages : h.pages.Perm (h.descPages ++ (chained chains).map h.page)
  nodup : h.pages.Nodup
  aligned : ∀ p ∈ h.pages, p % 4096 = 0 ∧ p ≠ 0 ∧ p < 2 ^ 32
  bucket : ∀ i < 9, ∀ d ∈ chains i, Bucket h live i d
  live : ∀ x ∈ live, ∃ i < 9, ∃ d ∈ chains i, x.1 / 4096 * 4096 = h.page d ∧ x.2 ≤ size i

namespace Inv

theorem descPage_mem (I : Inv h live chains free) (hp : p ∈ h.descPages) : p ∈ h.pages :=
  I.pages.symm.subset (List.mem_append_left _ hp)

theorem page_mem (I : Inv h live chains free) (hi : i < 9) (hd : d ∈ chains i) : h.page d ∈ h.pages :=
  I.pages.symm.subset (List.mem_append_right _ (List.mem_map_of_mem (mem_chained.mpr ⟨i, hi, hd⟩)))

theorem page_aligned (I : Inv h live chains free) (hi : i < 9) (hd : d ∈ chains i) :
    h.page d % 4096 = 0 := (I.aligned _ (I.page_mem hi hd)).1

/-- Where a descriptor may stand. -/
theorem desc_of_mem (I : Inv h live chains free) (hd : d ∈ chained chains ++ free) :
    d % 16 = 0 ∧ d ≠ 0 ∧ d < 2 ^ 32 ∧ d / 4096 * 4096 ∈ h.descPages := by
  obtain ⟨p, hp, hdp⟩ := List.mem_flatMap.mp (I.descs.subset hd)
  obtain ⟨hal, hne, hlt⟩ := I.aligned p (I.descPage_mem hp)
  obtain ⟨k, hk, rfl⟩ := mem_cellRun.mp hdp
  have hpage : (p + 16 * k) / 4096 * 4096 = p := by omega
  exact ⟨by omega, by omega, by omega, hpage.symm ▸ hp⟩

theorem mem_descs (hi : i < 9) (hd : d ∈ chains i) : d ∈ chained chains ++ free :=
  List.mem_append_left _ (mem_chained.mpr ⟨i, hi, hd⟩)

theorem pages_nodup (I : Inv h live chains free) :
    (h.descPages ++ (chained chains).map h.page).Nodup := I.pages.nodup_iff.mp I.nodup

/-- The page of a chained descriptor holds no descriptors. -/
theorem page_not_desc (I : Inv h live chains free) (hi : i < 9) (hd : d ∈ chains i) :
    h.page d ∉ h.descPages := fun hp =>
  (List.nodup_append.mp I.pages_nodup).2.2 _ hp _
    (List.mem_map_of_mem (mem_chained.mpr ⟨i, hi, hd⟩)) rfl

/-- Chained descriptors have pages of their own. -/
theorem page_inj (I : Inv h live chains free) (ha : a ∈ chained chains) (hb : b ∈ chained chains)
    (hab : h.page a = h.page b) : a = b :=
  List.inj_on_of_nodup_map (List.nodup_append.mp I.pages_nodup).2.1 ha hb hab

/-- A descriptor is on one chain only. -/
theorem chain_inj (I : Inv h live chains free) {j : Nat} (hi : i < 9) (hj : j < 9) (hd : d ∈ chains i)
    (hd' : d ∈ chains j) : i = j := by
  have hs : size i = size j := (I.bucket i hi d hd).sized.symm.trans (I.bucket j hj d hd').sized
  exact (by decide : ∀ i < 9, ∀ j < 9, size i = size j → i = j) i hi j hj hs

theorem descs_nodup (I : Inv h live chains free) : (chained chains ++ free).Nodup := by
  rw [I.descs.nodup_iff, List.nodup_flatMap]
  refine ⟨fun p _ => cellRun_nodup (by omega), ?_⟩
  refine (List.nodup_append.mp I.pages_nodup).1.imp_of_mem fun {p q} hp hq hpq x hx hx' => hpq ?_
  have hp0 := (I.aligned p (I.descPage_mem hp)).1
  have hq0 := (I.aligned q (I.descPage_mem hq)).1
  obtain ⟨k, hk, rfl⟩ := mem_cellRun.mp hx
  obtain ⟨m, hm, he⟩ := mem_cellRun.mp hx'
  omega

/-- A field of one descriptor is no field of another one. -/
theorem field_ne (I : Inv h live chains free) (ha : a ∈ chained chains ++ free)
    (hb : b ∈ chained chains ++ free) (hab : a ≠ b) {k m : Nat} (hk : k < 16) (hm : m < 16) :
    a + k ≠ b + m := by
  have h1 := (I.desc_of_mem ha).1
  have h2 := (I.desc_of_mem hb).1
  omega

/-- A descriptor lies in a page of descriptors as a whole. -/
theorem field_page (I : Inv h live chains free) (ha : a ∈ chained chains ++ free) {k : Nat}
    (hk : k < 16) : (a + k) / 4096 * 4096 ∈ h.descPages := by
  obtain ⟨h16, -, -, hmem⟩ := I.desc_of_mem ha
  rwa [show (a + k) / 4096 = a / 4096 by omega]

/-- An address in the page of a chained descriptor is in no descriptor. -/
theorem field_off (I : Inv h live chains free) (ha : a ∈ chained chains ++ free) (hi : i < 9)
    (hd : d ∈ chains i) (hb : b / 4096 * 4096 = h.page d) {k : Nat} (hk : k < 16) : a + k ≠ b := by
  rintro rfl
  exact I.page_not_desc hi hd (hb ▸ I.field_page ha hk)

/-- The chains end before any fuel does. -/
theorem length_lt (I : Inv h live chains free) (hi : i < 9) : (chains i).length < fuel := by
  have hsub : (0 :: chains i).Subperm (List.range fuel) := by
    refine List.subperm_of_subset (List.nodup_cons.mpr ⟨fun h0 => ?_, (I.chain i hi).nodup⟩) ?_
    · exact (I.desc_of_mem (mem_descs hi h0)).2.1 rfl
    · intro x hx
      rw [List.mem_range]
      rcases List.mem_cons.mp hx with rfl | hx
      · decide
      · exact (I.desc_of_mem (mem_descs hi hx)).2.2.1
  have := hsub.length_le
  rw [List.length_cons, List.length_range] at this
  omega

/-- The objects of clients on a page of a chained descriptor. -/
theorem live_cell (I : Inv h live chains free) (hi : i < 9) (hd : d ∈ chains i)
    (ho : o ∈ onPage live (h.page d)) : o ∈ cells (size i) (h.page d) := by
  obtain ⟨fl, -, hperm⟩ := (I.bucket i hi d hd).objects
  exact hperm.subset (List.mem_append_right _ ho)

theorem mem_onPage {x : Nat × Nat} (hx : x ∈ live) (hp : x.1 / 4096 * 4096 = p) :
    x.1 ∈ onPage live p :=
  List.mem_filter.mpr ⟨List.mem_map_of_mem hx, decide_eq_true hp⟩

/-- THE RULE for what happens to one bucket: a store to its page, to its list of free objects or to its
count leaves the rest. -/
theorem touch (I : Inv h live chains free) (hi : i < 9) (hd : d ∈ chains i)
    (hm : ∀ a, a ≠ d + 8 → a ≠ d + 12 → a / 4096 * 4096 ≠ h.page d → h'.mem a = h.mem a)
    (hrest : h'.chain = h.chain ∧ h'.freeDesc = h.freeDesc ∧ h'.pages = h.pages ∧
      h'.descPages = h.descPages)
    (hl : ∀ q, q ≠ h.page d → onPage live' q = onPage live q) (hB : Bucket h' live' i d)
    (hlive : ∀ x ∈ live', x ∈ live ∨ (x.1 / 4096 * 4096 = h.page d ∧ x.2 ≤ size i)) :
    Inv h' live' chains free := by
  obtain ⟨hchain, hfree, hpages, hdesc⟩ := hrest
  have hdd : d ∈ chained chains ++ free := mem_descs hi hd
  -- the fields that stay
  have hfield {a k : Nat} (ha : a ∈ chained chains ++ free) (hk : k < 16)
      (hne : a ≠ d ∨ (k ≠ 8 ∧ k ≠ 12)) : h'.mem (a + k) = h.mem (a + k) := by
    refine hm _ (fun he => ?_) (fun he => ?_) fun he => ?_
    · by_cases had : a = d
      · omega
      · exact I.field_ne ha hdd had hk (by omega) he
    · by_cases had : a = d
      · omega
      · exact I.field_ne ha hdd had hk (by omega) he
    · exact I.field_off ha hi hd he hk rfl
  have hnext {a : Nat} (ha : a ∈ chained chains ++ free) : h'.next a = h.next a :=
    hfield ha (by omega) (Or.inr ⟨by omega, by omega⟩)
  have hpage {a : Nat} (ha : a ∈ chained chains ++ free) : h'.page a = h.page a :=
    hfield (k := 0) ha (by omega) (Or.inr ⟨by omega, by omega⟩)
  constructor
  · intro j hj
    rw [hchain]
    exact (I.chain j hj).congr fun a ha => by rw [hnext (mem_descs hj ha)]
  · rw [hfree]
    exact I.freeChain.congr fun a ha => by rw [hnext (List.mem_append_right _ ha)]
  · rw [hdesc]
    exact I.descs
  · rw [hpages, hdesc, List.map_congr_left fun a ha => hpage (List.mem_append_left _ ha)]
    exact I.pages
  · rw [hpages]
    exact I.nodup
  · rw [hpages]
    exact I.aligned
  · intro j hj e he
    by_cases hed : e = d
    · subst hed
      have hij := I.chain_inj hj hi he hd
      rw [hij]
      exact hB
    · have hq : h.page e ≠ h.page d := fun hq => hed
        (I.page_inj (mem_chained.mpr ⟨j, hj, he⟩) (mem_chained.mpr ⟨i, hi, hd⟩) hq)
      refine (I.bucket j hj e he).congr hj (I.page_aligned hj he) (fun k hk => ?_) (fun a ha => ?_)
        (hl _ hq)
      · exact hfield (mem_descs hj he) (by omega) (Or.inl hed)
      · refine hm a (fun h8 => ?_) (fun h12 => ?_) (fun hp => hq (ha.symm.trans hp))
        · exact I.field_off hdd hj he ha (by omega) h8.symm
        · exact I.field_off hdd hj he ha (by omega) h12.symm
  · intro x hx
    rcases hlive x hx with hx | ⟨hx, hle⟩
    · obtain ⟨j, hj, e, he, hp, hle⟩ := I.live x hx
      exact ⟨j, hj, e, he, by rw [hpage (mem_descs hj he), hp], hle⟩
    · exact ⟨i, hi, d, hd, by rw [hpage hdd, hx], hle⟩

end Inv

end Linux011.Malloc

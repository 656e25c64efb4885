import Linux011.Malloc.Buckets

/-!
# `my_malloc` and `free_s` keep the allocator in order

One lemma for each part of the two calls: a page for descriptors, a page for objects, one object handed
out, one object put back, and a page given back. The searches find what they are meant to find, and
before the end of their fuel, because a chain cannot be longer than the address space.
-/

namespace Linux011.Malloc

open Linux011.Lib

variable {h h' : Heap} {live live' : List (Nat × Nat)} {chains : Nat → List Nat} {free : List Nat}
  {i d p o a b n len obj sz : Nat} {l l' : List Nat} {mem : Nat → Nat}

/-! ## Objects of clients -/

theorem onPage_cons {x : Nat × Nat} : onPage (x :: live) p =
    if x.1 / 4096 * 4096 = p then x.1 :: onPage live p else onPage live p := by
  unfold onPage
  rw [List.map_cons, List.filter_cons]
  simp only [decide_eq_true_eq]

theorem onPage_erase : onPage (live.eraseP fun x => x.1 = obj) p = (onPage live p).erase obj := by
  induction live with
  | nil => rfl
  | cons x live ih =>
    by_cases hx : x.1 = obj
    · have he : (x :: live).eraseP (fun x => decide (x.1 = obj)) = live :=
        List.eraseP_cons_of_pos (decide_eq_true hx)
      rw [he, onPage_cons]
      split
      · rw [hx, List.erase_cons_head]
      · next hp =>
        refine (List.erase_of_not_mem fun hm => hp ?_).symm
        rw [hx]
        exact of_decide_eq_true (List.mem_filter.mp hm).2
    · have he : (x :: live).eraseP (fun x => decide (x.1 = obj)) =
          x :: live.eraseP fun x => decide (x.1 = obj) :=
        List.eraseP_cons_of_neg (by rw [decide_eq_true_eq]; exact hx)
      rw [he, onPage_cons, onPage_cons, ih]
      split
      · rw [List.erase_cons_tail (by rw [beq_iff_eq]; exact hx)]
      · rfl

theorem of_mem_onPage (ho : o ∈ onPage live p) : o / 4096 * 4096 = p :=
  of_decide_eq_true (List.mem_filter.mp ho).2

/-- A page has at most 256 objects with clients. -/
theorem Bucket.onPage_le (B : Bucket h live i d) (hi : i < 9) :
    (onPage live (h.page d)).length ≤ 256 := by
  obtain ⟨fl, -, hperm⟩ := B.objects
  have hlen := hperm.length_eq
  have hcells (n a sz : Nat) : (cellRun sz a n).length = n := by
    induction n generalizing a with
    | zero => rfl
    | succ n ih => exact congrArg (· + 1) (ih _)
  rw [List.length_append, cells, hcells] at hlen
  have := size_le hi
  omega

/-! ## One object -/

/-- The lines of `my_malloc` that hand an object out. -/
theorem takeObject_spec (I : Inv h live chains free) (hi : i < 9) (hd : d ∈ chains i)
    (hfree : h.freeptr d ≠ 0) (hlen : len ≤ size i) :
    Inv (h.takeObject d).2 (((h.takeObject d).1, len) :: live) chains free ∧
      (h.takeObject d).1 / 4096 * 4096 = h.page d := by
  have hal := I.page_aligned hi hd
  have hdd : d ∈ chained chains ++ free := Inv.mem_descs hi hd
  obtain ⟨hsz, ⟨fl, hfl, hperm⟩, hcount⟩ := I.bucket i hi d hd
  rw [ptr_some hfree] at hfl
  obtain ⟨fl, rfl, hrest⟩ := hfl.head
  generalize ho : h.freeptr d = o at hfree hperm hfl hrest
  have hcell : o ∈ cells (size i) (h.page d) := hperm.subset List.mem_cons_self
  obtain ⟨-, -, hpage⟩ := mem_cells hi hal hcell
  have hle := (I.bucket i hi d hd).onPage_le hi
  -- the two stores
  have hmem (a : Nat) (h8 : a ≠ d + 8) (h12 : a ≠ d + 12) : (h.takeObject d).2.mem a = h.mem a := by
    show Function.update (Function.update h.mem (d + 8) _) (d + 12) _ a = _
    rw [Function.update_of_ne h12, Function.update_of_ne h8]
  have hptr : (h.takeObject d).2.freeptr d = h.mem o := by
    show Function.update (Function.update h.mem (d + 8) (h.mem (h.freeptr d))) (d + 12) _ (d + 8) = _
    rw [Function.update_of_ne (by omega), Function.update_self, ho]
  have hcnt : (h.takeObject d).2.refcnt d = h.refcnt d + 1 := by
    have h12 : (h.store (d + 8) (h.mem (h.freeptr d))).refcnt d = h.refcnt d :=
      Function.update_of_ne (by omega) _ _
    show Function.update (h.store _ _).mem (d + 12) (((h.store _ _).refcnt d + 1) % 65536) (d + 12) = _
    rw [Function.update_self, h12]
    omega
  have hret : (h.takeObject d).1 = o := ho
  have hpg : (h.takeObject d).2.page d = h.page d := hmem d (by omega) (by omega)
  rw [hret]
  refine ⟨I.touch hi hd (fun a h8 h12 _ => hmem a h8 h12) ⟨rfl, rfl, rfl, rfl⟩ (fun q hq => ?_) ?_ ?_,
    hpage⟩
  · rw [onPage_cons, if_neg fun he => hq (he.symm.trans hpage)]
  · refine ⟨(hmem _ (by omega) (by omega)).trans hsz, ⟨fl, ?_, ?_⟩, ?_⟩
    · rw [hptr]
      refine hrest.congr fun x hx => ?_
      have hx' : x ∈ cells (size i) (h.page d) :=
        hperm.subset (List.mem_cons_of_mem _ (List.mem_append_left _ hx))
      have hxp := (mem_cells hi hal hx').2.2
      rw [hmem x (I.field_off hdd hi hd hxp (by omega)).symm (I.field_off hdd hi hd hxp (by omega)).symm]
    · rw [hpg, onPage_cons, if_pos hpage]
      exact List.perm_middle.trans hperm
    · rw [hcnt, hpg, onPage_cons, if_pos hpage, hcount]
      rfl
  · intro x hx
    rcases List.mem_cons.mp hx with rfl | hx
    · exact Or.inr ⟨hpage, hlen⟩
    · exact Or.inl hx

/-- The lines of `free_s` that put an object back. -/
theorem putObject_spec (I : Inv h live chains free) (hi : i < 9) (hd : d ∈ chains i)
    (hobj : obj ∈ onPage live (h.page d)) :
    Inv (h.putObject obj d) (live.eraseP fun x => x.1 = obj) chains free ∧
      (h.putObject obj d).page d = h.page d := by
  have hal := I.page_aligned hi hd
  have hdd : d ∈ chained chains ++ free := Inv.mem_descs hi hd
  have hpage := of_mem_onPage hobj
  obtain ⟨hsz, ⟨fl, hfl, hperm⟩, hcount⟩ := I.bucket i hi d hd
  have hle := (I.bucket i hi d hd).onPage_le hi
  have hpos : 0 < (onPage live (h.page d)).length := List.length_pos_of_mem hobj
  have hne (k : Nat) (hk : k < 16) : d + k ≠ obj := I.field_off hdd hi hd hpage hk
  have hmem (a : Nat) (h8 : a ≠ d + 8) (h12 : a ≠ d + 12) (ha : a ≠ obj) :
      (h.putObject obj d).mem a = h.mem a := by
    show Function.update (Function.update (Function.update h.mem obj _) (d + 8) _) (d + 12) _ a = _
    rw [Function.update_of_ne h12, Function.update_of_ne h8, Function.update_of_ne ha]
  have hlink : (h.putObject obj d).mem obj = h.freeptr d := by
    show Function.update (Function.update (Function.update h.mem obj _) (d + 8) _) (d + 12) _ obj = _
    rw [Function.update_of_ne (hne 12 (by omega)).symm, Function.update_of_ne (hne 8 (by omega)).symm,
      Function.update_self]
  have hptr : (h.putObject obj d).freeptr d = obj := by
    show Function.update (Function.update (Function.update h.mem obj _) (d + 8) _) (d + 12) _ (d + 8) = _
    rw [Function.update_of_ne (by omega), Function.update_self]
  have hcnt : (h.putObject obj d).refcnt d = h.refcnt d - 1 := by
    have h12 : ((h.store obj (h.freeptr d)).store (d + 8) obj).refcnt d = h.refcnt d :=
      (Function.update_of_ne (by omega) _ _).trans (Function.update_of_ne (hne 12 (by omega)) _ _)
    show Function.update (Heap.store _ _ _).mem (d + 12)
      (((Heap.store _ _ _).refcnt d + 65535) % 65536) (d + 12) = _
    rw [Function.update_self, h12]
    omega
  have hpg : (h.putObject obj d).page d = h.page d :=
    hmem d (by omega) (by omega) (hne 0 (by omega))
  have hnd : (fl ++ onPage live (h.page d)).Nodup :=
    hperm.nodup_iff.mpr (cellRun_nodup (size_pos hi))
  refine ⟨I.touch hi hd (fun a h8 h12 hp => hmem a h8 h12 fun he => hp (he ▸ hpage))
    ⟨rfl, rfl, rfl, rfl⟩ (fun q hq => ?_) ?_ fun x hx => Or.inl (List.mem_of_mem_eraseP hx), hpg⟩
  · rw [onPage_erase, List.erase_of_not_mem fun hm => hq ((of_mem_onPage hm).symm.trans hpage)]
  · refine ⟨(hmem _ (by omega) (by omega) (hne 14 (by omega))).trans hsz, ⟨obj :: fl, ?_, ?_⟩, ?_⟩
    · have hobj0 : obj ≠ 0 := fun h0 => by
        have := (I.aligned _ (I.page_mem hi hd)).2.1
        omega
      rw [hptr, ptr_some hobj0]
      refine .cons ?_
      rw [hlink]
      refine hfl.congr fun x hx => ?_
      have hx' : x ∈ cells (size i) (h.page d) := hperm.subset (List.mem_append_left _ hx)
      have hxp := (mem_cells hi hal hx').2.2
      have hxo : x ≠ obj := (List.nodup_append.mp hnd).2.2 x hx obj hobj
      rw [hmem x (I.field_off hdd hi hd hxp (by omega)).symm
        (I.field_off hdd hi hd hxp (by omega)).symm hxo]
    · rw [hpg, onPage_erase]
      refine List.Perm.trans ?_ hperm
      exact List.perm_middle.symm.trans ((List.perm_cons_erase hobj).symm.append_left _)
    · rw [hcnt, hpg, onPage_erase, List.length_erase_of_mem hobj, hcount]

theorem page_of_between {q z : Nat} (hq : q % 4096 = 0) (h1 : q ≤ b) (h2 : b + z ≤ q + 4096)
    (hba : b ≤ a) (hab : a < b + z) : a / 4096 * 4096 = q := by
  omega

/-- A client's store to what it has. -/
theorem write_spec (I : Inv h live chains free) {x : Nat × Nat} (hx : x ∈ live) (ha : x.1 ≤ a)
    (hlt : a < x.1 + x.2) {w : Nat} : Inv (h.store a w) live chains free := by
  obtain ⟨i, hi, d, hd, hp, hle⟩ := I.live x hx
  have hal := I.page_aligned hi hd
  have hdd : d ∈ chained chains ++ free := Inv.mem_descs hi hd
  have hobj := Inv.mem_onPage hx hp
  have hcell := I.live_cell hi hd hobj
  obtain ⟨h1, h2, h3⟩ := mem_cells hi hal hcell
  have hpage : a / 4096 * 4096 = h.page d :=
    page_of_between hal h1 h2 ha (hlt.trans_le (Nat.add_le_add_left hle _))
  have hne (k : Nat) (hk : k < 16) : d + k ≠ a := I.field_off hdd hi hd hpage hk
  have hmem (b : Nat) (hb : b ≠ a) : (h.store a w).mem b = h.mem b := Function.update_of_ne hb _ _
  obtain ⟨hsz, ⟨fl, hfl, hperm⟩, hcount⟩ := I.bucket i hi d hd
  have hnd : (fl ++ onPage live (h.page d)).Nodup :=
    hperm.nodup_iff.mpr (cellRun_nodup (size_pos hi))
  have hpg : (h.store a w).page d = h.page d := hmem d (hne 0 (by omega))
  refine I.touch hi hd (fun b _ _ hb => hmem b fun he => hb (he ▸ hpage)) ⟨rfl, rfl, rfl, rfl⟩
    (fun _ _ => rfl) ⟨(hmem _ (hne 14 (by omega))).trans hsz, ⟨fl, ?_, ?_⟩, ?_⟩
    fun y hy => Or.inl hy
  · rw [show (h.store a w).freeptr d = h.freeptr d from hmem _ (hne 8 (by omega))]
    refine hfl.congr fun y hy => ?_
    have hy' : y ∈ cells (size i) (h.page d) := hperm.subset (List.mem_append_left _ hy)
    have hyx : y ≠ x.1 := (List.nodup_append.mp hnd).2.2 y hy x.1 hobj
    have := size_pos hi
    rw [hmem y (by have := cells_apart hy' hcell hyx; omega)]
  · rw [hpg]
    exact hperm
  · rw [hpg, show (h.store a w).refcnt d = h.refcnt d from hmem _ (hne 12 (by omega))]
    exact hcount

/-! ## Pages that come -/

/-- Nobody has an object on a page that the allocator does not have. -/
theorem onPage_fresh (I : Inv h live chains free) (hp : p ∉ h.pages) : onPage live p = [] := by
  refine List.eq_nil_iff_forall_not_mem.mpr fun o ho => hp ?_
  obtain ⟨hm, hop⟩ := List.mem_filter.mp ho
  obtain ⟨x, hx, rfl⟩ := List.mem_map.mp hm
  obtain ⟨i, hi, d, hd, hxd, -⟩ := I.live x hx
  rw [← of_decide_eq_true hop, hxd]
  exact I.page_mem hi hd

/-- What `init_bucket_desc` stores. -/
theorem initBucketDesc_mem (h0 : p ≠ 0) (hal : p % 4096 = 0) :
    ∃ h', h.initBucketDesc p = .ok h' ∧ h'.freeDesc = p ∧ h'.chain = h.chain ∧
      h'.pages = p :: h.pages ∧ h'.descPages = p :: h.descPages ∧
      (∀ a, a / 4096 * 4096 ≠ p → h'.mem a = h.mem a) ∧
      ∀ l, Chain (fun d => ptr (h'.next d)) (ptr h.freeDesc) l →
        Chain (fun d => ptr (h'.next d)) (ptr p) (descsOf p ++ l) := by
  refine ⟨_, if_neg h0, rfl, rfl, rfl, rfl, fun a ha => ?_, fun l hl => ?_⟩
  · refine linkRun_frame fun o ho he => ha ?_
    obtain ⟨k, hk, rfl⟩ := mem_cellRun.mp ho
    omega
  · have hrun : descsOf p = cellRun 16 p (255 + 1) := rfl
    rw [hrun]
    exact linkRun_chain (by omega) h0 hl

/-- `init_bucket_desc` with a page: 256 more free descriptors. -/
theorem initBucketDesc_spec (I : Inv h live chains free) (hp : Fresh h p) (h0 : p ≠ 0) :
    ∃ h', h.initBucketDesc p = .ok h' ∧ Inv h' live chains (descsOf p ++ free) ∧ h'.freeDesc = p ∧
      h'.chain = h.chain ∧ h'.pages = p :: h.pages ∧ h'.descPages = p :: h.descPages := by
  obtain ⟨hal, hlt, hnew⟩ := hp.resolve_left h0
  obtain ⟨h', hok, hfree, hchain, hpages, hdesc, hmem, hlist⟩ := initBucketDesc_mem (h := h) h0 hal
  refine ⟨h', hok, ?_, hfree, hchain, hpages, hdesc⟩
  have hfield {a k : Nat} (ha : a ∈ chained chains ++ free) (hk : k < 16) :
      h'.mem (a + k) = h.mem (a + k) :=
    hmem _ fun he => hnew (he ▸ I.descPage_mem (I.field_page ha hk))
  have hnext {a : Nat} (ha : a ∈ chained chains ++ free) : h'.next a = h.next a := hfield ha (by omega)
  have hpage {a : Nat} (ha : a ∈ chained chains ++ free) : h'.page a = h.page a :=
    hfield (k := 0) ha (by omega)
  constructor
  · intro j hj
    rw [hchain]
    exact (I.chain j hj).congr fun a ha => congrArg ptr (hnext (Inv.mem_descs hj ha))
  · rw [hfree]
    exact hlist _ (I.freeChain.congr fun a ha => congrArg ptr (hnext (List.mem_append_right _ ha)))
  · rw [hdesc]
    exact (List.perm_append_comm_assoc _ _ _).trans (I.descs.append_left _)
  · rw [hdesc, hpages, List.map_congr_left fun a ha => hpage (List.mem_append_left _ ha)]
    exact I.pages.cons p
  · rw [hpages]
    exact List.nodup_cons.mpr ⟨hnew, I.nodup⟩
  · intro q hq
    rw [hpages] at hq
    rcases List.mem_cons.mp hq with rfl | hq
    · exact ⟨hal, h0, hlt⟩
    · exact I.aligned q hq
  · intro j hj e he
    refine (I.bucket j hj e he).congr hj (I.page_aligned hj he)
      (fun k hk => hfield (Inv.mem_descs hj he) (by omega)) (fun a ha => hmem a fun hap => hnew ?_) rfl
    rw [← hap, ha]
    exact I.page_mem hj he
  · intro x hx
    obtain ⟨j, hj, e, he, hxe, hle⟩ := I.live x hx
    exact ⟨j, hj, e, he, hxe.trans (hpage (Inv.mem_descs hj he)).symm, hle⟩

/-- One list of a table gains a member. -/
theorem flatMap_update_perm {is : List Nat} {f : Nat → List Nat} {x : Nat} (hn : is.Nodup) (hi : i ∈ is)
    (hf : (f i).Perm (x :: l)) : (is.flatMap f).Perm (x :: is.flatMap (Function.update f i l)) := by
  induction is with
  | nil => cases hi
  | cons j is ih =>
    obtain ⟨hj, hn⟩ := List.nodup_cons.mp hn
    rw [List.flatMap_cons, List.flatMap_cons]
    by_cases hji : j = i
    · subst hji
      rw [Function.update_self]
      have hrest : is.flatMap (Function.update f j l) = is.flatMap f :=
        List.flatMap_congr fun k hk => Function.update_of_ne (fun (he : k = j) => hj (he ▸ hk)) _ _
      rw [hrest]
      exact hf.append_right _
    · rw [Function.update_of_ne hji]
      have := ih hn ((List.mem_cons.mp hi).resolve_left (Ne.symm hji))
      exact (this.append_left _).trans List.perm_middle

theorem chained_update (chains : Nat → List Nat) {x : Nat} (hi : i < 9) (hf : (chains i).Perm (x :: l)) :
    (chained chains).Perm (x :: chained (Function.update chains i l)) :=
  flatMap_update_perm List.nodup_range (List.mem_range.mpr hi) hf

theorem chained_cons (chains : Nat → List Nat) (x : Nat) (hi : i < 9) :
    (chained (Function.update chains i (x :: chains i))).Perm (x :: chained chains) := by
  have := chained_update (Function.update chains i (x :: chains i)) (x := x) (l := chains i) hi
    (by rw [Function.update_self])
  rwa [Function.update_idem, Function.update_eq_self] at this

/-- The lines of `my_malloc` that set a page up: what they store. -/
theorem newBucket_mem (hi : i < 9) (h0 : p ≠ 0) (hoff : ∀ k < 16, (d + k) / 4096 * 4096 ≠ p)
    (hal : p % 4096 = 0) (hfd : h.freeDesc = d) :
    ∃ h', h.newBucket i p = .ok (d, h') ∧ h'.page d = p ∧ h'.next d = h.chain i ∧ h'.freeptr d = p ∧
      h'.refcnt d = 0 ∧ h'.bucketSize d = size i ∧
      Chain (fun o => ptr (h'.mem o)) (ptr p) (cells (size i) p) ∧
      (∀ a, (∀ k < 16, a ≠ d + k) → a / 4096 * 4096 ≠ p → h'.mem a = h.mem a) ∧
      h'.chain = Function.update h.chain i d ∧ h'.freeDesc = h.next d ∧ h'.pages = p :: h.pages ∧
      h'.descPages = h.descPages := by
  subst hfd
  have hlink (mem : Nat → Nat) (a : Nat) (ha : a / 4096 * 4096 ≠ p) :
      Heap.linkRun (size i) 0 0 (4096 / size i - 1) p mem a = mem a := by
    refine linkRun_frame fun o ho he => ha ?_
    rw [size_count hi] at ho
    rw [he]
    exact (mem_cells hi hal ho).2.2
  have h0' := hoff 0 (by omega)
  have hself {mem : Nat → Nat} {a w : Nat} : Function.update mem a w a = w := Function.update_self _ _ _
  have hother {mem : Nat → Nat} {a b w : Nat} (hb : b ≠ a) : Function.update mem a w b = mem b :=
    Function.update_of_ne hb _ _
  refine ⟨_, if_neg h0, ?_, hself, ?_, ?_, ?_, ?_, ?_, rfl, rfl, rfl, rfl⟩
  · refine (hother (by omega)).trans ((hlink _ _ h0').trans hself)
  · refine (hother (by omega)).trans ((hlink _ _ (hoff 8 (by omega))).trans ?_)
    exact (hother (by omega)).trans hself
  · refine (hother (by omega)).trans ((hlink _ _ (hoff 12 (by omega))).trans ?_)
    exact (hother (by omega)).trans ((hother (by omega)).trans ((hother (by omega)).trans hself))
  · refine (hother (by omega)).trans ((hlink _ _ (hoff 14 (by omega))).trans ?_)
    exact (hother (by omega)).trans ((hother (by omega)).trans hself)
  · have hne (o : Nat) (ho : o ∈ cells (size i) p) : o ≠ h.freeDesc + 4 := fun he =>
      hoff 4 (by omega) (he ▸ (mem_cells hi hal ho).2.2)
    have hrun : cells (size i) p = cellRun (size i) p (4096 / size i - 1 + 1) := by
      rw [size_count hi]
      rfl
    have hcells (mem : Nat → Nat) :
        Chain (fun o => ptr (Heap.linkRun (size i) 0 0 (4096 / size i - 1) p mem o)) (ptr p)
          (cells (size i) p) := by
      rw [hrun, ← List.append_nil (cellRun _ _ _)]
      exact linkRun_chain (size_pos hi) h0 .nil
    exact (hcells _).congr fun o ho => congrArg ptr (hother (hne o ho))
  · intro a ha hp
    refine (hother (ha 4 (by omega))).trans ((hlink _ _ hp).trans ?_)
    exact (hother (ha 0 (by omega))).trans ((hother (ha 8 (by omega))).trans
      ((hother (ha 14 (by omega))).trans (hother (ha 12 (by omega)))))

/-- `my_malloc` with a page: a bucket with nothing handed out. -/
theorem newBucket_spec (I : Inv h live chains (d :: free)) (hi : i < 9) (hfd : h.freeDesc = d)
    (hp : Fresh h p) (h0 : p ≠ 0) : ∃ h', h.newBucket i p = .ok (d, h') ∧
      Inv h' live (Function.update chains i (d :: chains i)) free ∧ h'.freeptr d ≠ 0 ∧
      h'.page d = p ∧ h'.pages = p :: h.pages ∧ h'.descPages = h.descPages := by
  obtain ⟨hal, hlt, hnew⟩ := hp.resolve_left h0
  have hdd : d ∈ chained chains ++ d :: free := List.mem_append_right _ List.mem_cons_self
  obtain ⟨h', hok, hpd, hnd, hptr, hcnt, hsz, hcells, hmem, hchain, hfree, hpages, hdesc⟩ :=
    newBucket_mem hi h0 (fun k hk he => hnew (he ▸ I.descPage_mem (I.field_page hdd hk))) hal hfd
  refine ⟨h', hok, ?_, fun he => h0 (hptr ▸ he), hpd, hpages, hdesc⟩
  -- the other descriptors
  have hnd' := List.nodup_append.mp I.descs_nodup
  have hdc (a : Nat) (ha : a ∈ chained chains) : a ≠ d := hnd'.2.2 a ha d List.mem_cons_self
  have hdf (a : Nat) (ha : a ∈ free) : a ≠ d := fun he =>
    (List.nodup_cons.mp hnd'.2.1).1 (he ▸ ha)
  have hfield {a k : Nat} (ha : a ∈ chained chains ++ d :: free) (hne : a ≠ d) (hk : k < 16) :
      h'.mem (a + k) = h.mem (a + k) :=
    hmem _ (fun m hm => I.field_ne ha hdd hne hk hm)
      fun he => hnew (he ▸ I.descPage_mem (I.field_page ha hk))
  have hold {a : Nat} (ha : a ∈ chained chains) : a ∈ chained chains ++ d :: free :=
    List.mem_append_left _ ha
  have hnext {a : Nat} (ha : a ∈ chained chains) : h'.next a = h.next a :=
    hfield (hold ha) (hdc a ha) (by omega)
  have hpage {a : Nat} (ha : a ∈ chained chains) : h'.page a = h.page a :=
    hfield (k := 0) (hold ha) (hdc a ha) (by omega)
  have hlist (j : Nat) (hj : j < 9) : Chain (fun d => ptr (h'.next d)) (ptr (h.chain j)) (chains j) :=
    (I.chain j hj).congr fun a ha => congrArg ptr (hnext (mem_chained.mpr ⟨j, hj, ha⟩))
  have hperm := chained_cons chains d hi
  have hd0 : d ≠ 0 := (I.desc_of_mem hdd).2.1
  constructor
  · intro j hj
    rw [hchain]
    by_cases hji : j = i
    · subst hji
      rw [Function.update_self, Function.update_self, ptr_some hd0]
      refine .cons ?_
      rw [hnd]
      exact hlist j hj
    · rw [Function.update_of_ne hji, Function.update_of_ne hji]
      exact hlist j hj
  · rw [hfree]
    have hfc := I.freeChain
    rw [hfd, ptr_some hd0] at hfc
    obtain ⟨l, hl, hfc⟩ := hfc.head
    cases hl
    exact hfc.congr fun a ha =>
      congrArg ptr (hfield (List.mem_append_right _ (List.mem_cons_of_mem _ ha)) (hdf a ha) (by omega))
  · rw [hdesc]
    refine ((hperm.append_right free).trans ?_).trans I.descs
    exact List.perm_middle.symm
  · have hmap : ((chained (Function.update chains i (d :: chains i))).map h'.page).Perm
        (p :: (chained chains).map h.page) := by
      refine (hperm.map h'.page).trans (List.Perm.of_eq ?_)
      rw [List.map_cons, hpd, List.map_congr_left fun a ha => hpage ha]
    rw [hpages, hdesc]
    exact (I.pages.cons p).trans (List.perm_middle.symm.trans (hmap.symm.append_left _))
  · rw [hpages]
    exact List.nodup_cons.mpr ⟨hnew, I.nodup⟩
  · intro q hq
    rw [hpages] at hq
    rcases List.mem_cons.mp hq with rfl | hq
    · exact ⟨hal, h0, hlt⟩
    · exact I.aligned q hq
  · intro j hj e he
    by_cases hed : e ∈ chains j
    · have hec : e ∈ chained chains := mem_chained.mpr ⟨j, hj, hed⟩
      refine (I.bucket j hj e hed).congr hj (I.page_aligned hj hed)
        (fun k hk => hfield (hold hec) (hdc e hec) (by omega)) (fun a ha => ?_) rfl
      refine hmem a (fun k hk => ?_) fun hap => hnew (hap ▸ ha ▸ I.page_mem hj hed)
      exact (I.field_off hdd hj hed ha hk).symm
    · have hji : j = i := by
        by_contra hne
        rw [Function.update_of_ne hne] at he
        exact hed he
      subst hji
      rw [Function.update_self] at he
      obtain rfl := (List.mem_cons.mp he).resolve_right hed
      have hnone := onPage_fresh I hnew
      refine ⟨hsz, ⟨cells (size j) p, ?_, ?_⟩, ?_⟩
      · rw [hptr]
        exact hcells
      · rw [hpd, hnone, List.append_nil]
      · rw [hpd, hnone, hcnt]
        rfl
  · intro x hx
    obtain ⟨j, hj, e, he, hxe, hle⟩ := I.live x hx
    refine ⟨j, hj, e, ?_, hxe.trans (hpage (mem_chained.mpr ⟨j, hj, he⟩)).symm, hle⟩
    by_cases hji : j = i
    · subst hji
      rw [Function.update_self]
      exact List.mem_cons_of_mem _ he
    · rw [Function.update_of_ne hji]
      exact he

/-! ## A page that goes -/

/-- The descriptor before another one in a chain, 0 for the first. -/
def before (l : List Nat) : Nat := l.getLast?.getD 0

/-- `prev` is accurate, so the descriptor leaves its chain without a second search. -/
theorem unlink_spec (I : Inv h live chains free) (hi : i < 9) (hl : chains i = l ++ d :: l') :
    ¬ ((before l ≠ 0 ∧ h.next (before l) ≠ d) ∨ (before l = 0 ∧ h.chain i ≠ d)) ∧
    ∃ h', h.unlink i (before l) d = .ok h' ∧
      (∀ a, (∀ e ∈ chains i, a ≠ e + 4) → h'.mem a = h.mem a) ∧
      (∀ j, j ≠ i → h'.chain j = h.chain j) ∧
      Chain (fun d => ptr (h'.next d)) (ptr (h'.chain i)) (l ++ l') ∧
      h'.freeDesc = h.freeDesc ∧ h'.pages = h.pages ∧ h'.descPages = h.descPages := by
  have hc := I.chain i hi
  have hne (e : Nat) (he : e ∈ chains i) : e ≠ 0 := (I.desc_of_mem (Inv.mem_descs hi he)).2.1
  rw [hl] at hc
  rcases List.eq_nil_or_concat' l with rfl | ⟨l, q, rfl⟩
  · have hd : h.chain i = d := of_ptr hc.start
    refine ⟨?_, { h with chain := Function.update h.chain i (h.next d) }, ?_, fun a _ => rfl,
      fun j hj => Function.update_of_ne hj _ _, ?_, rfl, rfl, rfl⟩
    · rintro (⟨h0, -⟩ | ⟨-, hne⟩)
      · exact h0 rfl
      · exact hne hd
    · rw [Heap.unlink, if_neg (fun h0 => h0 rfl), if_neg (fun h0 => h0 hd)]
    · show Chain _ (ptr (Function.update h.chain i (h.next d) i)) l'
      rw [Function.update_self]
      exact hc.tail
  · have hq : before (l ++ [q]) = q := by
      rw [before, List.getLast?_concat]
      rfl
    have hmem : q ∈ chains i := by
      rw [hl]
      exact List.mem_append_left _ (List.mem_append_right _ List.mem_cons_self)
    have hq0 := hne q hmem
    rw [List.append_assoc] at hc ⊢
    have hqd : h.next q = d := of_ptr hc.rest.start
    rw [hq]
    refine ⟨?_, h.store (q + 4) (h.next d), if_pos hq0, fun a ha => Function.update_of_ne (ha q hmem) _ _,
      fun _ _ => rfl, ?_, rfl, rfl, rfl⟩
    · rintro (⟨-, hne⟩ | ⟨h0, -⟩)
      · exact hne hqd
      · exact hq0 h0
    · refine hc.remove.congr fun a ha => ?_
      by_cases haq : a = q
      · subst haq
        rw [Function.update_self]
        exact congrArg ptr (Function.update_self _ _ _)
      · rw [Function.update_of_ne haq]
        exact congrArg ptr (Function.update_of_ne (fun he => haq (by omega)) _ _)

/-- The bucket of a page without clients' objects is given up. -/
theorem dropBucket_spec (I : Inv h live chains free) (hi : i < 9) (hl : chains i = l ++ d :: l')
    (hcnt : h.refcnt d = 0) : ∃ h', h.dropBucket i (before l) d = .ok h' ∧
      Inv h' live (Function.update chains i (l ++ l')) (d :: free) ∧
      h'.pages = h.pages.erase (h.page d) ∧ h'.descPages = h.descPages := by
  have hd : d ∈ chains i := by
    rw [hl]
    exact List.mem_append_right _ List.mem_cons_self
  have hdd : d ∈ chained chains ++ free := Inv.mem_descs hi hd
  obtain ⟨hprev, h₁, hok, hmem, hchain, hlist, hfree, hpages, hdesc⟩ := unlink_spec I hi hl
  have hpg : h₁.page d = h.page d := hmem d fun e he => by
    by_cases hde : d = e
    · omega
    · exact I.field_ne (k := 0) hdd (Inv.mem_descs hi he) hde (by omega) (by omega)
  have hin : h₁.page d ∈ h₁.pages := by
    rw [hpg, hpages]
    exact I.page_mem hi hd
  obtain ⟨h', hh'⟩ : ∃ h' : Heap, h' = { h₁ with
    mem := Function.update h₁.mem (d + 4) h.freeDesc
    freeDesc := d
    pages := h.pages.erase (h.page d) } := ⟨_, rfl⟩
  have hrun : h.dropBucket i (before l) d = .ok h' := by
    unfold Heap.dropBucket
    rw [if_neg hprev]
    show (h.unlink i (before l) d).bind _ = _
    rw [hok]
    show (h₁.freePage (h₁.page d)).bind _ = _
    rw [Heap.freePage, if_pos hin, hh', hpg, hpages, ← hfree]
    rfl
  have hmem' : h'.mem = Function.update h₁.mem (d + 4) h.freeDesc := by rw [hh']
  have hperm : (chained chains).Perm (d :: chained (Function.update chains i (l ++ l'))) :=
    chained_update chains hi (by rw [hl]; exact List.perm_middle)
  have hnd := List.nodup_append.mp I.descs_nodup
  have hdn : d ∉ chained (Function.update chains i (l ++ l')) :=
    (List.nodup_cons.mp (hperm.nodup_iff.mp hnd.1)).1
  have hsub {a : Nat} (ha : a ∈ chained (Function.update chains i (l ++ l'))) :
      a ∈ chained chains := hperm.symm.subset (List.mem_cons_of_mem _ ha)
  have hdf {a : Nat} (ha : a ∈ free) : a ≠ d := fun he =>
    hnd.2.2 d (mem_chained.mpr ⟨i, hi, hd⟩) a ha he.symm
  -- what is not the link of a descriptor of this chain stays
  have hkeep {a : Nat} (ha : ∀ e ∈ chains i, a ≠ e + 4) : h'.mem a = h.mem a := by
    rw [hmem', Function.update_of_ne (ha d hd), hmem a ha]
  have hfield {a k : Nat} (ha : a ∈ chained chains ++ free) (hk : k < 16) (hk4 : k ≠ 4) :
      h'.mem (a + k) = h.mem (a + k) := by
    refine hkeep fun e he hae => ?_
    by_cases hne : a = e
    · omega
    · exact I.field_ne ha (Inv.mem_descs hi he) hne hk (by omega) hae
  have hnext {a : Nat} (ha : a ∈ chained chains ++ free) (hai : a ∉ chains i) :
      h'.next a = h.next a := by
    refine hkeep fun e he hae => ?_
    by_cases hne : a = e
    · exact hai (hne ▸ he)
    · exact I.field_ne ha (Inv.mem_descs hi he) hne (by omega) (by omega) hae
  have hpage {a : Nat} (ha : a ∈ chained chains ++ free) : h'.page a = h.page a :=
    hfield (k := 0) ha (by omega) (by omega)
  have hnone : onPage live (h.page d) = [] :=
    List.length_eq_zero_iff.mp ((I.bucket i hi d hd).count.symm.trans hcnt)
  -- membership in the new chains
  have hback {j e : Nat} (he : e ∈ Function.update chains i (l ++ l') j) : e ∈ chains j := by
    by_cases hji : j = i
    · subst hji
      rw [Function.update_self] at he
      rw [hl]
      rcases List.mem_append.mp he with he | he
      · exact List.mem_append_left _ he
      · exact List.mem_append_right _ (List.mem_cons_of_mem _ he)
    · rwa [Function.update_of_ne hji] at he
  have hforth {j e : Nat} (he : e ∈ chains j) (hed : e ≠ d) :
      e ∈ Function.update chains i (l ++ l') j := by
    by_cases hji : j = i
    · subst hji
      rw [Function.update_self]
      rw [hl] at he
      rcases List.mem_append.mp he with he | he
      · exact List.mem_append_left _ he
      · exact List.mem_append_right _ ((List.mem_cons.mp he).resolve_left hed)
    · rwa [Function.update_of_ne hji]
  refine ⟨h', hrun, ?_, by rw [hh'], by rw [hh']; exact hdesc⟩
  have hch : h'.chain = h₁.chain := by rw [hh']
  have hfd : h'.freeDesc = d := by rw [hh']
  have hps : h'.pages = h.pages.erase (h.page d) := by rw [hh']
  have hds : h'.descPages = h.descPages := by rw [hh']; exact hdesc
  constructor
  · intro j hj
    rw [hch]
    by_cases hji : j = i
    · subst hji
      rw [Function.update_self]
      refine hlist.congr fun a ha => congrArg ptr ?_
      have had : a ≠ d := by
        rintro rfl
        refine hdn (mem_chained.mpr ⟨j, hi, ?_⟩)
        rw [Function.update_self]
        exact ha
      show h'.mem (a + 4) = h₁.mem (a + 4)
      rw [hmem', Function.update_of_ne (by omega)]
    · rw [hchain j hji, Function.update_of_ne hji]
      exact (I.chain j hj).congr fun a ha => congrArg ptr
        (hnext (Inv.mem_descs hj ha) fun hai => hji (I.chain_inj hj hi ha hai))
  · rw [hfd, ptr_some (I.desc_of_mem hdd).2.1]
    refine .cons ?_
    have : h'.next d = h.freeDesc := by
      show h'.mem (d + 4) = _
      rw [hmem', Function.update_self]
    rw [this]
    exact I.freeChain.congr fun a ha => congrArg ptr (hnext (List.mem_append_right _ ha) fun hai =>
      hnd.2.2 a (mem_chained.mpr ⟨i, hi, hai⟩) a ha rfl)
  · rw [hds]
    refine List.Perm.trans ?_ I.descs
    exact List.perm_middle.trans (hperm.symm.append_right free)
  · rw [hps, hds]
    have hmap : ((chained chains).map h.page).Perm
        (h.page d :: (chained (Function.update chains i (l ++ l'))).map h'.page) := by
      refine (hperm.map h.page).trans (List.Perm.of_eq ?_)
      rw [List.map_cons, List.map_congr_left fun a ha => (hpage (List.mem_append_left _ (hsub ha))).symm]
    have := (I.pages.trans (hmap.append_left _)).trans List.perm_middle
    have := this.erase (h.page d)
    rwa [List.erase_cons_head] at this
  · rw [hps]
    exact I.nodup.erase _
  · rw [hps]
    exact fun q hq => I.aligned q (List.mem_of_mem_erase hq)
  · intro j hj e he
    have hej := hback he
    refine (I.bucket j hj e hej).congr hj (I.page_aligned hj hej)
      (fun k hk => hfield (Inv.mem_descs hj hej) (by omega) (by omega)) (fun a ha => ?_) rfl
    exact hkeep fun f hf => (I.field_off (Inv.mem_descs hi hf) hj hej ha (by omega)).symm
  · intro x hx
    obtain ⟨j, hj, e, he, hxe, hle⟩ := I.live x hx
    have hed : e ≠ d := by
      rintro rfl
      have := Inv.mem_onPage hx hxe
      rw [hnone] at this
      cases this
    exact ⟨j, hj, e, hforth he hed, hxe.trans (hpage (Inv.mem_descs hj he)).symm, hle⟩

end Linux011.Malloc

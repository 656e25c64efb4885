import Linux011.Malloc.Calls

/-!
# The allocator over whole runs

From `bucket_dir` with empty chains on, whatever clients ask for, free and store, the allocator is in
order: its lists hold every descriptor once, a chained descriptor counts the objects of its page that
clients have and its free list holds the others, and the only pages it keeps are the pages of
descriptors and those where a client has an object. A call ends early only when `get_free_page` has no
page.
-/

namespace Linux011.Malloc

open Linux011.Lib

variable {h h' : Heap} {live live' : List (Nat × Nat)} {chains : Nat → List Nat} {free : List Nat}
  {i d p o a b n len obj sz : Nat} {l l' : List Nat} {s s' : State} {e : Event}

/-! ## The searches -/

theorem ptr_nil {next : Nat → Option Nat} (hl : Chain next (ptr b) []) : b = 0 := by
  by_contra h0
  rw [ptr_some h0] at hl
  obtain ⟨_, hcons, -⟩ := hl.head
  cases hcons

theorem ptr_cons {next : Nat → Option Nat} (hl : Chain next (ptr b) (d :: l)) :
    b = d ∧ b ≠ 0 ∧ Chain next (next b) l := by
  obtain rfl := of_ptr hl.start
  refine ⟨rfl, fun h0 => ?_, hl.tail⟩
  have hs := hl.start
  rw [ptr, if_pos h0] at hs
  cases hs

theorem findFree_spec (hl : Chain (fun d => ptr (h.next d)) (ptr b) l) (hn : l.length < n) :
    ∃ r, h.findFree n b = .ok r ∧ ((r = 0 ∧ ∀ d ∈ l, h.freeptr d = 0) ∨
      (r ≠ 0 ∧ r ∈ l ∧ h.freeptr r ≠ 0)) := by
  induction l generalizing b n with
  | nil =>
    obtain ⟨n, rfl⟩ := Nat.exists_eq_add_one.mpr hn
    refine ⟨0, ?_, Or.inl ⟨rfl, fun _ hd => nomatch hd⟩⟩
    rw [Heap.findFree, if_pos (ptr_nil hl)]
  | cons d l ih =>
    obtain ⟨n, rfl⟩ := Nat.exists_eq_add_one.mpr (Nat.lt_of_le_of_lt (Nat.zero_le _) hn)
    obtain ⟨rfl, h0, hl⟩ := ptr_cons hl
    rw [Heap.findFree, if_neg h0]
    by_cases hf : h.freeptr b ≠ 0
    · rw [if_pos hf]
      exact ⟨b, rfl, Or.inr ⟨h0, List.mem_cons_self, hf⟩⟩
    · rw [if_neg hf]
      obtain ⟨r, hr, hres⟩ := ih hl (Nat.lt_of_succ_lt_succ hn)
      refine ⟨r, hr, hres.imp (fun ⟨h0, hall⟩ => ⟨h0, fun x hx => ?_⟩)
        fun ⟨h0, hm, hne⟩ => ⟨h0, List.mem_cons_of_mem _ hm, hne⟩⟩
      rcases List.mem_cons.mp hx with rfl | hx
      · exact not_not.mp hf
      · exact hall x hx

/-- The page is not in this chain. -/
theorem findPage_none {prev : Nat} (hl : Chain (fun d => ptr (h.next d)) (ptr b) l)
    (hn : l.length < n) (hp : ∀ d ∈ l, h.page d ≠ p) : h.findPage p n prev b = .ok none := by
  induction l generalizing b n prev with
  | nil =>
    obtain ⟨n, rfl⟩ := Nat.exists_eq_add_one.mpr hn
    rw [Heap.findPage, if_pos (ptr_nil hl)]
  | cons d l ih =>
    obtain ⟨n, rfl⟩ := Nat.exists_eq_add_one.mpr (Nat.lt_of_le_of_lt (Nat.zero_le _) hn)
    obtain ⟨rfl, h0, hl⟩ := ptr_cons hl
    rw [Heap.findPage, if_neg h0, if_neg (hp b List.mem_cons_self)]
    exact ih hl (Nat.lt_of_succ_lt_succ hn) fun x hx => hp x (List.mem_cons_of_mem _ hx)

/-- The page is that of `d`, and the one before `d` in the chain is found with it. -/
theorem findPage_some (prev : Nat) (hl : Chain (fun d => ptr (h.next d)) (ptr b) (l ++ d :: l'))
    (hn : (l ++ d :: l').length < n) (hp : ∀ x ∈ l, h.page x ≠ p) (hd : h.page d = p) :
    h.findPage p n prev b = .ok (some (l.getLast?.getD prev, d)) := by
  induction l generalizing b n prev with
  | nil =>
    obtain ⟨n, rfl⟩ := Nat.exists_eq_add_one.mpr (Nat.lt_of_le_of_lt (Nat.zero_le _) hn)
    obtain ⟨rfl, h0, -⟩ := ptr_cons hl
    rw [Heap.findPage, if_neg h0, if_pos hd]
    rfl
  | cons x l ih =>
    obtain ⟨n, rfl⟩ := Nat.exists_eq_add_one.mpr (Nat.lt_of_le_of_lt (Nat.zero_le _) hn)
    obtain ⟨rfl, h0, hl⟩ := ptr_cons hl
    rw [Heap.findPage, if_neg h0, if_neg (hp b List.mem_cons_self),
      ih b hl (Nat.lt_of_succ_lt_succ hn) fun y hy => hp y (List.mem_cons_of_mem _ hy),
      List.getLast?_cons]
    rfl

/-- The search of `free_s` for the page of an object that a client has. -/
theorem search_spec (I : Inv h live chains free) (is js : List Nat) (hi : i < 9)
    (hl : chains i = l ++ d :: l') (hjs : ∀ j ∈ js, j < 9 ∧ j ≠ i) (hsz : sz ≤ size i) :
    h.search (h.page d) sz (js ++ i :: is) = .ok (i, before l, d) := by
  have hd : d ∈ chains i := by
    rw [hl]
    exact List.mem_append_right _ List.mem_cons_self
  have hother {j : Nat} (hj : j < 9) {x : Nat} (hx : x ∈ chains j) (hne : x ≠ d) :
      h.page x ≠ h.page d := fun he => hne
    (I.page_inj (mem_chained.mpr ⟨j, hj, hx⟩) (mem_chained.mpr ⟨i, hi, hd⟩) he)
  have hnd := (I.chain i hi).nodup
  rw [hl] at hnd
  induction js with
  | nil =>
    have hlt := I.length_lt hi
    have hc := I.chain i hi
    rw [hl] at hlt hc
    have hf := findPage_some 0 hc hlt (fun x hx => hother hi (by
      rw [hl]
      exact List.mem_append_left _ hx) ((List.nodup_append.mp hnd).2.2 x hx d List.mem_cons_self)) rfl
    rw [List.nil_append, Heap.search, if_neg (Nat.not_lt.mpr hsz), hf]
    rfl
  | cons j js ih =>
    obtain ⟨hj, hji⟩ := hjs j List.mem_cons_self
    have hrest := ih fun k hk => hjs k (List.mem_cons_of_mem _ hk)
    rw [List.cons_append, Heap.search]
    split
    · exact hrest
    · rw [findPage_none (I.chain j hj) (I.length_lt hj) fun x hx => hother hj hx
        fun he => hji (I.chain_inj hj hi hx (he ▸ hd))]
      exact hrest

/-- The smallest bucket that is large enough. -/
theorem findDir_spec (hlen : len ≤ 4096) : ∃ i < 9, Heap.findDir len = some i ∧ len ≤ size i := by
  have hsome : (Heap.findDir len).isSome := List.find?_isSome.mpr
    ⟨8, List.mem_range.mpr (by omega), decide_eq_true hlen⟩
  obtain ⟨i, hi⟩ := Option.isSome_iff_exists.mp hsome
  have hfind : (List.range 9).find? (fun i => decide (len ≤ size i)) = some i := hi
  have hle := List.find?_some hfind
  exact ⟨i, List.mem_range.mp (List.mem_of_find?_eq_some hfind), hi, of_decide_eq_true hle⟩

/-! ## The calls -/

/-- The page of an address. -/
def pageOf (a : Nat) : Nat := a / 4096 * 4096

/-- A page that is kept is a page of descriptors, or a client has an object on it. -/
def Used (h : Heap) (live : List (Nat × Nat)) : Prop :=
  ∀ p ∈ h.pages, p ∈ h.descPages ∨ ∃ x ∈ live, pageOf x.1 = p

/-- The state of the allocator in order. -/
def Ordered (h : Heap) (live : List (Nat × Nat)) : Prop :=
  ∃ chains free, Inv h live chains free ∧ Used h live

/-- A call that could not go on because `get_free_page` had no page for it. -/
def OutOfMemory {α : Type} (r : Except Fault α) (descPage bucketPage : Nat) : Prop :=
  (descPage = 0 ∧ r = .error (.panic "Out of memory in init_bucket_desc()")) ∨
  (bucketPage = 0 ∧ r = .error (.panic "Out of memory in kernel malloc()"))

/-- The last lines of `my_malloc`, for a bucket with a free object. -/
theorem takeObject_ordered (I : Inv h live chains free) (hi : i < 9) (hd : d ∈ chains i)
    (hfree : h.freeptr d ≠ 0) (hlen : len ≤ size i)
    (U : ∀ p ∈ h.pages, p ∈ h.descPages ∨ p = h.page d ∨ ∃ x ∈ live, pageOf x.1 = p) :
    Ordered (h.takeObject d).2 (((h.takeObject d).1, len) :: live) := by
  obtain ⟨I', hpage⟩ := takeObject_spec I hi hd hfree hlen
  refine ⟨chains, free, I', fun p hp => (U p hp).imp_right ?_⟩
  rintro (rfl | ⟨x, hx, hxp⟩)
  · exact ⟨_, List.mem_cons_self, hpage⟩
  · exact ⟨x, List.mem_cons_of_mem _ hx, hxp⟩

/-- The lines of `my_malloc` for a chain without a free object. -/
theorem newBucket_ordered (I : Inv h live chains free) (U : Used h live) (hi : i < 9)
    (hlen : len ≤ size i) (hfd : h.freeDesc ≠ 0) (hb : Fresh h p) :
    (∃ r h', h.newBucket i p = .ok (r, h') ∧
      Ordered (h'.takeObject r).2 (((h'.takeObject r).1, len) :: live) ∧ h'.pages = p :: h.pages) ∨
    (p = 0 ∧ h.newBucket i p = .error (.panic "Out of memory in kernel malloc()")) := by
  by_cases h0 : p = 0
  · exact Or.inr ⟨h0, if_pos h0⟩
  · left
    have hc := I.freeChain
    rw [ptr_some hfd] at hc
    obtain ⟨free, rfl, -⟩ := hc.head
    obtain ⟨h', hok, I', hptr, hpd, hpages, hdesc⟩ := newBucket_spec I hi rfl hb h0
    refine ⟨_, h', hok, takeObject_ordered I' hi (by
      rw [Function.update_self]
      exact List.mem_cons_self) hptr hlen fun q hq => ?_, hpages⟩
    rw [hpages] at hq
    rw [hdesc, hpd]
    rcases List.mem_cons.mp hq with rfl | hq
    · exact Or.inr (Or.inl rfl)
    · exact (U q hq).imp_right Or.inr

theorem myMalloc_spec {descPage bucketPage : Nat} (O : Ordered h live) (hlen : len ≤ 4096)
    (hd : Fresh h descPage) (hb : Fresh h bucketPage) (hne : descPage = bucketPage → descPage = 0) :
    (∃ r h', h.myMalloc len descPage bucketPage = .ok (r, h') ∧ Ordered h' ((r, len) :: live) ∧
      ∀ p ∈ h.pages, p ∈ h'.pages) ∨
    OutOfMemory (h.myMalloc len descPage bucketPage) descPage bucketPage := by
  obtain ⟨chains, free, I, U⟩ := O
  obtain ⟨i, hi, hdir, hle⟩ := findDir_spec hlen
  obtain ⟨r, hr, hres⟩ := findFree_spec (I.chain i hi) (I.length_lt hi)
  have hrun : h.myMalloc len descPage bucketPage =
      if r ≠ 0 then .ok (h.takeObject r) else
        (if h.freeDesc = 0 then h.initBucketDesc descPage else .ok h).bind fun h =>
          (h.newBucket i bucketPage).bind fun x => .ok (x.2.takeObject x.1) := by
    rw [Heap.myMalloc, hdir]
    show (h.findFree fuel (h.chain i)).bind _ = _
    rw [hr]
    show (if r ≠ 0 then _ else _) = _
    congr 1
    by_cases hfd : h.freeDesc = 0
    · rw [if_pos hfd, if_pos hfd]
      rfl
    · rw [if_neg hfd, if_neg hfd]
      rfl
  rw [hrun]
  rcases hres with ⟨rfl, -⟩ | ⟨h0, hmem, hfree⟩
  · rw [if_neg (fun h => h rfl)]
    by_cases hfd : h.freeDesc = 0
    · rw [if_pos hfd]
      by_cases h0 : descPage = 0
      · exact Or.inr (Or.inl ⟨h0, by rw [Heap.initBucketDesc, if_pos h0]; rfl⟩)
      · obtain ⟨h₁, hok, I₁, hfd₁, hchain, hpages, hdesc⟩ := initBucketDesc_spec I hd h0
        have hb₁ : Fresh h₁ bucketPage := hb.imp_right fun ⟨hal, hlt, hnew⟩ => ⟨hal, hlt, by
          rw [hpages]
          exact fun hm => (List.mem_cons.mp hm).elim (fun he => h0 (hne he.symm)) hnew⟩
        have U₁ : Used h₁ live := by
          intro p hp
          rw [hpages] at hp
          rw [hdesc]
          rcases List.mem_cons.mp hp with rfl | hp
          · exact Or.inl List.mem_cons_self
          · exact (U p hp).imp_left (List.mem_cons_of_mem _)
        rw [hok]
        rcases newBucket_ordered I₁ U₁ hi hle (by rw [hfd₁]; exact h0) hb₁ with
          ⟨r, h', hok', O', hp'⟩ | ⟨hz, herr⟩
        · refine Or.inl ⟨(h'.takeObject r).1, (h'.takeObject r).2, ?_, O', fun p hp => ?_⟩
          · show (h₁.newBucket i bucketPage).bind _ = _
            rw [hok']
            rfl
          · show p ∈ h'.pages
            rw [hp', hpages]
            exact List.mem_cons_of_mem _ (List.mem_cons_of_mem _ hp)
        · refine Or.inr (Or.inr ⟨hz, ?_⟩)
          show (h₁.newBucket i bucketPage).bind _ = _
          rw [herr]
          rfl
    · rw [if_neg hfd]
      rcases newBucket_ordered I U hi hle hfd hb with ⟨r, h', hok', O', hp'⟩ | ⟨hz, herr⟩
      · refine Or.inl ⟨(h'.takeObject r).1, (h'.takeObject r).2, ?_, O', fun p hp => ?_⟩
        · show (h.newBucket i bucketPage).bind _ = _
          rw [hok']
          rfl
        · show p ∈ h'.pages
          rw [hp']
          exact List.mem_cons_of_mem _ hp
      · refine Or.inr (Or.inr ⟨hz, ?_⟩)
        show (h.newBucket i bucketPage).bind _ = _
        rw [herr]
        rfl
  · rw [if_pos h0]
    exact Or.inl ⟨_, _, rfl, takeObject_ordered I hi hmem hfree hle fun p hp =>
      (U p hp).imp_right Or.inr, fun p hp => hp⟩

theorem freeS_spec {x : Nat × Nat} (O : Ordered h live) (hx : x ∈ live) (hsz : sz = 0 ∨ sz = x.2) :
    ∃ h', h.freeS x.1 sz = .ok h' ∧ Ordered h' (live.eraseP fun y => y.1 = x.1) ∧
      h'.pages = if onPage (live.eraseP fun y => y.1 = x.1) (pageOf x.1) = []
        then h.pages.erase (pageOf x.1) else h.pages := by
  obtain ⟨chains, free, I, U⟩ := O
  obtain ⟨i, hi, d, hd, hp, hle⟩ := I.live x hx
  obtain ⟨l, l', hl⟩ := List.append_of_mem hd
  have hsz' : sz ≤ size i := by omega
  have hi' : List.range 9 = List.range i ++ i :: List.range' (i + 1) (9 - (i + 1)) :=
    (by decide : ∀ i < 9, List.range 9 = List.range i ++ i :: List.range' (i + 1) (9 - (i + 1))) i hi
  have hsearch := search_spec I (List.range' (i + 1) (9 - (i + 1))) (List.range i) hi hl
    (fun j hj => ⟨(List.mem_range.mp hj).trans hi, (List.mem_range.mp hj).ne⟩) hsz'
  rw [← hi'] at hsearch
  have hobj := Inv.mem_onPage hx hp
  obtain ⟨I', hpg⟩ := putObject_spec I hi hd hobj
  have hcount := (I'.bucket i hi d hd).count
  rw [hpg] at hcount
  have hrun : h.freeS x.1 sz = if (h.putObject x.1 d).refcnt d = 0
      then (h.putObject x.1 d).dropBucket i (before l) d else .ok (h.putObject x.1 d) := by
    rw [Heap.freeS, hp, hsearch]
    rfl
  have hother {q : Nat} (hq : q ≠ h.page d) {y : Nat × Nat} (hy : y ∈ live) (hyq : pageOf y.1 = q) :
      ∃ y ∈ live.eraseP fun y => y.1 = x.1, pageOf y.1 = q := by
    refine ⟨y, (List.mem_eraseP_of_neg ?_).mpr hy, hyq⟩
    rw [decide_eq_true_eq]
    exact fun he => hq (by rw [← hyq, pageOf, he, hp])
  rw [hrun, show pageOf x.1 = h.page d from hp]
  by_cases h0 : (h.putObject x.1 d).refcnt d = 0
  · rw [if_pos h0]
    obtain ⟨h', hok, I'', hps, hds⟩ := dropBucket_spec I' hi hl h0
    have hnone : onPage (live.eraseP fun y => y.1 = x.1) (h.page d) = [] :=
      List.length_eq_zero_iff.mp (hcount.symm.trans h0)
    rw [hpg] at hps
    refine ⟨h', hok, ⟨_, _, I'', fun q hq => ?_⟩, by rw [if_pos hnone, hps]; rfl⟩
    rw [hps] at hq
    rw [hds]
    have hqd : q ≠ h.page d := fun he => (I.nodup.mem_erase_iff.mp hq).1 he
    exact (U q (List.mem_of_mem_erase hq)).imp_right fun ⟨y, hy, hyq⟩ => hother hqd hy hyq
  · rw [if_neg h0]
    have hsome : onPage (live.eraseP fun y => y.1 = x.1) (h.page d) ≠ [] := fun hnil => h0 (by
      rw [hcount, hnil]
      rfl)
    refine ⟨_, rfl, ⟨_, _, I', fun q hq => ?_⟩, by rw [if_neg hsome]; rfl⟩
    by_cases hqd : q = h.page d
    · obtain ⟨o, ho⟩ := List.exists_mem_of_ne_nil _ hsome
      obtain ⟨hm, hop⟩ := List.mem_filter.mp ho
      obtain ⟨y, hy, rfl⟩ := List.mem_map.mp hm
      exact Or.inr ⟨y, hy, (of_decide_eq_true hop).trans hqd.symm⟩
    · exact (U q hq).imp_right fun ⟨y, hy, hyq⟩ => hother hqd hy hyq

/-! ## Runs -/

/-- How a call ends: `free_s` gives the page of the object back exactly when no client has another
object on it, and `my_malloc` and the stores of clients give none back. -/
def Ends (s : State) (e : Event) (s' : State) : Prop :=
  match e with
  | .malloc len _ _ => (∃ obj, s'.live = (obj, len) :: s.live) ∧ ∀ p ∈ s.heap.pages, p ∈ s'.heap.pages
  | .free obj _ => s'.live = s.live.eraseP (fun x => x.1 = obj) ∧
      s'.heap.pages = if onPage s'.live (pageOf obj) = [] then s.heap.pages.erase (pageOf obj)
        else s.heap.pages
  | .write _ _ => s'.live = s.live ∧ s'.heap.pages = s.heap.pages

/-- One call from a state in order. -/
theorem call_spec (O : Ordered s.heap s.live) (ha : Allowed s e) :
    (∃ s', call s e = .ok s' ∧ Ordered s'.heap s'.live ∧ Ends s e s') ∨
    ∃ len descPage bucketPage, e = .malloc len descPage bucketPage ∧
      OutOfMemory (call s e) descPage bucketPage := by
  cases e with
  | malloc len descPage bucketPage =>
    obtain ⟨-, hlen, hd, hb, hne⟩ := ha
    have hcall : call s (.malloc len descPage bucketPage) =
        (s.heap.myMalloc len descPage bucketPage).bind fun x => .ok ⟨x.2, (x.1, len) :: s.live⟩ := rfl
    rw [hcall]
    rcases myMalloc_spec O hlen hd hb hne with ⟨r, h', hok, O', hp⟩ | hoom
    · rw [hok]
      exact Or.inl ⟨_, rfl, O', ⟨r, rfl⟩, hp⟩
    · refine Or.inr ⟨len, descPage, bucketPage, rfl, hoom.imp ?_ ?_⟩ <;>
      · rintro ⟨hz, herr⟩
        rw [herr]
        exact ⟨hz, rfl⟩
  | free obj sz =>
    obtain ⟨x, hx, rfl, hsz⟩ := ha
    obtain ⟨h', hok, O', hp⟩ := freeS_spec O hx hsz
    refine Or.inl ⟨⟨h', s.live.eraseP fun y => y.1 = x.1⟩, ?_, O', rfl, hp⟩
    show (s.heap.freeS x.1 sz).bind _ = _
    rw [hok]
    rfl
  | write a w =>
    obtain ⟨x, hx, h1, h2⟩ := ha
    obtain ⟨chains, free, I, U⟩ := O
    exact Or.inl ⟨_, rfl, ⟨chains, free, write_spec I hx h1 h2, U⟩, rfl, rfl⟩

theorem initial_ordered (mem : Nat → Nat) : Ordered (initial mem).heap (initial mem).live := by
  refine ⟨fun _ => [], [], ⟨fun i _ => .nil, .nil, ?_, ?_, List.nodup_nil, ?_, ?_, ?_⟩, ?_⟩
  · exact List.Perm.of_eq rfl
  · exact List.Perm.of_eq rfl
  · exact fun p hp => nomatch hp
  · exact fun i _ d hd => nomatch hd
  · exact fun x hx => nomatch hx
  · exact fun p hp => nomatch hp

theorem reach_ordered (h : Reach step (fun _ _ => True) (fun s => s = initial mem) s) :
    Ordered s.heap s.live := by
  refine h.invariant (I := fun s => Ordered s.heap s.live) ?_ fun s e s' O _ hs => ?_
  · rintro s rfl
    exact initial_ordered mem
  · unfold step at hs
    split at hs
    · next ha =>
      rcases call_spec O ha with ⟨u, hu, O', -⟩ | ⟨len, dp, bp, rfl, hoom⟩
      · rw [hu] at hs
        cases hs
        exact O'
      · rcases hoom with ⟨-, herr⟩ | ⟨-, herr⟩
        · rw [herr] at hs
          cases hs
        · rw [herr] at hs
          cases hs
    · cases hs

/-! ## What clients rely on -/

/-- A chained descriptor with its page: the count, and the free list. -/
structure InOrder (s : State) (i d : Nat) : Prop where
  sized : s.heap.bucketSize d = size i
  count : s.heap.refcnt d = (onPage s.live (s.heap.page d)).length
  freeList : ∃ fl, Chain (fun o => ptr (s.heap.mem o)) (ptr (s.heap.freeptr d)) fl ∧ fl.Nodup ∧
    ∀ o, o ∈ fl ↔ o ∈ cells (size i) (s.heap.page d) ∧ o ∉ onPage s.live (s.heap.page d)

/-- The allocator as its clients and the rest of the kernel see it. -/
structure Good (s : State) : Prop where
  inside : ∀ x ∈ s.live, x.1 % 4096 + x.2 ≤ 4096
  apart : s.live.Pairwise fun x y => x.1 + x.2 ≤ y.1 ∨ y.1 + y.2 ≤ x.1
  offDescs : ∀ x ∈ s.live, ∀ p ∈ s.heap.descPages, x.1 + x.2 ≤ p ∨ p + 4096 ≤ x.1
  pages : ∀ p, p ∈ s.heap.pages ↔ p ∈ s.heap.descPages ∨ ∃ x ∈ s.live, pageOf x.1 = p
  chains : ∃ chains free, (∀ i < 9, Chain (fun d => ptr (s.heap.next d)) (ptr (s.heap.chain i)) (chains i)) ∧
    Chain (fun d => ptr (s.heap.next d)) (ptr s.heap.freeDesc) free ∧
    (chained chains ++ free).Perm (s.heap.descPages.flatMap descsOf) ∧
    ∀ i < 9, ∀ d ∈ chains i, InOrder s i d
  drained : s.live = [] → (∀ p ∈ s.heap.pages, p ∈ s.heap.descPages) ∧
    ∃ free, Chain (fun d => ptr (s.heap.next d)) (ptr s.heap.freeDesc) free ∧
      free.Perm (s.heap.descPages.flatMap descsOf)

theorem live_nodup (I : Inv h live chains free) : (live.map Prod.fst).Nodup := by
  refine List.nodup_iff_count_le_one.mpr fun o => ?_
  by_cases ho : o ∈ live.map Prod.fst
  · obtain ⟨x, hx, rfl⟩ := List.mem_map.mp ho
    obtain ⟨i, hi, d, hd, hp, -⟩ := I.live x hx
    obtain ⟨fl, -, hperm⟩ := (I.bucket i hi d hd).objects
    have hnd : (onPage live (h.page d)).Nodup :=
      (List.nodup_append.mp (hperm.nodup_iff.mpr (cellRun_nodup (size_pos hi)))).2.1
    have hcount : (onPage live (h.page d)).count x.1 = (live.map Prod.fst).count x.1 :=
      List.count_filter (p := fun o => decide (o / 4096 * 4096 = h.page d)) (decide_eq_true hp)
    rw [← hcount]
    exact List.nodup_iff_count_le_one.mp hnd x.1
  · rw [List.count_eq_zero_of_not_mem ho]
    omega

theorem inOrder_of_bucket (B : Bucket s.heap s.live i d) (hi : i < 9) : InOrder s i d := by
  obtain ⟨hsz, ⟨fl, hfl, hperm⟩, hcount⟩ := B
  have hnd := List.nodup_append.mp (hperm.nodup_iff.mpr (cellRun_nodup (size_pos hi)))
  refine ⟨hsz, hcount, fl, hfl, hnd.1, fun o => ⟨fun ho => ?_, fun ⟨hc, hn⟩ => ?_⟩⟩
  · exact ⟨hperm.subset (List.mem_append_left _ ho), fun hm => hnd.2.2 o ho o hm rfl⟩
  · exact (List.mem_append.mp (hperm.symm.subset hc)).resolve_right hn

/-- Where an object of a client lies. -/
theorem live_inside (I : Inv h live chains free) {x : Nat × Nat} (hx : x ∈ live) :
    ∃ i < 9, ∃ d ∈ chains i, pageOf x.1 = h.page d ∧ h.page d % 4096 = 0 ∧ x.2 ≤ size i ∧
      x.1 ∈ cells (size i) (h.page d) ∧ h.page d ≤ x.1 ∧ x.1 + size i ≤ h.page d + 4096 := by
  obtain ⟨i, hi, d, hd, hp, hle⟩ := I.live x hx
  have hal := I.page_aligned hi hd
  have hcell := I.live_cell hi hd (Inv.mem_onPage hx hp)
  obtain ⟨h1, h2, -⟩ := mem_cells hi hal hcell
  exact ⟨i, hi, d, hd, hp, hal, hle, hcell, h1, h2⟩

theorem apart_of_inside {x y q r z w : Nat} (hq : q % 4096 = 0) (hr : r % 4096 = 0) (hne : q ≠ r)
    (hx : q ≤ x) (hx' : x + z ≤ q + 4096) (hy : r ≤ y) (hy' : y + w ≤ r + 4096) :
    x + z ≤ y ∨ y + w ≤ x := by
  omega

theorem good_of_ordered (O : Ordered s.heap s.live) : Good s := by
  obtain ⟨chains, free, I, U⟩ := O
  constructor
  · intro x hx
    obtain ⟨i, hi, d, hd, hp, hal, hle, -, h1, h2⟩ := live_inside I hx
    generalize s.heap.page d = q at hal h1 h2
    generalize size i = z at hle h2
    omega
  · refine (List.pairwise_map.mp (live_nodup I)).imp_of_mem fun {x y} hx hy hne => ?_
    obtain ⟨i, hi, d, hd, hp, hal, hle, hc, h1, h2⟩ := live_inside I hx
    obtain ⟨j, hj, e, he, hp', hal', hle', hc', h1', h2'⟩ := live_inside I hy
    by_cases hde : d = e
    · subst hde
      obtain rfl := I.chain_inj hi hj hd he
      exact (cells_apart hc hc' hne).imp (by omega) (by omega)
    · have hne : s.heap.page d ≠ s.heap.page e := fun heq => hde
        (I.page_inj (mem_chained.mpr ⟨i, hi, hd⟩) (mem_chained.mpr ⟨j, hj, he⟩) heq)
      exact (apart_of_inside hal hal' hne h1 h2 h1' h2').imp (by omega) (by omega)
  · intro x hx p hp
    obtain ⟨i, hi, d, hd, hpx, hal, hle, hc, h1, h2⟩ := live_inside I hx
    have hal' := (I.aligned p (I.descPage_mem hp)).1
    have hne : s.heap.page d ≠ p := fun heq => I.page_not_desc hi hd (heq ▸ hp)
    exact (apart_of_inside (w := 4096) hal hal' hne h1 h2 (Nat.le_refl _) (Nat.le_refl _)).imp
      (by omega) id
  · intro p
    refine ⟨U p, ?_⟩
    rintro (hp | ⟨x, hx, rfl⟩)
    · exact I.descPage_mem hp
    · obtain ⟨i, hi, d, hd, hpx, -⟩ := live_inside I hx
      rw [hpx]
      exact I.page_mem hi hd
  · exact ⟨chains, free, I.chain, I.freeChain, I.descs,
      fun i hi d hd => inOrder_of_bucket (I.bucket i hi d hd) hi⟩
  · intro hnil
    have hdesc (p : Nat) (hp : p ∈ s.heap.pages) : p ∈ s.heap.descPages := by
      rcases U p hp with hp | ⟨x, hx, -⟩
      · exact hp
      · rw [hnil] at hx
        cases hx
    have hnone : chained chains = [] := List.eq_nil_iff_forall_not_mem.mpr fun d hd => by
      obtain ⟨i, hi, hdi⟩ := mem_chained.mp hd
      exact I.page_not_desc hi hdi (hdesc _ (I.page_mem hi hdi))
    have hperm := I.descs
    rw [hnone, List.nil_append] at hperm
    exact ⟨hdesc, free, I.freeChain, hperm⟩

/-- Every state that clients reach is in order, and from it every call ends as it should or finds no
page. -/
theorem allocator_good (mem : Nat → Nat) (s : State)
    (h : Reach step (fun _ _ => True) (fun s => s = initial mem) s) :
    Good s ∧ ∀ e, Allowed s e →
      (∃ s', call s e = .ok s' ∧ Ends s e s') ∨
      ∃ len descPage bucketPage, e = .malloc len descPage bucketPage ∧
        OutOfMemory (call s e) descPage bucketPage := by
  have O := reach_ordered h
  refine ⟨good_of_ordered O, fun e ha => (call_spec O ha).imp_left ?_⟩
  rintro ⟨s', hok, -, hends⟩
  exact ⟨s', hok, hends⟩

/-- Objects of 100, 50 and 100 bytes, a store to the first; then the first is freed, and the second with its
page. -/
theorem allocator_good_free : ∃ s, s.live = [(8320, 100)] ∧ s.heap.pages = [8192, 4096] ∧
    Good s ∧ ∀ e, Allowed s e →
      (∃ s', call s e = .ok s' ∧ Ends s e s') ∨
      ∃ len descPage bucketPage, e = .malloc len descPage bucketPage ∧
        OutOfMemory (call s e) descPage bucketPage := by
  have hrun : (run step (initial fun _ => 0) [.malloc 100 4096 8192, .malloc 50 0 12288, .malloc 100 0 0,
      .write 8200 77, .free 8192 0, .free 12288 50]).map (fun s => (s.live, s.heap.pages)) =
      some ([(8320, 100)], [8192, 4096]) := by
    decide +kernel
  obtain ⟨s, hs, hv⟩ := Option.map_eq_some_iff.mp hrun
  obtain ⟨hlive, hpages⟩ := Prod.mk.inj hv
  exact ⟨s, hlive, hpages, allocator_good (fun _ => 0) s (.ofRun (fun _ _ => trivial) (.start rfl) hs)⟩

end Linux011.Malloc

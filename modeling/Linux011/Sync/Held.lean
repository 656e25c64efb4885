import Linux011.Sync.Steady

/-!
# Buffers that are held

`getblk` looks for a buffer with `b_count` 0 and nothing else takes one away, so a buffer that is held
keeps its block and is not emptied. `b_count` is an unsigned char: this is so as long as no count is
about to wrap.
-/

namespace Linux011.Sync

open Buffer

variable {ramdisk : Bool} {sync : Dev → Sys → Option Sys} {s s' u : Sys} {c c' d : Cache}
  {bh fuel : Nat} {dev : Dev} {block : Block}

/-- `k` more references do not make a count wrap. -/
def Few (k : Nat) (c : Cache) : Prop := ∀ q, (c.head q).count + k < 256

/-- The buffer is up to date, or a transfer is to be waited for. -/
def Loaded (c : Cache) (bh : Nat) : Prop := (c.head bh).uptodate = true ∨ (c.head bh).lock = true

/-- If the buffer is locked there is a request for it. -/
def Served (c : Cache) (bh : Nat) : Prop :=
  (c.head bh).lock = true → ∃ i r, c.request i = some r ∧ r.bh = bh

/-- The buffer keeps its block, and its contents if it has any. -/
structure Stays (c c' : Cache) (q : Nat) : Prop where
  dev : (c'.head q).dev = (c.head q).dev
  blocknr : (c'.head q).blocknr = (c.head q).blocknr
  loaded : Loaded c q → Loaded c' q

/-- A call that gives back what it takes. -/
structure Refs (c c' : Cache) : Prop where
  count : ∀ q, (c'.head q).count = (c.head q).count
  held : ∀ q, (c.head q).count ≠ 0 → Stays c c' q
  ring : ∀ q, q ∈ c'.freeList ↔ q ∈ c.freeList
  served : ∀ q, Served c q → Served c' q

/-- A call that brings a buffer. -/
structure Got (c c' : Cache) (bh : Nat) : Prop where
  count : ∀ q, (c'.head q).count = (c.head q).count + if q = bh then 1 else 0
  held : ∀ q, (c.head q).count ≠ 0 → Stays c c' q
  ring : ∀ q, q ∈ c'.freeList ↔ q ∈ c.freeList
  served : ∀ q, Served c q → Served c' q

theorem Loaded.uptodate (h : Loaded c bh) (hlock : (c.head bh).lock = false) :
    (c.head bh).uptodate = true :=
  h.resolve_right fun hl => Bool.noConfusion (hl.symm.trans hlock)

theorem Stays.refl (c : Cache) (q : Nat) : Stays c c q := ⟨rfl, rfl, id⟩

theorem Stays.trans {q : Nat} (h : Stays c c' q) (h' : Stays c' d q) : Stays c d q :=
  ⟨h'.dev.trans h.dev, h'.blocknr.trans h.blocknr, fun hl => h'.loaded (h.loaded hl)⟩

theorem Stays.is {q : Nat} (h : Stays c c' q) (his : (c.head q).Is dev block) :
    (c'.head q).Is dev block := ⟨h.dev.trans his.1, h.blocknr.trans his.2⟩

theorem Refs.refl (c : Cache) : Refs c c :=
  ⟨fun _ => rfl, fun q _ => .refl c q, fun _ => Iff.rfl, fun _ => id⟩

theorem Refs.trans (h : Refs c c') (h' : Refs c' d) : Refs c d where
  count := fun q => (h'.count q).trans (h.count q)
  held := fun q hq => (h.held q hq).trans (h'.held q (by rw [h.count]; exact hq))
  ring := fun q => (h'.ring q).trans (h.ring q)
  served := fun q hs => h'.served q (h.served q hs)

theorem Refs.few {k : Nat} (h : Refs c c') (hf : Few k c) : Few k c' := fun q => by
  rw [h.count]
  exact hf q

theorem Got.few {k : Nat} (h : Got c c' bh) (hf : Few (k + 1) c) : Few k c' := fun q => by
  have := hf q
  rw [h.count]
  split <;> omega

theorem Refs.got (h : Refs c c') (h' : Got c' d bh) : Got c d bh where
  count := fun q => by rw [h'.count, h.count]
  held := fun q hq => (h.held q hq).trans (h'.held q (by rw [h.count]; exact hq))
  ring := fun q => (h'.ring q).trans (h.ring q)
  served := fun q hs => h'.served q (h.served q hs)

theorem Got.pos (h : Got c c' bh) : (c'.head bh).count ≠ 0 := by
  rw [h.count, if_pos rfl]
  exact Nat.succ_ne_zero _

theorem Got.held_after (h : Got c c' bh) {q : Nat} (hq : (c.head q).count ≠ 0) :
    (c'.head q).count ≠ 0 := by
  rw [h.count]
  omega

theorem Got.refs (h : Got c c' bh) (h' : Refs c' d) : Got c d bh where
  count := fun q => by rw [h'.count, h.count]
  held := fun q hq => (h.held q hq).trans (h'.held q (h.held_after hq))
  ring := fun q => (h'.ring q).trans (h.ring q)
  served := fun q hs => h'.served q (h.served q hs)

/-- The flags and the identity of the buffers do not change when one is counted. -/
theorem count_stays (c : Cache) (q n q' : Nat) :
    Stays c (c.modify q fun h => { h with count := n }) q' ∧
      (((c.modify q fun h => { h with count := n }).head q').lock = (c.head q').lock) := by
  by_cases h : q' = q
  · subst h
    rw [modify_head]
    exact ⟨⟨by rw [modify_head], by rw [modify_head], fun hl => by rwa [Loaded, modify_head]⟩, rfl⟩
  · rw [modify_other _ _ h]
    exact ⟨⟨by rw [modify_other _ _ h], by rw [modify_other _ _ h],
      fun hl => by rwa [Loaded, modify_other _ _ h]⟩, rfl⟩

theorem Served.count {q' : Nat} (hs : Served c q') (q n : Nat) :
    Served (c.modify q fun h => { h with count := n }) q' := fun hl =>
  hs ((count_stays c q n q').2.symm.trans hl)

theorem hold_got (hf : Few 1 c) (bh : Nat) : Got c (c.hold bh) bh where
  count := fun q => by
    unfold Cache.hold
    by_cases h : q = bh
    · subst h
      rw [modify_head, if_pos rfl]
      have := hf q
      exact Nat.mod_eq_of_lt (by omega)
    · rw [modify_other _ _ h, if_neg h]
      rfl
  held := fun q _ => (count_stays c bh _ q).1
  ring := fun _ => Iff.rfl
  served := fun _ hs => hs.count bh _

/-- A reference is given back. -/
theorem Got.drop (h : Got c c' bh) (hf : Few 1 c) : Refs c (c'.drop bh) where
  count := fun q => by
    unfold Cache.drop
    by_cases hq : q = bh
    · subst hq
      rw [modify_head, h.count, if_pos rfl]
      have := hf q
      dsimp only
      omega
    · rw [modify_other _ _ hq, h.count, if_neg hq]
      rfl
  held := fun q hq => (h.held q hq).trans (count_stays c' bh _ q).1
  ring := fun q => h.ring q
  served := fun q hs => (h.served q hs).count bh _

/-! ## The drivers -/

theorem endRequest_stays (c : Cache) (i : Nat) (r : Request) (q : Nat) :
    Stays c (c.endRequest i r true) q := by
  have K := Keeps.endRequest c i r true
  refine ⟨K.dev q, K.blocknr q, fun hl => ?_⟩
  rw [Loaded, endRequest_head]
  split
  · exact Or.inl rfl
  · exact hl

theorem endRequest_refs {i : Nat} {r : Request} (hr : c.request i = some r) :
    Refs c (c.endRequest i r true) := by
  have K := Keeps.endRequest c i r true
  refine ⟨K.count, fun q _ => endRequest_stays c i r q, fun q => ?_, fun q hs hl => ?_⟩
  · rw [(endRequest_lists c i r).2]
  · rw [endRequest_head] at hl
    split at hl
    · cases hl
    · next hq =>
      obtain ⟨j, r', hj, rfl⟩ := hs hl
      refine ⟨j, r', ?_, rfl⟩
      have hji : j ≠ i := by
        rintro rfl
        rw [hr] at hj
        cases hj
        exact hq rfl
      rw [(endRequest_rest c i r).2.1, Function.update_of_ne hji, hj]

/-- The drivers leave the buffers their blocks, also those that nobody holds. -/
theorem finishAll_stays (c : Cache) (is : List Nat) (q : Nat) : Stays c (finishAll c is) q := by
  induction is generalizing c with
  | nil => exact .refl c q
  | cons i is ih =>
    have hfirst : Stays c (finish c i) q := by
      unfold finish
      cases c.request i with
      | none => exact .refl c q
      | some r => exact endRequest_stays c i r q
    exact hfirst.trans (ih _)

theorem finishAll_refs (c : Cache) (is : List Nat) : Refs c (finishAll c is) := by
  induction is generalizing c with
  | nil => exact .refl c
  | cons i is ih =>
    have hfirst : Refs c (finish c i) := by
      unfold finish
      cases hr : c.request i with
      | none => exact .refl c
      | some r => exact endRequest_refs hr
    exact hfirst.trans (ih _)

theorem sleepLoop_refs {p : Cache → Bool} {irq irq' : List (List Nat)}
    (h : sleepLoop p irq c = some (c', irq')) : Refs c c' ∧ p c' = false := by
  induction irq generalizing c with
  | nil =>
    unfold sleepLoop at h
    split at h
    · cases h
    · next hp =>
      cases h
      exact ⟨.refl _, Bool.not_eq_true _ ▸ hp⟩
  | cons is irq ih =>
    unfold sleepLoop at h
    split at h
    · obtain ⟨T, hp⟩ := ih h
      exact ⟨(finishAll_refs c is).trans T, hp⟩
    · next hp =>
      cases h
      exact ⟨.refl _, Bool.not_eq_true _ ▸ hp⟩

theorem sleepWhile_refs {p : Cache → Bool} (h : s.sleepWhile p = some s') :
    Refs s.cache s'.cache ∧ p s'.cache = false := by
  obtain ⟨⟨c, irq⟩, hr, rfl⟩ := Option.map_eq_some_iff.mp h
  exact sleepLoop_refs hr

theorem interrupt_refs (s : Sys) : Refs s.cache s.interrupt.cache := by
  unfold Sys.interrupt
  split
  · exact .refl _
  · exact finishAll_refs _ _

theorem interrupt_stays (s : Sys) (q : Nat) : Stays s.cache s.interrupt.cache q := by
  unfold Sys.interrupt
  split
  · exact .refl _ q
  · exact finishAll_stays _ _ q

theorem waitBufferUnlock_refs (h : waitBufferUnlock bh s = some s') :
    Refs s.cache s'.cache ∧ (s'.cache.head bh).lock = false := by
  obtain ⟨T, hl⟩ := sleepWhile_refs h
  exact ⟨(interrupt_refs s).trans T, hl⟩

/-! ## `ll_rw_blk.c` -/

/-- The flags of a buffer that is locked, and those of the others. -/
theorem lock_stays (c : Cache) (bh q : Nat) :
    Stays c (c.modify bh fun h => { h with lock := true }) q ∧
      ((c.modify bh fun h => { h with lock := true }).head q).count = (c.head q).count ∧
      (q ≠ bh → Served c q → Served (c.modify bh fun h => { h with lock := true }) q) := by
  by_cases h : q = bh
  · subst h
    rw [modify_head]
    exact ⟨⟨by rw [modify_head], by rw [modify_head], fun _ => Or.inr (by rw [modify_head])⟩, rfl,
      fun h => absurd rfl h⟩
  · refine ⟨⟨?_, ?_, fun hl => ?_⟩, ?_, fun _ hs hl => hs ?_⟩
    · rw [modify_other _ _ h]
    · rw [modify_other _ _ h]
    · rwa [Loaded, modify_other _ _ h]
    · rw [modify_other _ _ h]
    · rwa [modify_other _ _ h] at hl

theorem addRequest_stays {i : Nat} (cmd : Cmd) (bh q : Nat) (hfree : c.request i = none) :
    Stays c (c.addRequest i cmd bh) q ∧ (q ≠ bh → Served c q → Served (c.addRequest i cmd bh) q) ∧
      Served (c.addRequest i cmd bh) bh := by
  have K := Keeps.addRequest c i cmd bh
  have hreq : (c.addRequest i cmd bh).request =
      Function.update c.request i (some ⟨(c.head bh).dev, cmd, (c.head bh).blocknr, bh⟩) := rfl
  have hflags : ((c.addRequest i cmd bh).head q).uptodate = (c.head q).uptodate ∧
      ((c.addRequest i cmd bh).head q).lock = (c.head q).lock := by
    unfold Cache.addRequest
    by_cases h : q = bh
    · subst h
      rw [modify_head]
      exact ⟨rfl, rfl⟩
    · rw [modify_other _ _ h]
      exact ⟨rfl, rfl⟩
  refine ⟨⟨K.dev q, K.blocknr q, fun hl => ?_⟩, fun _ hs hl => ?_, fun _ =>
    ⟨i, ⟨(c.head bh).dev, cmd, (c.head bh).blocknr, bh⟩, ?_, rfl⟩⟩
  · rwa [Loaded, hflags.1, hflags.2]
  · obtain ⟨j, r, hj, hr⟩ := hs (hflags.2.symm.trans hl)
    refine ⟨j, r, ?_, hr⟩
    have hji : j ≠ i := by
      rintro rfl
      rw [hfree] at hj
      cases hj
    rw [hreq, Function.update_of_ne hji, hj]
  · rw [hreq, Function.update_self]

/-- A buffer that is locked gets its request. -/
theorem findRequest_refs {cmd : Cmd}
    (h : findRequest cmd bh { s with cache := s.cache.modify bh fun h => { h with lock := true } } =
      some s') :
    Refs s.cache s'.cache ∧ ((s.cache.head bh).count ≠ 0 → Loaded s'.cache bh) := by
  obtain ⟨u, hu, h⟩ := Option.bind_eq_some_iff.mp h
  obtain ⟨i, hi, rfl⟩ := Option.map_eq_some_iff.mp h
  obtain ⟨T, -⟩ := sleepWhile_refs hu
  have hfree := emptyRequest_free hi
  have hlock := lock_stays s.cache bh
  have K := Keeps.addRequest u.cache i cmd bh
  refine ⟨⟨fun q => ?_, fun q hq => ?_, fun q => T.ring q, fun q hs => ?_⟩,
    fun hq => ?_⟩
  · exact (K.count q).trans ((T.count q).trans (hlock q).2.1)
  · exact (hlock q).1.trans ((T.held q (by rw [(hlock q).2.1]; exact hq)).trans
      (addRequest_stays cmd bh q hfree).1)
  · by_cases h : q = bh
    · subst h
      exact (addRequest_stays cmd q q hfree).2.2
    · exact (addRequest_stays cmd bh q hfree).2.1 h (T.served q ((hlock q).2.2 h hs))
  · have hl : Loaded (s.cache.modify bh fun h => { h with lock := true }) bh :=
      Or.inr (by rw [modify_head])
    exact (addRequest_stays cmd bh bh hfree).1.loaded
      ((T.held bh (by rw [(hlock bh).2.1]; exact hq)).loaded hl)

theorem llRwBlock_refs {cmd : Cmd} (h : llRwBlock ramdisk cmd bh s = some s') :
    Refs s.cache s'.cache := by
  unfold llRwBlock at h
  split at h
  · obtain ⟨u, hu, h⟩ := Option.bind_eq_some_iff.mp h
    have T := (waitBufferUnlock_refs hu).1
    split at h
    · cases h
      exact T
    · exact T.trans (findRequest_refs h).1
  · cases h
    exact .refl _

/-- A buffer that is held and not up to date is read. -/
theorem llRwBlock_loaded (hd : hasDriver ramdisk (s.cache.head bh).dev = true)
    (hq : (s.cache.head bh).count ≠ 0) (h : llRwBlock ramdisk .read bh s = some s') :
    Loaded s'.cache bh := by
  unfold llRwBlock at h
  rw [if_pos hd] at h
  obtain ⟨u, hu, h⟩ := Option.bind_eq_some_iff.mp h
  have T := (waitBufferUnlock_refs hu).1
  split at h
  · next hcond =>
    cases h
    exact Or.inl (hcond.resolve_left fun hw => Cmd.noConfusion hw.1).2
  · exact (findRequest_refs h).2 (by rw [T.count]; exact hq)

theorem readAhead_refs (ramdisk : Bool) (bh : Nat) (s : Sys) :
    Refs s.cache (readAhead ramdisk bh s).cache := by
  unfold readAhead
  dsimp only
  split
  · exact .refl _
  · split
    · next i hi =>
      have hlock := lock_stays s.cache bh
      have hfree : s.cache.request i = none := emptyRequest_free hi
      have K := Keeps.addRequest (s.cache.modify bh fun h => { h with lock := true }) i .read bh
      have hadd := fun q => addRequest_stays (c := s.cache.modify bh fun h => { h with lock := true })
        .read bh q hfree
      refine ⟨fun q => (K.count q).trans (hlock q).2.1, fun q _ => (hlock q).1.trans (hadd q).1,
        fun _ => Iff.rfl, fun q hs => ?_⟩
      by_cases h : q = bh
      · subst h
        exact (hadd q).2.2
      · exact (hadd q).2.1 h ((hlock q).2.2 h hs)
    · exact .refl _

/-! ## `buffer.c` -/

theorem getHashTable_refs {found : Option Nat} (hf : Few 1 s.cache)
    (h : getHashTable fuel dev block s = some (found, s')) :
    (found = none → Refs s.cache s'.cache) ∧ ∀ bh, found = some bh → Got s.cache s'.cache bh := by
  induction fuel generalizing s with
  | zero => cases h
  | succ fuel ih =>
    unfold getHashTable at h
    split at h
    · cases h
      exact ⟨fun _ => .refl _, nofun⟩
    · next q _ =>
      obtain ⟨u, hu, h⟩ := Option.bind_eq_some_iff.mp h
      have G := (hold_got hf q).refs
        (waitBufferUnlock_refs (s := { s with cache := s.cache.hold q }) hu).1
      split at h
      · cases h
        exact ⟨nofun, fun bh hbh => by cases hbh; exact G⟩
      · have T := G.drop hf
        obtain ⟨hnone, hsome⟩ := ih (s := { u with cache := u.cache.drop q }) (T.few hf) h
        exact ⟨fun hn => T.trans (hnone hn), fun bh hbh => T.got (hsome bh hbh)⟩

/-- `getblk` gets a buffer that nobody holds. -/
theorem take_got (hcount : (c.head bh).count = 0) (hbh : bh ∈ c.freeList) (dev : Dev) (block : Block) :
    Got c (take c bh dev block) bh where
  count := fun q => by
    by_cases h : q = bh
    · subst h
      rw [take_head, hcount, if_pos rfl]
      rfl
    · rw [take_other _ _ _ h, if_neg h]
      rfl
  held := fun q hq => by
    have h : q ≠ bh := by
      rintro rfl
      exact hq hcount
    exact ⟨by rw [take_other _ _ _ h], by rw [take_other _ _ _ h],
      fun hl => by rwa [Loaded, take_other _ _ _ h]⟩
  ring := fun q => by
    rw [(take_lists c bh dev block).2]
    exact or_iff_left_of_imp fun h => h ▸ hbh
  served := fun q hs hl => by
    rw [(take_rest c bh dev block).1]
    refine hs ?_
    by_cases h : q = bh
    · subst h
      rw [take_head] at hl
      exact hl
    · rwa [take_other _ _ _ h] at hl

/-- What `getblk` relies on in `sync_dev`. -/
def GivesBack (sync : Dev → Sys → Option Sys) : Prop :=
  ∀ dev s s', Few 1 s.cache → sync dev s = some s' → Refs s.cache s'.cache

theorem cleanLoop_refs (hsync : GivesBack sync) (hf : Few 1 s.cache) {again : Bool}
    (h : cleanLoop sync bh fuel s = some (again, s')) : Refs s.cache s'.cache := by
  induction fuel generalizing s with
  | zero => cases h
  | succ fuel ih =>
    unfold cleanLoop at h
    split at h
    · obtain ⟨u, hu, h⟩ := Option.bind_eq_some_iff.mp h
      obtain ⟨v, hv, h⟩ := Option.bind_eq_some_iff.mp h
      have T := (hsync _ s u hf hu).trans (waitBufferUnlock_refs hv).1
      split at h
      · cases h
        exact T
      · exact T.trans (ih (T.few hf) h)
    · cases h
      exact .refl _

theorem getblk_got (hsync : GivesBack sync) (hf : Few 1 s.cache)
    (h : getblk sync fuel dev block s = some (bh, s')) : Got s.cache s'.cache bh := by
  refine getblk_rule (P := fun u => Refs s.cache u.cache) (R := fun q u => Got s.cache u.cache q)
    (fun u T => T.trans (interrupt_refs u)) (fun T hu => ?_)
    (fun T hv => T.trans (waitBufferUnlock_refs hv).1) (fun T hq hv hcount hw => ?_) (.refl _) h
  · obtain ⟨hnone, hsome⟩ := getHashTable_refs (T.few hf) hu
    exact ⟨fun h => T.trans (hnone h), fun q h => T.got (hsome q h)⟩
  · have Tv := (waitBufferUnlock_refs hv).1
    have T' := cleanLoop_refs hsync ((T.trans Tv).few hf) hw
    have Tw := (T.trans Tv).trans T'
    exact ⟨Tw, fun _ _ => Tw.got (take_got ((T'.count _).trans hcount)
      (((Tv.trans T').ring _).mpr hq) dev block)⟩

theorem brelse_refs (hf : Few 1 c) (h : Got c s.cache bh) (hb : brelse bh s = some s') :
    Refs c s'.cache := by
  obtain ⟨u, hu, hb⟩ := Option.bind_eq_some_iff.mp hb
  split at hb
  · cases hb
  · cases hb
    exact (h.refs (waitBufferUnlock_refs hu).1).drop hf

theorem bread_got (hsync : GivesBack sync) (hf : Few 1 s.cache)
    (h : bread ramdisk sync fuel dev block s = some (some bh, s')) : Got s.cache s'.cache bh := by
  obtain ⟨⟨q, u⟩, hu, h⟩ := Option.bind_eq_some_iff.mp h
  have G := getblk_got hsync hf hu
  dsimp only at h
  split at h
  · cases h
    exact G
  · obtain ⟨v, hv, h⟩ := Option.bind_eq_some_iff.mp h
    obtain ⟨w, hw, h⟩ := Option.bind_eq_some_iff.mp h
    have G := G.refs ((llRwBlock_refs hv).trans (waitBufferUnlock_refs hw).1)
    split at h
    · cases h
      exact G
    · obtain ⟨x, -, hx⟩ := Option.map_eq_some_iff.mp h
      cases hx

theorem aheadOf_refs {tmp : Nat} (hf : Few 1 c) (h : Got c s.cache tmp) :
    Refs c (aheadOf ramdisk tmp s).cache := by
  unfold aheadOf
  dsimp only
  split
  · exact h.drop hf
  · exact (h.refs (readAhead_refs ramdisk tmp s)).drop hf

theorem readAheads_refs (hsync : GivesBack sync) {rest : List Block} (hf : Few 1 s.cache)
    (h : readAheads ramdisk sync fuel dev rest s = some s') : Refs s.cache s'.cache := by
  induction rest generalizing s with
  | nil =>
    cases h
    exact .refl _
  | cons first rest ih =>
    rw [readAheads_cons] at h
    obtain ⟨⟨tmp, u⟩, hu, h⟩ := Option.bind_eq_some_iff.mp h
    have T : Refs s.cache (aheadOf ramdisk tmp u).cache := aheadOf_refs hf (getblk_got hsync hf hu)
    exact T.trans (ih (T.few hf) h)

/-- A client stores in a buffer. -/
theorem store_refs (c : Cache) (bh : Nat) (f : Data → Data) : Refs c (c.store bh f) := by
  have K := Keeps.store c bh f
  have hflags : ∀ q, ((c.store bh f).head q).uptodate = (c.head q).uptodate ∧
      ((c.store bh f).head q).lock = (c.head q).lock := fun q => by
    unfold Cache.store Cache.note
    by_cases h : q = bh
    · subst h
      rw [modify_head]
      exact ⟨rfl, rfl⟩
    · rw [modify_other _ _ h]
      exact ⟨rfl, rfl⟩
  refine ⟨K.count, fun q _ => ⟨K.dev q, K.blocknr q, fun hl => ?_⟩, fun _ => Iff.rfl,
    fun q hs hl => hs ((hflags q).2.symm.trans hl)⟩
  rwa [Loaded, (hflags q).1, (hflags q).2]

/-! ## `sync_dev` and `sys_sync` -/

theorem writeInode_refs (hsync : GivesBack sync) (hf : Few 1 s.cache) {i : Nat}
    (h : writeInode ramdisk sync fuel i s = some s') : Refs s.cache s'.cache := by
  unfold writeInode at h
  dsimp only at h
  split at h
  · cases h
  · split at h
    · cases h
      exact .refl _
    · split at h
      · cases h
      · obtain ⟨⟨found, u⟩, hu, h⟩ := Option.bind_eq_some_iff.mp h
        cases found with
        | none => cases h
        | some bh =>
          obtain ⟨v, hv, rfl⟩ := Option.map_eq_some_iff.mp h
          have G := bread_got (s := s.setInode i { s.inode i with lock := true }) hsync hf hu
          have T : Refs s.cache v.cache := brelse_refs hf (G.refs (store_refs u.cache bh _)) hv
          exact T

theorem syncInodes_refs (hsync : GivesBack sync) (hf : Few 1 s.cache)
    (h : syncInodes ramdisk sync fuel s = some s') : Refs s.cache s'.cache := by
  refine forEach_range (P := fun _ u => Refs s.cache u.cache) (fun k _ u u' T hstep => ?_) (.refl _) h
  split at hstep
  · cases hstep
  · split at hstep
    · exact T.trans (writeInode_refs hsync (T.few hf) hstep)
    · cases hstep
      exact T

theorem syncBuffers_refs (h : syncBuffers ramdisk dev s = some s') : Refs s.cache s'.cache := by
  refine forEach_range (P := fun _ u => Refs s.cache u.cache) (fun k _ u u' T hstep => ?_) (.refl _) h
  split at hstep
  · cases hstep
    exact T
  · obtain ⟨v, hv, hstep⟩ := Option.bind_eq_some_iff.mp hstep
    have T := T.trans (waitBufferUnlock_refs hv).1
    split at hstep
    · exact T.trans (llRwBlock_refs hstep)
    · cases hstep
      exact T

theorem syncDev_refs (fuel : Nat) : GivesBack (syncDev ramdisk fuel) := by
  induction fuel with
  | zero => exact fun _ _ _ _ h => (nomatch h)
  | succ fuel ih =>
    intro dev s s' hf h
    obtain ⟨u, hu, h⟩ := Option.bind_eq_some_iff.mp h
    obtain ⟨v, hv, h⟩ := Option.bind_eq_some_iff.mp h
    have T := syncBuffers_refs hu
    have T' := T.trans (syncInodes_refs ih (T.few hf) hv)
    exact T'.trans (syncBuffers_refs h)

theorem sysSync_refs (hf : Few 1 s.cache) (h : sysSync ramdisk fuel s = some s') :
    Refs s.cache s'.cache := by
  obtain ⟨u, hu, h⟩ := Option.bind_eq_some_iff.mp h
  refine (syncInodes_refs (syncDev_refs fuel) hf hu).trans (forEach_range
    (P := fun _ v => Refs u.cache v.cache) (fun k _ v v' T hstep => ?_) (.refl _) h)
  obtain ⟨w, hw, hstep⟩ := Option.bind_eq_some_iff.mp hstep
  have T := T.trans (waitBufferUnlock_refs hw).1
  split at hstep
  · exact T.trans (llRwBlock_refs hstep)
  · cases hstep
    exact T

/-! ## Room -/

/-- No inode is dirty or locked, and every lock of a buffer is the lock of a request. -/
structure Calm (s : Sys) : Prop where
  inode : ∀ i < 32, (s.inode i).dirt = false ∧ (s.inode i).lock = false
  served : ∀ q, Served s.cache q

theorem Calm.next (C : Calm s) (hin : InodesStored s s')
    (hs : ∀ q, Served s.cache q → Served s'.cache q) : Calm s' where
  inode := fun i hi => by
    rcases hin i with h | h <;> rw [h]
    · exact C.inode i hi
    · exact ⟨rfl, (C.inode i hi).2⟩
  served := fun q => hs q (C.served q)

/-- Some buffer is held by nobody. -/
def Spare (c : Cache) : Prop := ∃ q ∈ c.freeList, (c.head q).count = 0

/-- Two buffers are. -/
def TwoSpare (c : Cache) : Prop :=
  ∃ p q, p ≠ q ∧ (p ∈ c.freeList ∧ (c.head p).count = 0) ∧ q ∈ c.freeList ∧ (c.head q).count = 0

theorem Spare.next (h : Spare c) (hrefs : Refs c c') : Spare c' := by
  obtain ⟨q, hq, h0⟩ := h
  exact ⟨q, (hrefs.ring q).mpr hq, (hrefs.count q).trans h0⟩

theorem TwoSpare.one (h : TwoSpare c) : Spare c := by
  obtain ⟨p, -, -, hp, -⟩ := h
  exact ⟨p, hp⟩

theorem TwoSpare.next (h : TwoSpare c) (hrefs : Refs c c') : TwoSpare c' := by
  obtain ⟨p, q, hpq, ⟨hp, hp0⟩, hq, hq0⟩ := h
  exact ⟨p, q, hpq, ⟨(hrefs.ring p).mpr hp, (hrefs.count p).trans hp0⟩, (hrefs.ring q).mpr hq,
    (hrefs.count q).trans hq0⟩

/-- One of them is left when a buffer has been got. -/
theorem TwoSpare.got (h : TwoSpare c) (G : Got c c' bh) : Spare c' := by
  obtain ⟨p, q, hpq, ⟨hp, hp0⟩, hq, hq0⟩ := h
  have hother : ∀ r, r ∈ c.freeList → (c.head r).count = 0 → r ≠ bh → Spare c' := fun r hr h0 hne =>
    ⟨r, (G.ring r).mpr hr, by rw [G.count, if_neg hne, h0]⟩
  by_cases h : p = bh
  · exact hother q hq hq0 fun hqb => hpq (h.trans hqb.symm)
  · exact hother p hp hp0 h

/-- What a call of `block_read` needs to return. -/
structure Roomy (s : Sys) : Prop extends Calm s where
  few : Few 2 s.cache
  spare : TwoSpare s.cache

theorem Roomy.next (W : Roomy s) (hin : InodesStored s s') (hrefs : Refs s.cache s'.cache) : Roomy s' :=
  ⟨W.toCalm.next hin hrefs.served, hrefs.few W.few, W.spare.next hrefs⟩

end Linux011.Sync

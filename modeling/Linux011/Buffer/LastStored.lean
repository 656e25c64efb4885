import Linux011.Buffer.Coherence

/-!
# What a reader sees

`Coherent` is kept by every event, under two conditions. The disk makes no errors; and no write
request is queued for a buffer into which `file_write` is still copying. The second condition is
not checked anywhere: `file_write` sets `b_dirt` before it copies, the copy can sleep in a page
fault, and `add_request` clears `b_dirt` meanwhile. The bytes that come after are in a buffer that
nobody writes back.

The clients that change a block and set `b_dirt` without sleeping in between need the first
condition only.
-/

namespace Linux011.Buffer

variable {ι : Type} [DecidableEq ι] [Fintype ι] {s s' : Sys ι} {t : ι} {f : Frame}
  {rest fs : List Frame} {c c' : Cache} {ramdisk : Bool}

/-! ## Every event keeps the contents -/

/-- No request fails. -/
def Faultless (e : Event ι) : Prop := ∀ i, e ≠ .endRequest i false

/-- No write request is queued for a buffer while `file_write` has bytes to copy into it. -/
def Careful (s : Sys ι) (e : Event ι) : Prop :=
  ∀ t x ahead bh, e = .run t x → (s.stack t).head? = some (.findRequest ⟨.write, ahead⟩ bh) →
    (emptyRequest s.cache (requestLimit .write)).isSome →
    ∀ u dev block off chunk pos more, .copy dev block bh off chunk pos more ∈ s.stack u → chunk = []

omit [Fintype ι] in
/-- One new frame on top of the rest. -/
theorem mem_push (hf : s.stack t = f :: rest) {cur : Option ι} {g p : Frame} {u : ι}
    (h : p ∈ (s.goto t c ([g] ++ rest) cur).stack u) : p ∈ s.stack u ∨ (u = t ∧ p = g) := by
  rcases mem_goto h with ⟨hu, hp⟩ | ⟨-, hp⟩
  · rcases List.mem_append.mp hp with hp | hp
    · exact Or.inr ⟨hu, List.mem_singleton.mp hp⟩
    · rw [hu, hf]
      exact Or.inl (List.mem_cons_of_mem _ hp)
  · exact Or.inl hp

omit [Fintype ι] in
/-- The frames that own something were in the stack before, when only the top frame goes. -/
theorem OldFrames.pop (hf : s.stack t = f :: rest) (cur : Option ι) :
    OldFrames s (s.goto t c ([] ++ rest) cur) :=
  OldFrames.goto hf (fun _ h => absurd h List.not_mem_nil) cur

/-- A task that has left `make_request` is not in it any more. -/
theorem Inv.popped (I : Inv s) (hf : s.stack t = f :: rest) (cur : Option ι) (rw : Rw) (bh : Nat) :
    .findRequest rw bh ∉ (s.goto t c ([] ++ rest) cur).stack t := by
  intro h
  rcases mem_goto h with ⟨-, h⟩ | ⟨h, -⟩
  · have := I.parked t f rest hf _ h
    cases this
  · exact h rfl

theorem Op.frames_own (op : Op) : ∀ g ∈ op.frames, g.owns = false := by
  cases op with
  | sync =>
    intro g hg
    rcases List.mem_cons.mp hg with rfl | hg
    · rfl
    · rw [List.mem_singleton.mp hg]
      rfl
  | _ =>
    intro g hg
    rw [List.mem_singleton.mp hg]
    rfl

/-- One instruction keeps the contents. -/
theorem runTask_coherent (I : Inv s) (D : Coherent s) {x : Choice}
    (hcare : Careful s (.run t x)) (h : runTask ramdisk s t x = some s') : Coherent s' := by
  unfold runTask at h
  cases hf : s.stack t with
  | nil =>
    rw [hf] at h
    cases h
  | cons f rest =>
    rw [hf] at h
    have hmem : f ∈ s.stack t := by rw [hf]; exact List.mem_cons_self
    have E := exec_change ramdisk s.cache f x
    dsimp only at h
    generalize exec ramdisk s.cache x f = o at h E
    cases E with
    | next frames =>
      cases h
      exact D.same (.refl _) (fun _ => rfl) (.goto hf frames _) fun u r hr _ => Or.inl hr
    | @sleep g frame =>
      cases h
      refine D.same (.refl _) (fun _ => rfl) (.goto hf (fun g' hg' ho => ?_) _) fun u r hr _ =>
        Or.inl hr
      obtain rfl := List.mem_singleton.mp hg'
      exact frame ho
    | @count fs bh g frames =>
      cases h
      refine D.same (.modify s.cache bh (fun h => { h with count := g h })
        fun _ => ⟨rfl, rfl, rfl, rfl, rfl⟩) (fun q => ?_) (.goto hf (fun g hg ho => ?_) _)
        fun u r hr _ => Or.inl hr
      · have := congrArg Head.lock (modify_flag s.cache bh (fun h => { h with count := g h }) q)
        exact this.trans (by split <;> rfl)
      · rw [frames g hg] at ho
        cases ho
    | take frame =>
      cases h
      exact D.take I (by rw [hf, frame])
    | @store bh g uptodate =>
      cases h
      refine D.write I (.store s.cache bh g uptodate) (Or.inl uptodate) rfl fun u p ho hp =>
        Or.inl ?_
      exact OldFrames.goto hf (fun g hg ho => by rw [List.mem_singleton.mp hg] at ho; cases ho) _ u
        p ho hp
    | @clear dev block bh frame =>
      cases h
      refine D.write I (.clear s.cache bh) (Or.inr ?_) rfl fun u p ho hp => Or.inl ?_
      · subst frame
        exact (I.critical t _ rest hf rfl).2
      · exact OldFrames.goto hf (fun g hg ho => by rw [List.mem_singleton.mp hg] at ho; cases ho) _
          u p ho hp
    | @mark dev block bh off pos chunk more uptodate =>
      cases h
      refine D.write I (.mark D uptodate) (Or.inl uptodate) rfl fun u p _ hp =>
        (mem_push hf hp).imp id fun h => ⟨dev, block, off, chunk, pos, more, h.2⟩
    | @put dev block bh off pos byte chunk more frame =>
      cases h
      subst frame
      obtain ⟨hu, hd⟩ := D.copying t dev block bh off (byte :: chunk) pos more hmem
      refine D.write I (.putByte s.cache bh off byte hu (hd (List.cons_ne_nil _ _))) (Or.inl hu) rfl
        fun u p _ hp =>
        (mem_push hf hp).imp id fun h => ⟨dev, block, off + 1, chunk, pos, more, h.2⟩
    | @lock rw bh unlocked read write =>
      cases h
      refine D.lock (t := t) unlocked read write rfl rfl fun u p _ hp => mem_push hf hp
    | @unlock rw bh frame =>
      cases h
      subst frame
      exact D.unlock hmem rfl rfl (.pop hf _) fun rw' => I.popped hf _ rw' bh
    | @request rw bh i frame find =>
      cases h
      subst frame
      refine D.enqueue hmem (emptyRequest_free find) rfl rfl (.pop hf _)
        (fun rw' => I.popped hf _ rw' bh) fun hcmd => ?_
      obtain ⟨cmd, ahead⟩ := rw
      obtain rfl : cmd = .write := hcmd
      exact hcare t x ahead bh rfl (by rw [hf]; rfl) (by rw [find]; rfl)
    | @hand r uptodate =>
      cases h
      refine D.same (.refl _) (fun _ => rfl) (OldFrames.pop (c := s.cache) hf (some t))
        fun u q hq hread => ?_
      dsimp only at hq
      by_cases hu : u = t
      · subst hu
        rw [Function.update_self] at hq
        rcases List.mem_cons.mp hq with rfl | hq
        · exact Or.inr (uptodate hread)
        · exact Or.inl hq
      · rw [Function.update_of_ne hu] at hq
        exact Or.inl hq
    | panic => cases h

/-- Every event keeps the contents. -/
theorem step_coherent (I : Inv s) (D : Coherent s) {e : Event ι} (hfault : Faultless e)
    (hcare : Careful s e) (h : step ramdisk s e = some s') : Coherent s' := by
  cases e with
  | resume t =>
    simp only [step] at h
    split at h
    · cases h
      exact D.same (.refl _) (fun _ => rfl) (fun _ _ _ hg => hg) fun u r hr _ => Or.inl hr
    · cases h
  | leave t =>
    simp only [step] at h
    split at h
    · cases h
      exact D.same (.refl _) (fun _ => rfl) (fun _ _ _ hg => hg) fun u r hr _ => Or.inl hr
    · cases h
  | call t op =>
    simp only [step] at h
    split at h
    · cases h
      refine D.same (.refl _) (fun _ => rfl) (fun u g ho hg => ?_) fun u r hr _ => Or.inl hr
      rcases mem_goto hg with ⟨-, hg⟩ | ⟨-, hg⟩
      · rw [op.frames_own g hg] at ho
        cases ho
      · exact hg
    · cases h
  | brelse t r =>
    simp only [step] at h
    split at h
    · next hc =>
      cases h
      refine D.same (.refl _) (fun _ => rfl) (fun u g ho hg => ?_) fun u q hq _ => Or.inl ?_
      · have hg : g ∈ (s.goto t s.cache [.brelse r.bh] (some t)).stack u := hg
        rcases mem_goto hg with ⟨-, hg⟩ | ⟨-, hg⟩
        · rw [List.mem_singleton.mp hg] at ho
          cases ho
        · exact hg
      · dsimp only at hq
        by_cases hu : u = t
        · subst hu
          rw [Function.update_self] at hq
          exact List.mem_of_mem_erase hq
        · rw [Function.update_of_ne hu] at hq
          exact hq
    · cases h
  | store t r g =>
    simp only [step] at h
    split at h
    · next hc =>
      cases h
      have hu := D.read t r hc.2.2.1 hc.2.2.2
      exact D.write I (.store s.cache r.bh g hu) (Or.inl hu) rfl fun _ _ _ hp => Or.inl hp
    · cases h
  | run t x =>
    simp only [step] at h
    split at h
    · exact runTask_coherent I D hcare h
    · cases h
  | endRequest i ok =>
    simp only [step] at h
    obtain ⟨r, hr, rfl⟩ := Option.map_eq_some_iff.mp h
    cases ok with
    | false => exact absurd rfl (hfault i)
    | true => exact D.endRequest I hr

omit [DecidableEq ι] [Fintype ι] in
theorem init_coherent (nr : Nat) (disk : Dev → Block → Data) : Coherent (Sys.init ι nr disk) :=
  ⟨⟨nofun, nofun, nofun, nofun⟩, ⟨nofun, nofun, fun _ _ _ => Or.inl rfl, nofun, nofun⟩⟩

omit [DecidableEq ι] in
/-- A client that has read a block sees what was stored last. -/
theorem Coherent.held_stored (D : Coherent s) (I : Inv s) {r : Ref} (hr : r ∈ s.held t)
    (hread : r.read = true) (h0 : r.dev ≠ 0) :
    (s.cache.head r.bh).data = s.cache.stored r.dev r.block := by
  obtain ⟨hd, hb⟩ := I.held t r hr
  rw [← hd] at h0
  rw [← hd, ← hb]
  exact D.data r.bh (D.read t r hr hread) h0

omit [DecidableEq ι] [Fintype ι] in
/-- What was stored last is on the disk, or in a buffer that will be written. -/
theorem Coherent.kept (D : Coherent s) {dev : Dev} {block : Block} (h0 : dev ≠ 0) :
    s.cache.disk dev block = s.cache.stored dev block ∨
      ∃ bh, (s.cache.head bh).Is dev block ∧ (s.cache.head bh).uptodate = true ∧
        (s.cache.head bh).data = s.cache.stored dev block ∧
        ((s.cache.head bh).dirt = true ∨ s.cache.Writing bh) := by
  refine (D.disk dev block h0).imp id ?_
  rintro ⟨bh, his, hu, hw⟩
  have hdata := D.data bh hu (his.1.symm ▸ h0)
  rw [his.1, his.2] at hdata
  exact ⟨bh, his, hu, hdata, hw⟩

/-! ## Clients that do not sleep while they change a block -/

/-- The buffer is not looked for by `file_write`. -/
def Caller.plain : Caller → Bool
  | .fileWrite .. => false
  | _ => true

/-- No part of `file_write`. -/
def Frame.plain : Frame → Bool
  | .hash k _ _ => k.plain
  | .hashWait k _ _ _ => k.plain
  | .scan k _ _ => k.plain
  | .victim k _ _ _ => k.plain
  | .clean k _ _ _ => k.plain
  | .recheck k _ _ _ => k.plain
  | .got k _ _ _ => k.plain
  | .reading k _ _ _ => k.plain
  | .fileWrite .. => false
  | .copy .. => false
  | _ => true

/-- The frames that take the place of one. -/
def Outcome.Plain : Outcome → Prop
  | .next _ fs => ∀ g ∈ fs, g.plain = true
  | .sleep _ fs => ∀ g ∈ fs, g.plain = true
  | _ => True

theorem plain_one {g : Frame} (h : g.plain = true) : ∀ p ∈ [g], p.plain = true := by
  intro p hp
  rw [List.mem_singleton.mp hp]
  exact h

theorem plain_two {g g' : Frame} (h : g.plain = true) (h' : g'.plain = true) :
    ∀ p ∈ [g, g'], p.plain = true := by
  intro p hp
  rcases List.mem_cons.mp hp with rfl | hp
  · exact h
  · exact plain_one h' p hp

theorem ready_plain {k : Caller} {dev : Dev} {block : Block} {bh : Nat} (h : k.plain = true) :
    (ready c k dev block bh).Plain := by
  cases k with
  | update g => exact plain_one rfl
  | fileWrite off chunk pos more => cases h
  | _ => trivial

theorem gotBuffer_plain {k : Caller} {dev : Dev} {block : Block} {bh : Nat} (h : k.plain = true) :
    (gotBuffer c k dev block bh).Plain := by
  have hready : (if (c.head bh).uptodate then ready c k dev block bh
      else .next c [.llRwBlock ⟨.read, false⟩ bh, .reading k dev block bh]).Plain := by
    split
    · exact ready_plain h
    · exact plain_two rfl h
  cases k with
  | breada more =>
    simp only [gotBuffer]
    split
    · exact plain_one rfl
    · exact plain_two rfl rfl
  | ahead =>
    simp only [gotBuffer]
    split
    · exact plain_one rfl
    · exact plain_two rfl rfl
  | page more bhs =>
    simp only [gotBuffer]
    split
    · exact plain_one rfl
    · exact plain_two rfl rfl
  | newBlock =>
    simp only [gotBuffer]
    split
    · trivial
    · exact plain_one rfl
  | getHashTable => trivial
  | getblk => trivial
  | _ => exact hready

/-- What is not part of `file_write` does not become part of it. -/
theorem exec_plain (ramdisk : Bool) (c : Cache) (x : Choice) (h : f.plain = true) :
    (exec ramdisk c x f).Plain := by
  cases f with
  | hash k dev block =>
    simp only [exec]
    cases findBuffer c dev block with
    | some bh => exact plain_one h
    | none =>
      cases k with
      | getHashTable => exact fun _ hp => absurd hp List.not_mem_nil
      | _ => exact plain_one h
  | hashWait k dev block bh =>
    simp only [exec]
    split
    · exact plain_one h
    · split
      · exact plain_one h
      · exact plain_one h
  | scan k dev block =>
    simp only [exec]
    split
    · exact plain_one h
    · exact plain_one h
  | victim k dev block bh =>
    simp only [exec]
    split
    · exact plain_one h
    · split
      · exact plain_one h
      · exact plain_one h
  | clean k dev block bh =>
    simp only [exec]
    split
    · exact plain_two rfl h
    · exact plain_one h
  | recheck k dev block bh =>
    simp only [exec]
    split
    · exact plain_one h
    · exact plain_one h
  | got k dev block bh => exact gotBuffer_plain h
  | reading k dev block bh =>
    simp only [exec]
    split
    · exact plain_one h
    · split
      · exact ready_plain h
      · cases k with
        | update g => trivial
        | _ => exact plain_one rfl
  | aheads dev block bh more =>
    cases more with
    | nil => exact plain_one rfl
    | cons first more => exact plain_two rfl rfl
  | drop bh => exact fun _ hp => absurd hp List.not_mem_nil
  | pageNext dev more bhs =>
    cases more with
    | nil => exact plain_one rfl
    | cons b more =>
      simp only [exec]
      split
      · exact plain_one rfl
      · exact plain_one rfl
  | pageCopy bhs =>
    cases bhs with
    | nil => exact fun _ hp => absurd hp List.not_mem_nil
    | cons bh bhs =>
      simp only [exec]
      split
      · exact plain_one rfl
      · exact plain_two rfl rfl
  | llRwBlock rw bh =>
    simp only [exec]
    split
    · exact fun _ hp => absurd hp List.not_mem_nil
    · exact plain_one rfl
  | lockBuffer rw bh =>
    simp only [exec]
    split
    · exact plain_one rfl
    · split
      · exact fun _ hp => absurd hp List.not_mem_nil
      · exact plain_one rfl
  | findRequest rw bh =>
    simp only [exec]
    split
    · exact fun _ hp => absurd hp List.not_mem_nil
    · split
      · exact fun _ hp => absurd hp List.not_mem_nil
      · exact plain_one rfl
  | brelse bh =>
    simp only [exec]
    split
    · exact plain_one rfl
    · split
      · trivial
      · exact fun _ hp => absurd hp List.not_mem_nil
  | syncDev dev second i =>
    simp only [exec]
    split
    · split
      · exact plain_one rfl
      · exact plain_one rfl
    · split
      · exact fun _ hp => absurd hp List.not_mem_nil
      · exact plain_two rfl rfl
  | syncWait dev second i =>
    simp only [exec]
    split
    · exact plain_one rfl
    · split
      · exact plain_two rfl rfl
      · exact plain_one rfl
  | syncAll i =>
    simp only [exec]
    split
    · split
      · exact plain_one rfl
      · split
        · exact plain_two rfl rfl
        · exact plain_one rfl
    · exact fun _ hp => absurd hp List.not_mem_nil
  | syncInodes =>
    cases x with
    | sleep => exact plain_one rfl
    | update dev block g => exact plain_two rfl rfl
    | _ => exact fun _ hp => absurd hp List.not_mem_nil
  | fileWrite dev pos bytes => cases h
  | copy dev block bh off chunk pos more => cases h

/-- No call of `file_write`. -/
def NoFileWrite (e : Event ι) : Prop := ∀ t dev pos bytes, e ≠ .call t (.fileWrite dev pos bytes)

/-- No task is in `file_write`. -/
def Plain (s : Sys ι) : Prop := ∀ t, ∀ f ∈ s.stack t, f.plain = true

omit [Fintype ι] in
theorem step_plain (P : Plain s) {e : Event ι} (hno : NoFileWrite e)
    (h : step ramdisk s e = some s') : Plain s' := by
  have hgoto : ∀ {t} c {fs} cur, (∀ f ∈ fs, f.plain = true) → Plain (s.goto t c fs cur) := by
    intro t c fs cur hfs u f hf
    rcases mem_goto hf with ⟨-, hf⟩ | ⟨-, hf⟩
    · exact hfs f hf
    · exact P u f hf
  cases e with
  | call t op =>
    simp only [step] at h
    split at h
    · cases h
      cases op with
      | fileWrite dev pos bytes => exact absurd rfl (hno t dev pos bytes)
      | sync => exact hgoto _ _ (plain_two rfl rfl)
      | _ => exact hgoto _ _ (plain_one rfl)
    · cases h
  | brelse t r =>
    simp only [step] at h
    split at h
    · cases h
      exact hgoto s.cache (some t) (plain_one rfl)
    · cases h
  | run t x =>
    simp only [step] at h
    split at h
    · unfold runTask at h
      cases hf : s.stack t with
      | nil =>
        rw [hf] at h
        cases h
      | cons f rest =>
        rw [hf] at h
        have hplain : ∀ g ∈ f :: rest, g.plain = true := hf ▸ P t
        have E := exec_plain ramdisk s.cache x (hplain f List.mem_cons_self)
        have hrest : ∀ g ∈ rest, g.plain = true := fun g hg =>
          hplain g (List.mem_cons_of_mem _ hg)
        dsimp only at h
        generalize exec ramdisk s.cache x f = o at h E
        cases o with
        | next c fs =>
          cases h
          exact hgoto _ _ fun g hg => (List.mem_append.mp hg).elim (E g) (hrest g)
        | sleep c fs =>
          cases h
          exact hgoto _ _ fun g hg => (List.mem_append.mp hg).elim (E g) (hrest g)
        | hand c r =>
          cases h
          exact hgoto c (some t) hrest
        | panic => cases h
    · cases h
  | endRequest i ok =>
    simp only [step] at h
    obtain ⟨r, -, rfl⟩ := Option.map_eq_some_iff.mp h
    exact P
  | _ =>
    simp only [step] at h
    split at h
    · cases h
      exact P
    · cases h

omit [DecidableEq ι] [Fintype ι] in
/-- Without `file_write` every step is careful. -/
theorem Plain.careful (P : Plain s) (e : Event ι) : Careful s e := by
  intro _ _ _ _ _ _ _ u dev block off chunk pos more hg
  exact absurd (P u _ hg) Bool.noConfusion

/-! ## The results -/

/-- CACHE COHERENCE. The clients change blocks by `bread` or `new_block`, an update that sets
`b_dirt`, and `brelse`; requests are finished at any time, without error. A buffer from `bread` has
the contents stored last, or those of the initial disk; and what the disk does not have yet is in an
up-to-date buffer that is dirty or has a write request in the queue. -/
theorem bread_last_stored {nr : Nat} {disk : Dev → Block → Data}
    (h : CacheReach ramdisk (fun s e => FewRefs ramdisk s e ∧ Faultless e ∧ NoFileWrite e) nr disk
      s) :
    (∀ t, ∀ r ∈ s.held t, r.read = true → r.dev ≠ 0 →
      (s.cache.head r.bh).data = s.cache.stored r.dev r.block) ∧
    ∀ dev block, dev ≠ 0 → s.cache.disk dev block = s.cache.stored dev block ∨
      ∃ bh, (s.cache.head bh).Is dev block ∧ (s.cache.head bh).uptodate = true ∧
        (s.cache.head bh).data = s.cache.stored dev block ∧
        ((s.cache.head bh).dirt = true ∨ s.cache.Writing bh) := by
  obtain ⟨I, D, -⟩ := Lib.Reach.invariant (I := fun s => Inv s ∧ Coherent s ∧ Plain s)
    (fun _ h0 => h0 ▸ ⟨init_inv nr disk, init_coherent nr disk, nofun⟩)
    (fun s e s' ⟨I, D, P⟩ ⟨hfew, hfault, hno⟩ hs =>
      ⟨step_inv I hfew hs, step_coherent I D hfault (P.careful e) hs, step_plain P hno hs⟩) h
  exact ⟨fun t r hr hread h0 => D.held_stored I hr hread h0, fun dev block h0 => D.kept h0⟩

/-- The check of a closed run: few references, and no error. -/
def faultlessCheck (e : Event ι) (s' : Sys ι) : Bool :=
  decide (s'.total < 256) && match e with
    | .endRequest _ ok => ok
    | _ => true

theorem faultless_of_check {e : Event ι} (hs : step ramdisk s e = some s')
    (h : faultlessCheck e s' = true) : FewRefs ramdisk s e ∧ Faultless e := by
  obtain ⟨hfew, h⟩ := Bool.and_eq_true_iff.mp h
  refine ⟨.of_total hs (of_decide_eq_true hfew), ?_⟩
  rintro i rfl
  cases h

/-- The same, without `file_write`. -/
def plainCheck (e : Event ι) (s' : Sys ι) : Bool :=
  faultlessCheck e s' && match e with
    | .call _ (.fileWrite ..) => false
    | _ => true

theorem plain_of_check {e : Event ι} (hs : step ramdisk s e = some s')
    (h : plainCheck e s' = true) : FewRefs ramdisk s e ∧ Faultless e ∧ NoFileWrite e := by
  obtain ⟨hfault, h⟩ := Bool.and_eq_true_iff.mp h
  obtain ⟨hfew, hfault⟩ := faultless_of_check hs hfault
  refine ⟨hfew, hfault, ?_⟩
  rintro t dev pos bytes rfl
  cases h

/-- `bread` of a block by task 0, up to the end of the read request. -/
def breadEvents (block : Block) : List (Event (Fin 2)) :=
  [.call 0 (.bread 0x301 block)] ++ List.replicate 10 (.run 0 .done) ++
    [.endRequest 31 true, .resume 0, .run 0 .done]

/-- Task 0 stores a byte in block 5 and releases the buffer; the only buffer is written back and
taken for block 6, and block 5 is read again. -/
def rereadRun : List (Event (Fin 2)) :=
  [.resume 0] ++ breadEvents 5 ++
    [.store 0 ⟨0, 0x301, 5, true⟩ fun data => Function.update data 3 7,
      .brelse 0 ⟨0, 0x301, 5, true⟩, .run 0 .done] ++
    [.call 0 .sync] ++ List.replicate 6 (.run 0 .done) ++ [.endRequest 20 true] ++
    breadEvents 6 ++ [.brelse 0 ⟨0, 0x301, 6, true⟩, .run 0 .done] ++ breadEvents 5

/-- The byte stored before the eviction is read back. -/
theorem bread_last_stored_reread : ∃ s : Sys (Fin 2), s.held 0 = [⟨0, 0x301, 5, true⟩] ∧
    s.cache.stored 0x301 5 3 = 7 ∧ (s.cache.head 0).data 3 = 7 := by
  have hrun : (Lib.run (fun s e => (step false s e).filter (plainCheck e))
      (Sys.init (Fin 2) 1 fun _ _ _ => 0) rereadRun).map
        (fun s => (s.held 0, s.cache.stored 0x301 5 3)) = some ([⟨0, 0x301, 5, true⟩], 7) := by
    decide +kernel
  obtain ⟨s, hs, heq⟩ := Option.map_eq_some_iff.mp hrun
  obtain ⟨hheld, hstored⟩ := Prod.mk.inj heq
  have hreach : CacheReach false (fun s e => FewRefs false s e ∧ Faultless e ∧ NoFileWrite e) 1
      (fun _ _ _ => 0) s :=
    Lib.Reach.ofChecked (fun _ e _ hs hc => plain_of_check hs hc) (.start rfl) hs
  have hdata := (bread_last_stored hreach).1 0 ⟨0, 0x301, 5, true⟩
    (by rw [hheld]; exact List.mem_cons_self) rfl (by decide)
  exact ⟨s, hheld, hstored, (congrFun hdata 3).trans hstored⟩

/-- WRITES AND SYNC. As long as no write request is queued for a buffer between the point where
`file_write` sets `b_dirt` and its last byte, what was stored last is on the disk, or in an
up-to-date buffer that is dirty or has a write request in the queue; and a reader gets it. -/
theorem file_write_kept {nr : Nat} {disk : Dev → Block → Data}
    (h : CacheReach ramdisk (fun s e => FewRefs ramdisk s e ∧ Faultless e ∧ Careful s e) nr disk s) :
    (∀ dev block, dev ≠ 0 → s.cache.disk dev block = s.cache.stored dev block ∨
      ∃ bh, (s.cache.head bh).Is dev block ∧ (s.cache.head bh).uptodate = true ∧
        (s.cache.head bh).data = s.cache.stored dev block ∧
        ((s.cache.head bh).dirt = true ∨ s.cache.Writing bh)) ∧
    ∀ t, ∀ r ∈ s.held t, r.read = true → r.dev ≠ 0 →
      (s.cache.head r.bh).data = s.cache.stored r.dev r.block := by
  obtain ⟨I, D⟩ := Lib.Reach.invariant (I := fun s => Inv s ∧ Coherent s)
    (fun _ h0 => h0 ▸ ⟨init_inv nr disk, init_coherent nr disk⟩)
    (fun s e s' ⟨I, D⟩ ⟨hfew, hfault, hcare⟩ hs =>
      ⟨step_inv I hfew hs, step_coherent I D hfault hcare hs⟩) h
  exact ⟨fun dev block h0 => D.kept h0, fun t r hr hread h0 => D.held_stored I hr hread h0⟩

/-- Task 0 writes two bytes to block 7. -/
def fileWriteStart : List (Event (Fin 2)) :=
  [.resume 0, .call 0 (.fileWrite 0x301 0 [1, 2]), .run 0 (.zone 7)] ++
    List.replicate 10 (.run 0 .done) ++ [.endRequest 31 true, .resume 0] ++
    List.replicate 2 (.run 0 .done)

/-- Task 0 copies the second byte and comes back from `file_write`; it reads the block again after
another one has taken its buffer. -/
def fileWriteEnd : List (Event (Fin 2)) :=
  List.replicate 4 (.run 0 .done) ++
    breadEvents 8 ++ [.brelse 0 ⟨0, 0x301, 8, true⟩, .run 0 .done] ++ breadEvents 7

/-- Task 0 sleeps in a page fault after its first byte, and `sys_sync` of task 1 writes the block. -/
def syncInCopy : List (Event (Fin 2)) :=
  fileWriteStart ++ [.run 0 .sleep, .resume 1, .call 1 .sync] ++ List.replicate 6 (.run 1 .done) ++
    [.leave 1, .endRequest 20 true, .resume 0] ++ fileWriteEnd

/-- The second byte is lost: `add_request` cleared `b_dirt` before it came. -/
theorem file_write_loses_byte : ¬ ∀ s : Sys (Fin 2),
    CacheReach false (fun s e => FewRefs false s e ∧ Faultless e) 1 (fun _ _ _ => 0) s →
    ∀ t, ∀ r ∈ s.held t, r.read = true → r.dev ≠ 0 →
      (s.cache.head r.bh).data = s.cache.stored r.dev r.block := by
  intro hclaim
  have hrun : (Lib.run (fun s e => (step false s e).filter (faultlessCheck e))
      (Sys.init (Fin 2) 1 fun _ _ _ => 0) syncInCopy).map
        (fun s => (s.held 0, s.cache.stored 0x301 7 1, (s.cache.head 0).data 1))
          = some ([⟨0, 0x301, 7, true⟩], 2, 0) := by
    decide +kernel
  obtain ⟨s, hs, heq⟩ := Option.map_eq_some_iff.mp hrun
  obtain ⟨hheld, heq⟩ := Prod.mk.inj heq
  obtain ⟨hstored, hdata⟩ := Prod.mk.inj heq
  have hreach : CacheReach false (fun s e => FewRefs false s e ∧ Faultless e) 1
      (fun _ _ _ => 0) s :=
    Lib.Reach.ofChecked (fun _ e _ hs hc => faultless_of_check hs hc) (.start rfl) hs
  have := congrFun (hclaim s hreach 0 ⟨0, 0x301, 7, true⟩
    (by rw [hheld]; exact List.mem_cons_self) rfl (by decide)) 1
  rw [hdata, hstored] at this
  exact absurd this (by decide)

/-- The check of a closed run in which no write request meets a copy. -/
def carefulCheck (s : Sys (Fin 2)) (e : Event (Fin 2)) (s' : Sys (Fin 2)) : Bool :=
  faultlessCheck e s' && match e with
    | .run t _ =>
      match (s.stack t).head? with
      | some (.findRequest ⟨.write, _⟩ _) =>
        ((s.stack 0).all fun f => f.plain) && (s.stack 1).all fun f => f.plain
      | _ => true
    | _ => true

theorem careful_of_check {s s' : Sys (Fin 2)} {e : Event (Fin 2)}
    (hs : step ramdisk s e = some s') (h : carefulCheck s e s' = true) :
    FewRefs ramdisk s e ∧ Faultless e ∧ Careful s e := by
  obtain ⟨hfault, h⟩ := Bool.and_eq_true_iff.mp h
  obtain ⟨hfew, hfault⟩ := faultless_of_check hs hfault
  refine ⟨hfew, hfault, ?_⟩
  rintro t x ahead bh rfl hhead - u dev block off chunk pos more hg
  dsimp only at h
  rw [hhead] at h
  obtain ⟨h0, h1⟩ := Bool.and_eq_true_iff.mp h
  have : ∀ u, ∀ f ∈ s.stack u, f.plain = true := by
    intro u
    match u with
    | 0 => exact List.all_eq_true.mp h0
    | 1 => exact List.all_eq_true.mp h1
  exact absurd (this u _ hg) Bool.noConfusion

/-- Task 0 writes two bytes without a sleep and reads them again after an eviction. -/
def quietCopy : List (Event (Fin 2)) := fileWriteStart ++ List.replicate 4 (.run 0 .done) ++
  [.call 0 .sync] ++ List.replicate 6 (.run 0 .done) ++ [.endRequest 20 true] ++
  breadEvents 8 ++ [.brelse 0 ⟨0, 0x301, 8, true⟩, .run 0 .done] ++ breadEvents 7

theorem file_write_kept_quiet : ∃ s : Sys (Fin 2), s.held 0 = [⟨0, 0x301, 7, true⟩] ∧
    s.cache.stored 0x301 7 1 = 2 ∧ (s.cache.head 0).data 1 = 2 := by
  have hrun : (Lib.run (fun s e => (step false s e).filter (carefulCheck s e))
      (Sys.init (Fin 2) 1 fun _ _ _ => 0) quietCopy).map
        (fun s => (s.held 0, s.cache.stored 0x301 7 1)) = some ([⟨0, 0x301, 7, true⟩], 2) := by
    decide +kernel
  obtain ⟨s, hs, heq⟩ := Option.map_eq_some_iff.mp hrun
  obtain ⟨hheld, hstored⟩ := Prod.mk.inj heq
  have hreach : CacheReach false (fun s e => FewRefs false s e ∧ Faultless e ∧ Careful s e) 1
      (fun _ _ _ => 0) s :=
    Lib.Reach.ofChecked (fun _ _ _ hs hc => careful_of_check hs hc) (.start rfl) hs
  have hdata := (file_write_kept hreach).2 0 ⟨0, 0x301, 7, true⟩
    (by rw [hheld]; exact List.mem_cons_self) rfl (by decide)
  exact ⟨s, hheld, hstored, (congrFun hdata 1).trans hstored⟩

end Linux011.Buffer

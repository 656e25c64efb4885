import Linux011.Buffer.Protocol

/-!
# Which copy of a block is current

The contents of a block live on the disk, in a buffer, or on the way between the two. The invariant
`Coherent` says where the contents stored last are: an up-to-date buffer has them; the disk has them
unless an up-to-date buffer is dirty or has a write request in the queue. `add_request` clears
`b_dirt` when it queues the request, so the queue is part of the invariant, and the buffer is locked
until the request is finished.

A buffer with a request, or one that waits for a request, has a single owner (`single`, `owner`,
`sole`): that is what keeps a transfer from meeting another one, or a new identity.
-/

namespace Linux011.Buffer

variable {ι : Type} [DecidableEq ι] [Fintype ι] {s s' : Sys ι} {t : ι} {f : Frame}
  {rest fs : List Frame} {c c' : Cache} {ramdisk : Bool}

/-! ## The invariant -/

/-- A write request of the buffer is in the queue. -/
def Cache.Writing (c : Cache) (bh : Nat) : Prop :=
  ∃ i r, c.request i = some r ∧ r.cmd = .write ∧ r.bh = bh

/-- The buffer has what the disk has not. -/
def Cache.Newer (c : Cache) (dev : Dev) (block : Block) : Prop :=
  ∃ bh, (c.head bh).Is dev block ∧ (c.head bh).uptodate = true ∧
    ((c.head bh).dirt = true ∨ c.Writing bh)

/-- Every buffer in transfer has one owner: a request, or a task that waits for one. -/
structure Owned (s : Sys ι) : Prop where
  request : ∀ i r, s.cache.request i = some r → (s.cache.head r.bh).lock = true ∧
    (s.cache.head r.bh).Is r.dev r.block ∧
    (r.cmd = .read → (s.cache.head r.bh).uptodate = false) ∧
    (r.cmd = .write → (s.cache.head r.bh).uptodate = true)
  single : ∀ i j r r', s.cache.request i = some r → s.cache.request j = some r' → r.bh = r'.bh →
    i = j
  owner : ∀ t rw bh, .findRequest rw bh ∈ s.stack t → (s.cache.head bh).lock = true ∧
    (∀ i r, s.cache.request i = some r → r.bh ≠ bh) ∧
    (rw.cmd = .read → (s.cache.head bh).uptodate = false) ∧
    (rw.cmd = .write → (s.cache.head bh).dirt = true)
  sole : ∀ t u rw rw' bh, .findRequest rw bh ∈ s.stack t → .findRequest rw' bh ∈ s.stack u → t = u

/-- Up-to-date buffers have the contents stored last, and what the disk has not is on its way. -/
structure Current (s : Sys ι) : Prop where
  dirty : ∀ bh, (s.cache.head bh).dirt = true → (s.cache.head bh).uptodate = true
  data : ∀ bh, (s.cache.head bh).uptodate = true → (s.cache.head bh).dev ≠ 0 →
    (s.cache.head bh).data = s.cache.stored (s.cache.head bh).dev (s.cache.head bh).blocknr
  disk : ∀ dev block, dev ≠ 0 →
    s.cache.disk dev block = s.cache.stored dev block ∨ s.cache.Newer dev block
  read : ∀ t, ∀ r ∈ s.held t, r.read = true → (s.cache.head r.bh).uptodate = true
  copying : ∀ t dev block bh off chunk pos more,
    .copy dev block bh off chunk pos more ∈ s.stack t → (s.cache.head bh).uptodate = true ∧
      (chunk ≠ [] → (s.cache.head bh).dirt = true)

structure Coherent (s : Sys ι) : Prop extends Owned s, Current s

/-! ## What an instruction changes -/

/-- The frames `Coherent` speaks of. -/
def Frame.owns : Frame → Bool
  | .findRequest .. => true
  | .copy .. => true
  | _ => false

/-- What one instruction may do to the contents and the flags. -/
inductive Change (c : Cache) (f : Frame) : Outcome → Prop where
  | next {fs : List Frame} (frames : ∀ g ∈ fs, g.owns = true → g = f) : Change c f (.next c fs)
  | sleep {g : Frame} (frame : g.owns = true → g = f) : Change c f (.sleep c [g])
  | count {fs : List Frame} {bh : Nat} {g : Head → Nat}
      (frames : ∀ g ∈ fs, g.owns = false) :
      Change c f (.next (c.modify bh fun h => { h with count := g h }) fs)
  | take {k : Caller} {dev : Dev} {block : Block} {bh : Nat} (frame : f = .recheck k dev block bh) :
      Change c f (.next (take c bh dev block) [.got k dev block bh])
  | store {bh : Nat} {g : Data → Data} (uptodate : (c.head bh).uptodate = true) :
      Change c f (.next (c.store bh g) [.brelse bh])
  | clear {dev : Dev} {block : Block} {bh : Nat} (frame : f = .got .newBlock dev block bh) :
      Change c f (.next (c.clear bh) [.brelse bh])
  | mark {dev : Dev} {block : Block} {bh off pos : Nat} {chunk more : List (BitVec 8)}
      (uptodate : (c.head bh).uptodate = true) :
      Change c f (.next (c.modify bh fun h => { h with dirt := true })
        [.copy dev block bh off chunk pos more])
  | put {dev : Dev} {block : Block} {bh off pos : Nat} {byte : BitVec 8}
      {chunk more : List (BitVec 8)} (frame : f = .copy dev block bh off (byte :: chunk) pos more) :
      Change c f (.next (c.putByte bh off byte) [.copy dev block bh (off + 1) chunk pos more])
  | lock {rw : Rw} {bh : Nat} (unlocked : (c.head bh).lock = false)
      (read : rw.cmd = .read → (c.head bh).uptodate = false)
      (write : rw.cmd = .write → (c.head bh).dirt = true) :
      Change c f (.next (c.modify bh fun h => { h with lock := true }) [.findRequest rw bh])
  | unlock {rw : Rw} {bh : Nat} (frame : f = .findRequest rw bh) :
      Change c f (.next (c.modify bh fun h => { h with lock := false }) [])
  | request {rw : Rw} {bh i : Nat} (frame : f = .findRequest rw bh)
      (find : emptyRequest c (requestLimit rw.cmd) = some i) :
      Change c f (.next (c.addRequest i rw.cmd bh) [])
  | hand {r : Ref} (uptodate : r.read = true → (c.head r.bh).uptodate = true) :
      Change c f (.hand c r)
  | panic : Change c f .panic

/-- The instruction goes on with frames that own nothing. -/
theorem Change.plain (h : ∀ g ∈ fs, g.owns = false) : Change c f (.next c fs) :=
  .next fun g hg ho => by rw [h g hg] at ho; cases ho

theorem Change.one {g : Frame} (h : g.owns = false) : Change c f (.next c [g]) :=
  .plain fun x hx => by rw [List.mem_singleton.mp hx]; exact h

theorem Change.two {g p : Frame} (h : g.owns = false) (h' : p.owns = false) :
    Change c f (.next c [g, p]) := by
  refine .plain fun x hx => ?_
  rcases List.mem_cons.mp hx with rfl | hx
  · exact h
  · rw [List.mem_singleton.mp hx]
    exact h'

theorem Change.stop : Change c f (.next c []) := .plain nofun

theorem Change.wait {g : Frame} (h : g.owns = false) : Change c f (.sleep c [g]) :=
  .sleep fun ho => by rw [h] at ho; cases ho

theorem ready_change {k : Caller} {dev : Dev} {block : Block} {bh : Nat}
    (h : (c.head bh).uptodate = true) : Change c f (ready c k dev block bh) := by
  cases k with
  | update g => exact .store h
  | fileWrite off chunk pos more => exact .mark h
  | _ => exact .hand fun _ => h

theorem gotBuffer_change {k : Caller} {dev : Dev} {block : Block} {bh : Nat} :
    Change c (.got k dev block bh) (gotBuffer c k dev block bh) := by
  have hready : Change c (.got k dev block bh) (if (c.head bh).uptodate then ready c k dev block bh
      else .next c [.llRwBlock ⟨.read, false⟩ bh, .reading k dev block bh]) := by
    split
    · next h => exact ready_change h
    · exact .two rfl rfl
  cases k with
  | getHashTable => exact .hand nofun
  | getblk => exact .hand nofun
  | breada rest =>
    simp only [gotBuffer]
    split
    · exact .one rfl
    · exact .two rfl rfl
  | ahead =>
    simp only [gotBuffer]
    split
    · exact .one rfl
    · exact .two rfl rfl
  | page rest bhs =>
    simp only [gotBuffer]
    split
    · exact .one rfl
    · exact .two rfl rfl
  | newBlock =>
    simp only [gotBuffer]
    split
    · exact .panic
    · exact .clear rfl
  | _ => exact hready

/-- One instruction of any frame. -/
theorem exec_change (ramdisk : Bool) (c : Cache) (f : Frame) (x : Choice) :
    Change c f (exec ramdisk c x f) := by
  cases f with
  | hash k dev block =>
    simp only [exec]
    cases findBuffer c dev block with
    | some bh => exact .count fun g hg => by rw [List.mem_singleton.mp hg]; rfl
    | none => cases k <;> first | exact .stop | exact .one rfl
  | hashWait k dev block bh =>
    simp only [exec]
    split
    · exact .wait rfl
    · split
      · exact .one rfl
      · exact .count fun g hg => by rw [List.mem_singleton.mp hg]; rfl
  | scan k dev block =>
    simp only [exec]
    split
    · exact .wait rfl
    · exact .one rfl
  | victim k dev block bh =>
    simp only [exec]
    split
    · exact .wait rfl
    · split
      · exact .one rfl
      · exact .one rfl
  | clean k dev block bh =>
    simp only [exec]
    split
    · exact .two rfl rfl
    · exact .one rfl
  | recheck k dev block bh =>
    simp only [exec]
    split
    · exact .one rfl
    · exact .take rfl
  | got k dev block bh => exact gotBuffer_change
  | reading k dev block bh =>
    simp only [exec]
    split
    · exact .wait rfl
    · split
      · next h => exact ready_change h
      · cases k <;> first | exact .panic | exact .one rfl
  | aheads dev block bh rest =>
    cases rest with
    | nil => exact .one rfl
    | cons first rest => exact .two rfl rfl
  | drop bh => exact .count (List.forall_mem_nil _)
  | pageNext dev rest bhs =>
    cases rest with
    | nil => exact .one rfl
    | cons b rest =>
      simp only [exec]
      split
      · exact .one rfl
      · exact .one rfl
  | pageCopy bhs =>
    cases bhs with
    | nil => exact .stop
    | cons bh bhs =>
      simp only [exec]
      split
      · exact .wait rfl
      · exact .two rfl rfl
  | llRwBlock rw bh =>
    simp only [exec]
    split
    · exact .stop
    · exact .one rfl
  | lockBuffer rw bh =>
    simp only [exec]
    split
    · exact .wait rfl
    · next hlock =>
      split
      · exact .stop
      · next htest =>
        rw [not_or, not_and, not_and, Bool.not_eq_true, Bool.not_eq_false] at htest
        exact .lock (Bool.eq_false_iff.mpr hlock) htest.2 htest.1
  | findRequest rw bh =>
    simp only [exec]
    split
    · next i hi => exact .request rfl hi
    · split
      · exact .unlock rfl
      · exact .sleep fun _ => rfl
  | brelse bh =>
    simp only [exec]
    split
    · exact .wait rfl
    · split
      · exact .panic
      · exact .count (List.forall_mem_nil _)
  | syncDev dev second i =>
    simp only [exec]
    split
    · split
      · exact .one rfl
      · exact .one rfl
    · split
      · exact .stop
      · exact .two rfl rfl
  | syncWait dev second i =>
    simp only [exec]
    split
    · exact .wait rfl
    · split
      · exact .two rfl rfl
      · exact .one rfl
  | syncAll i =>
    simp only [exec]
    split
    · split
      · exact .wait rfl
      · split
        · exact .two rfl rfl
        · exact .one rfl
    · exact .stop
  | syncInodes =>
    cases x with
    | sleep => exact .wait rfl
    | update dev block g => exact .two rfl rfl
    | _ => exact .stop
  | fileWrite dev pos bytes =>
    simp only [exec]
    split
    · exact .stop
    · cases x with
      | sleep => exact .wait rfl
      | update d b g => exact .two rfl rfl
      | newBlock d b => exact .two rfl rfl
      | zone b => exact .one rfl
      | _ => exact .stop
  | copy dev block bh off chunk pos more =>
    cases chunk with
    | nil => exact .two rfl rfl
    | cons byte chunk =>
      cases x with
      | sleep => exact .sleep fun _ => rfl
      | fault d bs =>
        refine .next fun g hg ho => ?_
        rcases List.mem_cons.mp hg with rfl | hg
        · cases ho
        · exact List.mem_singleton.mp hg
      | _ => exact .put rfl

/-! ## Moves that keep the invariant -/

/-- Every frame `Coherent` speaks of was in the same stack before. -/
def OldFrames (s s' : Sys ι) : Prop := ∀ u g, g.owns = true → g ∈ s'.stack u → g ∈ s.stack u

omit [Fintype ι] in
theorem mem_goto {cur : Option ι} {u : ι} {g : Frame} (h : g ∈ (s.goto t c fs cur).stack u) :
    (u = t ∧ g ∈ fs) ∨ (u ≠ t ∧ g ∈ s.stack u) := by
  simp only [Sys.goto] at h
  by_cases hu : u = t
  · rw [hu, Function.update_self] at h
    exact Or.inl ⟨hu, h⟩
  · rw [Function.update_of_ne hu] at h
    exact Or.inr ⟨hu, h⟩

omit [Fintype ι] in
theorem OldFrames.goto (hf : s.stack t = f :: rest) (h : ∀ g ∈ fs, g.owns = true → g = f)
    (cur : Option ι) : OldFrames s (s.goto t c (fs ++ rest) cur) := by
  intro u g ho hg
  rcases mem_goto hg with ⟨rfl, hfs⟩ | ⟨-, hu⟩
  · rw [hf]
    rcases List.mem_append.mp hfs with hnew | hrest
    · rw [h g hnew ho]
      exact List.mem_cons_self
    · exact List.mem_cons_of_mem _ hrest
  · exact hu

/-- The fields of a head without its count and its lock. -/
structure SameContents (c c' : Cache) : Prop where
  dev : ∀ q, (c'.head q).dev = (c.head q).dev
  blocknr : ∀ q, (c'.head q).blocknr = (c.head q).blocknr
  uptodate : ∀ q, (c'.head q).uptodate = (c.head q).uptodate
  dirt : ∀ q, (c'.head q).dirt = (c.head q).dirt
  data : ∀ q, (c'.head q).data = (c.head q).data
  request : c'.request = c.request
  disk : c'.disk = c.disk
  stored : c'.stored = c.stored

theorem SameContents.refl (c : Cache) : SameContents c c :=
  ⟨fun _ => rfl, fun _ => rfl, fun _ => rfl, fun _ => rfl, fun _ => rfl, rfl, rfl, rfl⟩

theorem modify_flag (c : Cache) (bh : Nat) (g : Head → Head) (q : Nat) :
    (c.modify bh g).head q = if q = bh then g (c.head q) else c.head q := by
  by_cases hq : q = bh
  · rw [if_pos hq, hq, modify_head]
  · rw [if_neg hq, modify_other _ _ hq]

theorem SameContents.modify (c : Cache) (bh : Nat) (g : Head → Head)
    (h : ∀ x, (g x).dev = x.dev ∧ (g x).blocknr = x.blocknr ∧ (g x).uptodate = x.uptodate ∧
      (g x).dirt = x.dirt ∧ (g x).data = x.data) : SameContents c (c.modify bh g) := by
  refine ⟨fun q => ?_, fun q => ?_, fun q => ?_, fun q => ?_, fun q => ?_, rfl, rfl, rfl⟩ <;>
    rw [modify_flag] <;> split <;> simp only [h]

theorem SameContents.is (F : SameContents c c') {q : Nat} {dev : Dev} {block : Block} :
    (c'.head q).Is dev block ↔ (c.head q).Is dev block := by
  rw [Head.Is, F.dev, F.blocknr, Head.Is]

theorem SameContents.newer (F : SameContents c c') {dev : Dev} {block : Block}
    (h : c.Newer dev block) : c'.Newer dev block := by
  obtain ⟨q, hq, hu, hw⟩ := h
  refine ⟨q, F.is.mpr hq, (F.uptodate q).trans hu, ?_⟩
  rw [F.dirt, Cache.Writing, F.request]
  exact hw

omit [DecidableEq ι] [Fintype ι] in
theorem Current.same (D : Current s) (F : SameContents s.cache s'.cache)
    (hold : ∀ u dev block bh off chunk pos more, .copy dev block bh off chunk pos more ∈ s'.stack u →
      .copy dev block bh off chunk pos more ∈ s.stack u)
    (hheld : ∀ u, ∀ r ∈ s'.held u, r.read = true →
      r ∈ s.held u ∨ (s.cache.head r.bh).uptodate = true) : Current s' := by
  refine ⟨fun bh => ?_, fun bh => ?_, fun dev block h0 => ?_, fun u r hr hread => ?_,
    fun u dev block bh off chunk pos more hg => ?_⟩
  · rw [F.dirt, F.uptodate]
    exact D.dirty bh
  · rw [F.uptodate, F.dev, F.data, F.stored, F.blocknr]
    exact D.data bh
  · rw [F.disk, F.stored]
    exact (D.disk dev block h0).imp id F.newer
  · rw [F.uptodate]
    rcases hheld u r hr hread with h | h
    · exact D.read u r h hread
    · exact h
  · rw [F.uptodate, F.dirt]
    exact D.copying u dev block bh off chunk pos more (hold u dev block bh off chunk pos more hg)

omit [DecidableEq ι] [Fintype ι] in
/-- Contents, flags and frames are as they were; a client may have got a buffer that is up to
date. -/
theorem Coherent.same (D : Coherent s) (F : SameContents s.cache s'.cache)
    (hlock : ∀ q, (s'.cache.head q).lock = (s.cache.head q).lock) (hold : OldFrames s s')
    (hheld : ∀ u, ∀ r ∈ s'.held u, r.read = true →
      r ∈ s.held u ∨ (s.cache.head r.bh).uptodate = true) : Coherent s' := by
  refine ⟨⟨fun i r hr => ?_, fun i j r r' hr hr' => ?_, fun u rw bh hg => ?_,
    fun u v rw rw' bh hg hg' => D.sole u v rw rw' bh (hold u _ rfl hg) (hold v _ rfl hg')⟩,
    D.toCurrent.same F (fun u _ _ _ _ _ _ _ => hold u _ rfl) hheld⟩
  · rw [F.request] at hr
    obtain ⟨h1, h2, h3, h4⟩ := D.request i r hr
    rw [hlock, F.is, F.uptodate]
    exact ⟨h1, h2, h3, h4⟩
  · rw [F.request] at hr hr'
    exact D.single i j r r' hr hr'
  · obtain ⟨h1, h2, h3, h4⟩ := D.owner u rw bh (hold u _ rfl hg)
    simp only [hlock, F.request, F.uptodate, F.dirt]
    exact ⟨h1, h2, h3, h4⟩

/-- The parts of the cache that a new identity leaves alone. -/
theorem take_rest (c : Cache) (bh : Nat) (dev : Dev) (block : Block) :
    (take c bh dev block).request = c.request ∧ (take c bh dev block).disk = c.disk ∧
      (take c bh dev block).stored = c.stored := by
  unfold take insertIntoQueues
  dsimp only
  split <;> exact ⟨rfl, rfl, rfl⟩

/-- The victim of `getblk` is clean and idle, so nothing is lost with it. -/
theorem Coherent.take (D : Coherent s) (I : Inv s) {k : Caller} {dev : Dev} {block : Block}
    {bh : Nat} (hf : s.stack t = .recheck k dev block bh :: rest) :
    Coherent (s.goto t (take s.cache bh dev block) ([.got k dev block bh] ++ rest) (some t)) := by
  obtain ⟨-, hcount, hlock, hdirt⟩ := I.critical t _ _ hf rfl
  have hzero : s.refs bh = 0 := (I.count bh).symm.trans hcount
  have hfresh : ∀ g ∈ [Frame.got k dev block bh], g.owns = true →
      g = .recheck k dev block bh := fun g hg ho => by
    rw [List.mem_singleton.mp hg] at ho
    cases ho
  have hold := OldFrames.goto (c := Buffer.take s.cache bh dev block) hf hfresh (some t)
  generalize hs' : s.goto t (Buffer.take s.cache bh dev block) ([.got k dev block bh] ++ rest)
    (some t) = s' at hold
  have hc : s'.cache = Buffer.take s.cache bh dev block := by rw [← hs']; rfl
  have hheld : s'.held = s.held := by rw [← hs']; rfl
  obtain ⟨hreq, hdisk, hstored⟩ := take_rest s.cache bh dev block
  rw [← hc] at hreq hdisk hstored
  have hother : ∀ q, q ≠ bh → s'.cache.head q = s.cache.head q := fun q hq => by
    rw [hc, take_other _ _ _ hq]
  have hself : s'.cache.head bh = taken (s.cache.head bh) dev block := by rw [hc, take_head]
  have hidle : ∀ i r, s.cache.request i = some r → r.bh ≠ bh := by
    intro i r hr h
    have := (D.request i r hr).1
    rw [h, hlock] at this
    cases this
  refine ⟨⟨fun i r hr => ?_, fun i j r r' hr hr' => ?_, fun u rw q hg => ?_,
    fun u v rw rw' q hg hg' => D.sole u v rw rw' q (hold u _ rfl hg) (hold v _ rfl hg')⟩,
    ⟨fun q => ?_, fun q => ?_, fun d b h0 => ?_, fun u r hr hread => ?_,
    fun u d b q off chunk pos more hg => ?_⟩⟩
  · rw [hreq] at hr
    rw [hother _ (hidle i r hr)]
    exact D.request i r hr
  · rw [hreq] at hr hr'
    exact D.single i j r r' hr hr'
  · have O := D.owner u rw q (hold u _ rfl hg)
    have hq : q ≠ bh := fun h => by
      have := O.1
      rw [h, hlock] at this
      cases this
    rw [hother q hq, hreq]
    exact O
  · by_cases hq : q = bh
    · rw [hq, hself]
      nofun
    · rw [hother q hq]
      exact D.dirty q
  · by_cases hq : q = bh
    · rw [hq, hself]
      nofun
    · rw [hother q hq, hstored]
      exact D.data q
  · rw [hdisk, hstored]
    refine (D.disk d b h0).imp id ?_
    rintro ⟨q, hq, hu, hw⟩
    have hne : q ≠ bh := by
      rintro rfl
      rcases hw with hw | ⟨i, r, hr, -, hbh⟩
      · rw [hdirt] at hw
        cases hw
      · exact hidle i r hr hbh
    refine ⟨q, ?_, ?_, ?_⟩
    · rw [hother q hne]
      exact hq
    · rw [hother q hne]
      exact hu
    · rw [hother q hne, Cache.Writing, hreq]
      exact hw
  · rw [hheld] at hr
    have hne : r.bh ≠ bh := fun h => s.refs_of_held hr (h ▸ hzero)
    rw [hother _ hne]
    exact D.read u r hr hread
  · have hmem := hold u _ rfl hg
    have hne : q ≠ bh := fun h => s.refs_of_frame hmem List.mem_cons_self (h ▸ hzero)
    rw [hother q hne]
    exact D.copying u d b q off chunk pos more hmem

/-- The history variable after `note`. -/
theorem note_stored (c : Cache) (bh : Nat) (data : Data) (d : Dev) (b : Block) :
    (c.note bh data).stored d b = if (c.head bh).Is d b then data else c.stored d b := by
  simp only [Cache.note]
  by_cases hd : d = (c.head bh).dev
  · subst hd
    rw [Function.update_self]
    by_cases hb : b = (c.head bh).blocknr
    · subst hb
      rw [Function.update_self, if_pos ⟨rfl, rfl⟩]
    · rw [Function.update_of_ne hb, if_neg fun h => hb h.2.symm]
  · rw [Function.update_of_ne hd, if_neg fun h => hd h.1.symm]

/-- New contents of one buffer, which is up to date and dirty afterwards. -/
structure Written (c c' : Cache) (bh : Nat) : Prop where
  other : ∀ q, q ≠ bh → c'.head q = c.head q
  dev : (c'.head bh).dev = (c.head bh).dev
  blocknr : (c'.head bh).blocknr = (c.head bh).blocknr
  lock : (c'.head bh).lock = (c.head bh).lock
  uptodate : (c'.head bh).uptodate = true
  dirt : (c'.head bh).dirt = true
  stored : ∀ d b, d ≠ 0 → c'.stored d b
    = if (c.head bh).Is d b then (c'.head bh).data else c.stored d b
  request : c'.request = c.request
  disk : c'.disk = c.disk

omit [DecidableEq ι] in
/-- A client writes to a buffer that is up to date, or, in `new_block`, unlocked. -/
theorem Coherent.write (D : Coherent s) (I : Inv s) {bh : Nat} (W : Written s.cache s'.cache bh)
    (hfree : (s.cache.head bh).uptodate = true ∨ (s.cache.head bh).lock = false)
    (hheld : s'.held = s.held)
    (hold : ∀ u g, g.owns = true → g ∈ s'.stack u → g ∈ s.stack u ∨
      ∃ dev block off chunk pos more, g = .copy dev block bh off chunk pos more) :
    Coherent s' := by
  have hfind : ∀ u rw q, .findRequest rw q ∈ s'.stack u → .findRequest rw q ∈ s.stack u := by
    intro u rw q hg
    rcases hold u _ rfl hg with h | ⟨_, _, _, _, _, _, h⟩
    · exact h
    · cases h
  refine ⟨⟨fun i r hr => ?_, fun i j r r' hr hr' => ?_, fun u rw q hg => ?_,
    fun u v rw rw' q hg hg' => D.sole u v rw rw' q (hfind u rw q hg) (hfind v rw' q hg')⟩,
    ⟨fun q hq => ?_, fun q hq h0 => ?_, fun d b h0 => ?_, fun u r hr hread => ?_,
    fun u d b q off chunk pos more hg => ?_⟩⟩
  · rw [W.request] at hr
    obtain ⟨h1, h2, h3, h4⟩ := D.request i r hr
    by_cases hq : r.bh = bh
    · have hup : (s.cache.head bh).uptodate = true := by
        rw [hq] at h1
        rcases hfree with h | h
        · exact h
        · rw [h] at h1
          cases h1
      rw [hq] at h1 h2 h3 ⊢
      refine ⟨W.lock.trans h1, ?_, fun hc => ?_, fun _ => W.uptodate⟩
      · rw [Head.Is, W.dev, W.blocknr]
        exact h2
      · rw [hup] at h3
        cases h3 hc
    · rw [W.other _ hq]
      exact ⟨h1, h2, h3, h4⟩
  · rw [W.request] at hr hr'
    exact D.single i j r r' hr hr'
  · obtain ⟨h1, h2, h3, h4⟩ := D.owner u rw q (hfind u rw q hg)
    rw [W.request]
    by_cases hq : q = bh
    · rw [hq] at h1 h2 h3 ⊢
      have hup : (s.cache.head bh).uptodate = true := by
        rcases hfree with h | h
        · exact h
        · rw [h] at h1
          cases h1
      refine ⟨W.lock.trans h1, h2, fun hc => ?_, fun _ => W.dirt⟩
      rw [hup] at h3
      cases h3 hc
    · rw [W.other _ hq]
      exact ⟨h1, h2, h3, h4⟩
  · by_cases hqb : q = bh
    · rw [hqb]
      exact W.uptodate
    · rw [W.other _ hqb] at hq ⊢
      exact D.dirty q hq
  · rw [W.stored _ _ h0]
    by_cases hqb : q = bh
    · rw [hqb, if_pos ⟨W.dev.symm, W.blocknr.symm⟩]
    · rw [W.other _ hqb] at hq h0 ⊢
      rw [if_neg]
      · exact D.data q hq h0
      · rintro ⟨h1, h2⟩
        exact hqb (I.unique q bh h0 h1.symm h2.symm)
  · rw [W.stored d b h0, W.disk]
    by_cases his : (s.cache.head bh).Is d b
    · refine Or.inr ⟨bh, ?_, W.uptodate, Or.inl W.dirt⟩
      rw [Head.Is, W.dev, W.blocknr]
      exact his
    · rw [if_neg his]
      refine (D.disk d b h0).imp id ?_
      rintro ⟨q, hq, hu, hw⟩
      have hne : q ≠ bh := fun h => his (h ▸ hq)
      refine ⟨q, ?_, ?_, ?_⟩
      · rw [W.other q hne]
        exact hq
      · rw [W.other q hne]
        exact hu
      · rw [W.other q hne, Cache.Writing, W.request]
        exact hw
  · rw [hheld] at hr
    by_cases hq : r.bh = bh
    · rw [hq]
      exact W.uptodate
    · rw [W.other _ hq]
      exact D.read u r hr hread
  · by_cases hq : q = bh
    · rw [hq]
      exact ⟨W.uptodate, fun _ => W.dirt⟩
    · rw [W.other q hq]
      rcases hold u _ rfl hg with h | ⟨_, _, _, _, _, _, h⟩
      · exact D.copying u d b q off chunk pos more h
      · cases h
        exact absurd rfl hq

/-- A write to a buffer, as `note` and a modification of the head. -/
theorem Written.of (c : Cache) (bh : Nat) (data : Data) (g : Head → Head)
    (hd : ∀ x, (g x).dev = x.dev) (hb : ∀ x, (g x).blocknr = x.blocknr)
    (hl : ∀ x, (g x).lock = x.lock) (hu : (g (c.head bh)).uptodate = true)
    (hw : (g (c.head bh)).dirt = true) (hdata : (g (c.head bh)).data = data) :
    Written c ((c.note bh data).modify bh g) bh := by
  have hself : ((c.note bh data).modify bh g).head bh = g (c.head bh) := modify_head ..
  refine ⟨fun q hq => modify_other _ _ hq, ?_, ?_, ?_, ?_, ?_, fun d b _ => ?_, rfl, rfl⟩ <;>
    try rw [hself]
  · exact hd _
  · exact hb _
  · exact hl _
  · exact hu
  · exact hw
  · rw [hdata]
    exact note_stored c bh data d b

theorem Written.store (c : Cache) (bh : Nat) (g : Data → Data)
    (h : (c.head bh).uptodate = true) : Written c (c.store bh g) bh :=
  .of c bh (g (c.head bh).data) (fun h => { h with data := g h.data, dirt := true })
    (fun _ => rfl) (fun _ => rfl) (fun _ => rfl) h rfl rfl

theorem Written.clear (c : Cache) (bh : Nat) : Written c (c.clear bh) bh :=
  .of c bh (fun _ => 0) (fun h => { h with data := fun _ => 0, uptodate := true, dirt := true })
    (fun _ => rfl) (fun _ => rfl) (fun _ => rfl) rfl rfl rfl

theorem Written.putByte (c : Cache) (bh off : Nat) (byte : BitVec 8)
    (h : (c.head bh).uptodate = true) (hd : (c.head bh).dirt = true) :
    Written c (c.putByte bh off byte) bh :=
  .of c bh (Function.update (c.head bh).data off byte)
    (fun h => { h with data := Function.update h.data off byte })
    (fun _ => rfl) (fun _ => rfl) (fun _ => rfl) h hd rfl

omit [DecidableEq ι] [Fintype ι] in
/-- `file_write` marks the buffer before it copies: the contents are the old ones still. -/
theorem Written.mark (D : Coherent s) {bh : Nat} (h : (s.cache.head bh).uptodate = true) :
    Written s.cache (s.cache.modify bh fun h => { h with dirt := true }) bh := by
  have hself : (s.cache.modify bh fun h => { h with dirt := true }).head bh
      = { s.cache.head bh with dirt := true } := modify_head ..
  refine ⟨fun q hq => modify_other _ _ hq, ?_, ?_, ?_, ?_, ?_, fun d b h0 => ?_, rfl, rfl⟩ <;>
    try rw [hself]
  · exact h
  · split
    · next his =>
      rw [← his.1] at h0
      have := D.data bh h h0
      rw [his.1, his.2] at this
      exact this.symm
    · rfl

/-! ## Requests -/

/-- Only the lock of one buffer changes. -/
theorem SameContents.lock (c : Cache) (bh : Nat) (b : Bool) :
    SameContents c (c.modify bh fun h => { h with lock := b }) :=
  .modify c bh _ fun _ => ⟨rfl, rfl, rfl, rfl, rfl⟩

omit [DecidableEq ι] [Fintype ι] in
/-- `lock_buffer` of a buffer that has to be transferred: the task is its owner. -/
theorem Coherent.lock (D : Coherent s) {rw : Rw} {bh : Nat}
    (hunlocked : (s.cache.head bh).lock = false)
    (hread : rw.cmd = .read → (s.cache.head bh).uptodate = false)
    (hwrite : rw.cmd = .write → (s.cache.head bh).dirt = true)
    (hc : s'.cache = s.cache.modify bh fun h => { h with lock := true })
    (hheld : s'.held = s.held)
    (hold : ∀ u g, g.owns = true → g ∈ s'.stack u →
      g ∈ s.stack u ∨ (u = t ∧ g = .findRequest rw bh)) : Coherent s' := by
  have hidle : ∀ i r, s.cache.request i = some r → r.bh ≠ bh := by
    intro i r hr h
    have := (D.request i r hr).1
    rw [h, hunlocked] at this
    cases this
  have hnone : ∀ u rw', .findRequest rw' bh ∉ s.stack u := by
    intro u rw' h
    have := (D.owner u rw' bh h).1
    rw [hunlocked] at this
    cases this
  have F := SameContents.lock s.cache bh true
  have hhead := modify_flag s.cache bh fun h => { h with lock := true }
  rw [← hc] at F
  refine ⟨⟨fun i r hr => ?_, fun i j r r' hr hr' => ?_, fun u rw' q hg => ?_,
    fun u v rw1 rw2 q hg hg' => ?_⟩, D.toCurrent.same F (fun u _ _ _ _ _ _ _ hg => ?_) fun u r hr _ =>
      Or.inl (hheld ▸ hr)⟩
  · rw [F.request] at hr
    rw [hc, hhead, if_neg (hidle i r hr)]
    exact D.request i r hr
  · rw [F.request] at hr hr'
    exact D.single i j r r' hr hr'
  · rw [F.request, hc, hhead]
    rcases hold u _ rfl hg with h | ⟨-, h⟩
    · have hq : q ≠ bh := fun hq => hnone u rw' (hq ▸ h)
      rw [if_neg hq]
      exact D.owner u rw' q h
    · cases h
      rw [if_pos rfl]
      exact ⟨rfl, hidle, hread, hwrite⟩
  · rcases hold u _ rfl hg with h | ⟨hu, h⟩ <;> rcases hold v _ rfl hg' with h' | ⟨hv, h'⟩
    · exact D.sole u v rw1 rw2 q h h'
    · cases h'
      exact absurd h (hnone u rw1)
    · cases h
      exact absurd h' (hnone v rw2)
    · rw [hu, hv]
  · rcases hold u _ rfl hg with h | ⟨-, h⟩
    · exact h
    · cases h

omit [DecidableEq ι] [Fintype ι] in
/-- The owner gives up: a read-ahead without a free request. -/
theorem Coherent.unlock (D : Coherent s) {rw : Rw} {bh : Nat} (hmem : .findRequest rw bh ∈ s.stack t)
    (hc : s'.cache = s.cache.modify bh fun h => { h with lock := false })
    (hheld : s'.held = s.held) (hold : OldFrames s s')
    (hgone : ∀ rw', .findRequest rw' bh ∉ s'.stack t) : Coherent s' := by
  have hidle := (D.owner t rw bh hmem).2.1
  have hnone : ∀ u rw', .findRequest rw' bh ∉ s'.stack u := by
    intro u rw' h
    obtain rfl := D.sole u t rw' rw bh (hold u _ rfl h) hmem
    exact hgone rw' h
  have F := SameContents.lock s.cache bh false
  have hhead := modify_flag s.cache bh fun h => { h with lock := false }
  rw [← hc] at F
  refine ⟨⟨fun i r hr => ?_, fun i j r r' hr hr' => ?_, fun u rw' q hg => ?_,
    fun u v rw1 rw2 q hg hg' => D.sole u v rw1 rw2 q (hold u _ rfl hg) (hold v _ rfl hg')⟩,
    D.toCurrent.same F (fun u _ _ _ _ _ _ _ => hold u _ rfl) fun u r hr _ => Or.inl (hheld ▸ hr)⟩
  · rw [F.request] at hr
    rw [hc, hhead, if_neg (hidle i r hr)]
    exact D.request i r hr
  · rw [F.request] at hr hr'
    exact D.single i j r r' hr hr'
  · have hq : q ≠ bh := fun hq => hnone u rw' (hq ▸ hg)
    rw [F.request, hc, hhead, if_neg hq]
    exact D.owner u rw' q (hold u _ rfl hg)

theorem emptyRequest_free {n i : Nat} (h : emptyRequest c n = some i) : c.request i = none := by
  induction n with
  | zero => cases h
  | succ n ih =>
    rw [emptyRequest] at h
    split at h
    · next hn =>
      cases h
      exact Option.isNone_iff_eq_none.mp hn
    · exact ih h

omit [DecidableEq ι] [Fintype ι] in
/-- `add_request`: the dirty bit goes, and the queue has the buffer instead. No copy into the buffer
may be under way. -/
theorem Coherent.enqueue (D : Coherent s) {rw : Rw} {bh i : Nat}
    (hmem : .findRequest rw bh ∈ s.stack t) (hi : s.cache.request i = none)
    (hc : s'.cache = s.cache.addRequest i rw.cmd bh)
    (hheld : s'.held = s.held) (hold : OldFrames s s')
    (hgone : ∀ rw', .findRequest rw' bh ∉ s'.stack t)
    (hcopy : rw.cmd = .write → ∀ u dev block off chunk pos more,
      .copy dev block bh off chunk pos more ∈ s.stack u → chunk = []) : Coherent s' := by
  obtain ⟨hlock, hidle, hread, hwrite⟩ := D.owner t rw bh hmem
  have hnone : ∀ u rw', .findRequest rw' bh ∉ s'.stack u := by
    intro u rw' h
    obtain rfl := D.sole u t rw' rw bh (hold u _ rfl h) hmem
    exact hgone rw' h
  have hhead : ∀ q, s'.cache.head q = if q = bh then { s.cache.head q with dirt := false }
      else s.cache.head q := by
    intro q
    rw [hc]
    exact modify_flag _ bh (fun h => { h with dirt := false }) q
  have hreq : s'.cache.request = Function.update s.cache.request i
      (some ⟨(s.cache.head bh).dev, rw.cmd, (s.cache.head bh).blocknr, bh⟩) := by
    rw [hc]
    rfl
  have hdisk : s'.cache.disk = s.cache.disk := by rw [hc]; rfl
  have hstored : s'.cache.stored = s.cache.stored := by rw [hc]; rfl
  have hcases : ∀ j r, s'.cache.request j = some r →
      (j = i ∧ r = ⟨(s.cache.head bh).dev, rw.cmd, (s.cache.head bh).blocknr, bh⟩) ∨
        (j ≠ i ∧ s.cache.request j = some r) := by
    intro j r hr
    rw [hreq] at hr
    by_cases hj : j = i
    · rw [hj, Function.update_self] at hr
      cases hr
      exact Or.inl ⟨hj, rfl⟩
    · rw [Function.update_of_ne hj] at hr
      exact Or.inr ⟨hj, hr⟩
  have hup : rw.cmd = .write → (s.cache.head bh).uptodate = true := fun h =>
    D.dirty bh (hwrite h)
  refine ⟨⟨fun j r hr => ?_, fun j k r r' hr hr' hbh => ?_, fun u rw' q hg => ?_,
    fun u v rw1 rw2 q hg hg' => D.sole u v rw1 rw2 q (hold u _ rfl hg) (hold v _ rfl hg')⟩,
    ⟨fun q hq => ?_, fun q hq h0 => ?_, fun d b h0 => ?_, fun u r hr hr' => ?_,
    fun u d b q off chunk pos more hg => ?_⟩⟩
  · rcases hcases j r hr with ⟨-, rfl⟩ | ⟨-, hr⟩
    · rw [hhead, if_pos rfl]
      exact ⟨hlock, ⟨rfl, rfl⟩, hread, hup⟩
    · rw [hhead, if_neg (hidle j r hr)]
      exact D.request j r hr
  · rcases hcases j r hr with ⟨hj, rfl⟩ | ⟨-, hr⟩ <;> rcases hcases k r' hr' with ⟨hk, rfl⟩ | ⟨-, hr'⟩
    · rw [hj, hk]
    · exact absurd hbh.symm (hidle k r' hr')
    · exact absurd hbh (hidle j r hr)
    · exact D.single j k r r' hr hr' hbh
  · have hq : q ≠ bh := fun hq => hnone u rw' (hq ▸ hg)
    obtain ⟨h1, h2, h3, h4⟩ := D.owner u rw' q (hold u _ rfl hg)
    rw [hhead, if_neg hq]
    refine ⟨h1, fun j r hr => ?_, h3, h4⟩
    rcases hcases j r hr with ⟨-, rfl⟩ | ⟨-, hr⟩
    · exact hq.symm
    · exact h2 j r hr
  · rw [hhead] at hq ⊢
    split at hq
    · cases hq
    · next h =>
      rw [if_neg h]
      exact D.dirty q hq
  · have hq' : (s.cache.head q).uptodate = true := by
      rw [hhead] at hq
      split at hq <;> exact hq
    have h0' : (s.cache.head q).dev ≠ 0 := by
      rw [hhead] at h0
      split at h0 <;> exact h0
    have := D.data q hq' h0'
    rw [hstored, hhead]
    split <;> exact this
  · rw [hdisk, hstored]
    refine (D.disk d b h0).imp id ?_
    rintro ⟨q, hq, hu, hw⟩
    refine ⟨q, ?_, ?_, ?_⟩
    · rw [hhead]
      split <;> exact hq
    · rw [hhead]
      split <;> exact hu
    · by_cases hqb : q = bh
      · -- the buffer was dirty, so this is a write
        right
        subst hqb
        have hcmd : rw.cmd = .write := by
          cases hcmd : rw.cmd with
          | write => rfl
          | read =>
            rw [hread hcmd] at hu
            cases hu
        refine ⟨i, ⟨(s.cache.head q).dev, rw.cmd, (s.cache.head q).blocknr, q⟩, ?_, hcmd, rfl⟩
        rw [hreq, Function.update_self]
      · rw [hhead, if_neg hqb]
        refine hw.imp id ?_
        rintro ⟨j, r, hr, hcmd, hbh⟩
        have hj : j ≠ i := fun h => by rw [h, hi] at hr; cases hr
        exact ⟨j, r, by rw [hreq, Function.update_of_ne hj]; exact hr, hcmd, hbh⟩
  · have := D.read u r (hheld ▸ hr) hr'
    rw [hhead]
    split <;> exact this
  · obtain ⟨h1, h2⟩ := D.copying u d b q off chunk pos more (hold u _ rfl hg)
    by_cases hqb : q = bh
    · subst hqb
      have hcmd : rw.cmd = .write := by
        cases hcmd : rw.cmd with
        | write => rfl
        | read =>
          rw [hread hcmd] at h1
          cases h1
      rw [hhead, if_pos rfl]
      exact ⟨h1, fun hne => absurd (hcopy hcmd u d b off chunk pos more (hold u _ rfl hg)) hne⟩
    · rw [hhead, if_neg hqb]
      exact ⟨h1, h2⟩

/-- The other parts of the cache after a request is finished without error. -/
theorem endRequest_rest (c : Cache) (i : Nat) (r : Request) :
    (∀ d b, (c.endRequest i r true).disk d b
      = if r.cmd = .write ∧ r.dev = d ∧ r.block = b then (c.head r.bh).data else c.disk d b) ∧
    (c.endRequest i r true).request = Function.update c.request i none ∧
    (c.endRequest i r true).stored = c.stored := by
  unfold Cache.endRequest Cache.transfer
  cases hcmd : r.cmd with
  | read => exact ⟨fun d b => (if_neg fun h => nomatch h.1).symm, rfl, rfl⟩
  | write =>
    refine ⟨fun d b => ?_, rfl, rfl⟩
    simp only [Cache.modify, if_true, true_and]
    by_cases hd : d = r.dev
    · subst hd
      rw [Function.update_self]
      by_cases hb : b = r.block
      · subst hb
        rw [Function.update_self, if_pos ⟨rfl, rfl⟩]
      · rw [Function.update_of_ne hb, if_neg fun h => hb h.2.symm]
    · rw [Function.update_of_ne hd, if_neg fun h => hd h.1.symm]

omit [DecidableEq ι] in
/-- A request is finished without error: the buffer and the disk agree on the block. -/
theorem Coherent.endRequest (D : Coherent s) (I : Inv s) {i : Nat} {r : Request}
    (hr : s.cache.request i = some r) :
    Coherent { s with cache := s.cache.endRequest i r true } := by
  obtain ⟨hlock, his, hread, hwrite⟩ := D.request i r hr
  obtain ⟨hdisk, hreq, hstored⟩ := endRequest_rest s.cache i r
  have hhead := endRequest_head s.cache i r true
  have hold : ∀ j r', (s.cache.endRequest i r true).request j = some r' →
      j ≠ i ∧ s.cache.request j = some r' := by
    intro j r' hr'
    rw [hreq] at hr'
    by_cases hj : j = i
    · rw [hj, Function.update_self] at hr'
      cases hr'
    · rw [Function.update_of_ne hj] at hr'
      exact ⟨hj, hr'⟩
  have hne : ∀ j r', j ≠ i → s.cache.request j = some r' → r'.bh ≠ r.bh := fun j r' hj hr' hbh =>
    hj (D.single j i r' r hr' hr hbh)
  have hup : ∀ q, ((s.cache.endRequest i r true).head q).uptodate = true ↔
      q = r.bh ∨ (s.cache.head q).uptodate = true := by
    intro q
    rw [hhead]
    split
    · next hq => exact ⟨fun _ => Or.inl hq, fun _ => rfl⟩
    · next hq => exact ⟨Or.inr, fun h => h.resolve_left hq⟩
  have hdirt : ∀ q, ((s.cache.endRequest i r true).head q).dirt = (s.cache.head q).dirt := by
    intro q
    rw [hhead]
    split <;> rfl
  have K := Keeps.endRequest s.cache i r true
  refine ⟨⟨fun j r' hr' => ?_, fun j k r1 r2 h1 h2 hbh => ?_, fun u rw q hg => ?_,
    fun u v rw rw' q hg hg' => D.sole u v rw rw' q hg hg'⟩,
    ⟨fun q hq => ?_, fun q hq h0 => ?_, fun d b h0 => ?_, fun u r' hr' hread' => ?_,
    fun u d b q off chunk pos more hg => ?_⟩⟩
  · obtain ⟨hj, hr'⟩ := hold j r' hr'
    rw [hhead, if_neg (hne j r' hj hr')]
    exact D.request j r' hr'
  · exact D.single j k r1 r2 (hold j r1 h1).2 (hold k r2 h2).2 hbh
  · have O := D.owner u rw q hg
    rw [hhead, if_neg fun h => O.2.1 i r hr h.symm]
    exact ⟨O.1, fun j r' hr' => O.2.1 j r' (hold j r' hr').2, O.2.2⟩
  · rw [hdirt] at hq
    exact (hup q).mpr (Or.inr (D.dirty q hq))
  · rw [K.dev] at h0
    rw [K.dev, K.blocknr, hstored, hhead]
    by_cases hqb : q = r.bh
    · rw [if_pos hqb]
      subst hqb
      cases hcmd : r.cmd with
      | read =>
        -- the disk is current: no other buffer carries this block
        rw [if_pos ⟨rfl, rfl⟩, ← his.1, ← his.2]
        rcases D.disk _ (s.cache.head r.bh).blocknr h0 with h | ⟨q, hq, hu, -⟩
        · exact h
        · obtain rfl := I.unique r.bh q h0 hq.1.symm hq.2.symm
          rw [hread hcmd] at hu
          cases hu
      | write =>
        rw [if_neg nofun]
        exact D.data r.bh (hwrite hcmd) h0
    · rw [if_neg hqb]
      exact D.data q (((hup q).mp hq).resolve_left hqb) h0
  · rw [hdisk, hstored]
    have hnewer : (¬ (s.cache.head r.bh).Is d b ∨ r.cmd = .read) → s.cache.Newer d b →
        (s.cache.endRequest i r true).Newer d b := by
      rintro hother ⟨q, hq, hu, hw⟩
      have hqb : q ≠ r.bh := by
        rintro rfl
        rcases hother with h | h
        · exact h hq
        · rw [hread h] at hu
          cases hu
      refine ⟨q, ?_, (hup q).mpr (Or.inr hu), ?_⟩
      · rw [hhead, if_neg hqb]
        exact hq
      · rw [hdirt]
        refine hw.imp id ?_
        rintro ⟨j, r', hr', hcmd, hbh⟩
        have hj : j ≠ i := by
          rintro rfl
          rw [hr] at hr'
          cases hr'
          exact hqb hbh.symm
        exact ⟨j, r', by rw [hreq, Function.update_of_ne hj]; exact hr', hcmd, hbh⟩
    cases hcmd : r.cmd with
    | read =>
      rw [if_neg nofun]
      exact (D.disk d b h0).imp id (hnewer (Or.inr hcmd))
    | write =>
      by_cases hb : (s.cache.head r.bh).Is d b
      · rw [if_pos ⟨rfl, his.1 ▸ hb.1, his.2 ▸ hb.2⟩]
        have := D.data r.bh (hwrite hcmd) (hb.1 ▸ h0)
        rw [hb.1, hb.2] at this
        exact Or.inl this
      · rw [if_neg fun h => hb ⟨his.1.trans h.2.1, his.2.trans h.2.2⟩]
        exact (D.disk d b h0).imp id (hnewer (Or.inl hb))
  · exact (hup r'.bh).mpr (Or.inr (D.read u r' hr' hread'))
  · obtain ⟨h1, h2⟩ := D.copying u d b q off chunk pos more hg
    rw [hdirt]
    exact ⟨(hup q).mpr (Or.inr h1), h2⟩

end Linux011.Buffer

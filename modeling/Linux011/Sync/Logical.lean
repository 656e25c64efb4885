import Linux011.Sync.Block

/-!
# The logical contents of the disks

What a block contains is in its buffer, if the buffer is up to date, dirty or on its way to the disk,
and on the disk otherwise. `bread` has another view: it reads a buffer that is not up to date again,
also when it is dirty. The two views are kept apart here, and each operation on the cache is said by
what it does to them.
-/

namespace Linux011.Sync

open Buffer

variable {c c' : Cache} {bh : Nat} {dev : Dev} {block : Block}

/-! ## The invariant -/

/-- What holds of the cache whenever a task starts a function of it. -/
structure Sound (c : Cache) : Prop where
  chained : Chained c
  unique : Unique c
  ring : ∀ bh ∈ c.freeList, bh < c.nr
  buffers : ∀ bh, (c.head bh).dev ≠ 0 → bh < c.nr
  request : ∀ i r, c.request i = some r → (c.head r.bh).lock = true ∧
    (c.head r.bh).Is r.dev r.block ∧ r.dev ≠ 0 ∧
    (r.cmd = .read → (c.head r.bh).uptodate = false ∧ (c.head r.bh).dirt = false)
  single : ∀ i j r r', c.request i = some r → c.request j = some r' → r.bh = r'.bh → i = j
  table : ∀ i, 32 ≤ i → c.request i = none
  clean : ∀ bh, (c.head bh).dev ≠ 0 → (c.head bh).uptodate = true → (c.head bh).dirt = false →
    ¬ c.Writing bh → (c.head bh).data = c.disk (c.head bh).dev (c.head bh).blocknr

/-- No request of the table is for the buffer. -/
def Idle (c : Cache) (bh : Nat) : Prop := ∀ i r, c.request i = some r → r.bh ≠ bh

theorem Idle.not_writing (h : Idle c bh) : ¬ c.Writing bh := by
  rintro ⟨i, r, hr, -, hbh⟩
  exact h i r hr hbh

theorem Sound.idle (S : Sound c) (h : (c.head bh).lock = false) : Idle c bh := by
  rintro i r hr rfl
  rw [(S.request i r hr).1] at h
  cases h

/-- The buffer of a block is found. -/
theorem Sound.find (S : Sound c) (h : (c.head bh).Is dev block) (h0 : dev ≠ 0) :
    findBuffer c dev block = some bh := by
  cases hf : findBuffer c dev block with
  | none => exact absurd h (findBuffer_none S.chained h0 hf bh)
  | some q =>
    obtain ⟨hd, hb⟩ := findBuffer_some hf
    obtain ⟨hd', hb'⟩ := h
    rw [S.unique q bh (by rw [hd]; exact h0) (hd.trans hd'.symm) (hb.trans hb'.symm)]

/-- The cache at boot. -/
theorem bufferInit_sound (nr : Nat) (disk : Dev → Block → Data) : Sound (bufferInit nr disk) := by
  refine ⟨fun k bh => ⟨fun h => (nomatch h), fun h => absurd rfl h.1⟩, fun _ _ h => absurd rfl h,
    fun bh h => ?_,
    fun bh h => absurd rfl h, nofun, nofun, fun _ _ => rfl, fun _ h => absurd rfl h⟩
  exact List.mem_range.mp h

/-- Device 0 has no buffers. -/
theorem Sound.find_zero (S : Sound c) (block : Block) : findBuffer c 0 block = none := by
  cases hf : findBuffer c 0 block with
  | none => rfl
  | some q =>
    have hmem : q ∈ c.hashTable (hashfn 0 block) := List.mem_of_find?_eq_some hf
    exact absurd (findBuffer_some hf).1 ((S.chained _ _).mp hmem).1

/-! ## The two views -/

/-- The first contents if the condition holds. -/
noncomputable def either (p : Prop) (x y : Data) : Data :=
  open Classical in if p then x else y

theorem either_pos {p : Prop} {x y : Data} (h : p) : either p x y = x := if_pos h

theorem either_neg {p : Prop} {x y : Data} (h : ¬ p) : either p x y = y := if_neg h

theorem either_congr {p q : Prop} (h : p ↔ q) (x y : Data) : either p x y = either q x y := by
  rw [propext h]

/-- The block as the buffers with `P` have it. -/
noncomputable def seen (c : Cache) (P : Nat → Prop) (dev : Dev) (block : Block) : Data :=
  match findBuffer c dev block with
  | some bh => either (P bh) (c.head bh).data (c.disk dev block)
  | none => c.disk dev block

/-- The buffer has contents of its own. -/
def Holds (c : Cache) (bh : Nat) : Prop :=
  (c.head bh).uptodate = true ∨ (c.head bh).dirt = true ∨ c.Writing bh

/-- The buffer has been changed, but is not up to date: `bread` reads it again. -/
def Stale (c : Cache) (bh : Nat) : Prop :=
  (c.head bh).dirt = true ∧ (c.head bh).uptodate = false ∧ ¬ c.Writing bh

/-- The contents of the blocks. -/
noncomputable def logical (c : Cache) : Dev → Block → Data := seen c (Holds c)

/-- What `bread` brings. -/
noncomputable def reread (c : Cache) : Dev → Block → Data := seen c fun bh => Holds c bh ∧ ¬ Stale c bh

/-- `bread` brings what the block contains. -/
def Settled (c : Cache) (dev : Dev) (block : Block) : Prop := reread c dev block = logical c dev block

/-- One block with other contents. -/
def put (g : Dev → Block → Data) (dev : Dev) (block : Block) (data : Data) : Dev → Block → Data :=
  fun d b => if d = dev ∧ b = block then data else g d b

theorem put_self (g : Dev → Block → Data) (dev : Dev) (block : Block) (data : Data) :
    put g dev block data dev block = data := if_pos ⟨rfl, rfl⟩

theorem put_other {g : Dev → Block → Data} {data : Data} {d : Dev} {b : Block}
    (h : ¬ (d = dev ∧ b = block)) : put g dev block data d b = g d b := if_neg h

theorem put_same (g : Dev → Block → Data) (dev : Dev) (block : Block) :
    put g dev block (g dev block) = g := by
  funext d b
  by_cases h : d = dev ∧ b = block
  · rw [h.1, h.2, put_self]
  · rw [put_other h]

theorem put_put (g : Dev → Block → Data) (dev : Dev) (block : Block) (data data' : Data) :
    put (put g dev block data) dev block data' = put g dev block data' := by
  funext d b
  by_cases h : d = dev ∧ b = block
  · rw [h.1, h.2, put_self, put_self]
  · rw [put_other h, put_other h, put_other h]

theorem seen_is (S : Sound c) {P : Nat → Prop} (h : (c.head bh).Is dev block) (h0 : dev ≠ 0) :
    seen c P dev block = either (P bh) (c.head bh).data (c.disk dev block) := by
  unfold seen
  rw [S.find h h0]

theorem seen_none {P : Nat → Prop} (h : findBuffer c dev block = none) :
    seen c P dev block = c.disk dev block := by
  unfold seen
  rw [h]

/-- The buffers keep their identities: they are found as before. -/
theorem findBuffer_ids
    (hid : ∀ q, (c'.head q).dev = (c.head q).dev ∧ (c'.head q).blocknr = (c.head q).blocknr)
    (hhash : c'.hashTable = c.hashTable) (dev : Dev) (block : Block) :
    findBuffer c' dev block = findBuffer c dev block := by
  have his : ∀ q, (c'.head q).Is dev block ↔ (c.head q).Is dev block := fun q => by
    unfold Head.Is
    rw [(hid q).1, (hid q).2]
  unfold findBuffer
  rw [hhash]
  exact congrArg (List.find? · _) (funext fun q => decide_eq_decide.mpr (his q))

/-- The buffers keep their identities: it is enough to look at each buffer, and at the disk where
there is none. -/
theorem seen_keeps (S : Sound c) {P P' : Nat → Prop}
    (hid : ∀ q, (c'.head q).dev = (c.head q).dev ∧ (c'.head q).blocknr = (c.head q).blocknr)
    (hhash : c'.hashTable = c.hashTable)
    (hbuf : ∀ bh, (c.head bh).dev ≠ 0 →
      either (P' bh) (c'.head bh).data (c'.disk (c.head bh).dev (c.head bh).blocknr) =
        either (P bh) (c.head bh).data (c.disk (c.head bh).dev (c.head bh).blocknr))
    (hnone : ∀ dev block, findBuffer c dev block = none → c'.disk dev block = c.disk dev block) :
    seen c' P' = seen c P := by
  funext dev block
  unfold seen
  rw [findBuffer_ids hid hhash]
  cases hf : findBuffer c dev block with
  | none => exact hnone dev block hf
  | some bh =>
    have his := findBuffer_some hf
    have h0 : (c.head bh).dev ≠ 0 := fun h => by
      rw [← his.1, h, S.find_zero] at hf
      cases hf
    have := hbuf bh h0
    rw [his.1, his.2] at this
    exact this

/-- The two views of the block in a stale buffer. -/
theorem stale_views (S : Sound c) (his : (c.head bh).Is dev block) (h0 : dev ≠ 0) (hs : Stale c bh) :
    logical c dev block = (c.head bh).data ∧ reread c dev block = c.disk dev block := by
  have hh : Holds c bh := Or.inr (Or.inl hs.1)
  rw [logical, reread, seen_is S his h0, seen_is S his h0, either_pos hh, either_neg fun h => h.2 hs]
  exact ⟨rfl, rfl⟩

/-- Elsewhere they are the same. -/
theorem fresh_views (S : Sound c) (his : (c.head bh).Is dev block) (h0 : dev ≠ 0) (hs : ¬ Stale c bh) :
    reread c dev block = logical c dev block := by
  rw [reread, logical, seen_is S his h0, seen_is S his h0]
  exact either_congr (and_iff_left hs) _ _

/-- Where no buffer is stale `bread` brings the contents. -/
theorem reread_eq_logical (S : Sound c) (h : ∀ bh, (c.head bh).dev = dev → (c.head bh).dirt = false) :
    reread c dev block = logical c dev block := by
  cases hf : findBuffer c dev block with
  | none => rw [reread, logical, seen_none hf, seen_none hf]
  | some bh =>
    have hns : ¬ Stale c bh := fun hs => by
      rw [Stale, h bh (findBuffer_some hf).1] at hs
      cases hs.1
    have h0 : dev ≠ 0 := by
      rintro rfl
      rw [S.find_zero] at hf
      cases hf
    exact fresh_views S (findBuffer_some hf) h0 hns

/-! ## Flags that the views do not see -/

/-- No buffer gets dirty. -/
def NoDirtier (c c' : Cache) : Prop :=
  ∀ q, (c'.head q).dirt = true → (c.head q).dirt = true ∧ (c'.head q).dev = (c.head q).dev

/-- Both views, and the invariant, stay. -/
structure Same (c c' : Cache) : Prop where
  sound : Sound c'
  logical : logical c' = logical c
  reread : reread c' = reread c
  dirtier : NoDirtier c c'
  nr : c'.nr = c.nr

theorem Same.refl (S : Sound c) : Same c c := ⟨S, rfl, rfl, fun _ h => ⟨h, rfl⟩, rfl⟩

theorem NoDirtier.trans {d : Cache} (h : NoDirtier c c') (h' : NoDirtier c' d) : NoDirtier c d :=
  fun q hq =>
    have hq' := h' q hq
    have hq0 := h q hq'.1
    ⟨hq0.1, hq'.2.trans hq0.2⟩

theorem Same.trans {d : Cache} (h : Same c c') (h' : Same c' d) : Same c d :=
  ⟨h'.sound, h'.logical.trans h.logical, h'.reread.trans h.reread, h.dirtier.trans h'.dirtier,
    h'.nr.trans h.nr⟩

theorem Same.settled (h : Same c c') (hd : Settled c dev block) : Settled c' dev block := by
  rw [Settled, h.reread, h.logical]
  exact hd

/-- A buffer is counted or locked. -/
theorem Sound.modify (S : Sound c) (bh : Nat) {g : Head → Head}
    (hdata : (g (c.head bh)).data = (c.head bh).data)
    (hdev : (g (c.head bh)).dev = (c.head bh).dev) (hblock : (g (c.head bh)).blocknr =
      (c.head bh).blocknr)
    (huptodate : (g (c.head bh)).uptodate = (c.head bh).uptodate)
    (hdirt : (g (c.head bh)).dirt = (c.head bh).dirt)
    (hlock : (c.head bh).lock = true → (g (c.head bh)).lock = true) : Same c (c.modify bh g) := by
  have hhead : ∀ q, ((c.modify bh g).head q).data = (c.head q).data ∧
      ((c.modify bh g).head q).dev = (c.head q).dev ∧
      ((c.modify bh g).head q).blocknr = (c.head q).blocknr ∧
      ((c.modify bh g).head q).uptodate = (c.head q).uptodate ∧
      ((c.modify bh g).head q).dirt = (c.head q).dirt ∧
      ((c.head q).lock = true → ((c.modify bh g).head q).lock = true) := fun q => by
    by_cases hq : q = bh
    · rw [hq, modify_head]
      exact ⟨hdata, hdev, hblock, huptodate, hdirt, hlock⟩
    · rw [modify_other _ _ hq]
      exact ⟨rfl, rfl, rfl, rfl, rfl, id⟩
  have hid : ∀ q, ((c.modify bh g).head q).dev = (c.head q).dev ∧
      ((c.modify bh g).head q).blocknr = (c.head q).blocknr := fun q => ⟨(hhead q).2.1, (hhead q).2.2.1⟩
  have hw : ∀ q, (c.modify bh g).Writing q ↔ c.Writing q := fun q => Iff.rfl
  have hholds : ∀ q, Holds (c.modify bh g) q ↔ Holds c q := fun q => by
    rw [Holds, Holds, (hhead q).2.2.2.1, (hhead q).2.2.2.2.1, hw]
  have hstale : ∀ q, Stale (c.modify bh g) q ↔ Stale c q := fun q => by
    rw [Stale, Stale, (hhead q).2.2.2.1, (hhead q).2.2.2.2.1, hw]
  refine ⟨⟨S.chained.of_ids hid rfl, S.unique.of_ids hid, S.ring, fun q h0 => ?_, fun i r hr => ?_,
    S.single, S.table, fun q h0 hu hd hnw => ?_⟩, ?_, ?_, fun q hq => ?_, rfl⟩
  · rw [(hid q).1] at h0
    exact S.buffers q h0
  · obtain ⟨hl, his, h0, hread⟩ := S.request i r hr
    obtain ⟨-, h2, h3, h4, h5, h6⟩ := hhead r.bh
    rw [Head.Is, h2, h3, h4, h5]
    exact ⟨h6 hl, his, h0, hread⟩
  · obtain ⟨h1, h2, h3, h4, h5, -⟩ := hhead q
    rw [h2] at h0
    rw [h4] at hu
    rw [h5] at hd
    rw [h1, h2, h3]
    exact S.clean q h0 hu hd hnw
  · refine seen_keeps S hid rfl (fun q _ => ?_) fun _ _ _ => rfl
    rw [(hhead q).1]
    exact either_congr (hholds q) _ _
  · refine seen_keeps S hid rfl (fun q _ => ?_) fun _ _ _ => rfl
    rw [(hhead q).1]
    exact either_congr (and_congr (hholds q) (not_congr (hstale q))) _ _
  · obtain ⟨-, h2, -, -, h5, -⟩ := hhead q
    rw [h5] at hq
    exact ⟨hq, h2⟩

theorem Sound.hold (S : Sound c) (bh : Nat) : Same c (c.hold bh) :=
  S.modify bh rfl rfl rfl rfl rfl id

theorem Sound.drop (S : Sound c) (bh : Nat) : Same c (c.drop bh) :=
  S.modify bh rfl rfl rfl rfl rfl id

theorem Sound.lock (S : Sound c) (bh : Nat) : Same c (c.modify bh fun h => { h with lock := true }) :=
  S.modify bh rfl rfl rfl rfl rfl fun _ => rfl

/-! ## A request is finished -/

/-- What the drivers leave alone. -/
structure Quiet (c c' : Cache) : Prop extends Same c c' where
  keeps : Keeps c c'
  freeList : c'.freeList = c.freeList
  dirt : ∀ bh, (c'.head bh).dirt = (c.head bh).dirt
  idle : ∀ bh, Idle c bh → c'.head bh = c.head bh ∧ Idle c' bh

theorem Quiet.refl (S : Sound c) : Quiet c c :=
  ⟨.refl S, .refl c, rfl, fun _ => rfl, fun _ h => ⟨rfl, h⟩⟩

theorem Quiet.trans {d : Cache} (h : Quiet c c') (h' : Quiet c' d) : Quiet c d where
  toSame := h.toSame.trans h'.toSame
  keeps := h.keeps.trans h'.keeps
  freeList := h'.freeList.trans h.freeList
  dirt := fun q => (h'.dirt q).trans (h.dirt q)
  idle := fun q hq => ⟨(h'.idle q (h.idle q hq).2).1.trans (h.idle q hq).1, (h'.idle q (h.idle q hq).2).2⟩

theorem endRequest_lists (c : Cache) (i : Nat) (r : Request) :
    (c.endRequest i r true).nr = c.nr ∧ (c.endRequest i r true).freeList = c.freeList := by
  unfold Cache.endRequest Cache.transfer
  cases r.cmd <;> exact ⟨rfl, rfl⟩

/-- A request of another buffer does not concern the block of this one. -/
theorem Sound.other_block (S : Sound c) {i q : Nat} {r : Request} (hr : c.request i = some r)
    (hq : q ≠ r.bh) (h0 : (c.head q).dev ≠ 0) :
    ¬ (r.dev = (c.head q).dev ∧ r.block = (c.head q).blocknr) := by
  rintro ⟨hd, hb⟩
  obtain ⟨-, his, -⟩ := S.request i r hr
  exact hq (S.unique q r.bh h0 (hd.symm.trans his.1.symm) (hb.symm.trans his.2.symm))

/-- A read request is the only one of its buffer. -/
theorem Sound.reading (S : Sound c) {i : Nat} {r : Request} (hr : c.request i = some r)
    (hcmd : r.cmd = .read) : ¬ c.Writing r.bh := by
  rintro ⟨j, r', hr', hcmd', hbh⟩
  have hij := S.single j i r' r hr' hr hbh
  rw [hij, hr] at hr'
  cases hr'
  rw [hcmd] at hcmd'
  cases hcmd'

theorem endRequest_quiet (S : Sound c) {i : Nat} {r : Request} (hr : c.request i = some r) :
    Quiet c (c.endRequest i r true) := by
  obtain ⟨hlock, his, hr0, hread⟩ := S.request i r hr
  obtain ⟨hdisk, hreq, -⟩ := endRequest_rest c i r
  obtain ⟨hnr, hring⟩ := endRequest_lists c i r
  have K := Keeps.endRequest c i r true
  have hother : ∀ q, q ≠ r.bh → (c.endRequest i r true).head q = c.head q := fun q hq => by
    rw [endRequest_head, if_neg hq]
  have hself : (c.endRequest i r true).head r.bh = { c.head r.bh with
      data := if true ∧ r.cmd = .read then c.disk r.dev r.block else (c.head r.bh).data
      uptodate := true
      lock := false } := by rw [endRequest_head, if_pos rfl]
  have hid : ∀ q, ((c.endRequest i r true).head q).dev = (c.head q).dev ∧
      ((c.endRequest i r true).head q).blocknr = (c.head q).blocknr := fun q => ⟨K.dev q, K.blocknr q⟩
  have hdirt : ∀ q, ((c.endRequest i r true).head q).dirt = (c.head q).dirt := fun q => by
    rw [endRequest_head]
    split <;> rfl
  -- the other requests
  have hrest : ∀ j r', (c.endRequest i r true).request j = some r' → c.request j = some r' ∧ r'.bh ≠
    r.bh := by
    intro j r' hj
    rw [hreq] at hj
    by_cases hji : j = i
    · rw [hji, Function.update_self] at hj
      cases hj
    · rw [Function.update_of_ne hji] at hj
      exact ⟨hj, fun hbh => hji (S.single j i r' r hj hr hbh)⟩
  have hw : ∀ q, q ≠ r.bh → ((c.endRequest i r true).Writing q ↔ c.Writing q) := by
    refine fun q hq => ⟨?_, ?_⟩
    · rintro ⟨j, r', hj, hcmd, hbh⟩
      exact ⟨j, r', (hrest j r' hj).1, hcmd, hbh⟩
    · rintro ⟨j, r', hj, hcmd, rfl⟩
      refine ⟨j, r', ?_, hcmd, rfl⟩
      rw [hreq, Function.update_of_ne, hj]
      rintro rfl
      rw [hr] at hj
      cases hj
      exact hq rfl
  have hdiskq : ∀ q, q ≠ r.bh → (c.head q).dev ≠ 0 →
      (c.endRequest i r true).disk (c.head q).dev (c.head q).blocknr
        = c.disk (c.head q).dev (c.head q).blocknr := fun q hq h0 => by
    rw [hdisk, if_neg fun h => S.other_block hr hq h0 h.2]
  -- the buffer of the request: what it held before is what it has afterwards
  have hdone : ((c.endRequest i r true).head r.bh).data =
      either (Holds c r.bh ∧ ¬ Stale c r.bh) (c.head r.bh).data (c.disk r.dev r.block) ∧
      (Holds c r.bh ↔ Holds c r.bh ∧ ¬ Stale c r.bh) ∧
      ((c.endRequest i r true).head r.bh).data =
        (c.endRequest i r true).disk (c.head r.bh).dev (c.head r.bh).blocknr := by
    rw [hself, hdisk, his.1, his.2]
    cases hcmd : r.cmd with
    | read =>
      have hnw := S.reading hr hcmd
      obtain ⟨hu, hd⟩ := hread hcmd
      have hnot : ¬ Holds c r.bh := by
        rintro (h | h | h)
        · rw [hu] at h
          cases h
        · rw [hd] at h
          cases h
        · exact hnw h
      exact ⟨(either_neg fun h => hnot h.1).symm, ⟨fun h => absurd h hnot, And.left⟩, rfl⟩
    | write =>
      have hwr : c.Writing r.bh := ⟨i, r, hr, hcmd, rfl⟩
      have hns : ¬ Stale c r.bh := fun h => h.2.2 hwr
      have hread : ¬ (true = true ∧ Cmd.write = Cmd.read) := nofun
      dsimp only
      rw [if_neg hread, if_pos ⟨rfl, rfl, rfl⟩]
      exact ⟨(either_pos ⟨Or.inr (Or.inr hwr), hns⟩).symm, ⟨fun h => ⟨h, hns⟩, And.left⟩, rfl⟩
  have hup : ((c.endRequest i r true).head r.bh).uptodate = true := by rw [hself]
  have hheld : Holds (c.endRequest i r true) r.bh := Or.inl hup
  have hnone : ∀ dev block, findBuffer c dev block = none →
      (c.endRequest i r true).disk dev block = c.disk dev block := fun dev block hf => by
    rw [hdisk, if_neg]
    rintro ⟨-, rfl, rfl⟩
    rw [S.find his hr0] at hf
    cases hf
  obtain ⟨hdata, hiff, hclean⟩ := hdone
  refine ⟨⟨⟨S.chained.keeps K, S.unique.keeps K, ?_, ?_, ?_, ?_, fun j hj => ?_, ?_⟩, ?_, ?_,
    fun q hq => ⟨(hdirt q).symm.trans hq, K.dev q⟩, hnr⟩, K, hring, hdirt, ?_⟩
  · rw [hring, hnr]
    exact S.ring
  · intro q h0
    rw [hnr]
    exact S.buffers q (by rw [← K.dev]; exact h0)
  · intro j r' hj
    obtain ⟨hj, hne⟩ := hrest j r' hj
    rw [hother _ hne]
    exact S.request j r' hj
  · exact fun j k r1 r2 hj hk => S.single j k r1 r2 (hrest j r1 hj).1 (hrest k r2 hk).1
  · cases hj' : (c.endRequest i r true).request j with
    | none => rfl
    | some r' => exact absurd ((S.table j hj).symm.trans (hrest j r' hj').1) nofun
  · intro q h0 hu hd hnw
    by_cases hq : q = r.bh
    · rw [hq, K.dev, K.blocknr]
      exact hclean
    · rw [hother q hq] at h0 hu hd ⊢
      rw [hdiskq q hq h0]
      exact S.clean q h0 hu hd fun h => hnw ((hw q hq).mpr h)
  · refine seen_keeps S hid K.hash (fun q h0 => ?_) hnone
    by_cases hq : q = r.bh
    · rw [hq, his.1, his.2, either_pos hheld, hdata]
      exact (either_congr hiff _ _).symm
    · have hholds : Holds (c.endRequest i r true) q ↔ Holds c q := by
        rw [Holds, Holds, hw q hq, hother q hq]
      rw [hother q hq, hdiskq q hq h0]
      exact either_congr hholds _ _
  · refine seen_keeps S hid K.hash (fun q h0 => ?_) hnone
    by_cases hq : q = r.bh
    · have hns : ¬ Stale (c.endRequest i r true) r.bh := fun h => by
        rw [Stale, hup] at h
        cases h.2.1
      rw [hq, his.1, his.2, either_pos ⟨hheld, hns⟩, hdata]
    · have hholds : Holds (c.endRequest i r true) q ↔ Holds c q := by
        rw [Holds, Holds, hw q hq, hother q hq]
      have hstale : Stale (c.endRequest i r true) q ↔ Stale c q := by
        rw [Stale, Stale, hw q hq, hother q hq]
      rw [hother q hq, hdiskq q hq h0]
      exact either_congr (and_congr hholds (not_congr hstale)) _ _
  · intro q hq
    exact ⟨hother q fun h => hq i r hr h.symm, fun j r' hj => hq j r' (hrest j r' hj).1⟩

theorem finishAll_quiet (S : Sound c) (is : List Nat) : Quiet c (finishAll c is) := by
  induction is generalizing c with
  | nil => exact .refl S
  | cons i is ih =>
    have hfirst : Quiet c (finish c i) := by
      unfold finish
      cases hr : c.request i with
      | none => exact .refl S
      | some r => exact endRequest_quiet S hr
    exact hfirst.trans (ih hfirst.sound)

/-! ## A new identity -/

theorem scanFree_mem {best : Option Nat} {ring : List Nat} (h : scanFree c best ring = some bh) :
    best = some bh ∨ bh ∈ ring := by
  induction ring generalizing best with
  | nil => exact Or.inl h
  | cons q ring ih =>
    rw [scanFree] at h
    split at h
    · exact (ih h).imp_right (List.mem_cons_of_mem q)
    · split at h
      · split at h
        · cases h
          exact Or.inr List.mem_cons_self
        · rcases ih h with h | h
          · cases h
            exact Or.inr List.mem_cons_self
          · exact Or.inr (List.mem_cons_of_mem q h)
      · exact (ih h).imp_right (List.mem_cons_of_mem q)

theorem take_lists (c : Cache) (bh : Nat) (dev : Dev) (block : Block) :
    (take c bh dev block).nr = c.nr ∧
      ∀ q, q ∈ (take c bh dev block).freeList ↔ q ∈ c.freeList ∨ q = bh := by
  have hfree : ∀ q, q ∈ c.freeList.filter (· ≠ bh) ++ [bh] ↔ q ∈ c.freeList ∨ q = bh := fun q => by
    rw [List.mem_append, List.mem_filter, List.mem_singleton, decide_eq_true_eq]
    by_cases h : q = bh
    · exact iff_of_true (Or.inr h) (Or.inr h)
    · rw [and_iff_left h]
  unfold take insertIntoQueues
  dsimp only
  split <;> exact ⟨rfl, hfree⟩

/-- `getblk` takes a buffer that is clean and unlocked: nothing is lost with it. -/
theorem take_same (S : Sound c) (hbh : bh < c.nr) (hlock : (c.head bh).lock = false)
    (hdirt : (c.head bh).dirt = false) (hfind : findBuffer c dev block = none) (h0 : dev ≠ 0) :
    Same c (take c bh dev block) := by
  obtain ⟨hreq, hdisk, -⟩ := take_rest c bh dev block
  obtain ⟨hnr, hfree⟩ := take_lists c bh dev block
  have hself := take_head c bh dev block
  have hother : ∀ q, q ≠ bh → (take c bh dev block).head q = c.head q := fun _ hq => take_other c dev
    block hq
  have hidle := S.idle hlock
  have hw : ∀ q, (take c bh dev block).Writing q ↔ c.Writing q := fun q => by
    unfold Cache.Writing
    rw [hreq]
  have hchained := take_chained S.chained bh dev block
  have hunique := take_unique S.chained S.unique bh hfind
  have S' : Sound (take c bh dev block) := by
    refine ⟨hchained, hunique, fun q hq => ?_, fun q hq => ?_, fun i r hr => ?_, ?_, ?_,
      fun q hq hu hd hnw => ?_⟩
    · rw [hnr]
      rcases (hfree q).mp hq with h | rfl
      · exact S.ring q h
      · exact hbh
    · rw [hnr]
      by_cases h : q = bh
      · rw [h]
        exact hbh
      · rw [hother q h] at hq
        exact S.buffers q hq
    · rw [hreq] at hr
      rw [hother _ (hidle i r hr)]
      exact S.request i r hr
    · rw [hreq]
      exact S.single
    · rw [hreq]
      exact S.table
    · by_cases h : q = bh
      · rw [h, hself] at hu
        cases hu
      · rw [hother q h] at hq hu hd ⊢
        rw [hdisk]
        exact S.clean q hq hu hd fun hwr => hnw ((hw q).mpr hwr)
  -- a view that sees nothing in a buffer with the disk's contents
  have hview : ∀ P P' : Nat → Prop, (∀ q, q ≠ bh → (P' q ↔ P q)) → ¬ P' bh →
      (P bh → (c.head bh).uptodate = true) → seen (take c bh dev block) P' = seen c P := by
    intro P P' hP hbh' hPbh
    funext d b
    by_cases hd : d = 0
    · rw [hd, seen_none (S'.find_zero b), seen_none (S.find_zero b), hdisk]
    · by_cases hdb : d = dev ∧ b = block
      · have his : ((take c bh dev block).head bh).Is dev block := by
          rw [hself]
          exact ⟨rfl, rfl⟩
        rw [hdb.1, hdb.2, seen_is S' his h0, either_neg hbh', seen_none hfind, hdisk]
      · have hgone : (∀ q, q ≠ bh → ¬ (c.head q).Is d b) → findBuffer (take c bh dev block)
          d b = none := by
          intro hnone
          cases hq : findBuffer (take c bh dev block) d b with
          | none => rfl
          | some q =>
            have hid := findBuffer_some hq
            by_cases h : q = bh
            · rw [h, hself] at hid
              exact absurd ⟨hid.1.symm, hid.2.symm⟩ hdb
            · rw [hother q h] at hid
              exact absurd hid (hnone q h)
        cases hf : findBuffer c d b with
        | none =>
          rw [seen_none hf, seen_none (hgone fun q _ => findBuffer_none S.chained hd hf q), hdisk]
        | some q =>
          have hid := findBuffer_some hf
          by_cases h : q = bh
          · -- the identity that the buffer had
            have hnone : ∀ q', q' ≠ bh → ¬ (c.head q').Is d b := fun q' h' hid' =>
              h' ((Option.some.inj ((S.find hid' hd).symm.trans hf)).trans h)
            rw [h] at hid
            rw [seen_none (hgone hnone), seen_is S hid hd, hdisk]
            by_cases hPq : P bh
            · rw [either_pos hPq, S.clean bh (by rw [hid.1]; exact hd) (hPbh hPq) hdirt hidle.not_writing,
                hid.1, hid.2]
            · rw [either_neg hPq]
          · have hid' : ((take c bh dev block).head q).Is d b := by
              rw [hother q h]
              exact hid
            rw [seen_is S' hid' hd, seen_is S hid hd, hother q h, hdisk]
            exact either_congr (hP q h) _ _
  have hholds : ∀ q, q ≠ bh → (Holds (take c bh dev block) q ↔ Holds c q) := fun q h => by
    rw [Holds, Holds, hw, hother q h]
  have hstale : ∀ q, q ≠ bh → (Stale (take c bh dev block) q ↔ Stale c q) := fun q h => by
    rw [Stale, Stale, hw, hother q h]
  have hnot : ¬ Holds (take c bh dev block) bh := by
    rw [Holds, hw, hself]
    rintro (h | h | h)
    · cases h
    · cases h
    · exact hidle.not_writing h
  have hup : Holds c bh → (c.head bh).uptodate = true := by
    rintro (h | h | h)
    · exact h
    · rw [hdirt] at h
      cases h
    · exact absurd h hidle.not_writing
  refine ⟨S', hview _ _ hholds hnot hup,
    hview _ _ (fun q h => and_congr (hholds q h) (not_congr (hstale q h))) (fun h => hnot h.1)
      fun h => hup h.1, fun q hq => ?_, hnr⟩
  by_cases h : q = bh
  · rw [h, hself] at hq
    cases hq
  · rw [hother q h] at hq ⊢
    exact ⟨hq, rfl⟩

/-! ## Requests and stores -/

/-- A view after a change of one buffer, which keeps its identity, and of nothing on the disk. -/
theorem seen_put (S : Sound c) {P P' : Nat → Prop} {data : Data} (h0 : (c.head bh).dev ≠ 0)
    (hid : ∀ q, (c'.head q).dev = (c.head q).dev ∧ (c'.head q).blocknr = (c.head q).blocknr)
    (hdisk : c'.disk = c.disk)
    (hother : ∀ q, q ≠ bh → (c'.head q).data = (c.head q).data ∧ (P' q ↔ P q))
    (hself : either (P' bh) (c'.head bh).data (c.disk (c.head bh).dev (c.head bh).blocknr) = data)
    (S' : Sound c') : seen c' P' = put (seen c P) (c.head bh).dev (c.head bh).blocknr data := by
  have hfind : ∀ d b, findBuffer c' d b = none → findBuffer c d b = none := fun d b hf => by
    cases hq : findBuffer c d b with
    | none => rfl
    | some q =>
      have his := findBuffer_some hq
      have hd : d ≠ 0 := fun h => by
        rw [h, S.find_zero] at hq
        cases hq
      have his' : (c'.head q).Is d b := by
        rw [Head.Is, (hid q).1, (hid q).2]
        exact his
      rw [S'.find his' hd] at hf
      cases hf
  funext d b
  by_cases hdb : d = (c.head bh).dev ∧ b = (c.head bh).blocknr
  · have his : (c'.head bh).Is (c.head bh).dev (c.head bh).blocknr := hid bh
    rw [hdb.1, hdb.2, put_self, seen_is S' his h0, hdisk, hself]
  · rw [put_other hdb]
    cases hf : findBuffer c' d b with
    | none => rw [seen_none hf, seen_none (hfind d b hf), hdisk]
    | some q =>
      have his := findBuffer_some hf
      have hd : d ≠ 0 := fun h => by
        rw [h, S'.find_zero] at hf
        cases hf
      have his' : (c.head q).Is d b := by
        rw [Head.Is, (hid q).1, (hid q).2] at his
        exact his
      have hq : q ≠ bh := by
        rintro rfl
        exact hdb ⟨his'.1.symm, his'.2.symm⟩
      rw [seen_is S' his hd, seen_is S his' hd, hdisk, (hother q hq).1]
      exact either_congr (hother q hq).2 _ _

/-- The cache after `add_request`. -/
theorem addRequest_spec (cmd : Cmd) (S : Sound c) {i : Nat} (hi : i < 32) (h0 : (c.head bh).dev ≠ 0)
    (hlock : (c.head bh).lock = true) (hidle : Idle c bh) (hfree : c.request i = none)
    (hread : cmd = .read → (c.head bh).uptodate = false) (hwrite : cmd = .write →
      (c.head bh).dirt = true) :
    Sound (c.addRequest i cmd bh) ∧ ((c.addRequest i cmd bh).head bh).dirt = false ∧
      (∀ q, q ≠ bh → (c.addRequest i cmd bh).head q = c.head q) ∧
      (cmd = .read → logical (c.addRequest i cmd bh) = put (logical c) (c.head bh).dev (c.head bh).blocknr
          (reread c (c.head bh).dev (c.head bh).blocknr) ∧ reread (c.addRequest i cmd bh) = reread c) ∧
      (cmd = .write → logical (c.addRequest i cmd bh) = logical c ∧
        reread (c.addRequest i cmd bh) = put (reread c) (c.head bh).dev (c.head bh).blocknr
          (logical c (c.head bh).dev (c.head bh).blocknr)) := by
  have K := Keeps.addRequest c i cmd bh
  have hid : ∀ q, ((c.addRequest i cmd bh).head q).dev = (c.head q).dev ∧
      ((c.addRequest i cmd bh).head q).blocknr = (c.head q).blocknr := fun q => ⟨K.dev q, K.blocknr q⟩
  have hself : (c.addRequest i cmd bh).head bh = { c.head bh with dirt := false } := by
    unfold Cache.addRequest
    rw [modify_head]
  have hother : ∀ q, q ≠ bh → (c.addRequest i cmd bh).head q = c.head q := fun q hq => by
    unfold Cache.addRequest
    rw [modify_other _ _ hq]
  have hreq : (c.addRequest i cmd bh).request =
      Function.update c.request i (some ⟨(c.head bh).dev, cmd, (c.head bh).blocknr, bh⟩) := rfl
  have hold : ∀ j r, (c.addRequest i cmd bh).request j = some r → (j = i ∧ r = ⟨(c.head bh).dev, cmd,
      (c.head bh).blocknr, bh⟩) ∨ (j ≠ i ∧ c.request j = some r) := fun j r hj => by
    rw [hreq] at hj
    by_cases hji : j = i
    · rw [hji, Function.update_self] at hj
      exact Or.inl ⟨hji, (Option.some.inj hj).symm⟩
    · rw [Function.update_of_ne hji] at hj
      exact Or.inr ⟨hji, hj⟩
  have hnew : (c.addRequest i cmd bh).request i = some ⟨(c.head bh).dev, cmd, (c.head bh).blocknr, bh⟩
    := by
    rw [hreq, Function.update_self]
  have hw : ∀ q, q ≠ bh → ((c.addRequest i cmd bh).Writing q ↔ c.Writing q) := by
    refine fun q hq => ⟨?_, ?_⟩
    · rintro ⟨j, r, hj, hcmd, hbh⟩
      rcases hold j r hj with ⟨-, rfl⟩ | ⟨-, hj⟩
      · exact absurd hbh.symm hq
      · exact ⟨j, r, hj, hcmd, hbh⟩
    · rintro ⟨j, r, hj, hcmd, hbh⟩
      refine ⟨j, r, ?_, hcmd, hbh⟩
      rw [hreq, Function.update_of_ne, hj]
      rintro rfl
      rw [hfree] at hj
      cases hj
  have hwbh : (c.addRequest i cmd bh).Writing bh ↔ cmd = .write := by
    refine ⟨?_, fun h => ⟨i, _, hnew, h, rfl⟩⟩
    rintro ⟨j, r, hj, hcmd, hbh⟩
    rcases hold j r hj with ⟨-, rfl⟩ | ⟨-, hj⟩
    · exact hcmd
    · exact absurd hbh (hidle j r hj)
  have S' : Sound (c.addRequest i cmd bh) := by
    refine ⟨S.chained.keeps K, S.unique.keeps K, S.ring, fun q hq => ?_, fun j r hj => ?_,
      fun j k r r' hj hk hbh => ?_, fun j hj => ?_, fun q hq hu hd hnw => ?_⟩
    · rw [K.dev] at hq
      exact S.buffers q hq
    · rcases hold j r hj with ⟨-, rfl⟩ | ⟨-, hj⟩
      · rw [hself]
        exact ⟨hlock, ⟨rfl, rfl⟩, h0, fun h => ⟨hread h, rfl⟩⟩
      · rw [hother _ (hidle j r hj)]
        exact S.request j r hj
    · rcases hold j r hj with ⟨hji, rfl⟩ | ⟨-, hj⟩ <;> rcases hold k r' hk with ⟨hki, rfl⟩ | ⟨-, hk⟩
      · rw [hji, hki]
      · exact absurd hbh.symm (hidle k r' hk)
      · exact absurd hbh (hidle j r hj)
      · exact S.single j k r r' hj hk hbh
    · rw [hreq, Function.update_of_ne (by omega)]
      exact S.table j hj
    · by_cases h : q = bh
      · rw [h, hself] at hu
        rw [h, hwbh] at hnw
        cases cmd with
        | read => exact absurd ((hread rfl).symm.trans hu) nofun
        | write => exact absurd rfl hnw
      · rw [hother q h] at hq hu hd ⊢
        exact S.clean q hq hu hd fun hwr => hnw ((hw q h).mpr hwr)
  have hholds : ∀ q, q ≠ bh → (Holds (c.addRequest i cmd bh) q ↔ Holds c q) := fun q hq => by
    rw [Holds, Holds, hw q hq, hother q hq]
  have hstale : ∀ q, q ≠ bh → (Stale (c.addRequest i cmd bh) q ↔ Stale c q) := fun q hq => by
    rw [Stale, Stale, hw q hq, hother q hq]
  have his : (c.head bh).Is (c.head bh).dev (c.head bh).blocknr := ⟨rfl, rfl⟩
  refine ⟨S', by rw [hself], hother, fun hcmd => ?_, fun hcmd => ?_⟩
  · -- nothing in the buffer counts any more
    have hnot : ¬ Holds (c.addRequest i cmd bh) bh := by
      rw [Holds, hwbh, hself, hcmd]
      rintro (h | h | h)
      · exact absurd ((hread hcmd).symm.trans h) nofun
      · cases h
      · cases h
    have hbefore : ¬ (Holds c bh ∧ ¬ Stale c bh) := by
      rintro ⟨h | h | h, hns⟩
      · exact absurd ((hread hcmd).symm.trans h) nofun
      · exact hns ⟨h, hread hcmd, hidle.not_writing⟩
      · exact hidle.not_writing h
    have hre : reread c (c.head bh).dev (c.head bh).blocknr = c.disk (c.head bh).dev
      (c.head bh).blocknr := by
      rw [reread, seen_is S his h0, either_neg hbefore]
    refine ⟨?_, ?_⟩
    · refine seen_put S h0 hid rfl (fun q hq => ⟨by rw [hother q hq], hholds q hq⟩) ?_ S'
      rw [hre, either_neg hnot]
    · rw [← put_same (reread c) (c.head bh).dev (c.head bh).blocknr]
      refine seen_put S h0 hid rfl (fun q hq => ⟨by rw [hother q hq],
        and_congr (hholds q hq) (not_congr (hstale q hq))⟩) ?_ S'
      rw [hre, either_neg fun h => hnot h.1]
  · have hafter : Holds (c.addRequest i cmd bh) bh := Or.inr (Or.inr (hwbh.mpr hcmd))
    have hfresh : ¬ Stale (c.addRequest i cmd bh) bh := fun h => h.2.2 (hwbh.mpr hcmd)
    have hbefore : Holds c bh := Or.inr (Or.inl (hwrite hcmd))
    have hlog : logical c (c.head bh).dev (c.head bh).blocknr = (c.head bh).data := by
      rw [logical, seen_is S his h0, either_pos hbefore]
    refine ⟨?_, ?_⟩
    · rw [← put_same (logical c) (c.head bh).dev (c.head bh).blocknr]
      refine seen_put S h0 hid rfl (fun q hq => ⟨by rw [hother q hq], hholds q hq⟩) ?_ S'
      rw [either_pos hafter, hself, hlog]
    · refine seen_put S h0 hid rfl (fun q hq => ⟨by rw [hother q hq],
        and_congr (hholds q hq) (not_congr (hstale q hq))⟩) ?_ S'
      rw [either_pos ⟨hafter, hfresh⟩, hself, hlog]

/-- A client stores in a buffer that is unlocked. It has its effect on what `bread` brings if the buffer
is up to date. -/
theorem store_spec (S : Sound c) {f : Data → Data} (h0 : (c.head bh).dev ≠ 0)
    (hlock : (c.head bh).lock = false) : Sound (c.store bh f) ∧
      logical (c.store bh f) = put (logical c) (c.head bh).dev (c.head bh).blocknr (f (c.head bh).data) ∧
      ((c.head bh).uptodate = true →
        reread (c.store bh f) = put (reread c) (c.head bh).dev (c.head bh).blocknr (f (c.head bh).data) ∧
        (c.head bh).data = reread c (c.head bh).dev (c.head bh).blocknr) := by
  have K := Keeps.store c bh f
  have hid : ∀ q, ((c.store bh f).head q).dev = (c.head q).dev ∧
      ((c.store bh f).head q).blocknr = (c.head q).blocknr := fun q => ⟨K.dev q, K.blocknr q⟩
  have hself : (c.store bh f).head bh = { c.head bh with data := f (c.head bh).data, dirt := true } :=
    modify_head _ _ _
  have hother : ∀ q, q ≠ bh → (c.store bh f).head q = c.head q := fun q hq => modify_other _ _ hq
  have hidle := S.idle hlock
  have hw : ∀ q, (c.store bh f).Writing q ↔ c.Writing q := fun q => Iff.rfl
  have S' : Sound (c.store bh f) := by
    refine ⟨S.chained.keeps K, S.unique.keeps K, S.ring, fun q hq => ?_, fun j r hj => ?_, S.single,
      S.table, fun q hq hu hd hnw => ?_⟩
    · rw [K.dev] at hq
      exact S.buffers q hq
    · rw [hother _ (hidle j r hj)]
      exact S.request j r hj
    · by_cases h : q = bh
      · rw [h, hself] at hd
        cases hd
      · rw [hother q h] at hq hu hd ⊢
        exact S.clean q hq hu hd hnw
  have hholds : ∀ q, q ≠ bh → (Holds (c.store bh f) q ↔ Holds c q) := fun q hq => by
    rw [Holds, Holds, hw, hother q hq]
  have hstale : ∀ q, q ≠ bh → (Stale (c.store bh f) q ↔ Stale c q) := fun q hq => by
    rw [Stale, Stale, hw, hother q hq]
  have hheld : Holds (c.store bh f) bh := Or.inr (Or.inl (by rw [hself]))
  refine ⟨S', ?_, fun hup => ?_⟩
  · refine seen_put S h0 hid rfl (fun q hq => ⟨by rw [hother q hq], hholds q hq⟩) ?_ S'
    rw [either_pos hheld, hself]
  · have hfresh : ¬ Stale (c.store bh f) bh := fun h => by
      rw [Stale, hself] at h
      exact absurd (hup.symm.trans h.2.1) nofun
    have hbefore : Holds c bh ∧ ¬ Stale c bh := ⟨Or.inl hup, fun h => absurd (hup.symm.trans h.2.1) nofun⟩
    refine ⟨?_, ?_⟩
    · refine seen_put S h0 hid rfl (fun q hq => ⟨by rw [hother q hq],
        and_congr (hholds q hq) (not_congr (hstale q hq))⟩) ?_ S'
      rw [either_pos ⟨hheld, hfresh⟩, hself]
    · rw [reread, seen_is S ⟨rfl, rfl⟩ h0, either_pos hbefore]

/-- An idle cache without dirty buffers of a device: the disk has the contents. -/
theorem logical_disk (S : Sound c) (hidle : ∀ i < 32, c.request i = none)
    (hclean : ∀ bh < c.nr, (c.head bh).dev = dev → (c.head bh).dirt = false) :
    c.disk dev block = logical c dev block := by
  cases hf : findBuffer c dev block with
  | none => rw [logical, seen_none hf]
  | some bh =>
    have his := findBuffer_some hf
    have h0 : dev ≠ 0 := by
      rintro rfl
      rw [S.find_zero] at hf
      cases hf
    have hd0 : (c.head bh).dev ≠ 0 := by rw [his.1]; exact h0
    have hd := hclean bh (S.buffers bh hd0) his.1
    have hnw : ¬ c.Writing bh := by
      rintro ⟨i, r, hr, -⟩
      by_cases hi : i < 32
      · rw [hidle i hi] at hr
        cases hr
      · rw [S.table i (by omega)] at hr
        cases hr
    rw [logical, seen_is S his h0]
    by_cases hh : Holds c bh
    · have hu : (c.head bh).uptodate = true := by
        rcases hh with h | h | h
        · exact h
        · exact absurd (hd.symm.trans h) nofun
        · exact absurd h hnw
      rw [either_pos hh, S.clean bh hd0 hu hd hnw, his.1, his.2]
    · rw [either_neg hh]

end Linux011.Sync

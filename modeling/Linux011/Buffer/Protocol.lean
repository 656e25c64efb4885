import Linux011.Buffer.Invariant

/-!
# The buffer cache protocol

Every event keeps the invariant, as long as no buffer has 256 references at once. With it: no two
buffers carry the same identity, whoever holds a buffer has the one he asked for, and a buffer gets
a new identity only when it is unused, unlocked and clean.
-/

namespace Linux011.Buffer

variable {ι : Type} [DecidableEq ι] [Fintype ι] {s s' : Sys ι} {t : ι} {f : Frame}
  {rest fs : List Frame} {c c' : Cache} {ramdisk : Bool}

/-! ## Kinds of moves -/

/-- The usual move: identities and counts stay, and so do the references. -/
theorem Inv.stay (I : Inv s) (hrun : s.current = some t) (hf : s.stack t = f :: rest)
    (K : Keeps s.cache c') {cur : Option ι} (hrefs : ∀ bh, stackRefs fs bh = f.refs.count bh)
    (hclaim : ∀ g ∈ fs, g.Claim c') (hpark : ∀ g ∈ fs.tail, g.parkable = true)
    (hcrit : ∀ g, fs.head? = some g → g.critical = true → cur = some t ∧ g.Critical c') :
    Inv (s.goto t c' (fs ++ rest) cur) := by
  have M : Move s (s.goto t c' (fs ++ rest) cur) t [f] fs rest :=
    ⟨hrun, hf, rfl, fun _ _ => rfl⟩
  have hsame : ∀ bh, (s.goto t c' (fs ++ rest) cur).refs bh = s.refs bh := by
    intro bh
    have h1 := M.refs bh
    have h2 : (s.goto t c' (fs ++ rest) cur).held t = s.held t := rfl
    rw [hrefs bh, stackRefs_cons, stackRefs_nil, h2] at h1
    omega
  refine I.move M (fun bh => ?_) (fun bh => ?_) (I.chained.keeps K) (I.unique.keeps K)
    (fun bh _ => ⟨K.dev bh, K.blocknr bh⟩) (absurd · (List.cons_ne_nil f []))
    hclaim (fun r hr => Or.inl hr) hpark hcrit
  · rw [hsame]
    exact I.small bh
  · rw [hsame]
    exact (K.count bh).trans (I.count bh)

/-- A function that returns leaves no frame of its own. -/
theorem head?_nil {P : Frame → Prop} : ∀ g, ([] : List Frame).head? = some g → P g := by
  intro g hg
  cases hg

/-- The client gets the reference of the frame. -/
theorem Inv.hand (I : Inv s) (hrun : s.current = some t) (hf : s.stack t = f :: rest) {r : Ref}
    (hrefs : f.refs = [r.bh]) (hr : (s.cache.head r.bh).Is r.dev r.block) :
    Inv { s.goto t s.cache rest (some t) with
      held := Function.update s.held t (r :: s.held t) } := by
  generalize hs' : { s.goto t s.cache rest (some t) with
    held := Function.update s.held t (r :: s.held t) } = s'
  have hcache : s'.cache = s.cache := by rw [← hs']; rfl
  have hheld : s'.held t = r :: s.held t := by rw [← hs']; exact Function.update_self ..
  have M : Move s s' t [f] [] rest :=
    ⟨hrun, hf, by rw [← hs']; rfl, fun u hu => by rw [← hs']; exact Function.update_of_ne hu ..⟩
  have hsame : ∀ bh, s'.refs bh = s.refs bh := by
    intro bh
    have h1 := M.refs bh
    rw [stackRefs_cons, stackRefs_nil, hheld, heldRefs_cons, hrefs, List.count_singleton] at h1
    simp only [beq_iff_eq] at h1
    omega
  refine I.move M (fun bh => by rw [hsame]; exact I.small bh)
    (fun bh => by rw [hcache, hsame]; exact I.count bh) (by rw [hcache]; exact I.chained)
    (by rw [hcache]; exact I.unique) (fun bh _ => by rw [hcache]; exact ⟨rfl, rfl⟩)
    (absurd · (List.cons_ne_nil f [])) (List.forall_mem_nil _) (fun q hq => ?_) (List.forall_mem_nil _)
    head?_nil
  rw [hheld, List.mem_cons] at hq
  rcases hq with rfl | hq
  · rw [hcache]
    exact Or.inr hr
  · exact Or.inl hq

theorem hold_count (c : Cache) (bh q : Nat) (h : (c.head bh).count + 1 < 256) :
    ((c.hold bh).head q).count = (c.head q).count + if bh = q then 1 else 0 := by
  by_cases hq : q = bh
  · rw [hq, Cache.hold, modify_head, if_pos rfl]
    exact Nat.mod_eq_of_lt h
  · rw [Cache.hold, modify_other _ _ hq, if_neg (Ne.symm hq), Nat.add_zero]

theorem drop_count (c : Cache) (bh q : Nat) (h0 : 0 < (c.head bh).count)
    (h : (c.head bh).count < 256) :
    ((c.drop bh).head q).count + (if bh = q then 1 else 0) = (c.head q).count := by
  by_cases hq : q = bh
  · rw [hq, Cache.drop, modify_head, if_pos rfl]
    show ((c.head bh).count + 255) % 256 + 1 = _
    omega
  · rw [Cache.drop, modify_other _ _ hq, if_neg (Ne.symm hq), Nat.add_zero]

/-- A change of `b_count` alone. -/
theorem modify_ids (c : Cache) (bh : Nat) (g : Head → Nat) (q : Nat) :
    ((c.modify bh fun h => { h with count := g h }).head q).dev = (c.head q).dev ∧
      ((c.modify bh fun h => { h with count := g h }).head q).blocknr = (c.head q).blocknr := by
  by_cases hq : q = bh
  · rw [hq, modify_head]
    exact ⟨rfl, rfl⟩
  · rw [modify_other _ _ hq]
    exact ⟨rfl, rfl⟩

theorem hold_ids (c : Cache) (bh q : Nat) : ((c.hold bh).head q).dev = (c.head q).dev ∧
    ((c.hold bh).head q).blocknr = (c.head q).blocknr :=
  modify_ids c bh (fun h => (h.count + 1) % 256) q

theorem drop_ids (c : Cache) (bh q : Nat) : ((c.drop bh).head q).dev = (c.head q).dev ∧
    ((c.drop bh).head q).blocknr = (c.head q).blocknr :=
  modify_ids c bh (fun h => (h.count + 255) % 256) q

theorem Chained.of_ids (h : Chained c) (hid : ∀ q, (c'.head q).dev = (c.head q).dev ∧
    (c'.head q).blocknr = (c.head q).blocknr) (hh : c'.hashTable = c.hashTable) : Chained c' := by
  intro k q
  rw [hh, (hid q).1, (hid q).2]
  exact h k q

theorem Unique.of_ids (h : Unique c) (hid : ∀ q, (c'.head q).dev = (c.head q).dev ∧
    (c'.head q).blocknr = (c.head q).blocknr) : Unique c' := by
  intro q q' h0 hd hb
  rw [(hid q).1] at h0
  rw [(hid q).1, (hid q').1] at hd
  rw [(hid q).2, (hid q').2] at hb
  exact h q q' h0 hd hb

/-- `b_count++` with a new reference in the frame. -/
theorem Inv.hold (I : Inv s) (hrun : s.current = some t) (hf : s.stack t = f :: rest) {g : Frame}
    {bh : Nat} (hrefs : g.refs = bh :: f.refs) (hclaim : g.Claim (s.cache.hold bh))
    (hcrit : g.critical = false)
    (hsmall : ∀ q, (s.goto t (s.cache.hold bh) (g :: rest) (some t)).refs q < 256) :
    Inv (s.goto t (s.cache.hold bh) (g :: rest) (some t)) := by
  have M : Move s (s.goto t (s.cache.hold bh) (g :: rest) (some t)) t [f] [g] rest :=
    ⟨hrun, hf, rfl, fun _ _ => rfl⟩
  have hmore : ∀ q, (s.goto t (s.cache.hold bh) (g :: rest) (some t)).refs q
      = s.refs q + if bh = q then 1 else 0 := by
    intro q
    have h1 := M.refs q
    have h2 : (s.goto t (s.cache.hold bh) (g :: rest) (some t)).held t = s.held t := rfl
    rw [stackRefs_cons, stackRefs_cons, stackRefs_nil, hrefs, List.count_cons, h2] at h1
    simp only [beq_iff_eq] at h1
    omega
  have hlt : (s.cache.head bh).count + 1 < 256 := by
    have := hsmall bh
    rw [hmore, if_pos rfl] at this
    rw [I.count]
    exact this
  have hid := hold_ids s.cache bh
  refine I.move M hsmall (fun q => ?_) (I.chained.of_ids hid rfl) (I.unique.of_ids hid)
    (fun q _ => hid q) (absurd · (List.cons_ne_nil f [])) (fun x hx => ?_) (fun r hr => Or.inl hr)
    (List.forall_mem_nil _) (fun x hx hc => ?_)
  · rw [hmore, ← I.count]
    exact hold_count s.cache bh q hlt
  · rw [List.mem_singleton.mp hx]
    exact hclaim
  · cases hx
    rw [hcrit] at hc
    cases hc

/-- `b_count--` with a reference of the frame less. -/
theorem Inv.drop (I : Inv s) (hrun : s.current = some t) (hf : s.stack t = f :: rest) {bh : Nat}
    (hmem : bh ∈ f.refs) (hrefs : ∀ q, stackRefs fs q + (if bh = q then 1 else 0) = f.refs.count q)
    (hclaim : ∀ g ∈ fs, ∀ c, g.Claim c) (hpark : ∀ g ∈ fs.tail, g.parkable = true)
    (hcrit : ∀ g, fs.head? = some g → g.critical = false) :
    Inv (s.goto t (s.cache.drop bh) (fs ++ rest) (some t)) := by
  have M : Move s (s.goto t (s.cache.drop bh) (fs ++ rest) (some t)) t [f] fs rest :=
    ⟨hrun, hf, rfl, fun _ _ => rfl⟩
  have hless : ∀ q, (s.goto t (s.cache.drop bh) (fs ++ rest) (some t)).refs q
      + (if bh = q then 1 else 0) = s.refs q := by
    intro q
    have h1 := M.refs q
    have h2 : (s.goto t (s.cache.drop bh) (fs ++ rest) (some t)).held t = s.held t := rfl
    have h3 := hrefs q
    rw [stackRefs_cons, stackRefs_nil, h2] at h1
    omega
  have h0 : 0 < (s.cache.head bh).count := by
    have : s.refs bh ≠ 0 := s.refs_of_frame (show f ∈ s.stack t by rw [hf]; exact List.mem_cons_self) hmem
    rw [I.count]
    omega
  have h256 : (s.cache.head bh).count < 256 := by
    rw [I.count]
    exact I.small bh
  have hid := drop_ids s.cache bh
  refine I.move M (fun q => ?_) (fun q => ?_) (I.chained.of_ids hid rfl) (I.unique.of_ids hid)
    (fun q _ => hid q) (absurd · (List.cons_ne_nil f [])) (fun x hx => hclaim x hx _) (fun r hr => Or.inl hr) hpark
    (fun x hx hc => ?_)
  · have := hless q
    have := I.small q
    omega
  · have h1 := drop_count s.cache bh q h0 h256
    have h2 := hless q
    rw [I.count] at h1
    exact Nat.add_right_cancel (h1.trans h2.symm)
  · rw [hcrit x hx] at hc
    cases hc

/-! ## A new identity -/

/-- The head of a buffer that `getblk` has taken. -/
def taken (h : Head) (dev : Dev) (block : Block) : Head :=
  { h with count := 1, dirt := false, uptodate := false, dev := dev, blocknr := block }

@[simp] theorem insertIntoQueues_head (c : Cache) (bh : Nat) :
    (insertIntoQueues c bh).head = c.head := by
  unfold insertIntoQueues
  dsimp only
  split <;> rfl

theorem take_head (c : Cache) (bh : Nat) (dev : Dev) (block : Block) :
    (take c bh dev block).head bh = taken (c.head bh) dev block := by
  simp only [take, insertIntoQueues_head, modify_head, removeFromQueues, taken]

theorem take_other (c : Cache) {bh q : Nat} (dev : Dev) (block : Block) (h : q ≠ bh) :
    (take c bh dev block).head q = c.head q := by
  simp only [take, insertIntoQueues_head, modify_other _ _ h, removeFromQueues]

/-- The chains after `remove_from_queues`. -/
theorem mem_removed (h : Chained c) (bh q k : Nat) :
    q ∈ (removeFromQueues c bh).hashTable k ↔ q ≠ bh ∧ q ∈ c.hashTable k := by
  simp only [removeFromQueues]
  by_cases hk : k = hashfn (c.head bh).dev (c.head bh).blocknr
  · rw [hk, Function.update_self, List.mem_filter, decide_eq_true_eq]
    exact and_comm
  · rw [Function.update_of_ne hk]
    refine ⟨fun hq => ⟨?_, hq⟩, And.right⟩
    rintro rfl
    exact hk ((h k q).mp hq).2.symm

/-- The chains after `insert_into_queues`. -/
theorem mem_inserted (c : Cache) (bh q k : Nat) :
    q ∈ (insertIntoQueues c bh).hashTable k ↔
      q ∈ c.hashTable k ∨ (q = bh ∧ (c.head bh).dev ≠ 0 ∧
        hashfn (c.head bh).dev (c.head bh).blocknr = k) := by
  unfold insertIntoQueues
  dsimp only
  by_cases h0 : (c.head bh).dev = 0
  · rw [if_pos h0]
    exact ⟨Or.inl, fun h => h.elim id fun h => absurd h0 h.2.1⟩
  · rw [if_neg h0]
    by_cases hk : k = hashfn (c.head bh).dev (c.head bh).blocknr
    · simp only [hk, Function.update_self, List.mem_cons]
      tauto
    · simp only [Function.update_of_ne hk]
      exact ⟨Or.inl, fun h => h.elim id fun h => absurd h.2.2.symm hk⟩

theorem take_hashTable (h : Chained c) {bh q k : Nat} {dev : Dev} {block : Block} :
    q ∈ (take c bh dev block).hashTable k ↔
      (q ≠ bh ∧ q ∈ c.hashTable k) ∨ (q = bh ∧ dev ≠ 0 ∧ hashfn dev block = k) := by
  have h1 : Chained (c.modify bh fun h => { h with count := 1, dirt := false, uptodate := false }) := by
    refine h.of_ids (fun x => ?_) rfl
    by_cases hx : x = bh
    · rw [hx, modify_head]
      exact ⟨rfl, rfl⟩
    · rw [modify_other _ _ hx]
      exact ⟨rfl, rfl⟩
  have h2 := mem_removed h1 bh q k
  unfold take
  dsimp only
  rw [mem_inserted, modify_head]
  exact or_congr h2 Iff.rfl

theorem take_chained (h : Chained c) (bh : Nat) (dev : Dev) (block : Block) :
    Chained (take c bh dev block) := by
  intro k q
  rw [take_hashTable h]
  by_cases hq : q = bh
  · rw [hq, take_head]
    simp [taken]
  · rw [take_other _ _ _ hq, ← h k q]
    simp [hq]

/-- No buffer in the chains is the one looked for. -/
theorem findBuffer_none (h : Chained c) {dev : Dev} {block : Block} (hd : dev ≠ 0)
    (hf : findBuffer c dev block = none) (q : Nat) : ¬ (c.head q).Is dev block := by
  rintro ⟨rfl, rfl⟩
  have := List.find?_eq_none.mp hf q ((h _ q).mpr ⟨hd, rfl⟩)
  exact this (decide_eq_true ⟨rfl, rfl⟩)

theorem findBuffer_some {dev : Dev} {block : Block} {bh : Nat}
    (hf : findBuffer c dev block = some bh) : (c.head bh).Is dev block := by
  unfold findBuffer at hf
  have h := List.find?_some hf
  exact of_decide_eq_true h

theorem take_unique (hc : Chained c) (hu : Unique c) (bh : Nat) {dev : Dev} {block : Block}
    (hf : findBuffer c dev block = none) : Unique (take c bh dev block) := by
  -- the new identity belongs to no other buffer
  have key : ∀ q, q ≠ bh → dev ≠ 0 → ¬ (c.head q).Is dev block := fun q _ h0 =>
    findBuffer_none hc h0 hf q
  intro q q' h0 hd hb
  by_cases hq : q = bh <;> by_cases hq' : q' = bh
  · rw [hq, hq']
  · rw [hq, take_head, take_other _ _ _ hq'] at hd hb
    rw [hq, take_head] at h0
    exact absurd ⟨hd.symm, hb.symm⟩ (key q' hq' h0)
  · rw [hq', take_head, take_other _ _ _ hq] at hd hb
    rw [take_other _ _ _ hq] at h0
    exact absurd ⟨hd, hb⟩ (key q hq fun h => h0 (hd.trans h))
  · rw [take_other _ _ _ hq] at h0
    rw [take_other _ _ _ hq, take_other _ _ _ hq'] at hd hb
    exact hu q q' h0 hd hb

/-- The end of `getblk`. -/
theorem Inv.take (I : Inv s) {k : Caller} {dev : Dev} {block : Block} {bh : Nat}
    (hf : s.stack t = .recheck k dev block bh :: rest)
    (hfind : findBuffer s.cache dev block = none) :
    Inv (s.goto t (take s.cache bh dev block) ([.got k dev block bh] ++ rest) (some t)) := by
  obtain ⟨hrun, h0, hlock, -⟩ := I.critical t _ _ hf rfl
  have M : Move s (s.goto t (Buffer.take s.cache bh dev block) ([.got k dev block bh] ++ rest)
      (some t)) t [.recheck k dev block bh] [.got k dev block bh] rest :=
    ⟨hrun, hf, rfl, fun _ _ => rfl⟩
  have hmore : ∀ q, (s.goto t (Buffer.take s.cache bh dev block) ([.got k dev block bh] ++ rest)
      (some t)).refs q = s.refs q + if bh = q then 1 else 0 := by
    intro q
    have h1 := M.refs q
    have h2 : (s.goto t (Buffer.take s.cache bh dev block) ([.got k dev block bh] ++ rest)
      (some t)).held t = s.held t := rfl
    simp only [stackRefs_cons, stackRefs_nil, Frame.refs, List.count_cons, beq_iff_eq, h2] at h1
    omega
  have hzero : s.refs bh = 0 := (I.count bh).symm.trans h0
  refine I.move M (fun q => ?_) (fun q => ?_) (take_chained I.chained bh dev block)
    (take_unique I.chained I.unique bh hfind) (fun q hq => ?_) (absurd · (List.cons_ne_nil _ []))
    (fun x hx => ?_) (fun r hr => Or.inl hr) (List.forall_mem_nil _) (fun x hx _ => ?_)
  · rw [hmore]
    split
    · next h =>
      rw [← h, hzero]
      omega
    · exact I.small q
  · rw [hmore]
    by_cases hq : q = bh
    · rw [hq, hzero, if_pos rfl]
      exact congrArg Head.count (take_head s.cache bh dev block)
    · rw [if_neg (Ne.symm hq), Nat.add_zero, ← I.count]
      exact congrArg Head.count (take_other s.cache dev block hq)
  · have hne : q ≠ bh := fun h => hq (h ▸ hzero)
    have := take_other s.cache dev block hne
    exact ⟨congrArg Head.dev this, congrArg Head.blocknr this⟩
  · rw [List.mem_singleton.mp hx]
    have := take_head s.cache bh dev block
    exact ⟨congrArg Head.dev this, congrArg Head.blocknr this⟩
  · cases hx
    refine ⟨rfl, ?_⟩
    exact (congrArg Head.lock (take_head s.cache bh dev block)).trans hlock

/-! ## Every event keeps the invariant -/

/-- Fewer than 256 references to every buffer after the event. -/
def FewRefs (ramdisk : Bool) (s : Sys ι) (e : Event ι) : Prop :=
  ∀ s', step ramdisk s e = some s' → ∀ bh, s'.refs bh < 256

/-- What one instruction may do, as far as identities and references go. -/
inductive Effect (c : Cache) (f : Frame) : Outcome → Prop where
  | next {c' : Cache} {fs : List Frame} (keeps : Keeps c c')
      (refs : ∀ bh, stackRefs fs bh = f.refs.count bh) (claim : ∀ g ∈ fs, g.Claim c')
      (park : ∀ g ∈ fs.tail, g.parkable = true)
      (crit : ∀ g, fs.head? = some g → g.Critical c') : Effect c f (.next c' fs)
  | sleep {g : Frame} (refs : g.refs = f.refs) (claim : g.Claim c) (crit : g.critical = false) :
      Effect c f (.sleep c [g])
  | hold {g : Frame} {bh : Nat} (refs : g.refs = bh :: f.refs) (claim : g.Claim (c.hold bh))
      (crit : g.critical = false) : Effect c f (.next (c.hold bh) [g])
  | drop {bh : Nat} {fs : List Frame} (mem : bh ∈ f.refs)
      (refs : ∀ q, stackRefs fs q + (if bh = q then 1 else 0) = f.refs.count q)
      (claim : ∀ g ∈ fs, ∀ c, g.Claim c) (park : ∀ g ∈ fs.tail, g.parkable = true)
      (crit : ∀ g, fs.head? = some g → g.critical = false) : Effect c f (.next (c.drop bh) fs)
  | take {k : Caller} {dev : Dev} {block : Block} {bh : Nat} (frame : f = .recheck k dev block bh)
      (find : findBuffer c dev block = none) :
      Effect c f (.next (take c bh dev block) [.got k dev block bh])
  | hand {r : Ref} (refs : f.refs = [r.bh]) (is : (c.head r.bh).Is r.dev r.block) :
      Effect c f (.hand c r)
  | panic : Effect c f .panic

/-- An instruction that ends the function. -/
theorem Effect.stop (K : Keeps c c') (h : f.refs = []) : Effect c f (.next c' []) :=
  .next K (fun bh => by rw [h]; rfl) (List.forall_mem_nil _) (List.forall_mem_nil _) head?_nil

/-- An instruction that goes on in the same function. -/
theorem Effect.one {g : Frame} (K : Keeps c c') (refs : g.refs = f.refs) (claim : g.Claim c')
    (crit : g.Critical c') : Effect c f (.next c' [g]) := by
  refine .next K (fun bh => ?_) (fun x hx => ?_) (List.forall_mem_nil _) fun x hx => ?_
  · rw [stackRefs_cons, stackRefs_nil, refs, Nat.add_zero]
  · rw [List.mem_singleton.mp hx]
    exact claim
  · cases hx
    exact crit

/-- A call: `g` is the first frame of the callee. -/
theorem Effect.call {g p : Frame} (refs : (g.refs ++ p.refs).Perm f.refs) (hg : g.Claim c)
    (hp : p.Claim c) (park : p.parkable = true) (crit : g.Critical c) :
    Effect c f (.next c [g, p]) := by
  refine .next (Keeps.refl c) (fun bh => ?_) (fun x hx => ?_) (fun x hx => ?_) fun x hx => ?_
  · rw [stackRefs_cons, stackRefs_cons, stackRefs_nil, Nat.add_zero, ← List.count_append,
      refs.count_eq]
  · rcases List.mem_cons.mp hx with rfl | hx
    · exact hg
    · rw [List.mem_singleton.mp hx]
      exact hp
  · rw [List.mem_singleton.mp hx]
    exact park
  · cases hx
    exact crit

/-- A modification of the flags or the contents of a head. -/
theorem Keeps.flags (c : Cache) (bh : Nat) (g : Head → Head) (hd : ∀ x, (g x).dev = x.dev)
    (hb : ∀ x, (g x).blocknr = x.blocknr) (hc : ∀ x, (g x).count = x.count) :
    Keeps c (c.modify bh g) :=
  (Keeps.refl c).modify bh g hd hb hc

/-- The end of `bread` and its like: the buffer goes to the client, or is changed in place. -/
theorem ready_effect {k : Caller} {dev : Dev} {block : Block} {bh : Nat}
    (hone : f.refs = [bh]) (his : (c.head bh).Is dev block) :
    Effect c f (ready c k dev block bh) := by
  cases k with
  | update g => exact .one (Keeps.store c bh g) hone.symm trivial trivial
  | fileWrite off chunk pos rest =>
    have K := Keeps.flags c bh (fun h => { h with dirt := true }) (fun _ => rfl) (fun _ => rfl)
      fun _ => rfl
    refine .one K hone.symm ?_ trivial
    exact K.claim (f := .got .bread dev block bh) his
  | _ => exact .hand hone his

/-- The caller has got the buffer. -/
theorem gotBuffer_effect {k : Caller} {dev : Dev} {block : Block} {bh : Nat}
    (his : (c.head bh).Is dev block) :
    Effect c (.got k dev block bh) (gotBuffer c k dev block bh) := by
  have hready : k.refs = [] →
      Effect c (.got k dev block bh) (if (c.head bh).uptodate then ready c k dev block bh
        else .next c [.llRwBlock ⟨.read, false⟩ bh, .reading k dev block bh]) := by
    intro hk
    have hone : (Frame.got k dev block bh).refs = [bh] := by rw [Frame.refs, hk]
    split
    · exact ready_effect hone his
    · refine .call ?_ trivial his rfl trivial
      rw [hone]
      exact List.Perm.refl _
  cases k with
  | getHashTable => exact .hand rfl his
  | getblk => exact .hand rfl his
  | breada rest =>
    simp only [gotBuffer]
    split
    · exact .one (Keeps.refl c) rfl his trivial
    · exact .call (List.Perm.refl _) trivial his rfl trivial
  | ahead =>
    simp only [gotBuffer]
    split
    · exact .one (Keeps.refl c) rfl trivial trivial
    · exact .call (List.Perm.refl _) trivial trivial rfl trivial
  | page rest bhs =>
    have hperm : (bhs ++ [bh]).Perm (bh :: bhs) := List.perm_append_singleton bh bhs
    simp only [gotBuffer]
    split
    · refine .next (Keeps.refl c) (fun q => ?_) (fun g hg => ?_) (List.forall_mem_nil _) fun g hg => ?_
      · rw [stackRefs_cons, stackRefs_nil, Nat.add_zero]
        exact hperm.count_eq q
      · rw [List.mem_singleton.mp hg]
        trivial
      · cases hg
        trivial
    · exact .call hperm trivial trivial rfl trivial
  | newBlock =>
    simp only [gotBuffer]
    split
    · exact .panic
    · exact .one (Keeps.clear c bh) rfl trivial trivial
  | bread => exact hready rfl
  | update g => exact hready rfl
  | fileWrite off chunk pos rest => exact hready rfl

/-- One instruction of any frame. -/
theorem exec_effect (ramdisk : Bool) (hclaim : f.Claim c)
    (hcrit : f.critical = true → f.Critical c) (x : Choice) :
    Effect c f (exec ramdisk c x f) := by
  have K := Keeps.refl c
  cases f with
  | hash k dev block =>
    simp only [exec]
    cases hfind : findBuffer c dev block with
    | some bh => exact .hold rfl trivial rfl
    | none => cases k with
      | getHashTable => exact .stop K rfl
      | _ => exact .one K rfl trivial trivial
  | hashWait k dev block bh =>
    simp only [exec]
    split
    · exact .sleep rfl trivial rfl
    · next hlock =>
      split
      · next his => exact .one K rfl his (Bool.eq_false_iff.mpr hlock)
      · refine .drop List.mem_cons_self (fun q => ?_) (fun g hg _ => ?_) (List.forall_mem_nil _)
          fun g hg => ?_
        · rw [stackRefs_cons, stackRefs_nil, Nat.add_zero]
          simp only [Frame.refs, List.count_cons, beq_iff_eq]
        · rw [List.mem_singleton.mp hg]
          trivial
        · cases hg
          rfl
  | scan k dev block =>
    simp only [exec]
    cases scanFree c none c.freeList with
    | none => exact .sleep rfl trivial rfl
    | some bh => exact .one K rfl trivial trivial
  | victim k dev block bh =>
    simp only [exec]
    split
    · exact .sleep rfl trivial rfl
    · next hlock =>
      split
      · exact .one K rfl trivial trivial
      · next hcount =>
        exact .one K rfl trivial ⟨not_not.mp hcount, Bool.eq_false_iff.mpr hlock⟩
  | clean k dev block bh =>
    obtain ⟨hcount, hlock⟩ := hcrit rfl
    simp only [exec]
    split
    · exact .call (List.Perm.refl _) trivial trivial rfl trivial
    · next hdirt =>
      exact .one K rfl trivial ⟨hcount, hlock, Bool.eq_false_iff.mpr hdirt⟩
  | recheck k dev block bh =>
    simp only [exec]
    split
    · exact .one K rfl trivial trivial
    · next hfind => exact .take rfl (Option.not_isSome_iff_eq_none.mp hfind)
  | got k dev block bh => exact gotBuffer_effect hclaim
  | reading k dev block bh =>
    simp only [exec]
    split
    · exact .sleep rfl hclaim rfl
    · split
      · exact ready_effect rfl hclaim
      · cases k <;> first | exact .panic | exact .one K rfl trivial trivial
  | aheads dev block bh rest =>
    cases rest with
    | nil => exact .one K rfl hclaim trivial
    | cons first rest => exact .call (List.Perm.refl _) trivial hclaim rfl trivial
  | drop bh =>
    refine .drop List.mem_cons_self (fun q => ?_) (List.forall_mem_nil _) (List.forall_mem_nil _)
      head?_nil
    simp only [stackRefs_nil, Frame.refs, List.count_cons, beq_iff_eq, List.count_nil]
  | pageNext dev rest bhs =>
    cases rest with
    | nil => exact .one K rfl trivial trivial
    | cons b rest =>
      simp only [exec]
      split
      · exact .one K rfl trivial trivial
      · exact .one K rfl trivial trivial
  | pageCopy bhs =>
    cases bhs with
    | nil => exact .stop K rfl
    | cons bh bhs =>
      simp only [exec]
      split
      · exact .sleep rfl trivial rfl
      · exact .call (List.Perm.refl _) trivial trivial rfl trivial
  | llRwBlock rw bh =>
    simp only [exec]
    split
    · exact .stop K rfl
    · exact .one K rfl trivial trivial
  | lockBuffer rw bh =>
    simp only [exec]
    split
    · exact .sleep rfl trivial rfl
    · split
      · exact .stop K rfl
      · exact .one (Keeps.flags c bh _ (fun _ => rfl) (fun _ => rfl) fun _ => rfl) rfl trivial trivial
  | findRequest rw bh =>
    simp only [exec]
    split
    · exact .stop (Keeps.addRequest c _ _ bh) rfl
    · split
      · exact .stop (Keeps.flags c bh _ (fun _ => rfl) (fun _ => rfl) fun _ => rfl) rfl
      · exact .sleep rfl trivial rfl
  | brelse bh =>
    simp only [exec]
    split
    · exact .sleep rfl trivial rfl
    · split
      · exact .panic
      · refine .drop List.mem_cons_self (fun q => ?_) (List.forall_mem_nil _) (List.forall_mem_nil _)
          head?_nil
        simp only [stackRefs_nil, Frame.refs, List.count_cons, beq_iff_eq, List.count_nil]
  | syncDev dev second i =>
    simp only [exec]
    split
    · split
      · exact .one K rfl trivial trivial
      · exact .one K rfl trivial trivial
    · split
      · exact .stop K rfl
      · exact .call (List.Perm.refl _) trivial trivial rfl trivial
  | syncWait dev second i =>
    simp only [exec]
    split
    · exact .sleep rfl trivial rfl
    · split
      · exact .call (List.Perm.refl _) trivial trivial rfl trivial
      · exact .one K rfl trivial trivial
  | syncAll i =>
    simp only [exec]
    split
    · split
      · exact .sleep rfl trivial rfl
      · split
        · exact .call (List.Perm.refl _) trivial trivial rfl trivial
        · exact .one K rfl trivial trivial
    · exact .stop K rfl
  | syncInodes =>
    cases x with
    | sleep => exact .sleep rfl trivial rfl
    | update dev block g => exact .call (List.Perm.refl _) trivial trivial rfl trivial
    | _ => exact .stop K rfl
  | fileWrite dev pos bytes =>
    simp only [exec]
    split
    · exact .stop K rfl
    · cases x with
      | sleep => exact .sleep rfl trivial rfl
      | update d b g => exact .call (List.Perm.refl _) trivial trivial rfl trivial
      | newBlock d b => exact .call (List.Perm.refl _) trivial trivial rfl trivial
      | zone b => exact .one K rfl trivial trivial
      | _ => exact .stop K rfl
  | copy dev block bh off chunk pos rest =>
    cases chunk with
    | nil => exact .call (List.Perm.refl _) trivial trivial rfl trivial
    | cons byte chunk =>
      have one : Effect c (.copy dev block bh off (byte :: chunk) pos rest)
          (.next (c.putByte bh off byte) [.copy dev block bh (off + 1) chunk pos rest]) := by
        refine .one (Keeps.putByte c bh off byte) rfl ?_ trivial
        exact (Keeps.putByte c bh off byte).claim (f := .got .bread dev block bh) hclaim
      cases x with
      | sleep => exact .sleep rfl hclaim rfl
      | fault d bs => exact .call (List.Perm.refl _) trivial hclaim rfl trivial
      | _ => exact one

/-- One instruction of the running task keeps the invariant. -/
theorem runTask_inv (I : Inv s) (hrun : s.current = some t) {x : Choice}
    (h : runTask ramdisk s t x = some s') (hsmall : ∀ bh, s'.refs bh < 256) : Inv s' := by
  unfold runTask at h
  cases hf : s.stack t with
  | nil =>
    rw [hf] at h
    cases h
  | cons f rest =>
    rw [hf] at h
    have hclaim := I.claim t f (by rw [hf]; exact List.mem_cons_self)
    have E := exec_effect ramdisk hclaim (fun hc => (I.critical t f rest hf hc).2) x
    dsimp only at h
    cases hx : exec ramdisk s.cache x f with
    | next c' fs =>
      rw [hx] at h E
      cases h
      cases E with
      | next K refs claim park crit =>
        exact I.stay hrun hf K refs claim park fun g hg _ => ⟨rfl, crit g hg⟩
      | hold refs claim crit => exact I.hold hrun hf refs claim crit hsmall
      | drop mem refs claim park crit =>
        exact I.drop hrun hf mem refs claim park crit
      | take frame find =>
        subst frame
        exact I.take hf find
    | sleep c' fs =>
      rw [hx] at h E
      cases h
      cases E with
      | sleep refs claim crit =>
        refine I.stay hrun hf (Keeps.refl _) (fun bh => ?_) (fun g hg => ?_) (List.forall_mem_nil _)
          fun g hg hc => ?_
        · rw [stackRefs_cons, stackRefs_nil, refs, Nat.add_zero]
        · rw [List.mem_singleton.mp hg]
          exact claim
        · cases hg
          rw [crit] at hc
          cases hc
    | hand c' r =>
      rw [hx] at h E
      cases h
      cases E with
      | hand refs is => exact I.hand hrun hf refs is
    | panic =>
      rw [hx] at h
      cases h

omit [DecidableEq ι] in
/-- A change of the cache, or of who has the processor, that leaves the critical frames alone. -/
theorem Inv.flags (I : Inv s) (K : Keeps s.cache c') {cur : Option ι}
    (hcrit : ∀ u f rest, s.stack u = f :: rest → f.critical = true → s.current = some u →
      f.Critical s.cache → cur = some u ∧ f.Critical c') :
    Inv { s with cache := c', current := cur } := by
  refine ⟨fun bh => (K.count bh).trans (I.count bh), I.small, I.chained.keeps K, I.unique.keeps K,
    fun u f hf => K.claim (I.claim u f hf), fun u r hr => ?_, I.parked, fun u f rest hf hc => ?_⟩
  · have := I.held u r hr
    rw [Head.Is] at this ⊢
    rw [K.dev, K.blocknr]
    exact this
  · obtain ⟨h1, h2⟩ := I.critical u f rest hf hc
    exact hcrit u f rest hf hc h1 h2

/-- The heads after a request is finished. -/
theorem endRequest_head (c : Cache) (i : Nat) (r : Request) (ok : Bool) (q : Nat) :
    (c.endRequest i r ok).head q = if q = r.bh then
      { c.head q with
        data := if ok ∧ r.cmd = .read then c.disk r.dev r.block else (c.head q).data
        uptodate := ok
        lock := false }
    else c.head q := by
  unfold Cache.endRequest Cache.transfer
  by_cases hq : q = r.bh
  · subst hq
    simp only [modify_head, if_true]
    cases ok <;> cases hc : r.cmd <;> simp [modify_head]
  · simp only [modify_other _ _ hq, if_neg hq]
    cases ok <;> cases hc : r.cmd <;> simp [modify_other _ _ hq]

theorem endRequest_hashTable (c : Cache) (i : Nat) (r : Request) (ok : Bool) :
    (c.endRequest i r ok).hashTable = c.hashTable := by
  unfold Cache.endRequest Cache.transfer
  cases ok <;> cases r.cmd <;> rfl

theorem Keeps.endRequest (c : Cache) (i : Nat) (r : Request) (ok : Bool) :
    Keeps c (c.endRequest i r ok) := by
  refine ⟨fun q => ?_, fun q => ?_, fun q => ?_, endRequest_hashTable c i r ok⟩ <;>
    rw [endRequest_head] <;> split <;> rfl

/-- The driver only unlocks. -/
theorem Frame.Critical.endRequest {c : Cache} {f : Frame} (h : f.Critical c) (i : Nat)
    (r : Request) (ok : Bool) : f.Critical (c.endRequest i r ok) := by
  have hcount : ∀ q, ((c.endRequest i r ok).head q).count = (c.head q).count :=
    (Keeps.endRequest c i r ok).count
  have hlock : ∀ q, (c.head q).lock = false → ((c.endRequest i r ok).head q).lock = false := by
    intro q hq
    rw [endRequest_head]
    split
    · rfl
    · exact hq
  have hdirt : ∀ q, ((c.endRequest i r ok).head q).dirt = (c.head q).dirt := by
    intro q
    rw [endRequest_head]
    split <;> rfl
  cases f with
  | clean k dev block bh => exact ⟨(hcount bh).trans h.1, hlock bh h.2⟩
  | recheck k dev block bh =>
    exact ⟨(hcount bh).trans h.1, hlock bh h.2.1, (hdirt bh).trans h.2.2⟩
  | got k dev block bh => exact hlock bh h
  | _ => trivial

/-- A call of a client. -/
theorem Inv.call (I : Inv s) (hrun : s.current = some t) (hs : s.stack t = []) (op : Op) :
    Inv (s.goto t s.cache op.frames (some t)) := by
  have M : Move s (s.goto t s.cache op.frames (some t)) t [] op.frames [] :=
    ⟨hrun, hs, by rw [List.append_nil]; rfl, fun _ _ => rfl⟩
  have hnone : ∀ bh, stackRefs op.frames bh = 0 := by
    intro bh
    cases op <;> rfl
  have hsame : ∀ bh, (s.goto t s.cache op.frames (some t)).refs bh = s.refs bh := by
    intro bh
    have h1 := M.refs bh
    have h2 : (s.goto t s.cache op.frames (some t)).held t = s.held t := rfl
    rw [hnone, stackRefs_nil, h2] at h1
    omega
  refine I.move M (fun bh => by rw [hsame]; exact I.small bh)
    (fun bh => by rw [hsame]; exact I.count bh) I.chained I.unique (fun bh _ => ⟨rfl, rfl⟩)
    (fun _ => rfl) (fun g hg => ?_) (fun r hr => Or.inl hr) (fun g hg => ?_) fun g hg hc => ?_
  · cases op <;> simp only [Op.frames, List.mem_cons, List.not_mem_nil, or_false] at hg <;>
      first
        | (subst hg; trivial)
        | (rcases hg with rfl | rfl <;> trivial)
  · cases op <;> simp only [Op.frames, List.tail_cons, List.not_mem_nil, List.mem_singleton] at hg
    subst hg
    rfl
  · cases op <;> cases hg <;> cases hc

/-- A client starts to release a buffer. -/
theorem Inv.brelse (I : Inv s) (hrun : s.current = some t) (hs : s.stack t = []) {r : Ref}
    (hr : r ∈ s.held t) : Inv { s.goto t s.cache [.brelse r.bh] (some t) with
      held := Function.update s.held t ((s.held t).erase r) } := by
  generalize hs' : { s.goto t s.cache [.brelse r.bh] (some t) with
    held := Function.update s.held t ((s.held t).erase r) } = s'
  have hcache : s'.cache = s.cache := by rw [← hs']; rfl
  have hheld : s'.held t = (s.held t).erase r := by rw [← hs']; exact Function.update_self ..
  have M : Move s s' t [] [.brelse r.bh] [] :=
    ⟨hrun, hs, by rw [← hs']; rfl, fun u hu => by rw [← hs']; exact Function.update_of_ne hu ..⟩
  have hsame : ∀ bh, s'.refs bh = s.refs bh := by
    intro bh
    have h1 := M.refs bh
    have h2 := heldRefs_erase hr bh
    rw [stackRefs_cons, stackRefs_nil, hheld, Frame.refs, List.count_singleton] at h1
    simp only [beq_iff_eq] at h1
    omega
  refine I.move M (fun bh => by rw [hsame]; exact I.small bh)
    (fun bh => by rw [hcache, hsame]; exact I.count bh) (by rw [hcache]; exact I.chained)
    (by rw [hcache]; exact I.unique) (fun bh _ => by rw [hcache]; exact ⟨rfl, rfl⟩) (fun _ => rfl)
    (fun g hg => ?_) (fun q hq => ?_) (List.forall_mem_nil _) fun g hg hc => ?_
  · rw [List.mem_singleton.mp hg]
    trivial
  · rw [hheld] at hq
    exact Or.inl (List.mem_of_mem_erase hq)
  · cases hg
    cases hc

/-- Every event keeps the invariant, as long as references stay few. -/
theorem step_inv (I : Inv s) {e : Event ι} (hg : FewRefs ramdisk s e)
    (h : step ramdisk s e = some s') : Inv s' := by
  have hsmall := hg s' h
  cases e with
  | resume t =>
    simp only [step] at h
    split at h
    · next hnone =>
      cases h
      refine I.flags (Keeps.refl _) fun u f rest _ _ hc _ => ?_
      rw [hnone] at hc
      cases hc
    · cases h
  | leave t =>
    simp only [step] at h
    split at h
    · next hc =>
      cases h
      refine I.flags (Keeps.refl _) fun u f rest hf _ hu _ => ?_
      obtain rfl := Option.some.inj (hc.1.symm.trans hu)
      rw [hc.2] at hf
      cases hf
    · cases h
  | call t op =>
    simp only [step] at h
    split at h
    · next hc =>
      cases h
      exact I.call hc.1 hc.2 op
    · cases h
  | brelse t r =>
    simp only [step] at h
    split at h
    · next hc =>
      cases h
      exact I.brelse hc.1 hc.2.1 hc.2.2
    · cases h
  | store t r f =>
    simp only [step] at h
    split at h
    · next hc =>
      cases h
      refine I.flags (Keeps.store _ _ _) fun u g rest hf _ hu _ => ?_
      obtain rfl := Option.some.inj (hc.1.symm.trans hu)
      rw [hc.2.1] at hf
      cases hf
    · cases h
  | run t x =>
    simp only [step] at h
    split at h
    · next hrun => exact runTask_inv I hrun h hsmall
    · cases h
  | endRequest i ok =>
    simp only [step] at h
    obtain ⟨r, -, rfl⟩ := Option.map_eq_some_iff.mp h
    exact I.flags (Keeps.endRequest _ i r ok) fun u f rest _ _ hu hc => ⟨hu, hc.endRequest i r ok⟩

omit [DecidableEq ι] in
theorem init_inv (nr : Nat) (disk : Dev → Block → Data) : Inv (Sys.init ι nr disk) := by
  have hrefs : ∀ bh, (Sys.init ι nr disk).refs bh = 0 := fun bh =>
    Finset.sum_eq_zero fun _ _ => rfl
  refine ⟨fun bh => (hrefs bh).symm, fun bh => ?_, fun k bh => ?_, fun bh bh' h0 => absurd rfl h0,
    fun _ => List.forall_mem_nil _, fun _ => List.forall_mem_nil _,
    fun _ _ _ hf => absurd hf.symm (List.cons_ne_nil _ _),
    fun _ _ _ hf => absurd hf.symm (List.cons_ne_nil _ _)⟩
  · rw [hrefs]
    omega
  · exact ⟨nofun, fun h => absurd rfl h.1⟩

/-- The states that the events reach from the cache of `buffer_init`. -/
def CacheReach (ramdisk : Bool) (guard : Sys ι → Event ι → Prop) (nr : Nat)
    (disk : Dev → Block → Data) : Sys ι → Prop :=
  Lib.Reach (step ramdisk) guard fun s => s = Sys.init ι nr disk

theorem CacheReach.inv {guard : Sys ι → Event ι → Prop} {nr : Nat} {disk : Dev → Block → Data}
    (hg : ∀ s e, guard s e → FewRefs ramdisk s e) (h : CacheReach ramdisk guard nr disk s) :
    Inv s := by
  refine Lib.Reach.invariant ?_ (fun s e s' I he hs => step_inv I (hg s e he) hs) h
  rintro _ rfl
  exact init_inv nr disk

/-! ## The result -/

/-- A step leaves every identity alone, except that `getblk` gives a new one to its victim. -/
theorem step_identity (I : Inv s) {e : Event ι} (h : step ramdisk s e = some s') (bh : Nat) :
    ((s'.cache.head bh).dev = (s.cache.head bh).dev ∧
      (s'.cache.head bh).blocknr = (s.cache.head bh).blocknr) ∨
    ∃ t k dev block rest, s.stack t = .recheck k dev block bh :: rest := by
  have of_keeps : ∀ {c' : Cache}, Keeps s.cache c' → (c'.head bh).dev = (s.cache.head bh).dev ∧
      (c'.head bh).blocknr = (s.cache.head bh).blocknr := fun K => ⟨K.dev bh, K.blocknr bh⟩
  cases e with
  | run t x =>
    simp only [step] at h
    split at h
    · unfold runTask at h
      cases hf : s.stack t with
      | nil =>
        rw [hf] at h
        cases h
      | cons f rest =>
        rw [hf] at h
        have hclaim := I.claim t f (by rw [hf]; exact List.mem_cons_self)
        have E := exec_effect ramdisk hclaim (fun hc => (I.critical t f rest hf hc).2) x
        dsimp only at h
        generalize exec ramdisk s.cache x f = o at h E
        cases E with
        | next K refs claim park crit =>
          cases h
          exact Or.inl (of_keeps K)
        | sleep refs claim crit =>
          cases h
          exact Or.inl ⟨rfl, rfl⟩
        | hold refs claim crit =>
          cases h
          exact Or.inl (hold_ids s.cache _ bh)
        | drop mem refs claim park crit =>
          cases h
          exact Or.inl (drop_ids s.cache _ bh)
        | @take k dev block q frame find =>
          cases h
          by_cases hq : bh = q
          · rw [hq]
            exact Or.inr ⟨t, k, dev, block, rest, by rw [hf, frame]⟩
          · have := take_other s.cache dev block hq
            exact Or.inl ⟨congrArg Head.dev this, congrArg Head.blocknr this⟩
        | hand refs is =>
          cases h
          exact Or.inl ⟨rfl, rfl⟩
        | panic => cases h
    · cases h
  | endRequest i ok =>
    simp only [step] at h
    obtain ⟨r, -, rfl⟩ := Option.map_eq_some_iff.mp h
    exact Or.inl (of_keeps (Keeps.endRequest _ i r ok))
  | store t r f =>
    simp only [step] at h
    split at h
    · cases h
      exact Or.inl (of_keeps (Keeps.store _ _ _))
    · cases h
  | _ =>
    simp only [step] at h
    split at h
    · cases h
      exact Or.inl ⟨rfl, rfl⟩
    · cases h

/-- THE BUFFER CACHE PROTOCOL. In every state that any interleaving reaches with fewer than 256
references to a buffer:
no two buffers carry the same identity;
a buffer that is held, by a client or inside a function, is the one that was asked for, and no step
changes the identity of a buffer with references;
where `getblk` gives a new identity, the buffer is unused, unlocked and clean, and no other step
changes an identity;
and the buffer `getblk` returns is the one looked for, and is counted. -/
theorem buffer_cache_protocol {nr : Nat} {disk : Dev → Block → Data}
    (h : CacheReach ramdisk (FewRefs ramdisk) nr disk s) :
    (∀ bh bh', (s.cache.head bh).dev ≠ 0 → (s.cache.head bh).dev = (s.cache.head bh').dev →
      (s.cache.head bh).blocknr = (s.cache.head bh').blocknr → bh = bh') ∧
    ((∀ t, ∀ r ∈ s.held t, (s.cache.head r.bh).Is r.dev r.block) ∧
      ∀ e s', step ramdisk s e = some s' → ∀ bh, s.refs bh ≠ 0 →
        (s'.cache.head bh).dev = (s.cache.head bh).dev ∧
          (s'.cache.head bh).blocknr = (s.cache.head bh).blocknr) ∧
    ((∀ t k dev block bh rest, s.stack t = .recheck k dev block bh :: rest →
        (s.cache.head bh).count = 0 ∧ (s.cache.head bh).lock = false ∧
          (s.cache.head bh).dirt = false) ∧
      ∀ e s', step ramdisk s e = some s' → ∀ bh,
        ((s'.cache.head bh).dev = (s.cache.head bh).dev ∧
          (s'.cache.head bh).blocknr = (s.cache.head bh).blocknr) ∨
        ∃ t k dev block rest, s.stack t = .recheck k dev block bh :: rest) ∧
    ∀ t k dev block bh, .got k dev block bh ∈ s.stack t →
      (s.cache.head bh).Is dev block ∧ 1 ≤ (s.cache.head bh).count := by
  have I := h.inv fun _ _ hg => hg
  have hfresh : ∀ t k dev block bh rest, s.stack t = .recheck k dev block bh :: rest →
      (s.cache.head bh).count = 0 ∧ (s.cache.head bh).lock = false ∧
        (s.cache.head bh).dirt = false := fun t k dev block bh rest hf =>
    (I.critical t _ rest hf rfl).2
  refine ⟨I.unique, ⟨I.held, fun e s' hs bh hrefs => ?_⟩, ⟨hfresh, fun e s' hs => step_identity I hs⟩,
    fun t k dev block bh hmem => ⟨I.claim t _ hmem, ?_⟩⟩
  · rcases step_identity I hs bh with hsame | ⟨t, k, dev, block, rest, hf⟩
    · exact hsame
    · rw [← I.count, (hfresh t k dev block bh rest hf).1] at hrefs
      exact absurd rfl hrefs
  · have : s.refs bh ≠ 0 := s.refs_of_frame hmem List.mem_cons_self
    rw [I.count]
    omega

/-- All references of the tasks together. -/
def Sys.total (s : Sys ι) : Nat :=
  ∑ t, (((s.stack t).flatMap Frame.refs).length + (s.held t).length)

omit [DecidableEq ι] in
theorem Sys.refs_le_total (s : Sys ι) (bh : Nat) : s.refs bh ≤ s.total := by
  refine Finset.sum_le_sum fun t _ => Nat.add_le_add List.count_le_length ?_
  exact (List.count_le_length).trans (List.length_map _).le

theorem FewRefs.of_total {e : Event ι} (hs : step ramdisk s e = some s')
    (h : s'.total < 256) : FewRefs ramdisk s e := by
  intro s2 hs2 bh
  rw [hs] at hs2
  cases hs2
  exact Nat.lt_of_le_of_lt (s'.refs_le_total bh) h

/-- A run without many references. -/
theorem reach_of_run {nr : Nat} {disk : Dev → Block → Data} {es : List (Event ι)}
    (h : Lib.run (fun s e => (step ramdisk s e).filter fun s => s.total < 256)
      (Sys.init ι nr disk) es = some s) : CacheReach ramdisk (FewRefs ramdisk) nr disk s :=
  Lib.Reach.ofChecked (fun _ _ _ hs hc => .of_total hs (of_decide_eq_true hc)) (.start rfl) h

/-- Task 0 gets block 5 of the hard disk and keeps it; task 1 gets block 6 and releases it, and its buffer is
taken for block 7. -/
def evictRun : List (Event (Fin 2)) :=
  [.resume 0, .call 0 (.getblk 0x301 5)] ++ List.replicate 6 (.run 0 .done) ++
    [.leave 0, .resume 1, .call 1 (.getblk 0x301 6)] ++ List.replicate 6 (.run 1 .done) ++
    [.brelse 1 ⟨1, 0x301, 6, false⟩, .run 1 .done, .call 1 (.getblk 0x301 7)] ++
    List.replicate 6 (.run 1 .done)

/-- The protocol behind the last of these calls, with both buffers in use. -/
theorem buffer_cache_protocol_evicted : ∃ s, s.held 0 = [⟨0, 0x301, 5, false⟩] ∧
    s.held 1 = [⟨1, 0x301, 7, false⟩] ∧ (s.cache.head 0).Is 0x301 5 ∧ (s.cache.head 1).Is 0x301 7 ∧
    CacheReach (ι := Fin 2) false (FewRefs false) 2 (fun _ _ _ => 0) s := by
  have hrun : (Lib.run (fun s e => (step false s e).filter fun s => s.total < 256)
      (Sys.init (Fin 2) 2 fun _ _ _ => 0) evictRun).map (fun s => (s.held 0, s.held 1))
        = some ([⟨0, 0x301, 5, false⟩], [⟨1, 0x301, 7, false⟩]) := by decide +kernel
  obtain ⟨s, hs, hheld⟩ := Option.map_eq_some_iff.mp hrun
  obtain ⟨h0, h1⟩ := Prod.mk.inj hheld
  have hreach := reach_of_run hs
  have hkept := (buffer_cache_protocol hreach).2.1.1
  exact ⟨s, h0, h1, hkept 0 ⟨0, 0x301, 5, false⟩ (by rw [h0]; exact List.mem_cons_self),
    hkept 1 ⟨1, 0x301, 7, false⟩ (by rw [h1]; exact List.mem_cons_self), hreach⟩

end Linux011.Buffer

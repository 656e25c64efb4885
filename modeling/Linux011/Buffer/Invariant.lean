import Linux011.Buffer.Machine
import Mathlib.Algebra.Order.BigOperators.Group.Finset

/-!
# The invariant of the buffer cache

`b_count` of a buffer is the number of references to it: those the clients hold and those of the
frames. Everything else follows from that. A buffer gets a new identity only when its count is
zero, so whoever has a reference keeps the buffer he asked for; and between the last sleep of
`getblk` and the new identity nobody but the task itself runs, so what it has tested still holds
(`Critical`).
-/

namespace Linux011.Buffer

/-! ## References and claims -/

/-- The references that wait with a caller. -/
def Caller.refs : Caller → List Nat
  | .page _ bhs => bhs
  | _ => []

/-- The references of a frame. -/
def Frame.refs : Frame → List Nat
  | .hash k _ _ => k.refs
  | .hashWait k _ _ bh => bh :: k.refs
  | .scan k _ _ => k.refs
  | .victim k _ _ _ => k.refs
  | .clean k _ _ _ => k.refs
  | .recheck k _ _ _ => k.refs
  | .got k _ _ bh => bh :: k.refs
  | .reading _ _ _ bh => [bh]
  | .aheads _ _ bh _ => [bh]
  | .drop bh => [bh]
  | .pageNext _ _ bhs => bhs
  | .pageCopy bhs => bhs
  | .brelse bh => [bh]
  | .copy _ _ bh _ _ _ _ => [bh]
  | _ => []

/-- What a frame knows about the identity of its buffer. -/
def Frame.Claim (c : Cache) : Frame → Prop
  | .got _ dev block bh => (c.head bh).Is dev block
  | .reading _ dev block bh => (c.head bh).Is dev block
  | .aheads dev block bh _ => (c.head bh).Is dev block
  | .copy dev block bh _ _ _ _ => (c.head bh).Is dev block
  | _ => True

/-- The frames that wait for a frame above them. -/
def Frame.parkable : Frame → Bool
  | .victim .. => true
  | .reading .. => true
  | .aheads .. => true
  | .drop .. => true
  | .pageNext .. => true
  | .pageCopy .. => true
  | .syncDev .. => true
  | .syncAll .. => true
  | .syncInodes => true
  | .fileWrite .. => true
  | .copy .. => true
  | _ => false

/-- The frames a task does not sleep in. -/
def Frame.critical : Frame → Bool
  | .clean .. => true
  | .recheck .. => true
  | .got .. => true
  | _ => false

theorem Frame.not_critical (f : Frame) (h : f.parkable = true) : f.critical = false := by
  cases f <;> first | rfl | cases h

/-- What such a frame has tested, and nobody has changed since. -/
def Frame.Critical (c : Cache) : Frame → Prop
  | .clean _ _ _ bh => (c.head bh).count = 0 ∧ (c.head bh).lock = false
  | .recheck _ _ _ bh =>
    (c.head bh).count = 0 ∧ (c.head bh).lock = false ∧ (c.head bh).dirt = false
  | .got _ _ _ bh => (c.head bh).lock = false
  | _ => True

/-- How often a buffer is referenced in a stack. -/
def stackRefs (fs : List Frame) (bh : Nat) : Nat := (fs.flatMap Frame.refs).count bh

/-- How often a client holds a buffer. -/
def heldRefs (rs : List Ref) (bh : Nat) : Nat := (rs.map Ref.bh).count bh

@[simp] theorem stackRefs_nil (bh : Nat) : stackRefs [] bh = 0 := rfl

@[simp] theorem stackRefs_cons (f : Frame) (fs : List Frame) (bh : Nat) :
    stackRefs (f :: fs) bh = f.refs.count bh + stackRefs fs bh := by
  rw [stackRefs, List.flatMap_cons, List.count_append, stackRefs]

theorem stackRefs_append (fs gs : List Frame) (bh : Nat) :
    stackRefs (fs ++ gs) bh = stackRefs fs bh + stackRefs gs bh := by
  rw [stackRefs, List.flatMap_append, List.count_append, stackRefs, stackRefs]

@[simp] theorem heldRefs_cons (r : Ref) (rs : List Ref) (bh : Nat) :
    heldRefs (r :: rs) bh = heldRefs rs bh + if r.bh = bh then 1 else 0 := by
  rw [heldRefs, List.map_cons, List.count_cons, heldRefs]
  simp only [beq_iff_eq]

theorem heldRefs_erase {r : Ref} {rs : List Ref} (h : r ∈ rs) (bh : Nat) :
    heldRefs (rs.erase r) bh + (if r.bh = bh then 1 else 0) = heldRefs rs bh := by
  have hp := (List.perm_cons_erase h).map Ref.bh
  rw [heldRefs, heldRefs, hp.count_eq, List.map_cons, List.count_cons]
  simp only [beq_iff_eq]

/-- A frame says something about a buffer it has a reference to. -/
theorem Frame.Claim.of_id {c c' : Cache} {f : Frame} (h : f.Claim c)
    (hid : ∀ bh ∈ f.refs, (c'.head bh).dev = (c.head bh).dev ∧
      (c'.head bh).blocknr = (c.head bh).blocknr) : f.Claim c' := by
  cases f <;> first
    | trivial
    | (simp only [Frame.Claim, Head.Is] at h ⊢
       obtain ⟨h1, h2⟩ := hid _ List.mem_cons_self
       rw [h1, h2]
       exact h)

variable {ι : Type}

section
variable [Fintype ι]

/-- The number of references to a buffer. -/
def Sys.refs (s : Sys ι) (bh : Nat) : Nat :=
  ∑ t, (stackRefs (s.stack t) bh + heldRefs (s.held t) bh)

/-- One task's references are among all of them. -/
theorem Sys.refs_le (s : Sys ι) (t : ι) (bh : Nat) :
    stackRefs (s.stack t) bh + heldRefs (s.held t) bh ≤ s.refs bh :=
  Finset.single_le_sum (f := fun t => stackRefs (s.stack t) bh + heldRefs (s.held t) bh)
    (fun _ _ => Nat.zero_le _) (Finset.mem_univ t)

theorem Sys.refs_of_frame {s : Sys ι} {t : ι} {f : Frame} {bh : Nat} (hf : f ∈ s.stack t)
    (hbh : bh ∈ f.refs) : s.refs bh ≠ 0 := by
  have h1 : 0 < stackRefs (s.stack t) bh :=
    List.count_pos_iff.mpr (List.mem_flatMap.mpr ⟨f, hf, hbh⟩)
  have := s.refs_le t bh
  omega

theorem Sys.refs_of_held {s : Sys ι} {t : ι} {r : Ref} (hr : r ∈ s.held t) : s.refs r.bh ≠ 0 := by
  have h1 : 0 < heldRefs (s.held t) r.bh := List.count_pos_iff.mpr (List.mem_map_of_mem hr)
  have := s.refs_le t r.bh
  omega

/-! ## The invariant -/

/-- The hash chains: every buffer with a device is in the chain of its identity, and in no other. -/
def Chained (c : Cache) : Prop :=
  ∀ k bh, bh ∈ c.hashTable k ↔ (c.head bh).dev ≠ 0 ∧ hashfn (c.head bh).dev (c.head bh).blocknr = k

/-- No two buffers carry the same identity. -/
def Unique (c : Cache) : Prop :=
  ∀ bh bh', (c.head bh).dev ≠ 0 → (c.head bh).dev = (c.head bh').dev →
    (c.head bh).blocknr = (c.head bh').blocknr → bh = bh'

structure Inv (s : Sys ι) : Prop where
  count : ∀ bh, (s.cache.head bh).count = s.refs bh
  small : ∀ bh, s.refs bh < 256
  chained : Chained s.cache
  unique : Unique s.cache
  claim : ∀ t, ∀ f ∈ s.stack t, f.Claim s.cache
  held : ∀ t, ∀ r ∈ s.held t, (s.cache.head r.bh).Is r.dev r.block
  parked : ∀ t f rest, s.stack t = f :: rest → ∀ g ∈ rest, g.parkable = true
  critical : ∀ t f rest, s.stack t = f :: rest → f.critical = true →
    s.current = some t ∧ f.Critical s.cache

end

/-! ## Moves of one task -/

variable [DecidableEq ι]

/-- The running task has `new` in place of `old` on top of its stack, and may hold other references;
the other tasks are as they were. -/
structure Move (s s' : Sys ι) (t : ι) (old new rest : List Frame) : Prop where
  running : s.current = some t
  before : s.stack t = old ++ rest
  after : s'.stack = Function.update s.stack t (new ++ rest)
  others : ∀ u, u ≠ t → s'.held u = s.held u

variable {s s' : Sys ι} {t : ι} {old new rest : List Frame}

theorem Move.stack_self (M : Move s s' t old new rest) : s'.stack t = new ++ rest := by
  rw [M.after, Function.update_self]

theorem Move.stack_other (M : Move s s' t old new rest) {u : ι} (h : u ≠ t) :
    s'.stack u = s.stack u := by
  rw [M.after, Function.update_of_ne h]

variable [Fintype ι]

/-- Only the references of the task itself may have changed. -/
theorem Move.refs (M : Move s s' t old new rest) (bh : Nat) :
    s'.refs bh + (stackRefs old bh + heldRefs (s.held t) bh)
      = s.refs bh + (stackRefs new bh + heldRefs (s'.held t) bh) := by
  have hrest : ∀ u ∈ Finset.univ.erase t, stackRefs (s'.stack u) bh + heldRefs (s'.held u) bh
      = stackRefs (s.stack u) bh + heldRefs (s.held u) bh := by
    intro u hu
    have hne := Finset.ne_of_mem_erase hu
    rw [M.stack_other hne, M.others u hne]
  have h1 := Finset.add_sum_erase Finset.univ
    (fun u => stackRefs (s'.stack u) bh + heldRefs (s'.held u) bh) (Finset.mem_univ t)
  have h2 := Finset.add_sum_erase Finset.univ
    (fun u => stackRefs (s.stack u) bh + heldRefs (s.held u) bh) (Finset.mem_univ t)
  rw [Finset.sum_congr rfl hrest] at h1
  rw [Sys.refs, Sys.refs, ← h1, ← h2]
  simp only [M.stack_self, M.before, stackRefs_append]
  omega

/-- THE RULE for a move of the running task. Identities may change only where there are no
references. -/
theorem Inv.move (I : Inv s) (M : Move s s' t old new rest) (hsmall : ∀ bh, s'.refs bh < 256)
    (hcount : ∀ bh, (s'.cache.head bh).count = s'.refs bh) (hchained : Chained s'.cache)
    (hunique : Unique s'.cache)
    (hid : ∀ bh, s.refs bh ≠ 0 → (s'.cache.head bh).dev = (s.cache.head bh).dev ∧
      (s'.cache.head bh).blocknr = (s.cache.head bh).blocknr)
    (hold : old = [] → rest = []) (hclaim : ∀ f ∈ new, f.Claim s'.cache)
    (hheld : ∀ r ∈ s'.held t, r ∈ s.held t ∨ (s'.cache.head r.bh).Is r.dev r.block)
    (hpark : ∀ g ∈ new.tail, g.parkable = true)
    (hcrit : ∀ g, new.head? = some g → g.critical = true →
      s'.current = some t ∧ g.Critical s'.cache) : Inv s' := by
  have hrest : ∀ g ∈ rest, g.parkable = true := by
    cases old with
    | nil =>
      rw [hold rfl]
      exact fun _ h => nomatch h
    | cons f old =>
      exact fun g hg => I.parked t f (old ++ rest) M.before g (List.mem_append_right _ hg)
  have hframe : ∀ u, ∀ f ∈ s.stack u, f.Claim s'.cache := fun u f hf =>
    (I.claim u f hf).of_id fun bh hbh => hid bh (s.refs_of_frame hf hbh)
  have href : ∀ u, ∀ r ∈ s.held u, (s'.cache.head r.bh).Is r.dev r.block := by
    intro u r hr
    obtain ⟨h1, h2⟩ := hid r.bh (s.refs_of_held hr)
    rw [Head.Is, h1, h2]
    exact I.held u r hr
  refine ⟨hcount, hsmall, hchained, hunique, fun u f hf => ?_, fun u r hr => ?_,
    fun u f fs hf g hg => ?_, fun u f fs hf hc => ?_⟩
  · by_cases hu : u = t
    · subst hu
      rw [M.stack_self, List.mem_append] at hf
      rcases hf with hf | hf
      · exact hclaim f hf
      · exact hframe u f (by rw [M.before]; exact List.mem_append_right _ hf)
    · rw [M.stack_other hu] at hf
      exact hframe u f hf
  · by_cases hu : u = t
    · subst hu
      rcases hheld r hr with h | h
      · exact href u r h
      · exact h
    · rw [M.others u hu] at hr
      exact href u r hr
  · by_cases hu : u = t
    · subst hu
      rw [M.stack_self] at hf
      cases new with
      | nil =>
        rw [List.nil_append] at hf
        exact hrest g (by rw [hf]; exact List.mem_cons_of_mem _ hg)
      | cons f' new =>
        obtain ⟨-, rfl⟩ := List.cons.inj hf
        rcases List.mem_append.mp hg with hg | hg
        · exact hpark g hg
        · exact hrest g hg
    · rw [M.stack_other hu] at hf
      exact I.parked u f fs hf g hg
  · by_cases hu : u = t
    · subst hu
      rw [M.stack_self] at hf
      cases new with
      | nil =>
        rw [List.nil_append] at hf
        have := hrest f (by rw [hf]; exact List.mem_cons_self)
        rw [f.not_critical this] at hc
        cases hc
      | cons f' new =>
        obtain ⟨rfl, -⟩ := List.cons.inj hf
        exact hcrit f' rfl hc
    · -- no other task is in a critical frame
      rw [M.stack_other hu] at hf
      have := (I.critical u f fs hf hc).1
      rw [M.running] at this
      exact absurd (Option.some.inj this).symm hu

/-! ## Changes of the cache that keep identities and counts -/

structure Keeps (c c' : Cache) : Prop where
  dev : ∀ bh, (c'.head bh).dev = (c.head bh).dev
  blocknr : ∀ bh, (c'.head bh).blocknr = (c.head bh).blocknr
  count : ∀ bh, (c'.head bh).count = (c.head bh).count
  hash : c'.hashTable = c.hashTable

variable {c c' : Cache}

theorem Keeps.refl (c : Cache) : Keeps c c := ⟨fun _ => rfl, fun _ => rfl, fun _ => rfl, rfl⟩

theorem Keeps.trans {d : Cache} (h : Keeps c c') (h' : Keeps c' d) : Keeps c d :=
  ⟨fun q => (h'.dev q).trans (h.dev q), fun q => (h'.blocknr q).trans (h.blocknr q),
    fun q => (h'.count q).trans (h.count q), h'.hash.trans h.hash⟩

theorem modify_head (c : Cache) (bh : Nat) (f : Head → Head) :
    (c.modify bh f).head bh = f (c.head bh) := Function.update_self ..

theorem modify_other (c : Cache) {bh bh' : Nat} (f : Head → Head) (h : bh' ≠ bh) :
    (c.modify bh f).head bh' = c.head bh' := Function.update_of_ne h ..

theorem Keeps.modify (h : Keeps c c') (bh : Nat) (f : Head → Head)
    (hd : ∀ x, (f x).dev = x.dev) (hb : ∀ x, (f x).blocknr = x.blocknr)
    (hc : ∀ x, (f x).count = x.count) : Keeps c (c'.modify bh f) := by
  refine ⟨fun q => ?_, fun q => ?_, fun q => ?_, h.hash⟩ <;> by_cases hq : q = bh
  · rw [hq, modify_head, hd, h.dev]
  · rw [modify_other _ _ hq, h.dev]
  · rw [hq, modify_head, hb, h.blocknr]
  · rw [modify_other _ _ hq, h.blocknr]
  · rw [hq, modify_head, hc, h.count]
  · rw [modify_other _ _ hq, h.count]

theorem Keeps.note (c : Cache) (bh : Nat) (data : Data) : Keeps c (c.note bh data) :=
  ⟨fun _ => rfl, fun _ => rfl, fun _ => rfl, rfl⟩

theorem Keeps.store (c : Cache) (bh : Nat) (f : Data → Data) : Keeps c (c.store bh f) := by
  unfold Cache.store
  exact (Keeps.note c bh _).modify bh _ (fun _ => rfl) (fun _ => rfl) fun _ => rfl

theorem Keeps.clear (c : Cache) (bh : Nat) : Keeps c (c.clear bh) := by
  unfold Cache.clear
  exact (Keeps.note c bh _).modify bh _ (fun _ => rfl) (fun _ => rfl) fun _ => rfl

theorem Keeps.putByte (c : Cache) (bh off : Nat) (byte : BitVec 8) :
    Keeps c (c.putByte bh off byte) := by
  unfold Cache.putByte
  exact (Keeps.note c bh _).modify bh _ (fun _ => rfl) (fun _ => rfl) fun _ => rfl

theorem Keeps.addRequest (c : Cache) (i : Nat) (cmd : Cmd) (bh : Nat) :
    Keeps c (c.addRequest i cmd bh) := by
  have K (r : Request) : Keeps c { c with request := Function.update c.request i (some r) } :=
    ⟨fun _ => rfl, fun _ => rfl, fun _ => rfl, rfl⟩
  unfold Cache.addRequest
  exact (K _).modify bh _ (fun _ => rfl) (fun _ => rfl) fun _ => rfl

theorem Chained.keeps (h : Chained c) (K : Keeps c c') : Chained c' := by
  intro k bh
  rw [K.hash, K.dev, K.blocknr]
  exact h k bh

theorem Unique.keeps (h : Unique c) (K : Keeps c c') : Unique c' := by
  intro bh bh' h0 hd hb
  rw [K.dev] at h0
  rw [K.dev, K.dev] at hd
  rw [K.blocknr, K.blocknr] at hb
  exact h bh bh' h0 hd hb

theorem Keeps.claim (K : Keeps c c') {f : Frame} (h : f.Claim c) : f.Claim c' :=
  h.of_id fun bh _ => ⟨K.dev bh, K.blocknr bh⟩

end Linux011.Buffer

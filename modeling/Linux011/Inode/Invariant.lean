import Linux011.Inode.Machine

/-!
# The invariant of the inode table

`i_count` of an entry is the number of references to it, and an entry with references keeps its
identity. Two kinds of frames are ALONE with their entry: an `iget` with the empty entry it will
give an identity, which no search finds; and an `iput` that destroys an inode, as long as no `iget`
comes in between.
-/

namespace Linux011.Inode

/-! ## References and claims -/

/-- The references of a frame. -/
def Frame.refs : Frame → List Nat
  | .search _ _ e => [e]
  | .found _ _ e _ => [e]
  | .cross _ e => [e]
  | .give i => [i]
  | .readInode i => [i]
  | .readBlock i => [i]
  | .iput i => [i]
  | .iputSync i => [i]
  | .iputWait i => [i]
  | .iputRepeat i => [i]
  | .freeInode i => [i]
  | _ => []

/-- The entries a frame has to itself. -/
def Frame.alone : Frame → List Nat
  | .search _ _ e => [e]
  | .found _ _ e _ => [e]
  | .cross _ e => [e]
  | .freeInode i => [i]
  | _ => []

theorem Frame.alone_refs {f : Frame} {i : Nat} (h : i ∈ f.alone) : i ∈ f.refs := by
  cases f <;> first | exact h | cases h

/-- What a caller of `get_empty_inode` knows: `iget` with device 0 is a panic. -/
def Caller.Valid : Caller → Prop
  | .client => True
  | .iget dev _ => dev ≠ 0

/-- What a frame knows about its entries. -/
def Frame.Claim (c : Table) : Frame → Prop
  | .empty k => k.Valid
  | .emptyWait k i => k.Valid ∧ i < 32
  | .search dev _ e => dev ≠ 0 ∧ (c.inode e).dev = 0 ∧ e < 32
  | .found dev _ e _ => dev ≠ 0 ∧ (c.inode e).dev = 0 ∧ e < 32
  | .cross k e => (c.superBlock k).inodeMount.isSome ∧ (c.inode e).dev = 0 ∧ e < 32
  | .give i => (c.inode i).dev ≠ 0
  | .readInode i => (c.inode i).dev ≠ 0
  | .readBlock i => (c.inode i).dev ≠ 0
  | .iputSync i => (c.inode i).dev ≠ 0
  | .iputWait i => (c.inode i).dev ≠ 0
  | .iputRepeat i => (c.inode i).dev ≠ 0
  | .freeInode i => (c.inode i).dev ≠ 0 ∧ (c.inode i).nlinks = 0
  | _ => True

/-- A mounted super block has a device. -/
def Mounts (c : Table) : Prop :=
  ∀ k, (c.superBlock k).inodeMount.isSome → (c.superBlock k).dev ≠ 0

/-- No two entries carry the same identity. -/
def Unique (c : Table) : Prop :=
  ∀ i j, (c.inode i).dev ≠ 0 → (c.inode i).dev = (c.inode j).dev →
    (c.inode i).num = (c.inode j).num → i = j

variable {c c' : Table} {f : Frame} {fs : List Frame} {i j : Nat}

/-- A claim is about entries the frame refers to. -/
theorem Frame.Claim.of_same (h : f.Claim c) (hid : ∀ i ∈ f.refs, (c'.inode i).dev = (c.inode i).dev)
    (hlinks : ∀ i ∈ f.alone, (c'.inode i).nlinks = (c.inode i).nlinks)
    (hsuper : ∀ k, (c.superBlock k).inodeMount.isSome → (c'.superBlock k).inodeMount.isSome) :
    f.Claim c' := by
  cases f with
  | search dev num e => exact ⟨h.1, (hid e List.mem_cons_self).trans h.2.1, h.2.2⟩
  | found dev num e i => exact ⟨h.1, (hid e List.mem_cons_self).trans h.2.1, h.2.2⟩
  | cross k e => exact ⟨hsuper k h.1, (hid e List.mem_cons_self).trans h.2.1, h.2.2⟩
  | freeInode i =>
    refine ⟨?_, (hlinks i List.mem_cons_self).trans h.2⟩
    rw [hid i List.mem_cons_self]
    exact h.1
  | empty k => exact h
  | emptyWait k i => exact h
  | writeInode i => trivial
  | writeBlock i => trivial
  | iput i => trivial
  | truncate i => trivial
  | _ =>
    simp only [Frame.Claim] at h ⊢
    rw [hid _ List.mem_cons_self]
    exact h

variable {ι : Type*}

section
variable [Fintype ι]

/-- The number of references to an entry. -/
def Sys.refs (s : Sys ι) (i : Nat) : Nat := Lib.tally Frame.refs Ref.i s.stack s.held i

/-- A frame is alone with the entry. -/
def Sys.Alone (s : Sys ι) (i : Nat) : Prop := ∃ t, ∃ f ∈ s.stack t, i ∈ f.alone

structure Inv (s : Sys ι) : Prop where
  count : ∀ i, (s.table.inode i).count = s.refs i
  unique : Unique s.table
  mounts : Mounts s.table
  small : ∀ i, (s.table.inode i).dev ≠ 0 → i < 32
  claim : ∀ t, ∀ f ∈ s.stack t, f.Claim s.table
  alone : ∀ i, s.Alone i → s.refs i = 1
  held : ∀ t, ∀ r ∈ s.held t, (s.table.inode r.i).Is r.dev r.num

end

/-! ## Moves of one task -/

variable [DecidableEq ι]

/-- Task `t` has `new` in place of `old` on top of its stack, and may hold other references; the
other tasks are as they were. -/
structure Move (s s' : Sys ι) (t : ι) (old new rest : List Frame) : Prop where
  before : s.stack t = old ++ rest
  after : s'.stack t = new ++ rest
  stack : ∀ u, u ≠ t → s'.stack u = s.stack u
  held : ∀ u, u ≠ t → s'.held u = s.held u

theorem Sys.goto_move {s : Sys ι} {t : ι} {c : Table} {fs old new rest : List Frame}
    {rs : List Ref} {cur : Option ι} (h : s.stack t = old ++ rest) (hfs : fs = new ++ rest) :
    Move s (s.goto t c fs rs cur) t old new rest :=
  ⟨h, (Function.update_self ..).trans hfs, fun _ hu => Function.update_of_ne hu .., fun _ hu =>
    Function.update_of_ne hu ..⟩

theorem Sys.goto_held (s : Sys ι) (t : ι) (c : Table) (fs : List Frame) (rs : List Ref)
    (cur : Option ι) : (s.goto t c fs rs cur).held t = rs := Function.update_self ..

variable {s s' : Sys ι} {t : ι} {old new rest : List Frame} [Fintype ι]

/-- Only the references of the task itself change. -/
theorem Move.refs (M : Move s s' t old new rest) (i : Nat) :
    s'.refs i + ((old.flatMap Frame.refs).count i + ((s.held t).map Ref.i).count i) =
      s.refs i + ((new.flatMap Frame.refs).count i + ((s'.held t).map Ref.i).count i) := by
  have : Lib.tally Frame.refs Ref.i s'.stack s'.held i + _ = _ :=
    Lib.tally_update t M.stack M.held i
  rw [M.before, M.after, Lib.own_append, Lib.own_append, Lib.own, Lib.own] at this
  rw [Sys.refs, Sys.refs]
  omega

/-- The references of the frames that go. -/
def gone (old : List Frame) (i : Nat) : Nat := (old.flatMap Frame.refs).count i

/-- A reference that stays. -/
theorem Move.stays (M : Move s s' t old new rest) {i : Nat}
    (h : (∃ u, u ≠ t ∧ 0 < Lib.own Frame.refs Ref.i (s.stack u) (s.held u) i) ∨
      0 < Lib.own Frame.refs Ref.i rest (s.held t) i) : gone old i < s.refs i := by
  have ht : Lib.own Frame.refs Ref.i (s.stack t) (s.held t) i =
      gone old i + Lib.own Frame.refs Ref.i rest (s.held t) i := by
    rw [M.before, Lib.own_append, gone]
  rcases h with ⟨u, hu, hpos⟩ | hpos
  · have : _ ≤ Lib.tally Frame.refs Ref.i s.stack s.held i := Lib.own_add_le_tally hu i
    rw [Sys.refs]
    omega
  · have : _ ≤ Lib.tally Frame.refs Ref.i s.stack s.held i := Lib.own_le_tally t i
    rw [Sys.refs]
    omega

/-- A frame that stays, and what it refers to. -/
theorem Move.frame (M : Move s s' t old new rest) {u : ι} {f : Frame} (hf : f ∈ s'.stack u) :
    (u = t ∧ f ∈ new) ∨ (f ∈ s.stack u ∧ ∀ i ∈ f.refs, gone old i < s.refs i) := by
  by_cases hu : u = t
  · rw [hu, M.after, List.mem_append] at hf
    rcases hf with hf | hf
    · exact Or.inl ⟨hu, hf⟩
    · refine Or.inr ⟨?_, fun i hi => M.stays (Or.inr (Lib.own_frame hf hi))⟩
      rw [hu, M.before]
      exact List.mem_append_right _ hf
  · rw [M.stack u hu] at hf
    exact Or.inr ⟨hf, fun i hi => M.stays (Or.inl ⟨u, hu, Lib.own_frame hf hi⟩)⟩

/-- THE RULE for a move of one task. Entries with a reference that stays keep their identity; if a
frame is alone with such an entry, its link count and its references stay as well. -/
theorem Inv.move (I : Inv s) (M : Move s s' t old new rest)
    (hcount : ∀ i, (s'.table.inode i).count = s'.refs i) (hunique : Unique s'.table)
    (hmounts : Mounts s'.table) (hsmall : ∀ i, (s'.table.inode i).dev ≠ 0 → i < 32)
    (hsuper : ∀ k, (s.table.superBlock k).inodeMount.isSome →
      (s'.table.superBlock k).inodeMount.isSome)
    (hstay : ∀ i, gone old i < s.refs i → (s'.table.inode i).dev = (s.table.inode i).dev ∧
      (s'.table.inode i).num = (s.table.inode i).num ∧
      (s.Alone i → (s'.table.inode i).nlinks = (s.table.inode i).nlinks ∧ s'.refs i = s.refs i))
    (hnew : ∀ f ∈ new, f.Claim s'.table ∧ ∀ i ∈ f.alone, s'.refs i = 1)
    (hheld : ∀ r ∈ s'.held t, r ∈ s.held t ∨ (s'.table.inode r.i).Is r.dev r.num) : Inv s' := by
  have hkept : ∀ u, ∀ r ∈ s.held u, (s'.table.inode r.i).Is r.dev r.num := by
    intro u r hr
    have hpos : 0 < Lib.own Frame.refs Ref.i (s.stack u) (s.held u) r.i := Lib.own_held hr
    have hgone : gone old r.i < s.refs r.i := by
      by_cases hu : u = t
      · exact M.stays (Or.inr (Lib.own_held (hu ▸ hr)))
      · exact M.stays (Or.inl ⟨u, hu, hpos⟩)
    obtain ⟨hd, hn, -⟩ := hstay r.i hgone
    rw [MInode.Is, hd, hn]
    exact I.held u r hr
  refine ⟨hcount, hunique, hmounts, hsmall, fun u f hf => ?_, fun i hi => ?_, fun u r hr => ?_⟩
  · rcases M.frame hf with ⟨-, hf⟩ | ⟨hf, hrefs⟩
    · exact (hnew f hf).1
    · exact (I.claim u f hf).of_same (fun i hi => (hstay i (hrefs i hi)).1)
        (fun i hi => ((hstay i (hrefs i (f.alone_refs hi))).2.2 ⟨u, f, hf, hi⟩).1) hsuper
  · obtain ⟨u, f, hf, hi⟩ := hi
    rcases M.frame hf with ⟨-, hf⟩ | ⟨hf, hrefs⟩
    · exact (hnew f hf).2 i hi
    · have halone : s.Alone i := ⟨u, f, hf, hi⟩
      rw [((hstay i (hrefs i (f.alone_refs hi))).2.2 halone).2]
      exact I.alone i halone
  · by_cases hu : u = t
    · subst hu
      rcases hheld r hr with h | h
      · exact hkept u r h
      · exact h
    · rw [M.held u hu] at hr
      exact hkept u r hr

end Linux011.Inode

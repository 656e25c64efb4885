import Linux011.Inode.Invariant

/-!
# One entry for one inode

The instructions of `iget`, `iput` and `get_empty_inode` keep the invariant, as long as no `iget`
takes a reference to an inode that an `iput` is destroying. When no link count ever is zero, nothing
is destroyed, and the condition holds by itself.
-/

namespace Linux011.Inode

variable {ι : Type*} [DecidableEq ι] [Fintype ι] {s s' : Sys ι} {t : ι} {c c' : Table} {f : Frame}
  {old new rest : List Frame} {i j : Nat}

/-! ## Changes of one entry -/

theorem modify_self (c : Table) (i : Nat) (g : MInode → MInode) :
    (c.modify i g).inode i = g (c.inode i) := Function.update_self ..

theorem modify_other (c : Table) {i j : Nat} (g : MInode → MInode) (h : j ≠ i) :
    (c.modify i g).inode j = c.inode j := Function.update_of_ne h ..

/-- Identities, counts and mounts are as they were. -/
structure Flags (c c' : Table) : Prop where
  dev : ∀ i, (c'.inode i).dev = (c.inode i).dev
  num : ∀ i, (c'.inode i).num = (c.inode i).num
  count : ∀ i, (c'.inode i).count = (c.inode i).count
  superBlock : c'.superBlock = c.superBlock

theorem Flags.refl (c : Table) : Flags c c := ⟨fun _ => rfl, fun _ => rfl, fun _ => rfl, rfl⟩

theorem Flags.modify (c : Table) (i : Nat) (g : MInode → MInode)
    (h : ∀ x, (g x).dev = x.dev ∧ (g x).num = x.num ∧ (g x).count = x.count) :
    Flags c (c.modify i g) := by
  refine ⟨fun j => ?_, fun j => ?_, fun j => ?_, rfl⟩ <;> by_cases hj : j = i
  · rw [hj, modify_self, (h _).1]
  · rw [modify_other c g hj]
  · rw [hj, modify_self, (h _).2.1]
  · rw [modify_other c g hj]
  · rw [hj, modify_self, (h _).2.2]
  · rw [modify_other c g hj]

theorem Flags.unique (F : Flags c c') (h : Unique c) : Unique c' := by
  intro i j h0 hd hn
  rw [F.dev] at h0
  rw [F.dev, F.dev] at hd
  rw [F.num, F.num] at hn
  exact h i j h0 hd hn

theorem Flags.mounts (F : Flags c c') (h : Mounts c) : Mounts c' := by
  intro k hk
  rw [F.superBlock] at hk ⊢
  exact h k hk

/-- The count of one entry changes. -/
theorem count_modify (c : Table) (i : Nat) (g : MInode → Nat) (j : Nat) :
    ((c.modify i fun h => { h with count := g h }).inode j).count =
      if j = i then g (c.inode j) else (c.inode j).count := by
  by_cases hj : j = i
  · rw [if_pos hj, hj, modify_self]
  · rw [if_neg hj, modify_other c _ hj]

/-- A change of counts only. -/
theorem ids_modify (c : Table) (i : Nat) (g : MInode → Nat) (j : Nat) :
    ((c.modify i fun h => { h with count := g h }).inode j).dev = (c.inode j).dev ∧
    ((c.modify i fun h => { h with count := g h }).inode j).num = (c.inode j).num ∧
    ((c.modify i fun h => { h with count := g h }).inode j).nlinks = (c.inode j).nlinks := by
  by_cases hj : j = i
  · rw [hj, modify_self]
    exact ⟨rfl, rfl, rfl⟩
  · rw [modify_other c _ hj]
    exact ⟨rfl, rfl, rfl⟩

theorem Unique.of_ids (h : Unique c) (hd : ∀ j, (c'.inode j).dev = (c.inode j).dev)
    (hn : ∀ j, (c'.inode j).num = (c.inode j).num) : Unique c' := by
  intro i j h0 h1 h2
  rw [hd] at h0
  rw [hd, hd] at h1
  rw [hn, hn] at h2
  exact h i j h0 h1 h2

/-! ## Moves -/

/-- The references move between the frames of the task. -/
theorem Move.same_refs (M : Move s s' t old new rest)
    (hrefs : ∀ i, (new.flatMap Frame.refs).count i = (old.flatMap Frame.refs).count i)
    (hheld : s'.held t = s.held t) (i : Nat) : s'.refs i = s.refs i := by
  have := M.refs i
  rw [hrefs, hheld] at this
  omega

/-- Flags change, and the references stay as many as they were. -/
theorem Inv.flags (I : Inv s) (M : Move s s' t old new rest) (F : Flags s.table s'.table)
    (hsame : ∀ i, s'.refs i = s.refs i)
    (hheld : ∀ r ∈ s'.held t, r ∈ s.held t ∨ (s'.table.inode r.i).Is r.dev r.num)
    (hlinks : ∀ i, gone old i < s.refs i → s.Alone i →
      (s'.table.inode i).nlinks = (s.table.inode i).nlinks)
    (hnew : ∀ f ∈ new, f.Claim s'.table ∧ ∀ i ∈ f.alone, s.refs i = 1) : Inv s' := by
  refine I.move M (fun i => ?_) (F.unique I.unique) (F.mounts I.mounts)
    (fun i hi => I.small i (F.dev i ▸ hi)) (fun k hk => ?_)
    (fun i hi => ⟨F.dev i, F.num i, fun ha => ⟨hlinks i hi ha, hsame i⟩⟩)
    (fun f hf => ⟨(hnew f hf).1, fun i hi => ?_⟩) hheld
  · rw [F.count, hsame]
    exact I.count i
  · rw [F.superBlock]
    exact hk
  · rw [hsame]
    exact (hnew f hf).2 i hi

/-- The count of one entry changes, with its references. -/
theorem Inv.recount (I : Inv s) (M : Move s s' t old new rest) {n : Nat}
    (htable : s'.table = s.table.modify i fun h => { h with count := n }) (hcount : n = s'.refs i)
    (hrefs : ∀ j, j ≠ i → s'.refs j = s.refs j) (halone : s.Alone i → s.refs i ≤ gone old i)
    (hnew : ∀ f ∈ new, f.Claim s.table ∧ ∀ j ∈ f.alone, s'.refs j = 1)
    (hheld : s'.held t = s.held t) : Inv s' := by
  have hids := ids_modify s.table i fun _ => n
  have hct := count_modify s.table i fun _ => n
  rw [← htable] at hids hct
  refine I.move M (fun j => ?_) (I.unique.of_ids (fun j => (hids j).1) fun j => (hids j).2.1) ?_
    (fun j hj => I.small j ((hids j).1 ▸ hj)) ?_
    (fun j hj => ⟨(hids j).1, (hids j).2.1, fun ha => ⟨(hids j).2.2, hrefs j ?_⟩⟩)
    (fun f hf => ⟨?_, (hnew f hf).2⟩) fun r hr => Or.inl (hheld ▸ hr)
  · rw [hct]
    by_cases hj : j = i
    · rw [if_pos hj, hj, hcount]
    · rw [if_neg hj, hrefs j hj, I.count]
  · rw [htable]
    exact I.mounts
  · rw [htable]
    exact fun k hk => hk
  · rintro rfl
    have := halone ha
    omega
  · refine (hnew f hf).1.of_same (fun j _ => (hids j).1) (fun j _ => (hids j).2.2) ?_
    rw [htable]
    exact fun k hk => hk

/-- One more reference to an entry nobody is alone with. -/
theorem Inv.hold (I : Inv s) (M : Move s s' t old new rest) (htable : s'.table = s.table.hold i)
    (hrefs : ∀ j, (new.flatMap Frame.refs).count j =
      (old.flatMap Frame.refs).count j + if i = j then 1 else 0)
    (hheld : s'.held t = s.held t) (halone : ¬ s.Alone i)
    (hnew : ∀ f ∈ new, f.Claim s.table ∧ ∀ j ∈ f.alone, j ≠ i ∧ s.refs j = 1) : Inv s' := by
  have hsame : ∀ j, s'.refs j = s.refs j + if i = j then 1 else 0 := by
    intro j
    have := M.refs j
    rw [hrefs, hheld] at this
    omega
  have hother : ∀ j, j ≠ i → s'.refs j = s.refs j := fun j hj => by
    rw [hsame, if_neg hj.symm, Nat.add_zero]
  refine I.recount M htable ?_ hother (fun ha => absurd ha halone)
    (fun f hf => ⟨(hnew f hf).1, fun j hj => ?_⟩) hheld
  · rw [hsame, if_pos rfl, I.count]
  · obtain ⟨hne, h1⟩ := (hnew f hf).2 j hj
    rw [hother j hne, h1]

/-- The last instruction of `iput`: the reference of the frame goes. -/
theorem Inv.drop (I : Inv s) (M : Move s s' t [f] [] rest) (hf : f.refs = [i])
    (htable : s'.table = s.table.drop i) (hheld : s'.held t = s.held t) : Inv s' := by
  have hgone : ∀ j, gone [f] j = if i = j then 1 else 0 := by
    intro j
    rw [gone, List.flatMap_cons, List.flatMap_nil, List.append_nil, hf, List.count_singleton]
    simp only [beq_iff_eq]
  have hsame : ∀ j, s'.refs j + gone [f] j = s.refs j := by
    intro j
    have := M.refs j
    rw [hheld, ← gone, List.flatMap_nil, List.count_nil] at this
    omega
  refine I.recount M htable ?_ (fun j hj => ?_) (fun ha => ?_)
    (fun g hg => absurd hg List.not_mem_nil) hheld
  · have h1 := hsame i
    rw [hgone, if_pos rfl] at h1
    rw [I.count]
    omega
  · have h1 := hsame j
    rwa [hgone, if_neg hj.symm] at h1
  · -- an entry that is alone has one reference, and that is the one that goes
    rw [hgone, if_pos rfl, I.alone i ha]

/-- An entry that no frame refers to, but those that go, gets other contents. -/
theorem Inv.assign (I : Inv s) (M : Move s s' t old new rest) {h : MInode}
    (htable : s'.table = s.table.modify i fun _ => h) (hgone : s.refs i ≤ gone old i)
    (hcount : h.count = s'.refs i) (hrefs : ∀ j, j ≠ i → s'.refs j = s.refs j)
    (hfresh : h.dev ≠ 0 → i < 32 ∧ ∀ j, j ≠ i → ¬ (s.table.inode j).Is h.dev h.num)
    (hnew : ∀ f ∈ new, f.Claim s'.table ∧ ∀ j ∈ f.alone, s'.refs j = 1)
    (hheld : ∀ r ∈ s'.held t, r ∈ s.held t ∨ (s'.table.inode r.i).Is r.dev r.num) : Inv s' := by
  have hself : s'.table.inode i = h := by rw [htable, modify_self]
  have hother : ∀ j, j ≠ i → s'.table.inode j = s.table.inode j := fun j hj => by
    rw [htable, modify_other _ _ hj]
  have hsuper : s'.table.superBlock = s.table.superBlock := by rw [htable]; rfl
  refine I.move M (fun j => ?_) (fun a b h0 hd hn => ?_) ?_ (fun j hj => ?_) ?_ (fun j hj => ?_)
    hnew hheld
  · by_cases hj : j = i
    · rw [hj, hself, hcount]
    · rw [hother j hj, hrefs j hj, I.count]
  · by_cases ha : a = i
    · by_cases hb : b = i
      · rw [ha, hb]
      · rw [ha, hself] at h0
        rw [ha, hself, hother b hb] at hd hn
        exact absurd ⟨hd.symm, hn.symm⟩ ((hfresh h0).2 b hb)
    · rw [hother a ha] at h0 hd hn
      by_cases hb : b = i
      · rw [hb, hself] at hd hn
        exact absurd ⟨hd, hn⟩ ((hfresh (hd ▸ h0)).2 a ha)
      · rw [hother b hb] at hd hn
        exact I.unique a b h0 hd hn
  · intro k hk
    rw [hsuper] at hk ⊢
    exact I.mounts k hk
  · by_cases hji : j = i
    · rw [hji, hself] at hj
      rw [hji]
      exact (hfresh hj).1
    · rw [hother j hji] at hj
      exact I.small j hj
  · rw [hsuper]
    exact fun k hk => hk
  · have hji : j ≠ i := by
      rintro rfl
      omega
    rw [hother j hji]
    exact ⟨rfl, rfl, fun _ => ⟨rfl, hrefs j hji⟩⟩

/-- `get_empty_inode` clears an entry without references, and its caller has it. -/
theorem Inv.clear (I : Inv s) (M : Move s s' t old new rest)
    (hzero : (s.table.inode i).count = 0) (htable : s'.table = s.table.clear i)
    (hrefs : ∀ j, s'.refs j = s.refs j + if i = j then 1 else 0)
    (hnew : ∀ f ∈ new, (s'.table.inode i = { MInode.zero with count := 1 } → f.Claim s'.table) ∧
      ∀ j ∈ f.alone, j = i)
    (hheld : ∀ r ∈ s'.held t, r ∈ s.held t ∨ r = ⟨i, 0, 0⟩) : Inv s' := by
  have hself : s'.table.inode i = { MInode.zero with count := 1 } := by
    rw [htable, Table.clear, modify_self]
  have hnone : s.refs i = 0 := (I.count i).symm.trans hzero
  have hone : s'.refs i = 1 := by rw [hrefs, hnone, if_pos rfl]
  refine I.assign M htable (hnone ▸ Nat.zero_le _) hone.symm (fun j hj => ?_) (fun h0 => absurd rfl h0)
    (fun f hf => ⟨(hnew f hf).1 hself, fun j hj => (hnew f hf).2 j hj ▸ hone⟩) fun r hr => ?_
  · rw [hrefs, if_neg hj.symm, Nat.add_zero]
  · refine (hheld r hr).imp id ?_
    rintro rfl
    rw [hself]
    exact ⟨rfl, rfl⟩

theorem findInode_none {dev : Dev} {num : Num} (h : findInode c dev num = none) (hi : i < 32) :
    ¬ (c.inode i).Is dev num := by
  have := List.find?_eq_none.mp h i (List.mem_range.mpr hi)
  simpa using this

/-- `iget` gives its empty entry an identity that nobody has. -/
theorem Inv.identify (I : Inv s) {dev : Dev} {num : Num}
    (M : Move s s' t [.search dev num i] [.readInode i] rest)
    (hfind : findInode s.table dev num = none) (htable : s'.table = s.table.identify i dev num)
    (hheld : s'.held t = s.held t) : Inv s' := by
  have hmem : Frame.search dev num i ∈ s.stack t := by
    rw [M.before]
    exact List.mem_append_left _ List.mem_cons_self
  obtain ⟨hdev, -, hi⟩ := I.claim t _ hmem
  have hone : s.refs i = 1 := I.alone i ⟨t, _, hmem, List.mem_cons_self⟩
  have hsame : ∀ j, s'.refs j = s.refs j := by
    intro j
    have := M.refs j
    rw [hheld] at this
    simp only [List.flatMap_cons, List.flatMap_nil, Frame.refs] at this
    omega
  refine I.assign M htable ?_ ?_ (fun j _ => hsame j) (fun _ => ⟨hi, fun j _ his => ?_⟩)
    (fun f hf => ?_) fun r hr => Or.inl (hheld ▸ hr)
  · rw [hone, gone]
    simp [Frame.refs]
  · rw [hsame]
    exact I.count i
  · exact findInode_none hfind (I.small j (his.1.symm ▸ hdev)) his
  · rw [List.mem_singleton.mp hf]
    refine ⟨?_, fun j hj => absurd hj List.not_mem_nil⟩
    show (s'.table.inode i).dev ≠ 0
    rw [htable, Table.identify, modify_self]
    exact hdev

/-- `free_inode` clears an entry whose only reference is its own. -/
theorem Inv.free (I : Inv s) (M : Move s s' t [.freeInode i] [] rest)
    (htable : s'.table = s.table.modify i fun _ => .zero) (hheld : s'.held t = s.held t) :
    Inv s' := by
  have hmem : Frame.freeInode i ∈ s.stack t := by
    rw [M.before]
    exact List.mem_append_left _ List.mem_cons_self
  have hone : s.refs i = 1 := I.alone i ⟨t, _, hmem, List.mem_cons_self⟩
  have hsame : ∀ j, s'.refs j + (if i = j then 1 else 0) = s.refs j := by
    intro j
    have := M.refs j
    rw [hheld] at this
    simp only [List.flatMap_cons, List.flatMap_nil, List.append_nil, Frame.refs,
      List.count_singleton, List.count_nil, beq_iff_eq] at this
    omega
  refine I.assign M htable ?_ ?_ (fun j hj => ?_) (fun h0 => absurd rfl h0)
    (fun f hf => absurd hf List.not_mem_nil) fun r hr => Or.inl (hheld ▸ hr)
  · rw [hone, gone]
    simp [Frame.refs]
  · have := hsame i
    rw [if_pos rfl, hone] at this
    show 0 = s'.refs i
    omega
  · have := hsame j
    rwa [if_neg hj.symm] at this

/-! ## Instructions -/

/-- No `iget` takes a reference to an inode that an `iput` is destroying. -/
def Undisturbed (s : Sys ι) (e : Event ι) : Prop :=
  ∀ t x dev num empty i rest u, e = .run t x → s.stack t = .found dev num empty i :: rest →
    (s.table.inode i).Is dev num → (s.table.inode i).lock = false → .freeInode i ∉ s.stack u

/-- The outcomes that keep the table, or change flags that no claim is about. -/
theorem Inv.frames (I : Inv s) (hf : s.stack t = f :: rest) {fs : List Frame} {cur : Option ι}
    (F : Flags s.table c) (hlinks : ∀ i, (c.inode i).nlinks = (s.table.inode i).nlinks)
    (hrefs : ∀ i, (fs.flatMap Frame.refs).count i = f.refs.count i)
    (hnew : ∀ g ∈ fs, g.Claim s.table ∧ ∀ i ∈ g.alone, i ∈ f.alone ∨ s.refs i = 1) :
    Inv (s.goto t c (fs ++ rest) (s.held t) cur) := by
  have M : Move s (s.goto t c (fs ++ rest) (s.held t) cur) t [f] fs rest := Sys.goto_move hf rfl
  have hheld := s.goto_held t c (fs ++ rest) (s.held t) cur
  have hmem : f ∈ s.stack t := by rw [hf]; exact List.mem_cons_self
  refine I.flags M F (M.same_refs (fun i => ?_) hheld) (fun r hr => Or.inl (hheld ▸ hr))
    (fun i _ _ => hlinks i) fun g hg => ⟨?_, fun i hi => ?_⟩
  · rw [hrefs, List.flatMap_cons, List.flatMap_nil, List.append_nil]
  · refine (hnew g hg).1.of_same (fun i _ => F.dev i) (fun i _ => hlinks i) fun k hk => ?_
    show (c.superBlock k).inodeMount.isSome = true
    rw [F.superBlock]
    exact hk
  · rcases (hnew g hg).2 i hi with h | h
    · exact I.alone i ⟨t, f, hmem, h⟩
    · exact h

/-- The client gets the entry of the frame. -/
theorem Inv.hand (I : Inv s) (hf : s.stack t = f :: rest) (hi : f.refs = [i])
    (F : Flags s.table c) (hlinks : ∀ j, j ≠ i → (c.inode j).nlinks = (s.table.inode j).nlinks)
    {cur : Option ι} :
    Inv (s.goto t c rest (⟨i, (c.inode i).dev, (c.inode i).num⟩ :: s.held t) cur) := by
  have M : Move s (s.goto t c rest (⟨i, (c.inode i).dev, (c.inode i).num⟩ :: s.held t) cur) t
      [f] [] rest := Sys.goto_move hf rfl
  have hheld := s.goto_held t c rest (⟨i, (c.inode i).dev, (c.inode i).num⟩ :: s.held t) cur
  have hgone : ∀ j, gone [f] j = if i = j then 1 else 0 := by
    intro j
    rw [gone, List.flatMap_cons, List.flatMap_nil, List.append_nil, hi, List.count_singleton]
    simp only [beq_iff_eq]
  refine I.flags M F (fun j => ?_) (fun r hr => ?_) (fun j hj ha => ?_)
    fun g hg => absurd hg List.not_mem_nil
  · have h1 := M.refs j
    have h2 := hgone j
    rw [gone] at h2
    rw [hheld, h2, List.map_cons, List.count_cons, List.flatMap_nil,
      List.count_nil] at h1
    simp only [beq_iff_eq] at h1
    omega
  · rw [hheld] at hr
    rcases List.mem_cons.mp hr with rfl | hr
    · exact Or.inr ⟨rfl, rfl⟩
    · exact Or.inl hr
  · refine hlinks j ?_
    rintro rfl
    have h1 := I.alone j ha
    rw [hgone, if_pos rfl] at hj
    omega

theorem scanEmpty_lt (inode : Nat → MInode) (n last : Nat) (found : Option Nat)
    (h : ∀ i, found = some i → i < 32) :
    ∀ i, (scanEmpty inode n last found).2 = some i → i < 32 := by
  induction n generalizing last found with
  | zero => exact h
  | succ n ih =>
    simp only [scanEmpty]
    have hlast : (if last + 1 ≥ 32 then 0 else last + 1) < 32 := by split <;> omega
    generalize (if last + 1 ≥ 32 then 0 else last + 1) = l at hlast ⊢
    have hl : ∀ i, some l = some i → i < 32 := fun i hi => Option.some.inj hi ▸ hlast
    split
    · split
      · exact hl
      · exact ih l (some l) hl
    · exact ih l found h

omit [DecidableEq ι] in
/-- Nobody is alone with an entry that another `iget` finds. -/
theorem Inv.not_alone (I : Inv s) {dev : Dev} {num : Num} (h0 : dev ≠ 0)
    (his : (s.table.inode i).Is dev num) (hfree : ∀ u, .freeInode i ∉ s.stack u) :
    ¬ s.Alone i := by
  rintro ⟨u, g, hg, hi⟩
  have hclaim := I.claim u g hg
  have hdev : (s.table.inode i).dev ≠ 0 := by
    rw [his.1]
    exact h0
  cases g with
  | search d n e =>
    rw [List.mem_singleton.mp hi] at hdev
    exact hdev hclaim.2.1
  | found d n e j =>
    rw [List.mem_singleton.mp hi] at hdev
    exact hdev hclaim.2.1
  | cross k e =>
    rw [List.mem_singleton.mp hi] at hdev
    exact hdev hclaim.2.1
  | freeInode j =>
    rw [List.mem_singleton.mp hi] at hfree
    exact hfree u hg
  | _ => cases hi

/-- The top frame in place of another one with the same references. -/
theorem Inv.replace (I : Inv s) (hf : s.stack t = f :: rest) {g : Frame} {cur : Option ι}
    (F : Flags s.table c) (hlinks : ∀ i, (c.inode i).nlinks = (s.table.inode i).nlinks)
    (hrefs : g.refs = f.refs) (halone : ∀ i ∈ g.alone, i ∈ f.alone) (hg : g.Claim s.table) :
    Inv (s.goto t c (g :: rest) (s.held t) cur) := by
  show Inv (s.goto t c ([g] ++ rest) (s.held t) cur)
  refine I.frames hf F hlinks (fun i => ?_) fun p hp => ?_
  · rw [List.flatMap_cons, List.flatMap_nil, List.append_nil, hrefs]
  · rw [List.mem_singleton.mp hp]
    exact ⟨hg, fun i hi => Or.inl (halone i hi)⟩

/-- The top frame goes. -/
theorem Inv.pop (I : Inv s) (hf : s.stack t = f :: rest) {cur : Option ι} (F : Flags s.table c)
    (hlinks : ∀ i, (c.inode i).nlinks = (s.table.inode i).nlinks) (hrefs : f.refs = []) :
    Inv (s.goto t c rest (s.held t) cur) := by
  show Inv (s.goto t c ([] ++ rest) (s.held t) cur)
  exact I.frames hf F hlinks (fun i => by rw [hrefs]; rfl) fun p hp => absurd hp List.not_mem_nil

/-- The top frame calls a function that takes no reference of its own. -/
theorem Inv.push (I : Inv s) (hf : s.stack t = f :: rest) {g p : Frame} {cur : Option ι}
    (hrefs : g.refs = []) (hg : g.Claim s.table) (hp : p.refs = f.refs)
    (halone : ∀ i ∈ p.alone, i ∈ f.alone ∨ s.refs i = 1) (hclaim : p.Claim s.table) :
    Inv (s.goto t s.table (g :: p :: rest) (s.held t) cur) := by
  show Inv (s.goto t s.table ([g, p] ++ rest) (s.held t) cur)
  refine I.frames hf (.refl _) (fun _ => rfl) (fun i => ?_) fun q hq => ?_
  · rw [List.flatMap_cons, hrefs, List.nil_append, List.flatMap_cons, List.flatMap_nil,
      List.append_nil, hp]
  · rcases List.mem_cons.mp hq with rfl | hq
    · refine ⟨hg, fun i hi => ?_⟩
      have := q.alone_refs hi
      rw [hrefs] at this
      cases this
    · rw [List.mem_singleton.mp hq]
      exact ⟨hclaim, halone⟩

/-- The state that the outcome of the top frame leads to has the invariant. -/
def Outcome.Keeps (s : Sys ι) (t : ι) (rest : List Frame) : Outcome → Prop
  | .next c fs => Inv (s.goto t c (fs ++ rest) (s.held t) (some t))
  | .sleep fs => Inv (s.goto t s.table (fs ++ rest) (s.held t) none)
  | .hand c i =>
    Inv (s.goto t c rest (⟨i, (c.inode i).dev, (c.inode i).num⟩ :: s.held t) (some t))
  | .panic => True

theorem Inv.stay (I : Inv s) (hf : s.stack t = f :: rest) : Outcome.Keeps s t rest (.sleep [f]) :=
  I.replace hf (.refl _) (fun _ => rfl) rfl (fun _ => id)
    (I.claim t f (by rw [hf]; exact List.mem_cons_self))

theorem Inv.wait (I : Inv s) (hf : s.stack t = f :: rest) {o : Outcome}
    (h : (s.table.inode i).lock = false → o.Keeps s t rest) :
    (waitUnlock s.table i f o).Keeps s t rest := by
  unfold waitUnlock
  split
  · exact I.stay hf
  · next hl => exact h (Bool.eq_false_of_not_eq_true hl)

/-! ### `get_empty_inode` -/

theorem empty_keeps (I : Inv s) {k : Caller} {x : Choice} (hf : s.stack t = .empty k :: rest) :
    (exec s.table x (.empty k)).Keeps s t rest := by
  have hk : k.Valid := I.claim t (.empty k) (by rw [hf]; exact List.mem_cons_self)
  simp only [exec]
  split
  · next last i hscan =>
    have hi : i < 32 := scanEmpty_lt s.table.inode 32 s.table.last none nofun i
      (congrArg Prod.snd hscan)
    exact I.replace hf ⟨fun _ => rfl, fun _ => rfl, fun _ => rfl, rfl⟩ (fun _ => rfl) rfl
      (fun _ => id) ⟨hk, hi⟩
  · trivial

theorem emptyWait_keeps (I : Inv s) {k : Caller} {x : Choice}
    (hf : s.stack t = .emptyWait k i :: rest) :
    (exec s.table x (.emptyWait k i)).Keeps s t rest := by
  obtain ⟨hk, hi⟩ : k.Valid ∧ i < 32 :=
    I.claim t (.emptyWait k i) (by rw [hf]; exact List.mem_cons_self)
  refine I.wait hf fun _ => ?_
  split
  · exact I.push hf rfl trivial rfl (fun _ h => Or.inl h) ⟨hk, hi⟩
  · split
    · exact I.replace hf (.refl _) (fun _ => rfl) rfl (fun _ => id) hk
    · next hzero =>
      have hzero : (s.table.inode i).count = 0 := not_not.mp hzero
      cases k with
      | client =>
        have M : Move s (s.goto t (s.table.clear i) rest
            (⟨i, ((s.table.clear i).inode i).dev, ((s.table.clear i).inode i).num⟩ :: s.held t)
            (some t)) t [.emptyWait .client i] [] rest := Sys.goto_move hf rfl
        have hheld := s.goto_held t (s.table.clear i) rest
          (⟨i, ((s.table.clear i).inode i).dev, ((s.table.clear i).inode i).num⟩ :: s.held t)
          (some t)
        refine I.clear M hzero rfl (fun j => ?_) (fun g hg => absurd hg List.not_mem_nil)
          fun r hr => ?_
        · have := M.refs j
          simp only [hheld, List.flatMap_cons, List.flatMap_nil, Frame.refs, List.append_nil,
            List.count_nil, List.map_cons, List.count_cons, beq_iff_eq] at this
          omega
        · rw [hheld] at hr
          rcases List.mem_cons.mp hr with rfl | hr
          · right
            rw [Table.clear, modify_self]
            rfl
          · exact Or.inl hr
      | iget dev num =>
        have M : Move s (s.goto t (s.table.clear i) (.search dev num i :: rest) (s.held t) (some t))
            t [.emptyWait (.iget dev num) i] [.search dev num i] rest :=
          Sys.goto_move hf rfl
        have hheld := s.goto_held t (s.table.clear i) (.search dev num i :: rest) (s.held t) (some t)
        show Inv (s.goto t (s.table.clear i) (.search dev num i :: rest) (s.held t) (some t))
        refine I.clear M hzero rfl (fun j => ?_) (fun g hg => ?_) fun r hr => Or.inl (hheld ▸ hr)
        · have := M.refs j
          simp only [hheld, List.flatMap_cons, List.flatMap_nil, Frame.refs, List.append_nil,
             List.count_nil, List.count_singleton, beq_iff_eq] at this
          omega
        · rw [List.mem_singleton.mp hg]
          refine ⟨fun h => ⟨hk, ?_, hi⟩, fun j hj => List.mem_singleton.mp hj⟩
          rw [h]
          rfl

/-! ### `iget` -/

theorem search_keeps (I : Inv s) {dev : Dev} {num : Num} {x : Choice}
    (hf : s.stack t = .search dev num i :: rest) :
    (exec s.table x (.search dev num i)).Keeps s t rest := by
  simp only [exec]
  split
  · next j hfind =>
    exact I.replace hf (.refl _) (fun _ => rfl) rfl (fun _ => id)
      (I.claim t (.search dev num i) (by rw [hf]; exact List.mem_cons_self))
  · next hfind =>
    exact I.identify (Sys.goto_move hf rfl) hfind rfl (s.goto_held ..)

theorem found_keeps (I : Inv s) {dev : Dev} {num : Num} {x : Choice}
    (hf : s.stack t = .found dev num j i :: rest) (hund : Undisturbed s (.run t x)) :
    (exec s.table x (.found dev num j i)).Keeps s t rest := by
  have hmem : Frame.found dev num j i ∈ s.stack t := by rw [hf]; exact List.mem_cons_self
  have hclaim := I.claim t _ hmem
  refine I.wait hf fun hlock => ?_
  split
  · exact I.replace hf (.refl _) (fun _ => rfl) rfl (fun _ => id) hclaim
  · next his =>
    have his := not_not.mp his
    have halone : ¬ s.Alone i :=
      I.not_alone hclaim.1 his fun u => hund t x dev num j i rest u rfl hf his hlock
    have hji : j ≠ i := by
      rintro rfl
      exact halone ⟨t, _, hmem, List.mem_cons_self⟩
    have hone : s.refs j = 1 := I.alone j ⟨t, _, hmem, List.mem_cons_self⟩
    have hkeeps : ∀ f g : Frame, (∀ k, ([f, g].flatMap Frame.refs).count k =
        [i, j].count k) → (∀ f' ∈ [f, g], f'.Claim s.table ∧ ∀ k ∈ f'.alone, k = j) →
        Outcome.Keeps s t rest (.next (s.table.hold i) [f, g]) := by
      intro f g hrefs hnew
      have M : Move s (s.goto t (s.table.hold i) ([f, g] ++ rest) (s.held t) (some t)) t
          [.found dev num j i] [f, g] rest := Sys.goto_move hf rfl
      refine I.hold M rfl (fun k => ?_) (s.goto_held ..) halone fun f' hf' =>
        ⟨(hnew f' hf').1, fun k hk => ?_⟩
      · rw [hrefs]
        simp only [List.flatMap_cons, List.flatMap_nil, Frame.refs, List.append_nil,
          List.count_cons, List.count_nil, beq_iff_eq]
      · rw [(hnew f' hf').2 k hk]
        exact ⟨hji, hone⟩
    -- `iput (empty)`, and the entry found
    have hgive : Outcome.Keeps s t rest (.next (s.table.hold i) [.iput j, .give i]) := by
      refine hkeeps _ _ (fun k => (List.Perm.swap ..).count_eq k) fun f' hf' => ?_
      rcases List.mem_cons.mp hf' with rfl | hf'
      · exact ⟨trivial, nofun⟩
      · rw [List.mem_singleton.mp hf']
        refine ⟨?_, nofun⟩
        show (s.table.inode i).dev ≠ 0
        rw [his.1]
        exact hclaim.1
    split
    · split
      · next k hk =>
        have hmount : (s.table.superBlock k).inodeMount = some i := by
          simpa using List.find?_some hk
        refine hkeeps _ _ (fun k => rfl) fun f' hf' => ?_
        rcases List.mem_cons.mp hf' with rfl | hf'
        · exact ⟨trivial, nofun⟩
        · rw [List.mem_singleton.mp hf']
          refine ⟨⟨?_, hclaim.2⟩, fun k hk => List.mem_singleton.mp hk⟩
          rw [hmount]
          rfl
      · exact hgive
    · exact hgive

theorem give_keeps (I : Inv s) {x : Choice} (hf : s.stack t = .give i :: rest) :
    (exec s.table x (.give i)).Keeps s t rest :=
  I.hand hf rfl (.refl _) fun _ _ => rfl

theorem cross_keeps (I : Inv s) {k : Nat} {x : Choice} (hf : s.stack t = .cross k i :: rest) :
    (exec s.table x (.cross k i)).Keeps s t rest := by
  have hclaim := I.claim t (.cross k i) (by rw [hf]; exact List.mem_cons_self)
  exact I.replace hf (.refl _) (fun _ => rfl) rfl (fun _ => id) ⟨I.mounts k hclaim.1, hclaim.2⟩

/-! ### `read_inode` and `write_inode` -/

theorem nlinks_modify (c : Table) (i : Nat) (g : MInode → MInode)
    (h : ∀ x, (g x).nlinks = x.nlinks) (j : Nat) :
    ((c.modify i g).inode j).nlinks = (c.inode j).nlinks := by
  by_cases hj : j = i
  · rw [hj, modify_self, h]
  · rw [modify_other c g hj]

theorem readInode_keeps (I : Inv s) {x : Choice} (hf : s.stack t = .readInode i :: rest) :
    (exec s.table x (.readInode i)).Keeps s t rest :=
  I.wait hf fun _ => I.replace hf (.modify _ _ _ fun _ => ⟨rfl, rfl, rfl⟩)
    (nlinks_modify _ _ _ fun _ => rfl) rfl (fun _ => id)
    (I.claim t (.readInode i) (by rw [hf]; exact List.mem_cons_self))

theorem readBlock_keeps (I : Inv s) {x : Choice} (hf : s.stack t = .readBlock i :: rest) :
    (exec s.table x (.readBlock i)).Keeps s t rest := by
  simp only [exec]
  split
  · next mode nlinks =>
    have F : Flags s.table (s.table.modify i fun h =>
        { h with mode := mode, nlinks := nlinks, lock := false }) :=
      .modify _ _ _ fun _ => ⟨rfl, rfl, rfl⟩
    exact I.hand hf rfl F fun j hj => by rw [modify_other _ _ hj]
  · exact I.stay hf

theorem writeInode_keeps (I : Inv s) {x : Choice} (hf : s.stack t = .writeInode i :: rest) :
    (exec s.table x (.writeInode i)).Keeps s t rest := by
  refine I.wait hf fun _ => ?_
  split
  · exact I.pop hf (.refl _) (fun _ => rfl) rfl
  · exact I.replace hf (.modify _ _ _ fun _ => ⟨rfl, rfl, rfl⟩)
      (nlinks_modify _ _ _ fun _ => rfl) rfl (fun _ => id) trivial

theorem writeBlock_keeps (I : Inv s) {x : Choice} (hf : s.stack t = .writeBlock i :: rest) :
    (exec s.table x (.writeBlock i)).Keeps s t rest := by
  simp only [exec]
  split
  · exact I.pop hf (.modify _ _ _ fun _ => ⟨rfl, rfl, rfl⟩) (nlinks_modify _ _ _ fun _ => rfl) rfl
  · exact I.stay hf

/-! ### `iput` -/

/-- `i_count--`, and the frame goes. -/
theorem drop_keeps (I : Inv s) (hf : s.stack t = f :: rest) (hi : f.refs = [i]) :
    Outcome.Keeps s t rest (.next (s.table.drop i) []) :=
  I.drop (Sys.goto_move hf rfl) hi rfl (s.goto_held ..)

theorem iput_keeps (I : Inv s) {x : Choice} (hf : s.stack t = .iput i :: rest) :
    (exec s.table x (.iput i)).Keeps s t rest := by
  refine I.wait hf fun _ => ?_
  split
  · trivial
  · split
    · exact drop_keeps I hf rfl
    · next hdev =>
      split
      · exact I.replace hf (.refl _) (fun _ => rfl) rfl (fun _ => id) hdev
      · exact I.replace hf (.refl _) (fun _ => rfl) rfl (fun _ => id) hdev

theorem iputSync_keeps (I : Inv s) {x : Choice} (hf : s.stack t = .iputSync i :: rest) :
    (exec s.table x (.iputSync i)).Keeps s t rest := by
  have hclaim := I.claim t (.iputSync i) (by rw [hf]; exact List.mem_cons_self)
  simp only [exec]
  split
  · exact I.replace hf (.refl _) (fun _ => rfl) rfl (fun _ => id) hclaim
  · exact I.push hf rfl trivial rfl nofun hclaim
  · exact I.stay hf

theorem iputWait_keeps (I : Inv s) {x : Choice} (hf : s.stack t = .iputWait i :: rest) :
    (exec s.table x (.iputWait i)).Keeps s t rest := by
  have hclaim := I.claim t (.iputWait i) (by rw [hf]; exact List.mem_cons_self)
  exact I.wait hf fun _ => I.replace hf (.refl _) (fun _ => rfl) rfl (fun _ => id) hclaim

theorem iputRepeat_keeps (I : Inv s) {x : Choice} (hf : s.stack t = .iputRepeat i :: rest) :
    (exec s.table x (.iputRepeat i)).Keeps s t rest := by
  have hmem : Frame.iputRepeat i ∈ s.stack t := by rw [hf]; exact List.mem_cons_self
  have hclaim := I.claim t _ hmem
  simp only [exec, iputTest]
  split
  · exact drop_keeps I hf rfl
  · next hcount =>
    split
    · next hlinks =>
      -- the reference of the frame is the only one
      have hone : s.refs i = 1 := by
        have h1 : s.refs i ≠ 0 := Lib.tally_of_frame hmem List.mem_cons_self
        have h2 := I.count i
        omega
      refine I.push hf rfl trivial rfl (fun j hj => Or.inr ?_) ⟨hclaim, hlinks⟩
      rw [List.mem_singleton.mp hj]
      exact hone
    · split
      · exact I.push hf rfl trivial rfl nofun hclaim
      · exact drop_keeps I hf rfl

theorem truncate_keeps (I : Inv s) {x : Choice} (hf : s.stack t = .truncate i :: rest) :
    (exec s.table x (.truncate i)).Keeps s t rest := by
  simp only [exec]
  split
  · split
    · exact I.pop hf (.modify _ _ _ fun _ => ⟨rfl, rfl, rfl⟩) (nlinks_modify _ _ _ fun _ => rfl) rfl
    · exact I.stay hf
  · exact I.pop hf (.refl _) (fun _ => rfl) rfl

theorem freeInode_keeps (I : Inv s) {x : Choice} (hf : s.stack t = .freeInode i :: rest) :
    (exec s.table x (.freeInode i)).Keeps s t rest := by
  have hfree : Outcome.Keeps s t rest (.next (s.table.modify i fun _ => .zero) []) :=
    I.free (Sys.goto_move hf rfl) rfl (s.goto_held ..)
  simp only [exec]
  split
  · exact hfree
  · split
    · trivial
    · split
      · trivial
      · exact hfree

/-- One instruction keeps the invariant. -/
theorem runTask_inv (I : Inv s) {x : Choice} (hund : Undisturbed s (.run t x))
    (h : runTask s t x = some s') : Inv s' := by
  unfold runTask at h
  cases hf : s.stack t with
  | nil =>
    rw [hf] at h
    cases h
  | cons f rest =>
    rw [hf] at h
    dsimp only at h
    have hkeeps : (exec s.table x f).Keeps s t rest := by
      cases f with
      | empty k => exact empty_keeps I hf
      | emptyWait k i => exact emptyWait_keeps I hf
      | search dev num i => exact search_keeps I hf
      | found dev num j i => exact found_keeps I hf hund
      | cross k i => exact cross_keeps I hf
      | give i => exact give_keeps I hf
      | readInode i => exact readInode_keeps I hf
      | readBlock i => exact readBlock_keeps I hf
      | writeInode i => exact writeInode_keeps I hf
      | writeBlock i => exact writeBlock_keeps I hf
      | iput i => exact iput_keeps I hf
      | iputSync i => exact iputSync_keeps I hf
      | iputWait i => exact iputWait_keeps I hf
      | iputRepeat i => exact iputRepeat_keeps I hf
      | truncate i => exact truncate_keeps I hf
      | freeInode i => exact freeInode_keeps I hf
    cases ho : exec s.table x f with
    | next c fs =>
      rw [ho] at h hkeeps
      exact Option.some.inj h ▸ hkeeps
    | sleep fs =>
      rw [ho] at h hkeeps
      exact Option.some.inj h ▸ hkeeps
    | hand c i =>
      rw [ho] at h hkeeps
      exact Option.some.inj h ▸ hkeeps
    | panic =>
      rw [ho] at h
      cases h

/-! ## Events -/

/-- A task calls a function that has no reference yet. -/
theorem Inv.call (I : Inv s) (hf : s.stack t = []) (hrefs : f.refs = []) (hclaim : f.Claim s.table)
    {cur : Option ι} : Inv (s.goto t s.table [f] (s.held t) cur) := by
  have M : Move s (s.goto t s.table [f] (s.held t) cur) t [] [f] [] := Sys.goto_move hf rfl
  have hheld := s.goto_held t s.table [f] (s.held t) cur
  refine I.flags M (.refl _) (M.same_refs (fun i => ?_) hheld) (fun r hr => Or.inl (hheld ▸ hr))
    (fun _ _ _ => rfl) fun g hg => ?_
  · rw [List.flatMap_cons, hrefs]
    rfl
  · rw [List.mem_singleton.mp hg]
    refine ⟨hclaim, fun i hi => ?_⟩
    have := f.alone_refs hi
    rw [hrefs] at this
    cases this

/-- A client puts an inode back. -/
theorem Inv.put (I : Inv s) (hf : s.stack t = []) {r : Ref} (hr : r ∈ s.held t)
    {cur : Option ι} : Inv (s.goto t s.table [.iput r.i] ((s.held t).erase r) cur) := by
  have M : Move s (s.goto t s.table [.iput r.i] ((s.held t).erase r) cur) t [] [.iput r.i] [] :=
    Sys.goto_move hf rfl
  have hheld := s.goto_held t s.table [.iput r.i] ((s.held t).erase r) cur
  refine I.flags M (.refl _) (fun i => ?_) (fun q hq => ?_) (fun _ _ _ => rfl) fun g hg => ?_
  · have h1 := M.refs i
    have h2 := ((List.perm_cons_erase hr).map Ref.i).count_eq i
    simp only [hheld, List.flatMap_cons, List.flatMap_nil, Frame.refs, List.append_nil,
      List.map_cons, List.count_cons, List.count_nil, beq_iff_eq] at h1 h2
    omega
  · rw [hheld] at hq
    exact Or.inl (List.mem_of_mem_erase hq)
  · rw [List.mem_singleton.mp hg]
    exact ⟨trivial, nofun⟩

/-- Nobody is alone with an entry that a client holds. -/
theorem Inv.held_not_alone (I : Inv s) (hf : s.stack t = []) {r : Ref} (hr : r ∈ s.held t) :
    ¬ s.Alone r.i := by
  rintro ⟨u, g, hg, hi⟩
  have hone := I.alone r.i ⟨u, g, hg, hi⟩
  have hut : u ≠ t := by
    rintro rfl
    rw [hf] at hg
    cases hg
  have h1 : 0 < Lib.own Frame.refs Ref.i (s.stack t) (s.held t) r.i := Lib.own_held hr
  have h2 : 0 < Lib.own Frame.refs Ref.i (s.stack u) (s.held u) r.i :=
    Lib.own_frame hg (g.alone_refs hi)
  have h3 : _ ≤ Lib.tally Frame.refs Ref.i s.stack s.held r.i := Lib.own_add_le_tally hut r.i
  rw [Sys.refs] at hone
  omega

/-- One event keeps the invariant. -/
theorem step_inv (I : Inv s) {e : Event ι} (hund : Undisturbed s e) (h : step s e = some s') :
    Inv s' := by
  -- a change of the table alone
  have M : ∀ t c, Move s { s with table := c } t [] [] (s.stack t) := fun _ _ =>
    ⟨rfl, rfl, fun _ _ => rfl, fun _ _ => rfl⟩
  cases e with
  | resume t =>
    obtain ⟨-, rfl⟩ := Lib.of_guard h
    exact ⟨I.count, I.unique, I.mounts, I.small, I.claim, I.alone, I.held⟩
  | leave t =>
    obtain ⟨-, rfl⟩ := Lib.of_guard h
    exact ⟨I.count, I.unique, I.mounts, I.small, I.claim, I.alone, I.held⟩
  | iget t dev num =>
    obtain ⟨⟨hu, hdev⟩, rfl⟩ := Lib.of_guard h
    exact I.call (f := .empty (.iget dev num)) hu.2 rfl hdev
  | getEmptyInode t =>
    obtain ⟨hu, rfl⟩ := Lib.of_guard h
    exact I.call (f := .empty .client) hu.2 rfl trivial
  | iput t r =>
    obtain ⟨⟨hu, hr⟩, rfl⟩ := Lib.of_guard h
    exact I.put hu.2 hr
  | change t r n =>
    obtain ⟨⟨hu, hr⟩, rfl⟩ := Lib.of_guard h
    have F : Flags s.table (s.table.modify r.i fun h => { h with nlinks := n, dirt := true }) :=
      .modify _ _ _ fun _ => ⟨rfl, rfl, rfl⟩
    refine I.flags (M t _) F
      (fun _ => rfl) (fun _ => Or.inl) (fun i _ ha => ?_) fun g hg => absurd hg List.not_mem_nil
    have hi : i ≠ r.i := by
      rintro rfl
      exact I.held_not_alone hu.2 hr ha
    dsimp only
    rw [modify_other s.table _ hi]
  | mount t r k dev =>
    obtain ⟨⟨hu, hr, hdev⟩, rfl⟩ := Lib.of_guard h
    have F : Flags s.table (s.table.modify r.i fun h => { h with mount := true }) :=
      .modify _ _ _ fun _ => ⟨rfl, rfl, rfl⟩
    have hlinks := nlinks_modify s.table r.i (fun h => { h with mount := true }) fun _ => rfl
    refine I.move (M t _) (fun i => (F.count i).trans (I.count i)) (F.unique I.unique)
      (fun k' hk => ?_) (fun i hi => I.small i (F.dev i ▸ hi)) (fun k' hk => ?_)
      (fun i _ => ⟨F.dev i, F.num i, fun _ => ⟨hlinks i, rfl⟩⟩)
      (fun g hg => absurd hg List.not_mem_nil) fun _ => Or.inl
    · dsimp only at hk ⊢
      by_cases hkk : k' = k
      · rw [hkk, Function.update_self]
        exact hdev
      · rw [Function.update_of_ne hkk] at hk ⊢
        exact I.mounts k' hk
    · dsimp only
      by_cases hkk : k' = k
      · rw [hkk, Function.update_self]
        rfl
      · rw [Function.update_of_ne hkk]
        exact hk
  | run t x =>
    obtain ⟨-, h⟩ := Option.ite_none_right_eq_some.mp h
    exact runTask_inv I hund h

end Linux011.Inode

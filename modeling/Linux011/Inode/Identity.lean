import Linux011.Inode.Unique

/-!
# The identity of an entry

As long as every inode keeps its links, `iput` destroys nothing. Then the condition of the invariant
holds by itself, one inode has one entry, and an entry that is in use keeps its identity.

The count of links is zero for a moment, between `iget` giving an entry its identity and
`read_inode` bringing the rest from the disk. An `iput` that came to such an entry would be the only
one to refer to it; but the reader refers to it too.
-/

namespace Linux011.Inode

variable {ι : Type*} {s s' : Sys ι} {t : ι} {c c' : Table} {f : Frame} {fs rest : List Frame}
  {x : Choice} {i : Nat}

/-! ## What an instruction does -/

/-- The table after the instruction. -/
def Outcome.table (c : Table) : Outcome → Table
  | .next c' _ => c'
  | .sleep _ => c
  | .hand c' _ => c'
  | .panic => c

/-- The frames that the instruction leaves in place of its own. -/
def Outcome.frames : Outcome → List Frame
  | .next _ fs => fs
  | .sleep fs => fs
  | .hand _ _ => []
  | .panic => []

/-- The frame reads the inode from the disk. -/
def Frame.Loads (i : Nat) (f : Frame) : Prop := f = .readInode i ∨ f = .readBlock i

/-- Identities and link counts are as they were. -/
structure SameIds (c c' : Table) : Prop where
  dev : ∀ i, (c'.inode i).dev = (c.inode i).dev
  num : ∀ i, (c'.inode i).num = (c.inode i).num
  nlinks : ∀ i, (c'.inode i).nlinks = (c.inode i).nlinks

/-- What an instruction does to identities and link counts: nothing; or it is one of the five that
clear an entry, identify it, fill it, or destroy an inode. -/
inductive Effect (c : Table) (x : Choice) : Frame → Table → List Frame → Prop
  | plain {f : Frame} {c' : Table} {fs : List Frame} : SameIds c c' → (∀ i, .freeInode i ∉ fs) →
      (∀ i, f.Loads i → ∃ g ∈ fs, g.Loads i) → Effect c x f c' fs
  | clear {k : Caller} {i : Nat} {fs : List Frame} : (c.inode i).lock = false →
      (c.inode i).dirt = false → (c.inode i).count = 0 →
      (fs = [] ∨ ∃ dev num, fs = [.search dev num i]) →
      Effect c x (.emptyWait k i) (c.clear i) fs
  | identify {dev : Dev} {num : Num} {i : Nat} :
      Effect c x (.search dev num i) (c.identify i dev num) [.readInode i]
  | load {i : Nat} {mode : Mode} {nlinks : Nat} : x = .data mode nlinks →
      Effect c x (.readBlock i)
        (c.modify i fun h => { h with mode := mode, nlinks := nlinks, lock := false }) []
  | destroy {i : Nat} : (c.inode i).count ≤ 1 → (c.inode i).nlinks = 0 →
      Effect c x (.iputRepeat i) c [.truncate i, .freeInode i]
  | free {i : Nat} : Effect c x (.freeInode i) (c.modify i fun _ => .zero) []

theorem SameIds.refl (c : Table) : SameIds c c := ⟨fun _ => rfl, fun _ => rfl, fun _ => rfl⟩

theorem SameIds.modify (c : Table) (i : Nat) (g : MInode → MInode)
    (h : ∀ x, (g x).dev = x.dev ∧ (g x).num = x.num ∧ (g x).nlinks = x.nlinks) :
    SameIds c (c.modify i g) := by
  refine ⟨fun j => ?_, fun j => ?_, fun j => ?_⟩ <;> by_cases hj : j = i
  · rw [hj, modify_self, (h _).1]
  · rw [modify_other c g hj]
  · rw [hj, modify_self, (h _).2.1]
  · rw [modify_other c g hj]
  · rw [hj, modify_self, (h _).2.2]
  · rw [modify_other c g hj]

/-- The frame stays as it is. -/
theorem Effect.stay (hf : ∀ i, f ≠ .freeInode i) : Effect c x f c [f] :=
  .plain (.refl c) (fun i hi => hf i (List.mem_singleton.mp hi).symm) fun _ h =>
    ⟨f, List.mem_cons_self, h⟩

theorem Effect.wait {o : Outcome} (hf : ∀ i, f ≠ .freeInode i)
    (h : (c.inode i).lock = false → o ≠ .panic → Effect c x f (o.table c) o.frames)
    (hp : waitUnlock c i f o ≠ .panic) :
    Effect c x f ((waitUnlock c i f o).table c) (waitUnlock c i f o).frames := by
  unfold waitUnlock at hp ⊢
  split
  · exact .stay hf
  · next hl =>
    rw [if_neg hl] at hp
    exact h (Bool.eq_false_of_not_eq_true hl) hp

/-- Other frames, none of which frees an inode, in place of one that reads none. -/
theorem Effect.goto (hc : SameIds c c') (hfs : ∀ i, .freeInode i ∉ fs) (hf : ∀ i, ¬ f.Loads i) :
    Effect c x f c' fs := .plain hc hfs fun i h => absurd h (hf i)

theorem exec_effect (h : exec c x f ≠ .panic) :
    Effect c x f ((exec c x f).table c) (exec c x f).frames := by
  cases f with
  | empty k =>
    simp only [exec] at h ⊢
    split
    · exact .goto ⟨fun _ => rfl, fun _ => rfl, fun _ => rfl⟩ (by simp [Outcome.frames])
        (by simp [Frame.Loads])
    · next hscan => rw [hscan] at h; exact absurd rfl h
  | emptyWait k i =>
    refine .wait (by rintro _ ⟨⟩) (fun hl _ => ?_) h
    split
    · exact .goto (.refl c) (by simp [Outcome.frames]) (by simp [Frame.Loads])
    · next hd =>
      split
      · exact .goto (.refl c) (by simp [Outcome.frames]) (by simp [Frame.Loads])
      · next hcount =>
        have hcount : (c.inode i).count = 0 := not_not.mp hcount
        have hd : (c.inode i).dirt = false := Bool.eq_false_of_not_eq_true hd
        cases k with
        | client => exact .clear hl hd hcount (Or.inl rfl)
        | iget dev num => exact .clear hl hd hcount (Or.inr ⟨dev, num, rfl⟩)
  | search dev num e =>
    simp only [exec]
    split
    · exact .goto (.refl c) (by simp [Outcome.frames]) (by simp [Frame.Loads])
    · exact .identify
  | found dev num e i =>
    have hold : SameIds c (c.hold i) := .modify _ _ _ fun _ => ⟨rfl, rfl, rfl⟩
    refine .wait (by rintro _ ⟨⟩) (fun _ _ => ?_) h
    split
    · exact .goto (.refl c) (by simp [Outcome.frames]) (by simp [Frame.Loads])
    · split
      · split
        · exact .goto hold (by simp [Outcome.frames]) (by simp [Frame.Loads])
        · exact .goto hold (by simp [Outcome.frames]) (by simp [Frame.Loads])
      · exact .goto hold (by simp [Outcome.frames]) (by simp [Frame.Loads])
  | cross k e => exact .goto (.refl c) (by simp [exec, Outcome.frames]) (by simp [Frame.Loads])
  | give i => exact .goto (.refl c) (by simp [exec, Outcome.frames]) (by simp [Frame.Loads])
  | readInode i =>
    have hlock : SameIds c (c.modify i fun h => { h with lock := true }) :=
      .modify _ _ _ fun _ => ⟨rfl, rfl, rfl⟩
    refine .wait (by rintro _ ⟨⟩) (fun _ _ => .plain hlock (by simp [Outcome.frames]) ?_) h
    rintro j (hj | hj)
    · cases hj
      exact ⟨_, List.mem_cons_self, Or.inr rfl⟩
    · cases hj
  | readBlock i =>
    simp only [exec]
    split
    · exact .load rfl
    · exact .stay (by rintro _ ⟨⟩)
  | writeInode i =>
    have hlock : SameIds c (c.modify i fun h => { h with lock := true }) :=
      .modify _ _ _ fun _ => ⟨rfl, rfl, rfl⟩
    refine .wait (by rintro _ ⟨⟩) (fun _ _ => ?_) h
    split
    · exact .goto (.refl c) (by simp [Outcome.frames]) (by simp [Frame.Loads])
    · exact .goto hlock (by simp [Outcome.frames]) (by simp [Frame.Loads])
  | writeBlock i =>
    have hclean : SameIds c (c.modify i fun h => { h with dirt := false, lock := false }) :=
      .modify _ _ _ fun _ => ⟨rfl, rfl, rfl⟩
    simp only [exec]
    split
    · exact .goto hclean (by simp [Outcome.frames]) (by simp [Frame.Loads])
    · exact .stay (by rintro _ ⟨⟩)
  | iput i =>
    have hdrop : SameIds c (c.drop i) := .modify _ _ _ fun _ => ⟨rfl, rfl, rfl⟩
    refine .wait (by rintro _ ⟨⟩) (fun _ hp => ?_) h
    split at hp
    · exact absurd rfl hp
    · next hcount =>
      rw [if_neg hcount]
      split
      · exact .goto hdrop (by simp [Outcome.frames]) (by simp [Frame.Loads])
      · split
        · exact .goto (.refl c) (by simp [Outcome.frames]) (by simp [Frame.Loads])
        · exact .goto (.refl c) (by simp [Outcome.frames]) (by simp [Frame.Loads])
  | iputSync i =>
    simp only [exec]
    split
    · exact .goto (.refl c) (by simp [Outcome.frames]) (by simp [Frame.Loads])
    · exact .goto (.refl c) (by simp [Outcome.frames]) (by simp [Frame.Loads])
    · exact .stay (by rintro _ ⟨⟩)
  | iputWait i =>
    refine .wait (by rintro _ ⟨⟩) (fun _ _ => ?_) h
    exact .goto (.refl c) (by simp [Outcome.frames]) (by simp [Frame.Loads])
  | iputRepeat i =>
    have hdrop : SameIds c (c.drop i) := .modify _ _ _ fun _ => ⟨rfl, rfl, rfl⟩
    simp only [exec, iputTest]
    split
    · exact .goto hdrop (by simp [Outcome.frames]) (by simp [Frame.Loads])
    · next hcount =>
      split
      · next hlinks => exact .destroy (Nat.le_of_not_lt hcount) hlinks
      · split
        · exact .goto (.refl c) (by simp [Outcome.frames]) (by simp [Frame.Loads])
        · exact .goto hdrop (by simp [Outcome.frames]) (by simp [Frame.Loads])
  | truncate i =>
    have hdirt : SameIds c (c.modify i fun h => { h with dirt := true }) :=
      .modify _ _ _ fun _ => ⟨rfl, rfl, rfl⟩
    simp only [exec]
    split
    · split
      · exact .goto hdirt (by simp [Outcome.frames]) (by simp [Frame.Loads])
      · exact .stay (by rintro _ ⟨⟩)
    · exact .goto (.refl c) (by simp [Outcome.frames]) (by simp [Frame.Loads])
  | freeInode i =>
    simp only [exec] at h ⊢
    split at h
    · next hd => rw [if_pos hd]; exact .free
    · next hd =>
      split at h
      · exact absurd rfl h
      · next hcount =>
        split at h
        · exact absurd rfl h
        · next hlinks =>
          rw [if_neg hd, if_neg hcount, if_neg hlinks]
          exact .free

/-! ## What an event does -/

variable [DecidableEq ι]

/-- An instruction of task `t` that is not a panic. -/
theorem runTask_cases (h : runTask s t x = some s') : ∃ f rest, s.stack t = f :: rest ∧
    exec s.table x f ≠ .panic ∧ s'.table = (exec s.table x f).table s.table ∧
    s'.stack = Function.update s.stack t ((exec s.table x f).frames ++ rest) := by
  unfold runTask at h
  cases hf : s.stack t with
  | nil =>
    rw [hf] at h
    cases h
  | cons f rest =>
    rw [hf] at h
    dsimp only at h
    refine ⟨f, rest, rfl, ?_⟩
    cases ho : exec s.table x f with
    | next c fs =>
      rw [ho] at h
      cases h
      exact ⟨nofun, rfl, rfl⟩
    | sleep fs =>
      rw [ho] at h
      cases h
      exact ⟨nofun, rfl, rfl⟩
    | hand c i =>
      rw [ho] at h
      cases h
      exact ⟨nofun, rfl, rfl⟩
    | panic =>
      rw [ho] at h
      cases h

/-- The frames after one instruction of task `t`. -/
theorem mem_update {fs' : List Frame} {u : ι} {g : Frame} (hs : s.stack t = f :: rest)
    (hg : g ∈ Function.update s.stack t (fs' ++ rest) u) : g ∈ fs' ∨ g ∈ s.stack u := by
  by_cases hu : u = t
  · rw [hu, Function.update_self] at hg
    rcases List.mem_append.mp hg with h | h
    · exact Or.inl h
    · rw [hu, hs]
      exact Or.inr (List.mem_cons_of_mem _ h)
  · rw [Function.update_of_ne hu] at hg
    exact Or.inr hg

theorem mem_update_of {fs' : List Frame} {u : ι} {g : Frame} (hs : s.stack t = f :: rest)
    (hg : g ∈ s.stack u) (hne : g ≠ f ∨ g ∈ fs') :
    g ∈ Function.update s.stack t (fs' ++ rest) u := by
  by_cases hu : u = t
  · rw [hu, Function.update_self]
    rw [hu, hs] at hg
    rcases List.mem_cons.mp hg with rfl | h
    · exact List.mem_append_left _ (hne.resolve_left (absurd rfl))
    · exact List.mem_append_right _ h
  · rw [Function.update_of_ne hu]
    exact hg

/-- A task in user mode calls a function. -/
theorem Sys.goto_frames (h : s.stack t = []) (c : Table) (f : Frame) (rs : List Ref)
    (cur : Option ι) : (∀ u g, g ∈ (s.goto t c [f] rs cur).stack u → g ∈ s.stack u ∨ g = f) ∧
      ∀ u g, g ∈ s.stack u → g ∈ (s.goto t c [f] rs cur).stack u := by
  have hother : ∀ u, u ≠ t → (s.goto t c [f] rs cur).stack u = s.stack u := fun u hu =>
    Function.update_of_ne hu ..
  have hself : (s.goto t c [f] rs cur).stack t = [f] := Function.update_self ..
  refine ⟨fun u g hg => ?_, fun u g hg => ?_⟩ <;> by_cases hu : u = t
  · rw [hu, hself] at hg
    exact Or.inr (List.mem_singleton.mp hg)
  · rw [hother u hu] at hg
    exact Or.inl hg
  · rw [hu, h] at hg
    cases hg
  · rw [hother u hu]
    exact hg

/-- Every event is an instruction, a change of an inode by a client, or a call; a call changes no
identity and no link count, and the frames stay. -/
theorem step_cases {e : Event ι} (h : step s e = some s') :
    (∃ t x, e = .run t x ∧ runTask s t x = some s') ∨
    (∃ t r n, e = .change t r n ∧ r ∈ s.held t ∧ s'.stack = s.stack ∧
      s'.table = s.table.modify r.i fun h => { h with nlinks := n, dirt := true }) ∨
    (SameIds s.table s'.table ∧
      (∀ u f, f ∈ s'.stack u → f ∈ s.stack u ∨ (∃ k, f = .empty k) ∨ ∃ i, f = .iput i) ∧
      ∀ u f, f ∈ s.stack u → f ∈ s'.stack u) := by
  cases e with
  | resume t =>
    obtain ⟨-, rfl⟩ := Lib.of_guard h
    exact Or.inr (Or.inr ⟨.refl _, fun _ _ hf => Or.inl hf, fun _ _ hf => hf⟩)
  | leave t =>
    obtain ⟨-, rfl⟩ := Lib.of_guard h
    exact Or.inr (Or.inr ⟨.refl _, fun _ _ hf => Or.inl hf, fun _ _ hf => hf⟩)
  | iget t dev num =>
    obtain ⟨⟨hu, -⟩, rfl⟩ := Lib.of_guard h
    have hframes := Sys.goto_frames hu.2 s.table (.empty (.iget dev num)) (s.held t) (some t)
    exact Or.inr (Or.inr ⟨.refl _, fun u f hf => (hframes.1 u f hf).imp_right fun h =>
      Or.inl ⟨_, h⟩, hframes.2⟩)
  | getEmptyInode t =>
    obtain ⟨hu, rfl⟩ := Lib.of_guard h
    have hframes := Sys.goto_frames hu.2 s.table (.empty .client) (s.held t) (some t)
    exact Or.inr (Or.inr ⟨.refl _, fun u f hf => (hframes.1 u f hf).imp_right fun h =>
      Or.inl ⟨_, h⟩, hframes.2⟩)
  | iput t r =>
    obtain ⟨⟨hu, -⟩, rfl⟩ := Lib.of_guard h
    have hframes := Sys.goto_frames hu.2 s.table (.iput r.i) ((s.held t).erase r) (some t)
    exact Or.inr (Or.inr ⟨.refl _, fun u f hf => (hframes.1 u f hf).imp_right fun h =>
      Or.inr ⟨_, h⟩, hframes.2⟩)
  | change t r n =>
    obtain ⟨⟨-, hr⟩, rfl⟩ := Lib.of_guard h
    exact Or.inr (Or.inl ⟨t, r, n, rfl, hr, rfl, rfl⟩)
  | mount t r k dev =>
    obtain ⟨-, rfl⟩ := Lib.of_guard h
    have hids : SameIds s.table (s.table.modify r.i fun h => { h with mount := true }) :=
      .modify _ _ _ fun _ => ⟨rfl, rfl, rfl⟩
    exact Or.inr (Or.inr ⟨⟨hids.dev, hids.num, hids.nlinks⟩, fun _ _ hf => Or.inl hf,
      fun _ _ hf => hf⟩)
  | run t x =>
    obtain ⟨-, h⟩ := Option.ite_none_right_eq_some.mp h
    exact Or.inl ⟨t, x, rfl, h⟩

/-! ## Inodes keep their links -/

variable [Fintype ι]

/-- Nothing is destroyed, and an inode without links is one that is being read. -/
structure Intact (s : Sys ι) : Prop extends Inv s where
  calm : ∀ t i, .freeInode i ∉ s.stack t
  links : ∀ i, (s.table.inode i).dev ≠ 0 → (s.table.inode i).nlinks = 0 →
    ∃ t, ∃ f ∈ s.stack t, f.Loads i

omit [DecidableEq ι] in
theorem Sys.Start.inv {s : Sys ι} (h : s.Start) : Inv s := by
  obtain ⟨hinode, hmount, hstack, hheld, -⟩ := h
  have hrefs : ∀ i, s.refs i = 0 := fun i => by
    rw [Sys.refs, Lib.tally]
    refine Finset.sum_eq_zero fun t _ => ?_
    rw [hstack, hheld]
    rfl
  refine ⟨fun i => ?_, fun i j h0 => ?_, fun k hk => ?_, fun i h0 => ?_, fun t f hf => ?_,
    fun i ha => ?_, fun t r hr => ?_⟩
  · rw [hinode, hrefs]
    rfl
  · rw [hinode] at h0
    exact absurd rfl h0
  · rw [hmount] at hk
    cases hk
  · rw [hinode] at h0
    exact absurd rfl h0
  · rw [hstack] at hf
    cases hf
  · obtain ⟨t, f, hf, -⟩ := ha
    rw [hstack] at hf
    cases hf
  · rw [hheld] at hr
    cases hr

omit [DecidableEq ι] in
theorem Sys.Start.intact {s : Sys ι} (h : s.Start) : Intact s := by
  refine ⟨h.inv, fun t i hi => ?_, fun i h0 => ?_⟩
  · rw [h.2.2.1] at hi
    cases hi
  · rw [h.1] at h0
    exact absurd rfl h0

/-- Allocated inodes keep their links: neither the disk nor a client brings a zero. -/
def Linked (_ : Sys ι) : Event ι → Prop
  | .change _ _ nlinks => nlinks ≠ 0
  | .run _ (.data _ nlinks) => nlinks ≠ 0
  | _ => True

instance (s : Sys ι) : (e : Event ι) → Decidable (Linked s e)
  | .change _ _ nlinks => inferInstanceAs (Decidable (nlinks ≠ 0))
  | .run _ (.data _ nlinks) => inferInstanceAs (Decidable (nlinks ≠ 0))
  | .run _ .sleep | .run _ .done | .run _ (.write _) => isTrue trivial
  | .resume _ | .leave _ | .iget _ _ _ | .getEmptyInode _ | .iput _ _ | .mount _ _ _ _ =>
    isTrue trivial

/-- An `iput` that comes to an inode without links is not alone with it. -/
theorem Intact.not_destroy (I : Intact s) (hmem : .iputRepeat i ∈ s.stack t)
    (hcount : (s.table.inode i).count ≤ 1) : (s.table.inode i).nlinks ≠ 0 := by
  intro hlinks
  obtain ⟨u, g, hg, hloads⟩ := I.links i (I.claim t _ hmem) hlinks
  have htwo : 2 ≤ s.refs i := by
    have hne : Frame.iputRepeat i ≠ g := by
      rintro rfl
      rcases hloads with h | h <;> cases h
    refine Lib.two_le_tally hne hmem hg List.mem_cons_self ?_
    rcases hloads with rfl | rfl
    · exact List.mem_cons_self
    · exact List.mem_cons_self
  have := I.count i
  omega

theorem Intact.effect (I : Intact s) (hl : Linked s (.run t x)) (hf : s.stack t = f :: rest)
    (E : Effect s.table x f c' fs) : (∀ i, .freeInode i ∉ fs) ∧
      ∀ i, (c'.inode i).dev ≠ 0 → (c'.inode i).nlinks = 0 → (∃ g ∈ fs, g.Loads i) ∨
        ((s.table.inode i).dev ≠ 0 ∧ (s.table.inode i).nlinks = 0 ∧ ¬ f.Loads i) := by
  have hmem : f ∈ s.stack t := by rw [hf]; exact List.mem_cons_self
  cases E with
  | plain hids hcalm hloads =>
    refine ⟨hcalm, fun i hdev hlinks => ?_⟩
    rw [hids.dev] at hdev
    rw [hids.nlinks] at hlinks
    by_cases hi : f.Loads i
    · exact Or.inl (hloads i hi)
    · exact Or.inr ⟨hdev, hlinks, hi⟩
  | @clear k i _ hlock hdirt hcount hfs =>
    refine ⟨fun j hj => ?_, fun j hdev hlinks => Or.inr ?_⟩
    · rcases hfs with rfl | ⟨dev, num, rfl⟩
      · cases hj
      · cases List.mem_singleton.mp hj
    · have hj : j ≠ i := by
        rintro rfl
        rw [Table.clear, modify_self] at hdev
        exact hdev rfl
      rw [Table.clear, modify_other _ _ hj] at hdev hlinks
      refine ⟨hdev, hlinks, ?_⟩
      rintro (h | h) <;> cases h
  | @identify dev num i =>
    refine ⟨fun j hj => ?_, fun j hdev hlinks => ?_⟩
    · cases List.mem_singleton.mp hj
    · by_cases hj : j = i
      · rw [hj]
        exact Or.inl ⟨_, List.mem_cons_self, Or.inl rfl⟩
      · rw [Table.identify, modify_other _ _ hj] at hdev hlinks
        refine Or.inr ⟨hdev, hlinks, ?_⟩
        rintro (h | h) <;> cases h
  | @load i mode nlinks hx =>
    subst hx
    refine ⟨fun j hj => absurd hj List.not_mem_nil, fun j hdev hlinks => Or.inr ?_⟩
    have hj : j ≠ i := by
      rintro rfl
      rw [modify_self] at hlinks
      exact hl hlinks
    rw [modify_other _ _ hj] at hdev hlinks
    refine ⟨hdev, hlinks, ?_⟩
    rintro (h | h)
    · cases h
    · cases h
      exact hj rfl
  | @destroy i hcount hlinks => exact absurd hlinks (I.not_destroy hmem hcount)
  | free => exact absurd hmem (I.calm t _)

theorem step_intact (I : Intact s) {e : Event ι} (hl : Linked s e) (h : step s e = some s') :
    Intact s' := by
  have I' : Inv s' := step_inv I.toInv (fun _ _ _ _ _ _ _ u _ _ _ _ => I.calm u _) h
  rcases step_cases h with ⟨t, x, rfl, hrun⟩ | ⟨t, r, n, rfl, hr, hstack, htable⟩ |
    ⟨hids, hnew, hold⟩
  · obtain ⟨f, rest, hf, hp, htable, hstack⟩ := runTask_cases hrun
    obtain ⟨hcalm, hlinks⟩ := I.effect hl hf (exec_effect hp)
    rw [← htable] at hlinks
    refine ⟨I', fun u i hi => ?_, fun i hdev hzero => ?_⟩
    · rw [hstack] at hi
      rcases mem_update hf hi with h | h
      · exact hcalm i h
      · exact I.calm u i h
    · rw [hstack]
      rcases hlinks i hdev hzero with ⟨g, hg, hloads⟩ | ⟨hdev', hzero', hnot⟩
      · refine ⟨t, g, ?_, hloads⟩
        rw [Function.update_self]
        exact List.mem_append_left _ hg
      · obtain ⟨u, g, hg, hloads⟩ := I.links i hdev' hzero'
        refine ⟨u, g, mem_update_of hf hg (Or.inl ?_), hloads⟩
        rintro rfl
        exact hnot hloads
  · refine ⟨I', fun u i => ?_, fun i hdev hlinks => ?_⟩
    · rw [hstack]
      exact I.calm u i
    · have hi : i ≠ r.i := by
        rintro rfl
        rw [htable, modify_self] at hlinks
        exact hl hlinks
      rw [htable, modify_other _ _ hi] at hdev hlinks
      rw [hstack]
      exact I.links i hdev hlinks
  · refine ⟨I', fun u i hi => ?_, fun i hdev hlinks => ?_⟩
    · rcases hnew u _ hi with h | ⟨k, h⟩ | ⟨j, h⟩
      · exact I.calm u i h
      · cases h
      · cases h
    · rw [hids.dev] at hdev
      rw [hids.nlinks] at hlinks
      obtain ⟨u, g, hg, hloads⟩ := I.links i hdev hlinks
      exact ⟨u, g, hold u g hg, hloads⟩

/-! ## Entries in use -/

/-- The instruction clears entry `i`: it is the last one of `get_empty_inode`, or `free_inode`. -/
def Clears (s : Sys ι) (e : Event ι) (i : Nat) : Prop :=
  ∃ t x rest, e = .run t x ∧ (s.stack t = .freeInode i :: rest ∨ ∃ k,
    s.stack t = .emptyWait k i :: rest ∧
      (exec s.table x (.emptyWait k i) = .hand (s.table.clear i) i ∨
        ∃ dev num, exec s.table x (.emptyWait k i) = .next (s.table.clear i) [.search dev num i]))

/-- `get_empty_inode` clears what nobody uses. -/
theorem emptyWait_clears {k : Caller} (dev : Dev) (num : Num)
    (h : exec c x (.emptyWait k i) = .hand (c.clear i) i ∨
      exec c x (.emptyWait k i) = .next (c.clear i) [.search dev num i]) :
    (c.inode i).count = 0 ∧ (c.inode i).dirt = false ∧ (c.inode i).lock = false := by
  simp only [exec, waitUnlock] at h
  by_cases hl : (c.inode i).lock = true
  · rw [if_pos hl] at h
    rcases h with h | h <;> cases h
  · rw [if_neg hl] at h
    by_cases hd : (c.inode i).dirt = true
    · rw [if_pos hd] at h
      rcases h with h | h
      · cases h
      · cases (Outcome.next.inj h).2
    · rw [if_neg hd] at h
      by_cases hc : (c.inode i).count ≠ 0
      · rw [if_pos hc] at h
        rcases h with h | h
        · cases h
        · cases (Outcome.next.inj h).2
      · exact ⟨not_not.mp hc, Bool.eq_false_of_not_eq_true hd, Bool.eq_false_of_not_eq_true hl⟩

omit [DecidableEq ι] in
/-- An entry in use changes its identity in one case: `iget` identifies the entry it has reserved. -/
theorem Intact.identity (I : Intact s) (hf : s.stack t = f :: rest) (E : Effect s.table x f c' fs)
    (hcount : 0 < (s.table.inode i).count)
    (hid : (c'.inode i).dev ≠ (s.table.inode i).dev ∨ (c'.inode i).num ≠ (s.table.inode i).num) :
    (s.table.inode i).dev = 0 ∧ ∃ dev num, f = .search dev num i := by
  have hmem : f ∈ s.stack t := by rw [hf]; exact List.mem_cons_self
  have hother : ∀ (j : Nat) (g : MInode → MInode), c' = s.table.modify j g →
      (i = j → (g (s.table.inode i)).dev = (s.table.inode i).dev ∧
        (g (s.table.inode i)).num = (s.table.inode i).num) → False := by
    rintro j g rfl hg
    by_cases hij : i = j
    · subst hij
      rw [modify_self] at hid
      exact hid.elim (fun h => h (hg rfl).1) fun h => h (hg rfl).2
    · rw [modify_other _ _ hij] at hid
      exact hid.elim (fun h => h rfl) fun h => h rfl
  cases E with
  | plain hids _ _ =>
    exact absurd hid (not_or.mpr ⟨not_not.mpr (hids.dev i), not_not.mpr (hids.num i)⟩)
  | @clear k j _ hlock hdirt hzero hfs =>
    refine (hother j _ rfl fun hij => ?_).elim
    rw [hij, hzero] at hcount
    exact absurd hcount (Nat.lt_irrefl 0)
  | @identify dev num j =>
    by_cases hij : i = j
    · subst hij
      exact ⟨(I.claim t _ hmem).2.1, dev, num, rfl⟩
    · exact (hother j _ rfl fun h => absurd h hij).elim
  | @load j mode nlinks hx => exact (hother j _ rfl fun _ => ⟨rfl, rfl⟩).elim
  | destroy => exact absurd hid (not_or.mpr ⟨not_not.mpr rfl, not_not.mpr rfl⟩)
  | free => exact absurd hmem (I.calm t _)

theorem inode_cache_unique (h : Lib.Reach step Linked Sys.Start s) :
    Unique s.table ∧ ∀ e s', Linked s e → step s e = some s' →
      (∀ i, Clears s e i → (s.table.inode i).count = 0 ∧ (s.table.inode i).dirt = false ∧
        (s.table.inode i).lock = false) ∧
      ∀ i, 0 < (s.table.inode i).count →
        (s'.table.inode i).dev ≠ (s.table.inode i).dev ∨
          (s'.table.inode i).num ≠ (s.table.inode i).num →
        (s.table.inode i).dev = 0 ∧
          ∃ t x dev num rest, e = .run t x ∧ s.stack t = .search dev num i :: rest := by
  have I : Intact s := h.invariant (fun _ h0 => h0.intact) fun _ _ _ I hl hs => step_intact I hl hs
  refine ⟨I.unique, fun e s' hl hs => ⟨fun i hclears => ?_, fun i hcount hid => ?_⟩⟩
  · obtain ⟨t, x, rest, -, hf | ⟨k, -, h | ⟨dev, num, h⟩⟩⟩ := hclears
    · refine absurd ?_ (I.calm t i)
      rw [hf]
      exact List.mem_cons_self
    · exact emptyWait_clears 0 0 (Or.inl h)
    · exact emptyWait_clears dev num (Or.inr h)
  · rcases step_cases hs with ⟨t, x, rfl, hrun⟩ | ⟨t, r, n, rfl, hr, hstack, htable⟩ | ⟨hids, -⟩
    · obtain ⟨f, rest, hf, hp, htable, -⟩ := runTask_cases hrun
      rw [htable] at hid
      obtain ⟨h0, dev, num, rfl⟩ := I.identity hf (exec_effect hp) hcount hid
      exact ⟨h0, t, x, dev, num, rest, rfl, hf⟩
    · have F : Flags s.table (s.table.modify r.i fun h => { h with nlinks := n, dirt := true }) :=
        .modify _ _ _ fun _ => ⟨rfl, rfl, rfl⟩
      rw [htable] at hid
      exact absurd hid (not_or.mpr ⟨not_not.mpr (F.dev i), not_not.mpr (F.num i)⟩)
    · exact absurd hid (not_or.mpr ⟨not_not.mpr (hids.dev i), not_not.mpr (hids.num i)⟩)

/-! ## A run -/

/-- The empty table, and two tasks. -/
def freshTable : Sys (Fin 2) :=
  ⟨⟨fun _ => .zero, 0, fun _ => ⟨0, none⟩⟩, fun _ => [], fun _ => [], none⟩

theorem freshTable_start : freshTable.Start :=
  ⟨fun _ => rfl, fun _ => rfl, fun _ => rfl, fun _ => rfl, rfl⟩

/-- Task 0 is in `bread` for the inode, and task 1 waits for the entry. -/
def sharedInode : List (Event (Fin 2)) :=
  [.resume 0, .iget 0 1 5, .run 0 .done, .run 0 .done, .run 0 .done, .run 0 .done, .run 0 .sleep,
    .resume 1, .iget 1 1 5, .run 1 .done, .run 1 .done, .run 1 .done, .run 1 .done, .resume 0,
    .run 0 (.data .regular 1), .leave 0, .resume 1, .run 1 .done, .run 1 .done, .run 1 .done]

/-- Both have the same entry. -/
theorem inode_cache_unique_shared : ∃ s : Sys (Fin 2), Unique s.table ∧
    s.held 0 = [⟨1, 1, 5⟩] ∧ s.held 1 = [⟨1, 1, 5⟩] := by
  have hrun : (Lib.run (fun s e => (step s e).filter fun _ => decide (Linked s e)) freshTable
      sharedInode).map (fun s => (s.held 0, s.held 1)) = some ([⟨1, 1, 5⟩], [⟨1, 1, 5⟩]) := by
    decide
  obtain ⟨s, hs, heq⟩ := Option.map_eq_some_iff.mp hrun
  obtain ⟨h0, h1⟩ := Prod.mk.inj heq
  have hreach : Lib.Reach step Linked Sys.Start s :=
    Lib.Reach.ofChecked (fun _ _ _ _ hc => of_decide_eq_true hc) (.start freshTable_start) hs
  exact ⟨s, (inode_cache_unique hreach).1, h0, h1⟩

end Linux011.Inode

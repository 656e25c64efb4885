import Linux011.Mm.Events

/-!
# `fork`, `release` and `do_execve`

The inversion lemmas of the events that make, end and rebuild a task. After `do_execve` the region
of a task is empty below its stack (`Region`): that the stack of a new program lies above 63 MB and
its `end_data` below 48 MB is what keeps argument pages out of the pages that may be shared.
-/

namespace Linux011.Mm

variable {file : Nat → Program} {lo hi : Nat} {s s' : Sys} {m m' : Mem} {held : Nat → Bool}
  {nr : Nat} {t : Task}

/-! ## `release` and `fork` -/

theorem release_spec (I : Inv file lo hi s) (h1 : 1 ≤ nr) (ht : s.task nr = some t)
    (hz : t.phase = .zombie) (h : release s nr t = some s') :
    Inv file lo hi s' ∧ Local s s' nr ∧ s'.task nr = none := by
  have G := I.good h1 ht
  obtain ⟨m1, hm, S1, vd, -, vv⟩ := freePage_view I.sound (G.owns t.page List.mem_cons_self)
  unfold release at h
  rw [hm] at h
  cases h
  have hnone : Function.update s.task nr (none : Option Task) nr = none := Function.update_self ..
  have L : Local s ⟨m1, Function.update s.held t.page false, Function.update s.task nr none⟩ nr :=
    ⟨fun q hq => Function.update_of_ne hq _ _, fun d _ => by rw [vd], fun d i _ => vv d i⟩
  refine ⟨I.change h1 S1 L.task L.dirv (fun d i hd => Or.inl (L.view d i hd)) ?_ ?_ ?_ ?_, L, hnone⟩
  · intro f hf hft
    have hne : f ≠ t.page := fun h => hft (by rw [pages_of ht, h]; exact List.mem_cons_self)
    show Function.update s.held t.page false f = true
    rw [Function.update_of_ne hne]
    exact hf
  · intro f hf
    simp only [Sys.pages, hnone, List.not_mem_nil] at hf
  · intro t' ht'
    exact absurd (hnone.symm.trans ht') nofun
  · intro _ k hk
    show present (m1.dirv _) = false
    rw [vd]
    exact (G.zombie hz).1 k hk

/-- The limits of a task that may fork, task 0 included. -/
theorem fork_limits (I : Inv file lo hi s) (ht : s.task nr = some t) :
    nr < 64 ∧ t.dataLimit ≤ 0x4000000 ∧ (nr = 0 → t = initTask ∧ blocks t.dataLimit ≤ 1) := by
  by_cases h0 : nr = 0
  · rw [h0, I.zero] at ht
    cases ht
    exact ⟨by omega, by decide, fun _ => ⟨rfl, by decide⟩⟩
  · have G := I.good (by omega) ht
    exact ⟨G.slot, G.data, fun h => absurd h h0⟩

theorem fork_spec (I : Inv file lo hi s) {parent child : Nat} (ht : s.task parent = some t)
    (hu : t.InUser) (h1 : 1 ≤ child) (h64 : child < 64) (hc : s.task child = none)
    (h : fork s parent child t = some s') :
    Inv file lo hi s' ∧ Local s s' child ∧
      (s'.task = s.task ∨ ∃ p,
        s'.task = Function.update s.task child (some { t with page := p }) ∧
        ∀ k < 16, ∀ i, cellView s'.mem (16 * child + k) i = slotView s.mem parent k i) := by
  obtain ⟨hp64, hdata, hzero⟩ := fork_limits I ht
  have hne : child ≠ parent := by
    rintro rfl
    rw [ht] at hc
    cases hc
  have hempty := I.free h1 h64 hc
  unfold fork at h
  cases hg : getFreePage s.mem with
  | none =>
    rw [hg] at h
    cases h
    exact ⟨I, Local.refl _ _, Or.inl rfl⟩
  | some r =>
    obtain ⟨p, m1⟩ := r
    rw [hg] at h
    dsimp only at h
    have F := getFreePage_spec I.sound hg
    have vv1 := getFreePage_view I.sound hg
    have hfresh : s.held p = false :=
      (I.sound.acct.unreferenced F.range.1 F.range.2 F.zero).2.2
    split at h
    · cases h
    · obtain ⟨done, m2, hm2, S2, hrest, hrow, habs, -⟩ := copyPageTables_view F.sound hp64 h1 h64
        hne hdata (fun h0 => (hzero h0).2) (by rw [F.dirv]; exact hempty)
      have hd2 : ∀ d, d / 16 ≠ child → m2.dirv d = s.mem.dirv d := fun d hd => by
        rw [(hrest d hd).1, F.dirv]
      have hv2 : ∀ d i, d / 16 ≠ child → cellView m2 d i = cellView s.mem d i := fun d i hd => by
        rw [(hrest d hd).2 i, vv1]
      rw [hm2] at h
      cases done with
      | true =>
        cases h
        have hnew : Function.update s.task child (some { t with page := p }) child
            = some { t with page := p } := Function.update_self ..
        have L : Local s ⟨m2, Function.update s.held p true,
            Function.update s.task child (some { t with page := p })⟩ child :=
          ⟨fun q hq => Function.update_of_ne hq _ _, hd2, hv2⟩
        have hpages : ({ t with page := p } : Task).pages = [p] := by
          simp only [Task.pages, hu.2.1, hu.2.2, Option.toList_none, List.map_nil, List.append_nil]
        have hchild : ∀ k < 16, ∀ i, cellView m2 (16 * child + k) i = slotView s.mem parent k i := by
          intro k hk i
          by_cases hb : k < blocks t.dataLimit
          · rw [hrow rfl k hb i]
            unfold slotView
            split
            · rfl
            · rw [vv1]
          · rw [absent_of_dirv (habs k hk (by omega))]
            unfold slotView
            by_cases h0 : parent = 0
            · have hk0 : ¬ (k = 0 ∧ i < 0xA0) := by
                have hbl : blocks t.dataLimit = 1 := by
                  rw [(hzero h0).1]
                  decide
                omega
              rw [if_pos h0, if_neg hk0]
            · have G := I.good (by omega) ht
              rw [if_neg h0, absent_of_dirv (G.beyond k hk (by omega))]
        refine ⟨I.local h1 S2 L hnew ?_ ?_ ?_, L, Or.inr ⟨p, rfl, hchild⟩⟩
        · intro f hf _
          have hfp : f ≠ p := fun h => by rw [h, hfresh] at hf; cases hf
          show Function.update s.held p true f = true
          rw [Function.update_of_ne hfp]
          exact hf
        · intro f hf
          rw [hpages, List.mem_singleton] at hf
          rw [hf]
          exact Or.inr hfresh
        · refine { slot := h64, code := ?_, data := hdata, beyond := habs, zombie := ?_, sane := ?_,
                   ready := ?_, zeroing := ?_, loading := ?_, once := ?_, owns := ?_ }
          · show t.codeLimit ≤ _
            omega
          · intro hz
            have := hu.1.symm.trans hz
            cases this
          · intro ino hino
            by_cases h0 : parent = 0
            · have ht0 := (hzero h0).1
              subst ht0
              cases hino
            · exact (I.good (by omega) ht).sane ino hino
          · intro ino hino hcl
            by_cases h0 : parent = 0
            · have ht0 := (hzero h0).1
              subst ht0
              cases hino
            · obtain ⟨he, hhigh⟩ := (I.good (by omega) ht).ready ino hino hcl
              refine ⟨he, fun k hk i => ?_⟩
              show cellView m2 _ _ ≠ _
              rw [hchild k hk i, slotView, if_neg h0]
              exact hhigh k hk i
          · intro i hi
            have := hu.1.symm.trans hi
            cases this
          · intro tmp page hl
            have := hu.2.1.symm.trans hl
            cases this
          · rw [hpages]
            exact List.nodup_singleton _
          · intro f hf
            rw [hpages, List.mem_singleton] at hf
            rw [hf]
            exact Function.update_self ..
      | false =>
        dsimp only at h
        obtain ⟨m3, hm3, S3, gone3, rest3, keep3, -⟩ := freePageTables_view S2 h1 h64 hdata
        rw [hm3] at h
        dsimp only at h
        obtain ⟨m4, hm4, S4, vd4, -, vv4⟩ := freePage_view S3 (f := p) (Function.update_self ..)
        rw [hm4] at h
        cases h
        rw [F.back I.sound] at S4
        have L : Local s { s with mem := m4 } child :=
          ⟨fun _ _ => rfl, fun d hd => by rw [vd4, (rest3 d hd).1, hd2 d hd],
            fun d i hd => by rw [vv4, (rest3 d hd).2 i, hv2 d i hd]⟩
        refine ⟨I.change h1 S4 L.task L.dirv (fun d i hd => Or.inl (L.view d i hd))
          (fun _ h _ => h) (fun f hf => Or.inl hf) ?_ ?_, L, Or.inl rfl⟩
        · intro t' ht'
          rw [hc] at ht'
          cases ht'
        · intro _ k hk
          show present (m4.dirv _) = false
          rw [vd4]
          by_cases hb : k < blocks t.dataLimit
          · exact gone3 k hb
          · rw [keep3 k hk (by omega)]
            exact habs k hk (by omega)

/-! ## The small steps of `do_execve` -/

/-- The invariant rule for an event that shows nowhere: only the task of the slot, and the pages it
holds, have changed. -/
theorem Inv.quiet (I : Inv file lo hi s) {held' : Nat → Bool} {k : Task} (h1 : 1 ≤ nr)
    (ht : s.task nr = some t) (S : Sound lo hi m' held') (hd : m'.dirv = s.mem.dirv)
    (hv : ∀ d i, cellView m' d i = cellView s.mem d i)
    (hheld : ∀ f, s.held f = true → f ∉ t.pages → held' f = true)
    (hpages : ∀ f ∈ k.pages, f ∈ t.pages ∨ s.held f = false)
    (hgood : Good file s.mem s.held nr t → Good file m' held' nr k) :
    Inv file lo hi (Sys.setTask ⟨m', held', s.task⟩ nr k) ∧
      Local s (Sys.setTask ⟨m', held', s.task⟩ nr k) nr := by
  have L := Local.of (s := s) nr held' k (fun d _ => by rw [hd]) fun d i _ => hv d i
  refine ⟨I.local h1 S L (setTask_self _ _ _) ?_ ?_ (hgood (I.good h1 ht)), L⟩
  · rw [pages_of ht]
    exact hheld
  · rw [pages_of ht]
    exact hpages

/-- A good task over memory that shows the same is still good. -/
theorem Good.same {held' : Nat → Bool} (G : Good file m held nr t) (hd : m'.dirv = m.dirv)
    (hv : ∀ d i, cellView m' d i = cellView m d i) (hh : ∀ f ∈ t.pages, held' f = true) :
    Good file m' held' nr t :=
  G.tame (fun k _ => by rw [hd]) (fun k _ i => Or.inl (hv _ i)) hh

theorem execArg_spec (I : Inv file lo hi s) (i : Nat) (content : Nat → Word) (h1 : 1 ≤ nr)
    (ht : s.task nr = some t) (hl : t.loading = none) :
    Inv file lo hi (execArg s nr t i content) ∧ Local s (execArg s nr t i content) nr ∧
      ∃ args, (execArg s nr t i content).task
        = Function.update s.task nr (some { t with args := args }) ∧
      ∀ d j, cellView (execArg s nr t i content).mem d j = cellView s.mem d j := by
  unfold execArg
  cases hg : getFreePage s.mem with
  | none =>
    refine ⟨I, Local.refl _ _, t.args, ?_, fun _ _ => rfl⟩
    rw [show ({ t with args := t.args } : Task) = t from rfl, ← ht, Function.update_eq_self]
  | some r =>
    obtain ⟨f, m1⟩ := r
    dsimp only
    have F := getFreePage_spec I.sound hg
    have vv1 := getFreePage_view I.sound hg
    have hfresh : s.held f = false :=
      (I.sound.acct.unreferenced F.range.1 F.range.2 F.zero).2.2
    obtain ⟨S2, vd2, -, -, vv2⟩ := fill_view F.sound (f := f) (Function.update_self ..) content
    have hup : ∀ g, s.held g = true → Function.update s.held f true g = true := by
      intro g hg
      by_cases h : g = f
      · rw [h, Function.update_self]
      · rw [Function.update_of_ne h, hg]
    have hperm : ∀ g, g ∈ ({ t with args := (i, f) :: t.args } : Task).pages →
        g = f ∨ g ∈ t.pages := by
      intro g hg
      simp only [Task.pages, hl, Option.toList_none, List.map_cons, List.map_nil, List.mem_cons,
        List.nil_append] at hg ⊢
      tauto
    have hd : (m1.fill f content).dirv = s.mem.dirv := by rw [vd2, F.dirv]
    have hv : ∀ d j, cellView (m1.fill f content) d j = cellView s.mem d j := fun d j => by
      rw [vv2, vv1]
    obtain ⟨I', L⟩ := I.quiet (k := { t with args := (i, f) :: t.args }) h1 ht S2 hd hv
      (fun g hg _ => hup g hg)
      (fun g hg => (hperm g hg).elim (fun h => Or.inr (h ▸ hfresh)) Or.inl) (fun G => by
        have G' := G.same hd hv fun g hg => hup g (G.owns g hg)
        have hnew : f ∉ t.pages := fun h => by rw [G.owns f h] at hfresh; cases hfresh
        refine { G' with once := ?_, owns := ?_ }
        · have := G.once
          simp only [Task.pages, hl, Option.toList_none, List.map_cons, List.map_nil,
            List.nil_append, List.nodup_cons, List.mem_cons, not_or] at this hnew ⊢
          exact ⟨⟨fun h => hnew.1 h.symm, this.1⟩, hnew.2, this.2⟩
        · intro g hg
          rcases hperm g hg with rfl | h
          · exact Function.update_self ..
          · exact hup g (G.owns g h))
    exact ⟨I', L, _, rfl, hv⟩

/-- The pages of a list are given back: none of them is held any more. -/
theorem freeArgs_held (S : Sound lo hi m held) {args : List (Nat × Nat)}
    (hheld : ∀ f ∈ args.map Prod.snd, held f = true) (honce : (args.map Prod.snd).Nodup) :
    ∃ m' held', freeArgs args (m, held) = some (m', held') ∧ Sound lo hi m' held' ∧
      m'.dirv = m.dirv ∧ m'.pte = m.pte ∧ m'.ram = m.ram ∧ (∀ f ∈ args.map Prod.snd, held' f = false) ∧
      ∀ f, f ∉ args.map Prod.snd → held' f = held f := by
  induction args generalizing m held with
  | nil => exact ⟨m, held, rfl, S, rfl, rfl, rfl, fun _ h => absurd h List.not_mem_nil, fun _ _ => rfl⟩
  | cons a args ih =>
    obtain ⟨i, f⟩ := a
    rw [List.map_cons, List.nodup_cons] at honce
    obtain ⟨m1, hm1, S1, vd1, vp1, vr1⟩ := freePage_held S (hheld f List.mem_cons_self)
    obtain ⟨m2, held2, hm2, S2, vd2, vp2, vr2, gone, rest⟩ := ih S1 (fun g hg => by
      have hne : g ≠ f := fun h => honce.1 (h ▸ hg)
      rw [Function.update_of_ne hne]
      exact hheld g (List.mem_cons_of_mem _ hg)) honce.2
    refine ⟨m2, held2, by rw [freeArgs, hm1]; exact hm2, S2, vd2.trans vd1, vp2.trans vp1,
      vr2.trans vr1, fun g hg => ?_, fun g hg => ?_⟩
    · by_cases hgf : g = f
      · rw [hgf, rest f honce.1, Function.update_self]
      · exact gone g ((List.mem_cons.mp hg).resolve_left hgf)
    · rw [List.map_cons, List.mem_cons, not_or] at hg
      rw [rest g hg.2, Function.update_of_ne hg.1]

theorem execFail_spec (I : Inv file lo hi s) (h1 : 1 ≤ nr) (ht : s.task nr = some t)
    (hl : t.loading = none)
    (h : (freeArgs t.args (s.mem, s.held)).map (fun r =>
      Sys.setTask ⟨r.1, r.2, s.task⟩ nr { t with args := [] }) = some s') :
    Inv file lo hi s' ∧ Local s s' nr ∧
      s'.task = Function.update s.task nr (some { t with args := [] }) ∧
      ∀ d j, cellView s'.mem d j = cellView s.mem d j := by
  have G := I.good h1 ht
  have honce := G.once
  have hmem : ∀ f ∈ t.args.map Prod.snd, f ∈ t.pages := fun f hf => by
    simp only [Task.pages, List.mem_cons, List.mem_append]
    exact Or.inr (Or.inr hf)
  simp only [Task.pages, hl, Option.toList_none, List.map_nil, List.nil_append,
    List.nodup_cons] at honce
  obtain ⟨m1, held1, hm, S1, vd, vp, vr, -, hh⟩ := freeArgs_held I.sound
    (fun f hf => G.owns f (hmem f hf)) honce.2
  have vv : ∀ d i, cellView m1 d i = cellView s.mem d i := fun d i =>
    cellView_same (by rw [vp]) fun g (_ : Data s.mem s.held g) => by rw [vr]
  rw [hm] at h
  cases h
  have hpages : ({ t with args := [] } : Task).pages = [t.page] := by
    simp only [Task.pages, hl, Option.toList_none, List.map_nil, List.append_nil]
  obtain ⟨I', L⟩ := I.quiet (k := { t with args := [] }) h1 ht S1 vd vv
    (fun f hf hft => by rw [hh f fun h => hft (hmem f h)]; exact hf)
    (fun g hg => by
      rw [hpages, List.mem_singleton] at hg
      rw [hg]
      exact Or.inl List.mem_cons_self) (fun G => by
      have hpage : held1 t.page = true := by
        rw [hh _ honce.1]
        exact G.owns _ List.mem_cons_self
      refine { slot := G.slot, code := G.code, data := G.data, beyond := fun k hk hb => ?_,
               zombie := fun hz => ⟨fun k hk => ?_, (G.zombie hz).2⟩, sane := G.sane,
               ready := fun ino hino hcl => ⟨(G.ready ino hino hcl).1, fun k hk i => ?_⟩,
               zeroing := G.zeroing, loading := fun _ _ h => ?_, once := ?_, owns := ?_ }
      · rw [vd]
        exact G.beyond k hk hb
      · rw [vd]
        exact (G.zombie hz).1 k hk
      · rw [vv]
        exact (G.ready ino hino hcl).2 k hk i
      · have := hl.symm.trans h
        cases this
      · rw [hpages]
        exact List.nodup_singleton _
      · intro f hf
        rw [hpages, List.mem_singleton] at hf
        rw [hf]
        exact hpage)
  exact ⟨I', L, rfl, vv⟩

/-- A step that changes nothing but the phase and the executable. -/
theorem Inv.record (I : Inv file lo hi s) {t' : Task} (h1 : 1 ≤ nr) (ht : s.task nr = some t)
    (hpages : t'.pages = t.pages)
    (hgood : Good file s.mem s.held nr t → Good file s.mem s.held nr t') :
    Inv file lo hi (s.setTask nr t') ∧ Local s (s.setTask nr t') nr :=
  I.quiet h1 ht I.sound rfl (fun _ _ => rfl) (fun _ h _ => h)
    (fun _ hf => Or.inl (hpages ▸ hf)) hgood

theorem execSet_spec (I : Inv file lo hi s) {ino : Nat} (h1 : 1 ≤ nr) (ht : s.task nr = some t)
    (hl : t.loading = none) (ha : (file ino).Accepted) (hs : (file ino).Sane) :
    Inv file lo hi (s.setTask nr { t with executable := some ino, phase := .closing }) ∧
      Local s (s.setTask nr { t with executable := some ino, phase := .closing }) nr := by
  refine I.record h1 ht rfl fun G => ?_
  exact { G with
    zombie := fun h => by cases h
    sane := fun x hx => by cases hx; exact ⟨ha, hs⟩
    ready := fun _ _ h => absurd rfl h
    zeroing := fun _ h => by cases h
    loading := fun _ _ h => by have := hl.symm.trans h; cases this }

theorem execDone_spec (I : Inv file lo hi s) {i : Nat} (h1 : 1 ≤ nr) (ht : s.task nr = some t)
    (hz : t.phase = .zeroing i) (hl : t.loading = none) :
    Inv file lo hi (s.setTask nr { t with phase := .running }) ∧
      Local s (s.setTask nr { t with phase := .running }) nr := by
  refine I.record h1 ht rfl fun G => ?_
  exact { G with
    zombie := fun h => by cases h
    ready := fun ino hino _ => G.ready ino hino (by rw [hz]; nofun)
    zeroing := fun _ h => by cases h
    loading := fun _ _ h => by have := hl.symm.trans h; cases this }

/-- `zeroByte` goes through an entry that may be shared and read-only: every entry of the page shows
the new byte, and the dirty bit is set in one of them. -/
theorem zeroByte_spec (I : Inv file lo hi s) {n : Nat} (h1 : 1 ≤ nr) (ht : s.task nr = some t)
    (hz : t.phase = .zeroing n) (hl : t.loading = none) (hn : n < t.dataLimit)
    (hp : presentAt s.mem (slotBase nr + n) = true) :
    Inv file lo hi (Sys.setTask { s with mem := zeroByte s.mem (slotBase nr + n) } nr
        { t with phase := .zeroing (n + 1) }) ∧
    ∃ b c, cellView s.mem (dirIndex (slotBase nr + n)) (tableIndex (slotBase nr + n))
        = .page b c ∧
      cellView (zeroByte s.mem (slotBase nr + n)) (dirIndex (slotBase nr + n))
        (tableIndex (slotBase nr + n)) = .page true (clearByte (slotBase nr + n) c) ∧
      ∀ d j, ¬ (d = dirIndex (slotBase nr + n) ∧ j = tableIndex (slotBase nr + n)) →
        cellView (zeroByte s.mem (slotBase nr + n)) d j = cellView s.mem d j ∨
        ∃ b', cellView s.mem d j = .page b' c ∧
          cellView (zeroByte s.mem (slotBase nr + n)) d j
            = .page b' (clearByte (slotBase nr + n) c) := by
  have G := I.good h1 ht
  have hdata := G.data
  have hdirs := slot_dirs (o := n) h1 G.slot (by omega)
  have hpte := (presentAt_eq hdirs.1).symm.trans hp
  obtain ⟨ino, hino⟩ := Option.ne_none_iff_exists'.mp (G.zeroing n hz)
  have hhigh := (G.ready ino hino (by rw [hz]; rintro ⟨⟩)).2
  -- a task with an executable has no pages of the kernel
  have hlow : lowMem ≤ frame (s.mem.pte (dirIndex (slotBase nr + n))
      (tableIndex (slotBase nr + n))) := by
    by_contra hno
    have hk := hhigh (n / 0x400000) (by omega) (tableIndex (slotBase nr + n))
    rw [← dirIndex_slot G.slot (by omega)] at hk
    exact hk (by rw [cellView, if_pos hpte, if_pos (by omega)])
  have hold := cellView_page hpte hlow
  unfold zeroByte Mem.storeAt
  rw [entryAt_eq hdirs.1 hp]
  generalize hc : s.mem.ram (frame (s.mem.pte (dirIndex (slotBase nr + n))
    (tableIndex (slotBase nr + n)))) = c at hold
  have hupd : Function.update c ((slotBase nr + n) / 4 % 1024)
      (clearByte (slotBase nr + n) c ((slotBase nr + n) / 4 % 1024))
        = clearByte (slotBase nr + n) c := by
    rw [clearByte, Function.update_self]
  obtain ⟨S', vd, -, hv, -⟩ := store_view I.sound (k := (slotBase nr + n) / 4 % 1024)
    (w := clearByte (slotBase nr + n) c ((slotBase nr + n) / 4 % 1024)) hpte hlow
  have hrest := fun d j hne => store_shared I.sound (k := (slotBase nr + n) / 4 % 1024)
    (w := clearByte (slotBase nr + n) c ((slotBase nr + n) / 4 % 1024)) hpte hlow
    (e := d) (j := j) hne
  rw [hc, hupd] at hv
  simp only [hc, hupd] at hrest
  refine ⟨I.change h1 S' (fun q hq => Function.update_of_ne hq _ _) (fun d _ => congrFun vd d)
    (fun d j hd => ?_) (fun _ h _ => h) (fun f hf => ?_) (fun t' ht' => ?_) (fun hno => ?_), _, _,
    hold, hv, hrest⟩
  · rcases hrest d j (fun h => hd (h.1 ▸ hdirs.2)) with h | ⟨b', h, h'⟩
    · exact Or.inl h
    · exact Or.inr ⟨by rw [h]; rintro ⟨⟩, by
        show cellView (s.mem.store _ _ _ _) d j ≠ _
        rw [h']
        rintro ⟨⟩, by
        show cellView (s.mem.store _ _ _ _) d j ≠ _
        rw [h']
        rintro ⟨⟩⟩
  · rw [pages_of ht]
    rw [pages_of (setTask_self _ _ _)] at hf
    exact Or.inl hf
  · rw [setTask_self] at ht'
    cases ht'
    have G' : Good file (s.mem.store _ _ _ _) s.held nr t := G.tame (fun k _ => congrFun vd _)
      (fun k _ j => ?_) G.owns
    · exact { G' with
        zombie := fun h => by cases h
        ready := fun x hx _ => G'.ready x hx (by rw [hz]; rintro ⟨⟩)
        zeroing := fun _ _ => by rw [hino]; rintro ⟨⟩
        loading := fun _ _ h => by have := hl.symm.trans h; cases this }
    · by_cases hdj : 16 * nr + k = dirIndex (slotBase nr + n) ∧ j = tableIndex (slotBase nr + n)
      · rw [hdj.1, hdj.2, hv, hold]
        exact Or.inr ⟨by rintro ⟨⟩, by rintro ⟨⟩, by rintro ⟨⟩⟩
      · rcases hrest _ _ hdj with h | ⟨b', h, h'⟩
        · exact Or.inl h
        · rw [h, h']
          exact Or.inr ⟨by rintro ⟨⟩, by rintro ⟨⟩, by rintro ⟨⟩⟩
  · rw [setTask_self] at hno
    cases hno

/-! ## The new region -/

/-- The region of a task that `do_execve` is rebuilding: pages above 63 MB only, none of them the
kernel's, all of them writable. -/
structure Region (m : Mem) (nr : Nat) : Prop where
  top : ∀ k < 16, ∀ i, (1024 * k + i) * 4096 < 0x3F00000 → cellView m (16 * nr + k) i = .absent
  high : High m nr
  writes : ∀ k < 16, ∀ i, present (m.pte (16 * nr + k) i) = true →
    writable (m.pte (16 * nr + k) i) = true

/-- Outside slot `nr` two memories show the same. -/
structure Aside (m m' : Mem) (nr : Nat) : Prop where
  dirv : ∀ d, d / 16 ≠ nr → m'.dirv d = m.dirv d
  view : ∀ d i, d / 16 ≠ nr → cellView m' d i = cellView m d i

theorem Aside.refl (m : Mem) (nr : Nat) : Aside m m nr := ⟨fun _ _ => rfl, fun _ _ _ => rfl⟩

theorem Aside.trans {m'' : Mem} (h : Aside m m' nr) (h' : Aside m' m'' nr) : Aside m m'' nr :=
  ⟨fun d hd => (h'.dirv d hd).trans (h.dirv d hd),
    fun d i hd => (h'.view d i hd).trans (h.view d i hd)⟩

theorem Region.empty (h : Empty m nr) : Region m nr :=
  ⟨fun k hk i _ => absent_of_dirv (h k hk),
    fun k hk i => by rw [absent_of_dirv (h k hk)]; nofun,
    fun k hk i hp => absurd hp (by rw [pte_absent (h k hk)]; nofun)⟩

/-- A page that appears, or is written, above 63 MB. -/
theorem Region.cell {off : Nat} {v : View} (R : Region m nr) (h1 : 1 ≤ nr) (h64 : nr < 64)
    (hoff : 0x3F00000 ≤ off) (hmax : off < 0x4000000)
    (C : Cell m m' (dirIndex (slotBase nr + off)) (tableIndex (slotBase nr + off)) v)
    (hv : v ≠ .low)
    (hw : writable (m'.pte (dirIndex (slotBase nr + off)) (tableIndex (slotBase nr + off))) = true)
    (hpte : ∀ d i, ¬ (d = dirIndex (slotBase nr + off) ∧ i = tableIndex (slotBase nr + off)) →
      m'.pte d i = m.pte d i) : Region m' nr ∧ Aside m m' nr := by
  have hd := slot_dirs h1 h64 hmax
  obtain ⟨hdir, hview⟩ := C.other hd.2
  refine ⟨⟨fun k hk i hlt => ?_, fun k hk i => ?_, fun k hk i hp => ?_⟩, ⟨hdir, hview⟩⟩
  · rw [C.rest]
    · exact R.top k hk i hlt
    · rw [dirIndex_slot h64 hmax, tableIndex_slot]
      omega
  · by_cases h : 16 * nr + k = dirIndex (slotBase nr + off) ∧ i = tableIndex (slotBase nr + off)
    · rw [h.1, h.2, C.here]
      exact hv
    · rw [C.rest _ _ h]
      exact R.high k hk i
  · by_cases h : 16 * nr + k = dirIndex (slotBase nr + off) ∧ i = tableIndex (slotBase nr + off)
    · rw [h.1, h.2]
      exact hw
    · rw [hpte _ _ h] at hp ⊢
      exact R.writes k hk i hp

/-- The offset of argument page `i`. -/
theorem arg_offset {base i : Nat} (hi : i < 32) :
    base + 0x4000000 - (32 - i) * 4096 = base + (0x4000000 - (32 - i) * 4096) := by
  omega

theorem arg_lt {i : Nat} (hi : i < 32) : 0x4000000 - (32 - i) * 4096 < 0x4000000 := by
  omega

/-- The frame of an argument page is one of those held. -/
theorem lookup_mem {args : List (Nat × Nat)} {i f : Nat} (h : args.lookup i = some f) :
    (i, f) ∈ args := by
  induction args with
  | nil => cases h
  | cons a args ih =>
    obtain ⟨j, g⟩ := a
    rw [List.lookup_cons] at h
    split at h
    · next hij =>
      cases h
      rw [beq_iff_eq.mp hij]
      exact List.mem_cons_self
    · exact List.mem_cons_of_mem _ (ih h)

/-- The loop of `change_ldt`: argument pages appear at the top of the region. -/
theorem putArgs_spec (S : Sound lo hi m held) (R : Region m nr) (h1 : 1 ≤ nr) (h64 : nr < 64)
    {args : List (Nat × Nat)} (honce : (args.map Prod.snd).Nodup) {l : List Nat}
    (his : l.Nodup) (hlt : ∀ i ∈ l, i < 32)
    (hheld : ∀ i ∈ l, ∀ f, args.lookup i = some f → held f = true)
    (habs : ∀ i ∈ l, cellView m (dirIndex (slotBase nr + (0x4000000 - (32 - i) * 4096)))
      (tableIndex (slotBase nr + (0x4000000 - (32 - i) * 4096))) = .absent) :
    Sound lo hi (putArgs (slotBase nr) args l (m, held)).1
        (putArgs (slotBase nr) args l (m, held)).2 ∧
      Region (putArgs (slotBase nr) args l (m, held)).1 nr ∧
      Aside m (putArgs (slotBase nr) args l (m, held)).1 nr ∧
      ∀ f, f ∉ args.map Prod.snd → (putArgs (slotBase nr) args l (m, held)).2 f = held f := by
  induction l generalizing m held with
  | nil => exact ⟨S, R, Aside.refl _ _, fun _ _ => rfl⟩
  | cons i l ih =>
    obtain ⟨hi, his'⟩ := List.nodup_cons.mp his
    have hi32 := hlt i List.mem_cons_self
    have rest : ∀ j ∈ l, j ∈ i :: l := fun j hj => List.mem_cons_of_mem _ hj
    rw [putArgs]
    cases hl : args.lookup i with
    | none =>
      exact ih S R his' (fun j hj => hlt j (rest j hj)) (fun j hj => hheld j (rest j hj))
        fun j hj => habs j (rest j hj)
    | some f =>
      dsimp only
      rw [arg_offset hi32]
      have hmax := arg_lt hi32
      have hmin : 0x3F00000 ≤ 0x4000000 - (32 - i) * 4096 := by omega
      rcases putPage_view S (slot_dirs h1 h64 hmax).1 (habs i List.mem_cons_self)
        (hheld i List.mem_cons_self f hl) with ⟨m1, hm, S1, hv, hr, hd, hpte⟩ | hm
      · rw [hm]
        dsimp only
        obtain ⟨R1, A1⟩ := R.cell h1 h64 hmin hmax ⟨hv, hr, hd⟩ nofun
          (by rw [hpte, setPte_self]; exact writable_userEntry f)
          fun d j hne => by rw [hpte, setPte_other hne]
        -- the remaining argument pages are other pages at other entries
        obtain ⟨S2, R2, A2, h2⟩ := ih S1 R1 his' (fun j hj => hlt j (rest j hj)) (fun j hj g hg => by
          have hne : g ≠ f := by
            rintro rfl
            have hinj := List.inj_on_of_nodup_map honce (lookup_mem hl) (lookup_mem hg) rfl
            exact hi ((Prod.mk.inj hinj).1 ▸ hj)
          rw [Function.update_of_ne hne]
          exact hheld j (rest j hj) g hg) fun j hj => by
          have hj32 := hlt j (rest j hj)
          have hne : j ≠ i := fun h => hi (h ▸ hj)
          rw [hr]
          · exact habs j (rest j hj)
          · rw [dirIndex_slot h64 (arg_lt hj32), dirIndex_slot h64 hmax, tableIndex_slot,
              tableIndex_slot]
            omega
        refine ⟨S2, R2, A1.trans A2, fun g hg => ?_⟩
        have hne : g ≠ f := fun h => hg (h ▸ List.mem_map_of_mem (lookup_mem hl))
        rw [h2 g hg, Function.update_of_ne hne]
      · rw [hm]
        exact ih S R his' (fun j hj => hlt j (rest j hj)) (fun j hj => hheld j (rest j hj))
          fun j hj => habs j (rest j hj)

/-- `create_tables`: words above 63 MB are written, on argument pages or on new ones. -/
theorem createTables_spec (S : Sound lo hi m held) (R : Region m nr) (h1 : 1 ≤ nr) (h64 : nr < 64)
    {stack : List (Nat × Option Word)}
    (hst : ∀ x ∈ stack, 0x3F00000 ≤ x.1 ∧ x.1 < 0x4000000) :
    (∃ m', createTables (slotBase nr) stack m = .ok () m' ∧ Sound lo hi m' held ∧ Region m' nr ∧
      Aside m m' nr) ∨
    (∃ m', createTables (slotBase nr) stack m = .oom m' ∧ Sound lo hi m' held ∧
      Aside m m' nr) := by
  induction stack generalizing m with
  | nil => exact Or.inl ⟨m, rfl, S, R, Aside.refl _ _⟩
  | cons x stack ih =>
    obtain ⟨off, w⟩ := x
    obtain ⟨hmin, hmax⟩ := hst _ List.mem_cons_self
    have hrest : ∀ x ∈ stack, 0x3F00000 ≤ x.1 ∧ x.1 < 0x4000000 := fun x hx =>
      hst x (List.mem_cons_of_mem _ hx)
    have hd := (slot_dirs h1 h64 hmax).1
    -- the access, once the page is there
    have access : ∀ n, Sound lo hi n held → Region n nr →
        present (n.pte (dirIndex (slotBase nr + off)) (tableIndex (slotBase nr + off))) = true →
        Sound lo hi (n.access (slotBase nr + off) w) held ∧
          Region (n.access (slotBase nr + off) w) nr ∧
          Aside n (n.access (slotBase nr + off) w) nr := by
      intro n Sn Rn hp
      cases w with
      | none => exact ⟨Sn, Rn, Aside.refl _ _⟩
      | some w =>
        have hw : writable (n.pte (dirIndex (slotBase nr + off)) (tableIndex (slotBase nr + off)))
            = true := by
          have := Rn.writes (off / 0x400000) (by omega) (tableIndex (slotBase nr + off))
          rw [← dirIndex_slot h64 hmax] at this
          exact this hp
        obtain ⟨hl, hview⟩ := store_writable Sn (k := (slotBase nr + off) / 4 % 1024) (w := w) hp hw
        obtain ⟨S2, hdir, hpte, hv, -⟩ := store_view Sn (k := (slotBase nr + off) / 4 % 1024)
          (w := w) hp hl
        obtain ⟨R2, A2⟩ := Rn.cell h1 h64 hmin hmax ⟨hv, hview, fun d _ => congrFun hdir d⟩ nofun
          (by rw [hpte, setPte_self, writable_or_used]; exact hw)
          fun d i hne => by rw [hpte, setPte_other hne]
        exact ⟨S2, R2, A2⟩
    rw [createTables]
    cases hp : presentAt m (slotBase nr + off) with
    | true =>
      rw [if_pos rfl]
      obtain ⟨S2, R2, A2⟩ := access m S R ((presentAt_eq hd).symm.trans hp)
      rcases ih S2 R2 hrest with ⟨m', h, S', R', A'⟩ | ⟨m', h, S', A'⟩
      · exact Or.inl ⟨m', h, S', R', A2.trans A'⟩
      · exact Or.inr ⟨m', h, S', A2.trans A'⟩
    | false =>
      rw [if_neg Bool.false_ne_true]
      have ha := cellView_absent.mpr ((presentAt_eq hd).symm.trans hp)
      rcases getEmptyPage_view S hd ha with ⟨m1, hm, S1, hv, hr, hdir, page, hpte⟩ |
        ⟨m1, hm, S1, hdir, hv⟩
      · rw [hm]
        obtain ⟨R1, A1⟩ := R.cell h1 h64 hmin hmax ⟨hv, hr, hdir⟩ nofun
          (by rw [hpte, setPte_self]; exact writable_userEntry page)
          fun d i hne => by rw [hpte, setPte_other hne]
        obtain ⟨S2, R2, A2⟩ := access m1 S1 R1
          (by rw [hpte, setPte_self]; exact present_userEntry page)
        rcases ih S2 R2 hrest with ⟨m', h, S', R', A'⟩ | ⟨m', h, S', A'⟩
        · exact Or.inl ⟨m', h, S', R', A1.trans (A2.trans A')⟩
        · exact Or.inr ⟨m', h, S', A1.trans (A2.trans A')⟩
      · rw [hm]
        exact Or.inr ⟨m1, rfl, S1, fun d _ => congrFun hdir d, fun d i _ => hv d i⟩

/-- The limits of a program that `do_execve` accepts, when its sizes do not wrap. -/
theorem Program.limits {p : Program} (ha : p.Accepted) (hs : p.Sane) :
    p.codeLimit ≤ 0x3000000 ∧ p.endData ≤ 0x3000000 := by
  obtain ⟨-, -, -, hsum, -⟩ := ha
  simp only [Program.Sane] at hs
  simp only [Program.codeLimit, Program.endData]
  omega

/-- `do_execve` past the point of no return: the region of the task is new. -/
theorem execFinish_spec (I : Inv file lo hi s) {ino : Nat} {stack : List (Nat × Option Word)}
    (h1 : 1 ≤ nr) (ht : s.task nr = some t) (hl : t.loading = none)
    (hex : t.executable = some ino) (hst : ∀ x ∈ stack, 0x3F00000 ≤ x.1 ∧ x.1 < 0x4000000)
    (h : execFinish file s nr t ino stack = some s') :
    Exited file lo hi s s' nr ∨
    (Inv file lo hi s' ∧ Local s s' nr ∧ Region s'.mem nr ∧ ∃ t', s'.task nr = some t' ∧
      t'.executable = some ino ∧ t'.phase = .zeroing t'.endData) := by
  have G := I.good h1 ht
  obtain ⟨ha, hs⟩ := G.sane ino hex
  obtain ⟨hcode, hend⟩ := Program.limits ha hs
  obtain ⟨m1, hm1, S1, gone1, rest1, keep1, -⟩ := freePageTables_view I.sound h1 G.slot G.code
  obtain ⟨m2, hm2, S2, gone2, rest2, keep2, -⟩ := freePageTables_view S1 h1 G.slot G.data
  have hempty : Empty m2 nr := by
    intro k hk
    by_cases hb : k < blocks t.dataLimit
    · exact gone2 k hb
    · rw [keep2 k hk (by omega)]
      by_cases hc : k < blocks t.codeLimit
      · exact gone1 k hc
      · rw [keep1 k hk (by omega)]
        exact G.beyond k hk (by omega)
  have A2 : Aside s.mem m2 nr :=
    ⟨fun d hd => (rest2 d hd).1.trans (rest1 d hd).1,
      fun d i hd => ((rest2 d hd).2 i).trans ((rest1 d hd).2 i)⟩
  have hargs : ∀ f ∈ t.args.map Prod.snd, f ∈ t.pages := fun f hf => by
    simp only [Task.pages, List.mem_cons, List.mem_append]
    exact Or.inr (Or.inr hf)
  have honce := G.once
  simp only [Task.pages, hl, Option.toList_none, List.map_nil, List.nil_append,
    List.nodup_cons] at honce
  obtain ⟨S3, R3, A3, h3⟩ := putArgs_spec S2 (Region.empty hempty) h1 G.slot honce.2
    (l := (List.range 32).reverse) (List.nodup_reverse.mpr List.nodup_range)
    (fun i hi => List.mem_range.mp (List.mem_reverse.mp hi))
    (fun i _ f hf => G.owns f (hargs f (List.mem_map_of_mem (lookup_mem hf))))
    fun i hi => by
      have hi32 := List.mem_range.mp (List.mem_reverse.mp hi)
      apply absent_of_dirv
      rw [dirIndex_slot G.slot (arg_lt hi32)]
      exact hempty _ (by have := arg_lt hi32; omega)
  unfold execFinish at h
  rw [hm1] at h
  dsimp only at h
  rw [hm2] at h
  dsimp only at h
  generalize putArgs (slotBase nr) t.args (List.range 32).reverse (m2, s.held) = r at *
  have hheld : ∀ f, s.held f = true → f ∉ s.pages nr → r.2 f = true := by
    intro f hf hft
    rw [pages_of ht] at hft
    rw [h3 f fun h => hft (hargs f h)]
    exact hf
  have hpage : r.2 t.page = true := by
    rw [h3 _ honce.1]
    exact G.owns _ List.mem_cons_self
  rcases createTables_spec S3 R3 h1 G.slot hst with ⟨m4, hm4, S4, R4, A4⟩ | ⟨m4, hm4, S4, A4⟩
  · rw [hm4] at h
    cases h
    have A := A2.trans (A3.trans A4)
    have L := Local.of (s := s) nr r.2 { t with
        codeLimit := (file ino).codeLimit, dataLimit := 0x4000000, args := [],
        endData := (file ino).endData,
        phase := .zeroing (((file ino).exec.text + (file ino).exec.data) % 2 ^ 32) }
      A.dirv A.view
    refine Or.inr ⟨I.local h1 S4 L (setTask_self _ _ _) hheld ?_ ?_, L, R4, _,
      setTask_self _ _ _, hex, ?_⟩
    · intro f hf
      simp only [Task.pages, hl, Option.toList_none, List.map_nil, List.append_nil,
        List.mem_singleton] at hf
      rw [pages_of ht, hf]
      exact Or.inl List.mem_cons_self
    · refine { slot := G.slot, code := ?_, data := le_refl _, beyond := ?_, zombie := nofun,
               sane := fun x hx => ?_, ready := fun x hx _ => ?_, zeroing := fun _ _ => ?_,
               loading := fun _ _ hld => ?_, once := ?_, owns := fun f hf => ?_ }
      · show (file ino).codeLimit ≤ _
        omega
      · intro k hk hb
        have h16 : blocks 0x4000000 = 16 := by decide
        have hb' : blocks 0x4000000 ≤ k := hb
        omega
      · exact G.sane x hx
      · have := hex.symm.trans hx
        cases this
        exact ⟨rfl, R4.high⟩
      · show t.executable ≠ none
        rw [hex]
        nofun
      · have := hl.symm.trans hld
        cases this
      · simp only [Task.pages, hl, Option.toList_none, List.map_nil, List.append_nil]
        exact List.nodup_singleton _
      · simp only [Task.pages, hl, Option.toList_none, List.map_nil, List.append_nil,
          List.mem_singleton] at hf
        rw [hf]
        exact hpage
    · show Phase.zeroing _ = .zeroing (file ino).endData
      rw [Program.endData, Nat.add_comm]
  · rw [hm4] at h
    have A := A2.trans (A3.trans A4)
    have L : Local s { s with mem := m4, held := r.2 } nr := ⟨fun _ _ => rfl, A.dirv, A.view⟩
    obtain ⟨s2, hs2, E⟩ := doExit_spec (k := { t with
        codeLimit := (file ino).codeLimit, dataLimit := 0x4000000 }) I h1 ht S4 L hheld rfl hpage
      (by show (file ino).codeLimit ≤ _; omega) (le_refl _) fun k hk hb => by
        have h16 : blocks 0x4000000 = 16 := by decide
        have hb' : blocks 0x4000000 ≤ k := hb
        omega
    dsimp only at h
    rw [hs2] at h
    cases h
    exact Or.inl E

end Linux011.Mm

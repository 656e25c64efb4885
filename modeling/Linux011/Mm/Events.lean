import Linux011.Mm.Slots

/-!
# What each event does

One inversion lemma for each event of the task machine, under its invariant: either the task has
become a zombie (`Exited`), or a single entry of its slot shows something new (`Cell`), or only the
task itself has changed. Each keeps the invariant. `fork`, `exec` and `write_verify` are the events
with more to say.
-/

namespace Linux011.Mm

variable {file : Nat → Program} {lo hi : Nat} {s s' : Sys} {m m' : Mem} {held : Nat → Bool}
  {nr off : Nat} {t : Task}

theorem Cell.trans {m'' : Mem} {d i : Nat} {v v' : View} (h : Cell m m' d i v)
    (h' : Cell m' m'' d i v') : Cell m m'' d i v' :=
  ⟨h'.here, fun d2 i2 hne => (h'.rest d2 i2 hne).trans (h.rest d2 i2 hne),
    fun d2 hd => (h'.dirv d2 hd).trans (h.dirv d2 hd)⟩

/-! ## Writes and write-protection faults -/

/-- A store through a writable entry. -/
theorem store_cell (S : Sound lo hi m held) {d i k : Nat} {w : Word}
    (hp : present (m.pte d i) = true) (hw : writable (m.pte d i) = true) :
    Sound lo hi (m.store d i k w) held ∧ ∃ c, Cell m (m.store d i k w) d i (.page true c) := by
  obtain ⟨hl, hrest⟩ := store_writable S (k := k) (w := w) hp hw
  obtain ⟨S', hd, -, hv, -⟩ := store_view S (k := k) (w := w) hp hl
  exact ⟨S', _, hv, hrest, fun d2 _ => by rw [hd]⟩

/-- What `un_wp_page` may do to a view: nothing when the page is counted once; else the entry shows
a clean copy. -/
def Unprotected (m : Mem) (d i : Nat) (v : View) : Prop :=
  v = cellView m d i ∧ lowMem ≤ frame (m.pte d i) ∧ m.cnt (frame (m.pte d i)) = 1 ∨
    v = .page false (m.ram (frame (m.pte d i))) ∧
      ¬ (lowMem ≤ frame (m.pte d i) ∧ m.cnt (frame (m.pte d i)) = 1)

theorem Unprotected.shape {d i : Nat} {v : View} (h : Unprotected m d i v)
    (hp : present (m.pte d i) = true) : v ≠ .absent ∧ v ≠ .low := by
  rcases h with ⟨rfl, hl, -⟩ | ⟨rfl, -⟩
  · rw [cellView_page hp hl]
    exact ⟨nofun, nofun⟩
  · exact ⟨nofun, nofun⟩

/-- `un_wp_page` of a present entry of some slot. -/
theorem unWpPage_cell (S : Sound lo hi m held) {d i : Nat} (hp : present (m.pte d i) = true) :
    (∃ m' v, unWpPage (frame (m.ram 0 d)) i m = .ok () m' ∧ Sound lo hi m' held ∧
      m'.dirv = m.dirv ∧ present (m'.pte d i) = true ∧ writable (m'.pte d i) = true ∧
      Cell m m' d i v ∧ Unprotected m d i v) ∨
    unWpPage (frame (m.ram 0 d)) i m = .oom m := by
  rw [← dirv_eq (dirv_mem (pte_dir hp).1)]
  rcases unWpPage_view S hp with ⟨m', hm, S', vd, hw, hrest, -, hv⟩ | hm
  · have hun : Unprotected m d i (cellView m' d i) := by
      rcases hv with ⟨hl, hc, hv⟩ | ⟨hn, hv⟩
      · exact Or.inl ⟨hv, hl, hc⟩
      · exact Or.inr ⟨hv, hn⟩
    have hp' : present (m'.pte d i) = true := by
      cases h : present (m'.pte d i) with
      | true => rfl
      | false => exact absurd (cellView_absent.mpr h) (hun.shape hp).1
    exact Or.inl ⟨m', _, hm, S', vd, hp', hw, ⟨rfl, hrest, fun d2 _ => by rw [vd]⟩, hun⟩
  · exact Or.inr hm

/-- A task that exits from where it stands. -/
theorem exit_of (I : Inv file lo hi s) (h1 : 1 ≤ nr) (ht : s.task nr = some t)
    (h : doExit s nr t = some s') : Exited file lo hi s s' nr := by
  have G := I.good h1 ht
  obtain ⟨s2, hs, E⟩ := doExit_spec I h1 ht I.sound (Local.refl s nr) (fun _ h _ => h) rfl
    (G.owns _ List.mem_cons_self) G.code G.data G.beyond
  rw [hs] at h
  cases h
  exact E

/-- A change of one page under a task that is not loading. -/
theorem Inv.page (I : Inv file lo hi s) {v : View} (h1 : 1 ≤ nr) (ht : s.task nr = some t)
    (hl : t.loading = none) (hph : t.phase ≠ .zombie) (hoff : off < t.dataLimit)
    (S : Sound lo hi m' s.held)
    (C : Cell s.mem m' (dirIndex (slotBase nr + off)) (tableIndex (slotBase nr + off)) v)
    (hv : v ≠ .low) :
    Inv file lo hi { s with mem := m' } ∧ Local s { s with mem := m' } nr := by
  have G := I.good h1 ht
  have key := I.cell h1 ht hph hoff S C hv (fun _ h _ => h) fun f hf => G.owns f (pages_loading hf)
  rw [loading_none hl, setTask_same ht] at key
  exact key

theorem userWrite_spec (I : Inv file lo hi s) {w : Word} (h1 : 1 ≤ nr) (ht : s.task nr = some t)
    (hu : t.InUser) (hoff : off < t.dataLimit) (hp : presentAt s.mem (slotBase nr + off) = true)
    (h : userWrite s nr t (slotBase nr + off) w = some s') :
    Exited file lo hi s s' nr ∨
    (Inv file lo hi s' ∧ Local s s' nr ∧ s'.task = s.task ∧ ∃ c,
      Cell s.mem s'.mem (dirIndex (slotBase nr + off)) (tableIndex (slotBase nr + off))
        (.page true c)) := by
  have G := I.good h1 ht
  have hd := (slot_dirs h1 G.slot (Nat.lt_of_lt_of_le hoff G.data)).1
  have hpte := (presentAt_eq hd).symm.trans hp
  have hph : t.phase ≠ .zombie := by rw [hu.1]; nofun
  unfold userWrite doWpPage Mem.storeAt at h
  rw [entryAt_eq hd hp] at h
  split at h
  · next hw =>
    cases h
    obtain ⟨S', c, C⟩ := store_cell I.sound (k := (slotBase nr + off) / 4 % 1024) (w := w) hpte hw
    obtain ⟨I', L⟩ := I.page h1 ht hu.2.1 hph hoff S' C nofun
    exact Or.inr ⟨I', L, rfl, c, C⟩
  · rcases unWpPage_cell I.sound hpte with ⟨m1, v, hm, S1, -, hp1, hw1, C1, -⟩ | hm
    · rw [hm] at h
      cases h
      obtain ⟨S', c, C⟩ := store_cell S1 (k := (slotBase nr + off) / 4 % 1024) (w := w) hp1 hw1
      obtain ⟨I', L⟩ := I.page h1 ht hu.2.1 hph hoff S' (C1.trans C) nofun
      exact Or.inr ⟨I', L, rfl, c, C1.trans C⟩
    · rw [hm] at h
      exact Or.inl (exit_of I h1 ht h)

theorem wpFault_spec (I : Inv file lo hi s) (h1 : 1 ≤ nr) (ht : s.task nr = some t)
    (hu : t.InUser) (hoff : off < t.dataLimit) (hp : presentAt s.mem (slotBase nr + off) = true)
    (h : s.after nr t (doWpPage (slotBase nr + off) s.mem) = some s') :
    Exited file lo hi s s' nr ∨
    (Inv file lo hi s' ∧ Local s s' nr ∧ s'.task = s.task ∧ ∃ v,
      Cell s.mem s'.mem (dirIndex (slotBase nr + off)) (tableIndex (slotBase nr + off)) v ∧
      Unprotected s.mem (dirIndex (slotBase nr + off)) (tableIndex (slotBase nr + off)) v) := by
  have G := I.good h1 ht
  have hd := (slot_dirs h1 G.slot (Nat.lt_of_lt_of_le hoff G.data)).1
  have hpte := (presentAt_eq hd).symm.trans hp
  unfold doWpPage at h
  rcases unWpPage_cell I.sound hpte with ⟨m1, v, hm, S1, -, -, -, C, U⟩ | hm
  · rw [hm] at h
    cases h
    obtain ⟨I', L⟩ := I.page h1 ht hu.2.1 (by rw [hu.1]; nofun) hoff S1 C (U.shape hpte).2
    exact Or.inr ⟨I', L, rfl, v, C, U⟩
  · rw [hm] at h
    exact Or.inl (exit_of I h1 ht h)

/-- The entries of the kernel's own tables all have the R/W bit, so `write_verify` leaves them. -/
theorem kernelTable_writable (t i : Nat) : ¬ kernelTable t i &&& 3 = 1 := by
  intro h
  have := (mask_readOnly _).mp h
  rw [kernelTable, writable_userEntry] at this
  cases this.2

/-- `write_verify` of any address: it may unprotect one present, read-only entry of any slot. -/
theorem verify_spec (I : Inv file lo hi s) {address : Nat} (h1 : 1 ≤ nr) (ht : s.task nr = some t)
    (h : s.after nr t (writeVerify address s.mem) = some s') :
    Exited file lo hi s s' nr ∨ s' = s ∨
    (Inv file lo hi s' ∧ s'.task = s.task ∧
      present (s.mem.pte (dirIndex address) (tableIndex address)) = true ∧
      writable (s.mem.pte (dirIndex address) (tableIndex address)) = false ∧ ∃ v,
      Cell s.mem s'.mem (dirIndex address) (tableIndex address) v ∧
      Unprotected s.mem (dirIndex address) (tableIndex address) v) := by
  have S := I.sound
  have hlt : dirIndex address < 1024 := Nat.mod_lt _ (by omega)
  unfold writeVerify at h
  by_cases hd : dirIndex address ∈ dirs
  · rw [present_ram hd, ← dirv_eq hd] at h
    split at h
    · next hpd =>
      dsimp only at h
      rw [← pte_eq hpd (tableIndex_lt address)] at h
      split at h
      · next hro =>
        obtain ⟨hp, hw⟩ := (mask_readOnly _).mp hro
        rw [dirv_eq hd] at h
        rcases unWpPage_cell S hp with ⟨m1, v, hm, S1, vd, -, -, C, U⟩ | hm
        · rw [hm] at h
          cases h
          refine Or.inr (Or.inr ⟨I.tame S1 vd fun d i => ?_, rfl, hp, hw, v, C, U⟩)
          by_cases hdi : d = dirIndex address ∧ i = tableIndex address
          · rw [hdi.1, hdi.2, C.here]
            exact Or.inr ⟨cellView_present hp, U.shape hp⟩
          · exact Or.inl (C.rest d i hdi)
        · rw [hm] at h
          exact Or.inl (exit_of I h1 ht h)
      · cases h
        exact Or.inr (Or.inl rfl)
    · cases h
      exact Or.inr (Or.inl rfl)
  · -- below the task slots the entries are the kernel's
    have h16 : dirIndex address < 16 := by
      rw [mem_dirs] at hd
      omega
    rw [S.root _ h16] at h
    split at h
    · next hpd =>
      have h4 : dirIndex address < 4 := by
        by_contra hno
        rw [kernelDir, if_neg hno] at hpd
        cases hpd
      dsimp only at h
      rw [kernelDir, if_pos h4, frame_userEntry (by omega)] at h
      rw [S.kernel _ (by omega) (by omega), if_neg (kernelTable_writable _ _)] at h
      cases h
      exact Or.inr (Or.inl rfl)
    · cases h
      exact Or.inr (Or.inl rfl)

/-! ## Faults on absent pages -/

/-- The page offset of a fault. -/
theorem page_offset (off : Nat) :
    off / 4096 * 4096 ≤ off ∧ off / 4096 * 4096 % 4096 = 0 ∧
      off / 4096 * 4096 / 4096 = off / 4096 ∧
      off / 4096 * 4096 / 0x400000 = off / 0x400000 := by
  omega

/-- The entry of an offset in a slot, as `try_to_share` computes it. -/
theorem share_index {p tmp : Nat} (hp : p < 64) (ht : tmp < 0x4000000) :
    dirIndex tmp < 16 ∧ dirIndex tmp + 16 * p = dirIndex (slotBase p + tmp) ∧
      tableIndex tmp = tableIndex (slotBase p + tmp) := by
  rw [dirIndex_slot hp ht, tableIndex_slot]
  simp only [dirIndex, tableIndex, Nat.shiftRight_eq_div_pow]
  exact ⟨by omega, by omega, trivial⟩

/-- The page of an address that is not there. -/
theorem absent_page (h1 : 1 ≤ nr) (h64 : nr < 64) (hoff : off < 0x4000000)
    (hp : presentAt m (slotBase nr + off) = false) :
    cellView m (dirIndex (slotBase nr + off / 4096 * 4096))
      (tableIndex (slotBase nr + off / 4096 * 4096)) = .absent := by
  obtain ⟨hle, -, htab, hdir⟩ := page_offset off
  rw [dirIndex_slot h64 (by omega), tableIndex_slot, htab, hdir, ← @tableIndex_slot nr,
    ← dirIndex_slot h64 hoff, cellView_absent, ← presentAt_eq (slot_dirs h1 h64 hoff).1]
  exact hp

/-- `share_page` maps what another task with the same executable shows there, and that is clean; or
it changes nothing. -/
theorem sharePage_spec (I : Inv file lo hi s) (ino : Nat) {tmp : Nat} (h1 : 1 ≤ nr) (h64 : nr < 64)
    (htmp : tmp < 0x4000000)
    (ha : cellView s.mem (dirIndex (slotBase nr + tmp)) (tableIndex (slotBase nr + tmp)) = .absent)
    {n : Nat} (hn : n < 64) :
    (∃ m' p t' c, sharePage s.task nr ino tmp n s.mem = .ok true m' ∧ Sound lo hi m' s.held ∧
      1 ≤ p ∧ p < 64 ∧ p ≠ nr ∧ s.task p = some t' ∧ t'.executable = some ino ∧
      cellView s.mem (dirIndex (slotBase p + tmp)) (tableIndex (slotBase p + tmp))
        = .page false c ∧
      Cell s.mem m' (dirIndex (slotBase nr + tmp)) (tableIndex (slotBase nr + tmp))
        (.page false c)) ∨
    sharePage s.task nr ino tmp n s.mem = .ok false s.mem ∨
    sharePage s.task nr ino tmp n s.mem = .oom s.mem := by
  induction n with
  | zero => exact Or.inr (Or.inl rfl)
  | succ p ih =>
    have ih := ih (by omega)
    rw [sharePage]
    cases htp : s.task (p + 1) with
    | none => exact ih
    | some t' =>
      dsimp only
      by_cases hskip : nr = p + 1 ∨ t'.executable ≠ some ino
      · rw [if_pos hskip]
        exact ih
      · rw [if_neg hskip]
        obtain ⟨hne, hex⟩ := not_or.mp hskip
        obtain ⟨h16, hd, hi'⟩ := share_index h64 htmp
        obtain ⟨-, hdp, hip⟩ := share_index (p := p + 1) (by omega) htmp
        rw [← hd, ← hi'] at ha
        rcases tryToShare_view (p := p + 1) I.sound h16 (by omega) (by omega) h1 h64 ha with
          ⟨m', c, hm, S', hfrom, hto, hrest, hdir, -⟩ | hm | hm
        · refine Or.inl ⟨m', p + 1, t', c, ?_, S', by omega, by omega, fun h => hne h.symm, htp,
            not_not.mp hex, ?_, ?_⟩
          · rw [hm]
            rfl
          · rw [← hdp, ← hip]
            exact hfrom
          · rw [← hd, ← hi']
            exact ⟨hto, hrest, hdir⟩
        · rw [hm]
          exact ih
        · rw [hm]
          exact Or.inr (Or.inr rfl)

/-- How `do_no_page` ends for now: a cleared page, a page of another task, or asleep with a page
that the kernel holds. -/
inductive Faulted (s s' : Sys) (nr : Nat) (t : Task) (tmp : Nat) : Prop where
  | cleared (hex : ∀ ino, t.executable = some ino → t.endData ≤ tmp) (ht : s'.task = s.task)
      (C : Cell s.mem s'.mem (dirIndex (slotBase nr + tmp)) (tableIndex (slotBase nr + tmp))
        (.page false fun _ => 0))
  | shared (ino p : Nat) (t' : Task) (c : Nat → Word) (hex : t.executable = some ino)
      (hp1 : 1 ≤ p) (hp : p ≠ nr) (htp : s.task p = some t') (hex' : t'.executable = some ino)
      (hlt : tmp < t.endData) (ht : s'.task = s.task)
      (hfrom : cellView s.mem (dirIndex (slotBase p + tmp)) (tableIndex (slotBase p + tmp))
        = .page false c)
      (C : Cell s.mem s'.mem (dirIndex (slotBase nr + tmp)) (tableIndex (slotBase nr + tmp))
        (.page false c))
  | asleep (page : Nat) (hex : t.executable ≠ none) (hlt : tmp < t.endData)
      (ht : s'.task = Function.update s.task nr (some { t with loading := some (tmp, page) }))
      (hv : ∀ d i, cellView s'.mem d i = cellView s.mem d i)

/-- A task goes to sleep with a page of its own. -/
theorem asleep_inv (I : Inv file lo hi s) {tmp f : Nat} (h1 : 1 ≤ nr) (ht : s.task nr = some t)
    (hl : t.loading = none) (hph : t.phase ≠ .closing ∧ t.phase ≠ .zombie)
    (htmp : tmp < t.dataLimit ∧ tmp % 4096 = 0 ∧ tmp < t.endData)
    (ha : cellView s.mem (dirIndex (slotBase nr + tmp)) (tableIndex (slotBase nr + tmp)) = .absent)
    (hf : getFreePage s.mem = some (f, m')) :
    Inv file lo hi (Sys.setTask ⟨m', Function.update s.held f true, s.task⟩ nr
        { t with loading := some (tmp, f) }) ∧
      Local s (Sys.setTask ⟨m', Function.update s.held f true, s.task⟩ nr
        { t with loading := some (tmp, f) }) nr := by
  have G := I.good h1 ht
  have F := getFreePage_spec I.sound hf
  have hv := getFreePage_view I.sound hf
  have hfresh : s.held f = false := (I.sound.acct.unreferenced F.range.1 F.range.2 F.zero).2.2
  have hnew : f ∉ t.pages := fun h => by rw [G.owns f h] at hfresh; cases hfresh
  have hup : ∀ g, s.held g = true → Function.update s.held f true g = true := by
    intro g hg
    by_cases h : g = f
    · rw [h, Function.update_self]
    · rw [Function.update_of_ne h, hg]
  have hperm : ∀ g, g ∈ ({ t with loading := some (tmp, f) } : Task).pages →
      g = f ∨ g ∈ t.pages := by
    intro g hg
    simp only [Task.pages, hl, Option.toList_some, Option.toList_none, List.map_cons, List.map_nil,
      List.mem_cons, List.cons_append, List.nil_append] at hg ⊢
    tauto
  have L := Local.of (s := s) nr (Function.update s.held f true)
    { t with loading := some (tmp, f) } (fun d _ => by rw [F.dirv]) fun d i _ => hv d i
  refine ⟨I.local h1 F.sound L (setTask_self _ _ _) (fun g hg _ => hup g hg) ?_ ?_, L⟩
  · intro g hg
    rw [pages_of ht]
    rcases hperm g hg with rfl | h
    · exact Or.inr hfresh
    · exact Or.inl h
  · refine { G with beyond := ?_, zombie := ?_, ready := ?_, loading := ?_, once := ?_, owns := ?_ }
    · exact fun k hk hb => (congrFun F.dirv _ ▸ G.beyond k hk hb)
    · exact fun h => absurd h hph.2
    · intro ino hino hcl
      obtain ⟨he, hhigh⟩ := G.ready ino hino hcl
      exact ⟨he, fun k hk i => by
        show cellView m' _ _ ≠ _
        rw [hv]
        exact hhigh k hk i⟩
    · intro tmp' page' h
      cases h
      refine ⟨htmp.1, htmp.2.1, hph.1, htmp.2.2, ?_⟩
      show cellView m' _ _ = _
      rw [hv]
      exact ha
    · have := G.once
      simp only [Task.pages, hl, Option.toList_some, Option.toList_none, List.map_cons,
        List.map_nil, List.cons_append, List.nil_append, List.nodup_cons, List.mem_cons,
        not_or] at this hnew ⊢
      exact ⟨⟨fun h => hnew.1 h.symm, this.1⟩, hnew.2, this.2⟩
    · intro g hg
      rcases hperm g hg with rfl | h
      · exact Function.update_self ..
      · exact hup g (G.owns g h)

/-- What the fault of a task that may take one looks like. -/
theorem mayFault_iff {t : Task} (h : t.mayFault = true) :
    t.loading = none ∧ t.phase ≠ .closing ∧ t.phase ≠ .zombie := by
  unfold Task.mayFault at h
  rw [Bool.and_eq_true, Option.isNone_iff_eq_none] at h
  refine ⟨h.1, fun hp => ?_, fun hp => ?_⟩
  · rw [hp] at h
    cases h.2
  · rw [hp] at h
    cases h.2

theorem noPage_spec (I : Inv file lo hi s) {iCount : Nat} (h1 : 1 ≤ nr)
    (ht : s.task nr = some t) (hf : t.mayFault = true) (hoff : off < t.dataLimit)
    (hp : presentAt s.mem (slotBase nr + off) = false)
    (h : noPage s nr t (off / 4096 * 4096) iCount = some s') :
    Exited file lo hi s s' nr ∨
    (Inv file lo hi s' ∧ Local s s' nr ∧ Faulted s s' nr t (off / 4096 * 4096)) := by
  have G := I.good h1 ht
  have hdata := G.data
  obtain ⟨hl, hcl, hz⟩ := mayFault_iff hf
  obtain ⟨hle, h4096, -, -⟩ := page_offset off
  have ha := absent_page h1 G.slot (Nat.lt_of_lt_of_le hoff hdata) hp
  generalize off / 4096 * 4096 = tmp at *
  have htmp : tmp < t.dataLimit := by omega
  have hdirs := (slot_dirs (o := tmp) h1 G.slot (by omega)).1
  -- `get_empty_page` serves the first two kinds of fault
  have empty : ∀ s', s.after nr t (getEmptyPage (slotBase nr + tmp) s.mem) = some s' →
      (∀ ino, t.executable = some ino → t.endData ≤ tmp) →
      Exited file lo hi s s' nr ∨
        (Inv file lo hi s' ∧ Local s s' nr ∧ Faulted s s' nr t tmp) := by
    intro s' h hex
    rcases getEmptyPage_view I.sound hdirs ha with ⟨m1, hm, S1, hv, hr, hd, -⟩ |
      ⟨m1, hm, S1, hd, hv⟩
    · rw [hm] at h
      cases h
      obtain ⟨I', L⟩ := I.page h1 ht hl hz htmp S1 ⟨hv, hr, hd⟩ nofun
      exact Or.inr ⟨I', L, .cleared hex rfl ⟨hv, hr, hd⟩⟩
    · rw [hm] at h
      have L : Local s { s with mem := m1 } nr :=
        ⟨fun _ _ => rfl, fun d _ => by rw [hd], fun d i _ => hv d i⟩
      obtain ⟨s2, hs, E⟩ := doExit_spec I h1 ht S1 L (fun _ h _ => h) rfl
        (G.owns _ List.mem_cons_self) G.code G.data fun k hk hb => by
          show present (m1.dirv _) = _
          rw [hd]
          exact G.beyond k hk hb
      rw [Sys.after, hs] at h
      cases h
      exact Or.inl E
  unfold noPage at h
  cases hex : t.executable with
  | none =>
    rw [hex] at h
    exact empty s' h fun ino hino => by rw [hex] at hino; cases hino
  | some ino =>
    rw [hex] at h
    dsimp only at h
    by_cases hend : t.endData ≤ tmp
    · rw [if_pos hend] at h
      exact empty s' h fun _ _ => hend
    · rw [if_neg hend] at h
      have hlt : tmp < t.endData := by omega
      -- without a page to share the task takes one of its own and sleeps
      have own : ∀ s', readPage s nr t tmp = some s' →
          Exited file lo hi s s' nr ∨
            (Inv file lo hi s' ∧ Local s s' nr ∧ Faulted s s' nr t tmp) := by
        intro s' h
        unfold readPage at h
        cases hg : getFreePage s.mem with
        | none =>
          rw [hg] at h
          exact Or.inl (exit_of I h1 ht h)
        | some r =>
          obtain ⟨f, m1⟩ := r
          rw [hg] at h
          cases h
          obtain ⟨I', L⟩ := asleep_inv I h1 ht hl ⟨hcl, hz⟩ ⟨htmp, h4096, hlt⟩ ha hg
          refine Or.inr ⟨I', L, .asleep f (by rw [hex]; nofun) hlt rfl fun d i => ?_⟩
          exact getFreePage_view I.sound hg d i
      by_cases hcount : iCount < 2
      · rw [if_pos hcount] at h
        exact own s' h
      · rw [if_neg hcount] at h
        rcases sharePage_spec I ino h1 G.slot (by omega) ha (n := 63) (by omega) with
          ⟨m1, p, t', c, hm, S1, hp1, -, hpn, htp, hex', hfrom, C⟩ | hm | hm
        · rw [hm] at h
          cases h
          obtain ⟨I', L⟩ := I.page h1 ht hl hz htmp S1 C nofun
          exact Or.inr ⟨I', L, .shared ino p t' c hex hp1 hpn htp hex' hlt rfl hfrom C⟩
        · rw [hm] at h
          exact own s' h
        · rw [hm] at h
          exact Or.inl (exit_of I h1 ht h)

theorem loaded_spec (I : Inv file lo hi s) {ino tmp page : Nat} (h1 : 1 ≤ nr)
    (ht : s.task nr = some t) (hl : t.loading = some (tmp, page)) (hex : t.executable = some ino)
    (h : loaded file s nr t ino tmp page = some s') :
    Exited file lo hi s s' nr ∨
    (Inv file lo hi s' ∧ Local s s' nr ∧
      s'.task = Function.update s.task nr (some { t with loading := none }) ∧
      Cell s.mem s'.mem (dirIndex (slotBase nr + tmp)) (tableIndex (slotBase nr + tmp))
        (.page false ((file ino).image tmp t.endData))) := by
  have G := I.good h1 ht
  have hdata := G.data
  obtain ⟨htmp, h4096, hcl, hlt, ha⟩ := G.loading tmp page hl
  have hz : t.phase ≠ .zombie := fun hz => by
    rw [(G.zombie hz).2] at hex
    cases hex
  have hdirs := (slot_dirs (o := tmp) h1 G.slot (by omega)).1
  have hown : s.held page = true := G.owns page (by simp [Task.pages, hl])
  obtain ⟨S1, vd1, vp1, -, vv1⟩ := fill_view I.sound hown ((file ino).image tmp t.endData)
  -- the page leaves the task, which keeps all its others
  have honce : page ∉ ({ t with loading := none } : Task).pages := by
    have := G.once
    simp only [Task.pages, hl, Option.toList_some, Option.toList_none, List.map_cons, List.map_nil,
      List.cons_append, List.nil_append, List.nodup_cons, List.mem_cons, not_or] at this ⊢
    exact ⟨fun h => this.1.1 h.symm, this.2.1⟩
  have hheld : ∀ f, s.held f = true → f ∉ t.pages → Function.update s.held page false f = true := by
    intro f hf hft
    have hne : f ≠ page := by
      rintro rfl
      exact hft (by simp [Task.pages, hl])
    rw [Function.update_of_ne hne]
    exact hf
  have hkeep : ∀ f ∈ ({ t with loading := none } : Task).pages,
      Function.update s.held page false f = true := by
    intro f hf
    have hne : f ≠ page := fun h => honce (h ▸ hf)
    rw [Function.update_of_ne hne]
    exact G.owns f (pages_loading hf)
  unfold loaded at h
  rcases putPage_view S1 hdirs (by rw [vv1]; exact ha) hown with
    ⟨m2, hm, S2, hv, hr, hd, -⟩ | hm
  · rw [hm] at h
    cases h
    have C : Cell s.mem m2 (dirIndex (slotBase nr + tmp)) (tableIndex (slotBase nr + tmp))
        (.page false ((file ino).image tmp t.endData)) := by
      refine ⟨by rw [hv, vp1], fun d i hne => (hr d i hne).trans (vv1 d i), fun d hne => ?_⟩
      rw [hd d hne, vd1]
    obtain ⟨I', L⟩ := I.cell h1 ht hz htmp S2 C nofun hheld hkeep
    exact Or.inr ⟨I', L, rfl, C⟩
  · rw [hm] at h
    obtain ⟨m2, hm2, S2, vd2, -, vv2⟩ := freePage_view S1 hown
    dsimp only at h
    rw [hm2] at h
    have L : Local s ⟨m2, Function.update s.held page false, s.task⟩ nr :=
      ⟨fun _ _ => rfl, fun d _ => by rw [vd2, vd1], fun d i _ => (vv2 d i).trans (vv1 d i)⟩
    obtain ⟨s2, hs, E⟩ := doExit_spec (k := { t with loading := none }) I h1 ht S2 L
      (by rw [pages_of ht]; exact hheld) rfl (hkeep _ List.mem_cons_self) G.code G.data
      fun k hk hb => by
        show present (m2.dirv _) = _
        rw [vd2, vd1]
        exact G.beyond k hk hb
    dsimp only at h
    rw [hs] at h
    cases h
    exact Or.inl E

end Linux011.Mm

import Linux011.Mm.UserCall

/-!
# Calls that store to user memory keep to their task

`verify_area` gives a page of its own to every present page that it runs over, and shows nobody
anything new. A store to a page that one entry names, or to a page that its fault brings fresh, is
seen through that entry only. So a call whose stores all find such pages changes nothing that another
task sees.
-/

namespace Linux011.Mm

variable {file : Nat → Program} {lo hi : Nat} {s s' : Sys} {m m' : Mem} {held : Nat → Bool}
  {nr off iCount : Nat} {t : Task}

/-- Whatever the other tasks saw of pages above `LOW_MEM`, they still see. -/
def Unseen (s s' : Sys) (nr : Nat) : Prop :=
  ∀ d i c, d / 16 ≠ nr → (cellView s.mem d i).content = some c → (cellView s'.mem d i).content = some c

theorem Unseen.refl (s : Sys) (nr : Nat) : Unseen s s nr := fun _ _ _ _ h => h

theorem Unseen.trans {u : Sys} (h : Unseen s u nr) (h' : Unseen u s' nr) : Unseen s s' nr :=
  fun d i c hd hc => h' d i c hd (h d i c hd hc)

theorem Local.unseen (L : Local s s' nr) : Unseen s s' nr := fun d i c hd hc => by
  rw [L.view d i hd]
  exact hc

/-- What a task sees of its own region, from what is seen through its entries. -/
theorem Unseen.shown (h : Unseen s s' nr) {q k i : Nat} {c : Nat → Word} (hq : q ≠ nr) (hk : k < 16)
    (hc : shown s.mem q k i = some c) : shown s'.mem q k i = some c := by
  unfold Mm.shown slotView at hc ⊢
  split at hc
  · next h0 =>
    rw [if_pos h0]
    exact hc
  · next h0 =>
    rw [if_neg h0]
    exact h _ _ c (by omega) hc

/-! ## `verify_area` -/

/-- Entries stay present or absent, and writable ones stay writable. -/
structure Opened (pte pte' : Nat → Nat → Word) : Prop where
  there : ∀ d i, present (pte' d i) = present (pte d i)
  opens : ∀ d i, writable (pte d i) = true → writable (pte' d i) = true

theorem Opened.refl (pte : Nat → Nat → Word) : Opened pte pte := ⟨fun _ _ => rfl, fun _ _ h => h⟩

theorem Opened.trans {p q r : Nat → Nat → Word} (h : Opened p q) (h' : Opened q r) : Opened p r :=
  ⟨fun d i => (h'.there d i).trans (h.there d i), fun d i hw => h'.opens d i (h.opens d i hw)⟩

theorem Opened.set {pte : Nat → Nat → Word} {d i : Nat} {e : Word} (hp : present (pte d i) = true)
    (he : present e = true) (hw : writable e = true) : Opened pte (setPte pte d i e) := by
  refine ⟨fun d' i' => ?_, fun d' i' h => ?_⟩
  · by_cases h : d' = d ∧ i' = i
    · rw [h.1, h.2, setPte_self, he, hp]
    · rw [setPte_other h]
  · by_cases hc : d' = d ∧ i' = i
    · rw [hc.1, hc.2, setPte_self, hw]
    · rw [setPte_other hc]
      exact h

/-- `write_verify` for the entries: the one of the address is writable afterwards. -/
theorem writeVerify_pte (S : Sound lo hi m held) (address : Nat) :
    (∃ m', writeVerify address m = .ok () m' ∧ Opened m.pte m'.pte ∧
      (dirIndex address ∈ dirs → present (m.pte (dirIndex address) (tableIndex address)) = true →
        writable (m'.pte (dirIndex address) (tableIndex address)) = true)) ∨
    writeVerify address m = .oom m := by
  have hlt : dirIndex address < 1024 := Nat.mod_lt _ (by omega)
  unfold writeVerify
  by_cases hd : dirIndex address ∈ dirs
  · rw [present_ram hd, ← dirv_eq hd]
    split
    · next hpd =>
      dsimp only
      rw [← pte_eq hpd (tableIndex_lt address)]
      split
      · next hro =>
        obtain ⟨hp, -⟩ := (mask_readOnly _).mp hro
        rcases unWpPage_spec S hp with ⟨m', hm, -, -, -, -, vp, -⟩ |
          ⟨m', page, hm, -, -, -, -, -, -, vp, -, -⟩ | hm
        · refine Or.inl ⟨m', hm, ?_, fun _ _ => ?_⟩
          · rw [vp]
            exact .set hp ((present_or_two _).trans hp) (writable_or_two _)
          · rw [vp, setPte_self]
            exact writable_or_two _
        · refine Or.inl ⟨m', hm, ?_, fun _ _ => ?_⟩
          · rw [vp]
            exact .set hp (present_userEntry _) (writable_userEntry _)
          · rw [vp, setPte_self]
            exact writable_userEntry _
        · exact Or.inr hm
      · next hro =>
        refine Or.inl ⟨m, rfl, .refl _, fun _ hp => ?_⟩
        by_contra hw
        exact hro ((mask_readOnly _).mpr ⟨hp, Bool.not_eq_true _ ▸ hw⟩)
    · next hpd =>
      refine Or.inl ⟨m, rfl, .refl _, fun _ hp => ?_⟩
      exact absurd (pte_dir hp).1 hpd
  · -- below the task slots the entries are the kernel's
    have h16 : dirIndex address < 16 := by
      rw [mem_dirs] at hd
      omega
    rw [S.root _ h16]
    split
    · next hpd =>
      have h4 : dirIndex address < 4 := by
        by_contra hno
        rw [kernelDir, if_neg hno] at hpd
        cases hpd
      dsimp only
      rw [kernelDir, if_pos h4, frame_userEntry (by omega), S.kernel _ (by omega) (by omega),
        if_neg (kernelTable_writable _ _)]
      exact Or.inl ⟨m, rfl, .refl _, fun h => absurd h hd⟩
    · exact Or.inl ⟨m, rfl, .refl _, fun h => absurd h hd⟩

/-- The task has exited in the middle of its call. -/
def Gone (s : Sys) (nr : Nat) : Prop := ∃ t, s.task nr = some t ∧ t.phase = .zombie

theorem Exited.gone (E : Exited file lo hi s s' nr) : Gone s' nr :=
  let ⟨t, ht, _, hz⟩ := E.zombie
  ⟨t, ht, hz⟩

theorem doExit_gone (h : doExit s nr t = some s') : Gone s' nr := by
  unfold doExit at h
  split at h
  · split at h
    · cases h
      exact ⟨_, setTask_self _ _ _, rfl⟩
    · cases h
  · cases h

theorem Gone.live (h : Gone s nr) {k : Task → Option Sys} : s.live nr k = some s := by
  obtain ⟨t, ht, hz⟩ := h
  unfold Sys.live
  rw [ht]
  exact if_pos hz

theorem live_of {k : Task → Option Sys} (ht : s.task nr = some t) (hz : t.phase ≠ .zombie) :
    s.live nr k = k t := by
  unfold Sys.live
  rw [ht]
  exact if_neg hz

theorem Gone.verifyLoop (h : Gone s nr) (n start : Nat) : verifyLoop nr n start s = some s := by
  induction n generalizing start with
  | zero => rfl
  | succ n ih =>
    unfold Mm.verifyLoop
    rw [h.live, Option.bind_some]
    exact ih _

/-- One turn of the loop. -/
theorem verifyTurn_spec (I : Inv file lo hi s) {start : Nat} (h1 : 1 ≤ nr) (ht : s.task nr = some t)
    (h : s.after nr t (writeVerify start s.mem) = some s') :
    Inv file lo hi s' ∧ Unseen s s' nr ∧ (Gone s' nr ∨
      (s'.task = s.task ∧ Opened s.mem.pte s'.mem.pte ∧ (dirIndex start ∈ dirs →
        present (s.mem.pte (dirIndex start) (tableIndex start)) = true →
        writable (s'.mem.pte (dirIndex start) (tableIndex start)) = true))) := by
  rcases writeVerify_pte I.sound start with ⟨m', hm, ho, hw⟩ | hm
  · have hs' : s' = { s with mem := m' } := by
      rw [hm] at h
      exact (Option.some.inj h).symm
    subst hs'
    rcases verify_spec I h1 ht h with E | hsame | ⟨I', -, hp, -, v, C, U⟩
    · exact ⟨E.inv, E.only.unseen, Or.inl E.gone⟩
    · rw [hsame]
      rw [show m' = s.mem from congrArg Sys.mem hsame] at ho hw
      exact ⟨I, .refl _ _, Or.inr ⟨rfl, ho, hw⟩⟩
    · refine ⟨I', fun d i c _ hc => ?_, Or.inr ⟨rfl, ho, hw⟩⟩
      by_cases hdi : d = dirIndex start ∧ i = tableIndex start
      · -- a page above `LOW_MEM` is kept or copied
        obtain ⟨rfl, rfl⟩ := hdi
        rw [C.here]
        rcases U with ⟨rfl, -, -⟩ | ⟨rfl, -⟩
        · exact hc
        · cases hv : cellView s.mem (dirIndex start) (tableIndex start) with
          | page b c' =>
            rw [hv] at hc
            cases hc
            rw [(cellView_eq_page hv).2.2.2]
            rfl
          | absent =>
            rw [hv] at hc
            cases hc
          | low =>
            rw [hv] at hc
            cases hc
      · rw [C.rest d i hdi]
        exact hc
  · rw [hm] at h
    have E := exit_of I h1 ht h
    exact ⟨E.inv, E.only.unseen, Or.inl E.gone⟩

/-- All turns: what was there in the pages they run over is writable. -/
theorem verifyLoop_spec (I : Inv file lo hi s) {start n : Nat} (h1 : 1 ≤ nr) (ht : s.task nr = some t)
    (hz : t.phase ≠ .zombie) (h : verifyLoop nr n start s = some s') :
    Inv file lo hi s' ∧ Unseen s s' nr ∧ (Gone s' nr ∨
      (s'.task = s.task ∧ Opened s.mem.pte s'.mem.pte ∧ ∀ k < n, dirIndex (start + 4096 * k) ∈ dirs →
        present (s.mem.pte (dirIndex (start + 4096 * k)) (tableIndex (start + 4096 * k))) = true →
        writable (s'.mem.pte (dirIndex (start + 4096 * k)) (tableIndex (start + 4096 * k))) = true)) := by
  induction n generalizing s start with
  | zero =>
    cases h
    exact ⟨I, .refl _ _, Or.inr ⟨rfl, .refl _, fun k hk => absurd hk (Nat.not_lt_zero k)⟩⟩
  | succ n ih =>
    unfold verifyLoop at h
    rw [live_of ht hz] at h
    obtain ⟨u, hu, h⟩ := Option.bind_eq_some_iff.mp h
    obtain ⟨Iu, hunseen, hrest⟩ := verifyTurn_spec I h1 ht hu
    rcases hrest with hgone | ⟨htask, hopen, hfirst⟩
    · rw [hgone.verifyLoop] at h
      cases h
      exact ⟨Iu, hunseen, Or.inl hgone⟩
    · obtain ⟨I', hunseen', hrest⟩ := ih Iu (by rw [htask]; exact ht) h
      refine ⟨I', hunseen.trans hunseen', hrest.imp_right ?_⟩
      rintro ⟨htask', hopen', hlater⟩
      refine ⟨htask'.trans htask, hopen.trans hopen', fun k hk hd hp => ?_⟩
      cases k with
      | zero => exact hopen'.opens _ _ (hfirst hd hp)
      | succ k =>
        have hstart : start + 4096 * (k + 1) = start + 4096 + 4096 * k := by omega
        rw [hstart] at hd hp ⊢
        exact hlater k (by omega) hd (by rw [hopen.there]; exact hp)

/-! ## Faults -/

/-- Only one entry of the task is new: that of an absent page, and it is writable. -/
def Brought (s s' : Sys) (nr tmp : Nat) : Prop :=
  s'.task = s.task ∧ ∃ page, s'.mem.pte =
    setPte s.mem.pte (dirIndex (slotBase nr + tmp)) (tableIndex (slotBase nr + tmp)) (userEntry page)

/-- A cleared page. -/
theorem getEmptyPage_brought (I : Inv file lo hi s) {tmp : Nat} (h1 : 1 ≤ nr) (ht : s.task nr = some t)
    (htmp : tmp < t.dataLimit)
    (ha : cellView s.mem (dirIndex (slotBase nr + tmp)) (tableIndex (slotBase nr + tmp)) = .absent)
    (h : s.after nr t (getEmptyPage (slotBase nr + tmp) s.mem) = some s') :
    Gone s' nr ∨ Brought s s' nr tmp := by
  have G := I.good h1 ht
  have hdirs := (slot_dirs (o := tmp) h1 G.slot (Nat.lt_of_lt_of_le htmp G.data)).1
  rcases getEmptyPage_view I.sound hdirs ha with ⟨m1, hm, -, -, -, -, hpte⟩ | ⟨m1, hm, -⟩
  · rw [hm] at h
    cases h
    exact Or.inr ⟨rfl, hpte⟩
  · rw [hm] at h
    exact Or.inl (doExit_gone h)

/-- Without a page to share, the first half of `do_no_page` brings a cleared page, or the task has one
to load and no entry has changed. -/
theorem noPage_brought (I : Inv file lo hi s) {tmp : Nat} (h1 : 1 ≤ nr) (ht : s.task nr = some t)
    (htmp : tmp < t.dataLimit)
    (ha : cellView s.mem (dirIndex (slotBase nr + tmp)) (tableIndex (slotBase nr + tmp)) = .absent)
    (hns : ¬ Shareable s iCount nr tmp t) (h : noPage s nr t tmp iCount = some s') :
    Gone s' nr ∨ Brought s s' nr tmp ∨ ∃ page, t.executable ≠ none ∧ s'.mem.pte = s.mem.pte ∧
      s'.task = Function.update s.task nr (some { t with loading := some (tmp, page) }) := by
  have G := I.good h1 ht
  unfold noPage at h
  rcases Option.eq_none_or_eq_some t.executable with hex | ⟨ino, hex⟩
  · rw [hex] at h
    exact (getEmptyPage_brought I h1 ht htmp ha h).imp_right Or.inl
  · rw [hex] at h
    dsimp only at h
    by_cases hend : t.endData ≤ tmp
    · rw [if_pos hend] at h
      exact (getEmptyPage_brought I h1 ht htmp ha h).imp_right Or.inl
    · rw [if_neg hend] at h
      have own : ∀ s', readPage s nr t tmp = some s' → Gone s' nr ∨ Brought s s' nr tmp ∨
          ∃ page, t.executable ≠ none ∧ s'.mem.pte = s.mem.pte ∧
            s'.task = Function.update s.task nr (some { t with loading := some (tmp, page) }) := by
        intro s' h
        unfold readPage at h
        cases hg : getFreePage s.mem with
        | none =>
          rw [hg] at h
          exact Or.inl (doExit_gone h)
        | some r =>
          obtain ⟨f, m1⟩ := r
          rw [hg] at h
          cases h
          exact Or.inr (Or.inr ⟨f, by rw [hex]; nofun, (getFreePage_spec I.sound hg).pte, rfl⟩)
      by_cases hcount : iCount < 2
      · rw [if_pos hcount] at h
        exact own s' h
      · rw [if_neg hcount] at h
        rcases sharePage_spec I ino h1 G.slot (Nat.lt_of_lt_of_le htmp G.data) ha (n := 63)
          (by omega) with
          ⟨m1, p, t', c, -, -, -, -, hpn, htp, hex', hfrom, -⟩ | hm | hm
        · exact absurd ⟨by omega, by omega, ino, p, t', c, hex, hpn, htp, hex', hfrom⟩ hns
        · rw [hm] at h
          exact own s' h
        · rw [hm] at h
          exact Or.inl (doExit_gone h)

/-- The second half: the page is loaded. -/
theorem loaded_brought (I : Inv file lo hi s) {ino tmp page : Nat} (h1 : 1 ≤ nr)
    (ht : s.task nr = some t) (hl : t.loading = some (tmp, page))
    (h : loaded file s nr t ino tmp page = some s') :
    Gone s' nr ∨ (s'.task = Function.update s.task nr (some { t with loading := none }) ∧
      ∃ page, s'.mem.pte = setPte s.mem.pte (dirIndex (slotBase nr + tmp))
        (tableIndex (slotBase nr + tmp)) (userEntry page)) := by
  have G := I.good h1 ht
  obtain ⟨htmp, -, -, -, ha⟩ := G.loading tmp page hl
  have hdirs := (slot_dirs (o := tmp) h1 G.slot (Nat.lt_of_lt_of_le htmp G.data)).1
  have hown : s.held page = true := G.owns page (by simp [Task.pages, hl])
  obtain ⟨S1, -, -, -, hv⟩ := fill_view I.sound hown ((file ino).image tmp t.endData)
  have hpte : (s.mem.fill page ((file ino).image tmp t.endData)).pte = s.mem.pte :=
    (view_fill (I.sound.notTable (Or.inl hown))).2
  unfold loaded at h
  rcases putPage_view S1 hdirs (by rw [hv]; exact ha) hown with ⟨m2, hm, -, -, -, -, vp⟩ | hm
  · rw [hm] at h
    cases h
    exact Or.inr ⟨rfl, page, by rw [← hpte]; exact vp⟩
  · rw [hm] at h
    dsimp only at h
    split at h
    · exact Or.inl (doExit_gone h)
    · cases h

/-- `do_no_page` of a task in a system call. What the others see stays. -/
theorem doNoPage_spec (I : Inv file lo hi s) (h1 : 1 ≤ nr) (ht : s.task nr = some t) (hu : t.InUser)
    (hoff : off < t.dataLimit) (hp : presentAt s.mem (slotBase nr + off) = false)
    (hns : ¬ Shareable s iCount nr (off / 4096 * 4096) t)
    (h : doNoPage file iCount nr (off / 4096 * 4096) t s = some s') :
    Inv file lo hi s' ∧ Local s s' nr ∧ (Gone s' nr ∨ Brought s s' nr (off / 4096 * 4096)) := by
  have G := I.good h1 ht
  have hmay : t.mayFault = true := by
    unfold Task.mayFault
    rw [hu.2.1, hu.1]
    rfl
  have ha := absent_page h1 G.slot (Nat.lt_of_lt_of_le hoff G.data) hp
  have hle := (page_offset off).1
  unfold doNoPage at h
  obtain ⟨u, hnp, hk⟩ := Option.bind_eq_some_iff.mp h
  have hhalf := noPage_brought I h1 ht (Nat.lt_of_le_of_lt hle hoff) ha hns hnp
  have hinv : Inv file lo hi u ∧ Local s u nr := by
    rcases noPage_spec I h1 ht hmay hoff hp hnp with E | ⟨Iu, L, -⟩
    · exact ⟨E.inv, E.only⟩
    · exact ⟨Iu, L⟩
  generalize off / 4096 * 4096 = tmp at hhalf ⊢
  obtain ⟨Iu, L⟩ := hinv
  rcases hhalf with hgone | hbrought | ⟨page, hex, hpte, htask⟩
  · rw [hgone.live] at hk
    cases hk
    exact ⟨Iu, L, Or.inl hgone⟩
  · have htu : u.task nr = some t := by rw [hbrought.1, ht]
    rw [live_of htu (by rw [hu.1]; nofun), hu.2.1] at hk
    cases hk
    exact ⟨Iu, L, Or.inr hbrought⟩
  · obtain ⟨ino, hino⟩ := Option.ne_none_iff_exists'.mp hex
    obtain ⟨t1, ht1⟩ : ∃ t1 : Task, t1 = { t with loading := some (tmp, page) } := ⟨_, rfl⟩
    have hloading : t1.loading = some (tmp, page) := by rw [ht1]
    have hexec : t1.executable = some ino := by rw [ht1]; exact hino
    have hback : ({ t1 with loading := none } : Task) = t := by rw [ht1, ← hu.2.1]
    rw [← ht1] at htask
    have htu : u.task nr = some t1 := by rw [htask, Function.update_self]
    rw [live_of htu (by rw [ht1]; show t.phase ≠ _; rw [hu.1]; nofun), hloading, hexec] at hk
    have hload := loaded_brought Iu h1 htu hloading hk
    rcases loaded_spec Iu h1 htu hloading hexec hk with E | ⟨I', L', -⟩
    · exact ⟨E.inv, L.trans E.only, Or.inl E.gone⟩
    · refine ⟨I', L.trans L', hload.imp_right ?_⟩
      rintro ⟨htask', page', hpte'⟩
      refine ⟨?_, page', by rw [hpte', hpte]⟩
      rw [htask', htask, Function.update_idem, hback]
      exact Function.update_eq_self_iff.mpr ht.symm

/-! ## Stores -/

/-- The page of an offset has the entry of the offset. -/
theorem page_cell (h64 : nr < 64) (hoff : off < 0x4000000) :
    dirIndex (slotBase nr + off / 4096 * 4096) = dirIndex (slotBase nr + off) ∧
      tableIndex (slotBase nr + off / 4096 * 4096) = tableIndex (slotBase nr + off) := by
  rw [dirIndex_slot h64 hoff, dirIndex_slot h64 (by omega), tableIndex_slot, tableIndex_slot]
  omega

theorem alone_of_writable (S : Sound lo hi m held) {d i : Nat} (hp : present (m.pte d i) = true)
    (hw : writable (m.pte d i) = true) : Alone m d i := by
  refine ⟨(store_writable S (k := 0) (w := 0) hp hw).1, fun d' i' hpt => ?_⟩
  have := S.acct.alone hp hpt.1 hpt.2.symm hw
  exact ⟨this.1.symm, this.2.symm⟩

/-- A page that only this task names is there after a change of one entry, and the others are as
much its own as they were. -/
theorem Own.set (I : Inv file lo hi s) (L : Local s s' nr) (htask : s'.task = s.task) {d i : Nat}
    {e : Word} (hpte : s'.mem.pte = setPte s.mem.pte d i e) (he : present e = true)
    (halone : Alone s'.mem d i) (h1 : 1 ≤ nr) (h64 : nr < 64) (hoff : off < 0x4000000)
    (ho : Own s iCount nr off t) : Own s' iCount nr off t := by
  have hd := (slot_dirs h1 h64 hoff).1
  unfold Own at ho ⊢
  rw [presentAt_eq hd] at ho ⊢
  generalize dirIndex (slotBase nr + off) = D at ho ⊢
  generalize tableIndex (slotBase nr + off) = J at ho ⊢
  by_cases hsame : D = d ∧ J = i
  · rw [hsame.1, hsame.2]
    refine ⟨fun _ => halone, fun hp => ?_⟩
    rw [hpte, setPte_self, he] at hp
    cases hp
  · have hDJ : s'.mem.pte D J = s.mem.pte D J := by rw [hpte, setPte_other hsame]
    rw [hDJ]
    refine ⟨fun hp => ⟨by rw [hDJ]; exact (ho.1 hp).1, fun d' i' hpt => ?_⟩, fun hp hsh => ho.2 hp ?_⟩
    · by_cases hc : d' = d ∧ i' = i
      · rw [hc.1, hc.2] at hpt
        have hback : Points (s'.mem.pte D J) (frame (s'.mem.pte d i)) :=
          ⟨by rw [hDJ]; exact hp, hpt.2.symm⟩
        exact absurd (halone.2 D J hback) hsame
      · rw [hDJ, hpte, setPte_other hc] at hpt
        exact (ho.1 hp).2 d' i' hpt
    · obtain ⟨hcount, hend, ino, p, t', c, hex, hpn, htp, hex', hv⟩ := hsh
      rw [htask] at htp
      have hp1 : 1 ≤ p := by
        by_contra h0
        have hp0 : p = 0 := by omega
        rw [hp0, I.zero] at htp
        cases htp
        cases hex'
      have hslot := (slot_dirs (o := off / 4096 * 4096) hp1 (I.good hp1 htp).slot (by omega)).2
      rw [L.view _ _ (by rw [hslot]; exact hpn)] at hv
      exact ⟨hcount, hend, ino, p, t', c, hex, hpn, htp, hex', hv⟩

/-- A store to a page that only this task names. -/
theorem storeByte_spec (iCount : Nat) (I : Inv file lo hi s) {b : Byte} (h1 : 1 ≤ nr)
    (ht : s.task nr = some t)
    (hu : t.InUser) (hoff : off < t.dataLimit) (hp : presentAt s.mem (slotBase nr + off) = true)
    (ha : Alone s.mem (dirIndex (slotBase nr + off)) (tableIndex (slotBase nr + off))) :
    Inv file lo hi { s with mem := s.mem.storeByte (slotBase nr + off) b } ∧
      Local s { s with mem := s.mem.storeByte (slotBase nr + off) b } nr ∧
      ∀ off' < 0x4000000, Own s iCount nr off' t →
        Own { s with mem := s.mem.storeByte (slotBase nr + off) b } iCount nr off' t := by
  have G := I.good h1 ht
  have hd := (slot_dirs h1 G.slot (Nat.lt_of_lt_of_le hoff G.data)).1
  have hpte := (presentAt_eq hd).symm.trans hp
  obtain ⟨S', hdirv, hset, hhere, hrest, -⟩ := store_view I.sound (k := (slotBase nr + off) / 4 % 1024)
    (w := setByte (s.mem.ram (frame (entryAt s.mem (slotBase nr + off))) ((slotBase nr + off) / 4 % 1024))
      ((slotBase nr + off) % 4) b) hpte ha.1
  obtain ⟨I', L⟩ := I.page h1 ht hu.2.1 (by rw [hu.1]; nofun) hoff S'
    ⟨hhere, fun d i hne => hrest d i fun hpt => hne (ha.2 d i hpt), fun d _ => by rw [hdirv]⟩ nofun
  refine ⟨I', L, fun off' hoff' ho => ?_⟩
  refine ho.set I L rfl hset ((present_or_used _).trans hpte) ⟨?_, fun d i hpt => ?_⟩ h1 G.slot hoff'
  · show lowMem ≤ frame (Mem.pte (Mem.store _ _ _ _ _) _ _)
    rw [hset, setPte_self, frame_or_used]
    exact ha.1
  · have hpt : Points ((s.mem.store _ _ _ _).pte d i) (frame ((s.mem.store _ _ _ _).pte _ _)) := hpt
    rw [hset, setPte_self, frame_or_used] at hpt
    by_cases hc : d = dirIndex (slotBase nr + off) ∧ i = tableIndex (slotBase nr + off)
    · exact hc
    · rw [setPte_other hc] at hpt
      exact ha.2 d i hpt

/-- `put_fs_byte` where the store stays with the task. -/
theorem putFsByte_spec (I : Inv file lo hi s) {b : Byte} (h1 : 1 ≤ nr) (ht : s.task nr = some t)
    (hu : t.InUser) (hoff : off < t.dataLimit) (ho : Own s iCount nr off t)
    (h : putFsByte file iCount nr off b s = some s') :
    Inv file lo hi s' ∧ Local s s' nr ∧ (Gone s' nr ∨ (s'.task nr = some t ∧
      ∀ off' < 0x4000000, Own s iCount nr off' t → Own s' iCount nr off' t)) := by
  have G := I.good h1 ht
  have hlt := Nat.lt_of_lt_of_le hoff G.data
  have hd := (slot_dirs h1 G.slot hlt).1
  have hz : t.phase ≠ .zombie := by rw [hu.1]; nofun
  unfold putFsByte at h
  rw [live_of ht hz] at h
  split at h
  · next hp =>
    cases h
    obtain ⟨I', L, hown⟩ := storeByte_spec iCount I (b := b) h1 ht hu hoff hp (ho.1 hp)
    exact ⟨I', L, Or.inr ⟨ht, hown⟩⟩
  · next hp =>
    have hp : presentAt s.mem (slotBase nr + off) = false := Bool.not_eq_true _ ▸ hp
    obtain ⟨u, hfault, hk⟩ := Option.bind_eq_some_iff.mp h
    obtain ⟨Iu, L, hgone | ⟨htask, page, hset⟩⟩ := doNoPage_spec I h1 ht hu hoff hp (ho.2 hp) hfault
    · rw [hgone.live] at hk
      cases hk
      exact ⟨Iu, L, Or.inl hgone⟩
    · have htu : u.task nr = some t := by rw [htask, ht]
      rw [live_of htu hz] at hk
      cases hk
      obtain ⟨hdir, htab⟩ := page_cell G.slot hlt
      rw [hdir, htab] at hset
      -- the new entry is writable
      have he : u.mem.pte (dirIndex (slotBase nr + off)) (tableIndex (slotBase nr + off))
        = userEntry page := by
        rw [hset, setPte_self]
      have hpresent : present (u.mem.pte (dirIndex (slotBase nr + off))
        (tableIndex (slotBase nr + off))) = true := by
        rw [he, present_userEntry]
      have halone := alone_of_writable Iu.sound hpresent (by rw [he, writable_userEntry])
      obtain ⟨I', L', hown⟩ := storeByte_spec iCount Iu (b := b) h1 htu hu hoff
        ((presentAt_eq hd).trans hpresent) halone
      refine ⟨I', L.trans L', Or.inr ⟨htu, fun off' hoff' ho' => hown off' hoff' ?_⟩⟩
      exact ho'.set I L htask hset (present_userEntry _) halone h1 G.slot hoff'

theorem Gone.putFs (h : Gone s nr) (off : Nat) (bytes : List Byte) :
    putFs file iCount nr off bytes s = some s := by
  induction bytes generalizing off with
  | nil => rfl
  | cons b bytes ih =>
    unfold Mm.putFs putFsByte
    rw [h.live, Option.bind_some]
    exact ih _

/-- All stores of a call. -/
theorem putFs_spec (I : Inv file lo hi s) {bytes : List Byte} (h1 : 1 ≤ nr) (ht : s.task nr = some t)
    (hu : t.InUser) (hfit : off + bytes.length ≤ t.dataLimit)
    (ho : ∀ k < bytes.length, Own s iCount nr (off + k) t)
    (h : putFs file iCount nr off bytes s = some s') : Inv file lo hi s' ∧ Local s s' nr := by
  induction bytes generalizing s off with
  | nil =>
    cases h
    exact ⟨I, .refl _ _⟩
  | cons b bytes ih =>
    rw [List.length_cons] at hfit ho
    have hmax := (I.good h1 ht).data
    unfold putFs at h
    obtain ⟨u, hb, hk⟩ := Option.bind_eq_some_iff.mp h
    obtain ⟨Iu, L, hgone | ⟨htu, hown⟩⟩ := putFsByte_spec I h1 ht hu (by omega) (ho 0 (by omega)) hb
    · rw [hgone.putFs] at hk
      cases hk
      exact ⟨Iu, L⟩
    · have hrest : ∀ k < bytes.length, Own u iCount nr (off + 1 + k) t := fun k hk => by
        have hnext : off + 1 + k = off + (k + 1) := by omega
        rw [hnext]
        exact hown _ (by omega) (ho (k + 1) (by omega))
      obtain ⟨I', L'⟩ := ih Iu htu (by omega) hrest hk
      exact ⟨I', L.trans L'⟩

/-! ## The result -/

/-- What `verify_area` ran over is the task's own. -/
theorem verifyArea_spec (I : Inv file lo hi s) {address size n : Nat} (h1 : 1 ≤ nr)
    (ht : s.task nr = some t) (hu : t.InUser) (hn : n ≤ size) (hsize : size + address % 4096 < 2 ^ 31)
    (hfit : address + n ≤ t.dataLimit) (h : verifyArea nr address size s = some s') :
    Inv file lo hi s' ∧ Unseen s s' nr ∧ (Gone s' nr ∨ (s'.task = s.task ∧
      ∀ k < n, presentAt s'.mem (slotBase nr + (address + k)) = true →
        Alone s'.mem (dirIndex (slotBase nr + (address + k))) (tableIndex
          (slotBase nr + (address + k))))) := by
  have G := I.good h1 ht
  have hmax := G.data
  have hz : t.phase ≠ .zombie := by rw [hu.1]; nofun
  obtain ⟨I', hunseen, hrest⟩ := verifyLoop_spec I h1 ht hz h
  refine ⟨I', hunseen, hrest.imp_right ?_⟩
  rintro ⟨htask, hopen, hw⟩
  refine ⟨htask, fun k hk hp => ?_⟩
  have hlt : address + k < 0x4000000 := by omega
  have hd := (slot_dirs h1 G.slot hlt).1
  rw [presentAt_eq hd] at hp
  -- the turn that runs over the page
  obtain ⟨j, hj⟩ : ∃ j, (address + k) / 4096 * 4096 = address / 4096 * 4096 + 4096 * j :=
    ⟨(address + k) / 4096 - address / 4096, by omega⟩
  have hturn : j < verifyTurns address size := by
    unfold verifyTurns int32
    rw [Nat.mod_eq_of_lt (by omega), if_pos (by omega)]
    omega
  obtain ⟨hdir, htab⟩ := page_cell G.slot hlt
  have hstart : slotBase nr + address / 4096 * 4096 + 4096 * j
      = slotBase nr + (address + k) / 4096 * 4096 := by omega
  have hopened := hw j hturn
  rw [hstart, hdir, htab] at hopened
  exact alone_of_writable I'.sound hp (hopened hd (by rw [← hopen.there]; exact hp))

@[simp] theorem little_length (n w : Nat) : (little n w).length = n := by
  rw [little, List.length_map, List.length_range]

@[simp] theorem longs_length (ws : List Nat) : (longs ws).length = 4 * ws.length := by
  induction ws with
  | nil => rfl
  | cons w ws ih =>
    rw [longs, List.flatMap_cons, List.length_append, little_length, List.length_cons]
    have : (longs ws).length = _ := ih
    rw [longs] at this
    omega

/-- The part of a file that is read is not longer than `count`. -/
theorem sysRead_length {buf count pos size : Nat} {content : Nat → Byte} (hcount : count < 2 ^ 31)
    (hpos : pos < 2 ^ 31) (hsize : size < 2 ^ 32) :
    (sysRead buf count pos size content).bytes.length ≤ count := by
  unfold sysRead
  dsimp only
  rw [List.length_map, List.length_range]
  unfold int32
  split
  · split <;> omega
  · omega

/-- A call that verifies, verifies at least what it stores. -/
theorem UserCall.Verified.size {c : UserCall} (h : c.Verified) (ha : c.Admitted) :
    ∃ size, c.copy.verified = some size ∧ c.copy.bytes.length ≤ size ∧
      size + c.copy.address % 4096 < 2 ^ 31 := by
  have small : ∀ address (bytes : List Byte), bytes.length ≤ 100 → ∃ size,
      (checked address bytes).verified = some size ∧ (checked address bytes).bytes.length ≤ size ∧
        size + (checked address bytes).address % 4096 < 2 ^ 31 := fun address bytes hb =>
    ⟨_, rfl, Nat.le_refl _, by show bytes.length + address % 4096 < _; omega⟩
  cases c with
  | pipe fildes fd0 fd1 => exact h.elim
  | read buf count pos size content => exact ⟨count, rfl, sysRead_length ha.1 ha.2.1 ha.2.2, h⟩
  | stat statbuf st => exact small _ _ (by simp [Stat.bytes])
  | waitpid statAddr code => exact small _ _ (by simp)
  | time tloc i => exact small _ _ (by simp)
  | times tbuf utime stime cutime cstime => exact small _ _ (by simp)
  | uname name => exact small _ _ (by decide)
  | sigaction oldaction handler mask flags restorer => exact small _ _ (by simp)
  | tcgets termios t => exact small _ _ (by simp [List.length_flatMap])
  | tcgeta termio t => exact small _ _ (by simp [List.length_flatMap])
  | tiocgpgrp arg pgrp => exact small _ _ (by simp)
  | tiocinq arg chars => exact small _ _ (by simp)
  | signal esp noMask f =>
    cases noMask
    · exact ⟨_, rfl, by show (longs _).length ≤ _; simp, by show 32 + _ % 4096 < _; omega⟩
    · exact ⟨_, rfl, by show (longs _).length ≤ _; simp, by show 28 + _ % 4096 < _; omega⟩

/-- What a call may find when its stores begin: its destination verified just now, or in pages of its
own; and no absent page that would be shared. -/
structure Guarded (v w : Sys) (iCount nr : Nat) (t : Task) (c : UserCall) : Prop where
  alone : (c.Verified ∧ w = v) ∨ ∀ k < c.copy.bytes.length,
    presentAt w.mem (slotBase nr + (c.copy.address + k)) = true →
      Alone w.mem (dirIndex (slotBase nr + (c.copy.address + k)))
        (tableIndex (slotBase nr + (c.copy.address + k)))
  unshared : ∀ k < c.copy.bytes.length,
    presentAt w.mem (slotBase nr + (c.copy.address + k)) = false →
      ¬ Shareable w iCount nr ((c.copy.address + k) / 4096 * 4096) t

/-! ## Stores to a shared page -/

/-- A page after stores of bytes from an offset on. -/
def poked : Nat → List Byte → (Nat → Word) → Nat → Word
  | _, [], c => c
  | off, b :: bytes, c => poked (off + 1) bytes
      (Function.update c (off / 4 % 1024) (setByte (c (off / 4 % 1024)) (off % 4) b))

/-- Stores to a page that a second entry names are seen through that entry. -/
theorem putFs_shared {d i D J : Nat} {bytes : List Byte} {b : Bool} {c : Nat → Word}
    (S : Sound lo hi s.mem s.held) (ht : s.task nr = some t) (hz : t.phase ≠ .zombie) (hD : D ∈ dirs)
    (hcell : ∀ k < bytes.length,
      dirIndex (slotBase nr + (off + k)) = D ∧ tableIndex (slotBase nr + (off + k)) = J)
    (hp : present (s.mem.pte D J) = true) (hne : ¬ (d = D ∧ i = J))
    (hpt : frame (s.mem.pte d i) = frame (s.mem.pte D J)) (hv : cellView s.mem d i = .page b c) :
    ∃ s' b', putFs file iCount nr off bytes s = some s' ∧
      cellView s'.mem d i = .page b' (poked off bytes c) := by
  induction bytes generalizing s off b c with
  | nil => exact ⟨s, b, rfl, hv⟩
  | cons x bytes ih =>
    obtain ⟨hdir, htab⟩ := hcell 0 (Nat.zero_lt_succ _)
    rw [Nat.add_zero] at hdir htab
    obtain ⟨hpd, hl, -, hcontent⟩ := cellView_eq_page hv
    have hat : presentAt s.mem (slotBase nr + off) = true := by
      rw [presentAt_eq (by rw [hdir]; exact hD), hdir, htab]
      exact hp
    have hentry : entryAt s.mem (slotBase nr + off) = s.mem.pte D J := by
      rw [entryAt_eq (by rw [hdir]; exact hD) hat, hdir, htab]
    have hstore : putFsByte file iCount nr off x s =
        some { s with mem := s.mem.storeByte (slotBase nr + off) x } := by
      unfold putFsByte
      rw [live_of ht hz, if_pos hat]
    -- the word of the byte, in the page that both entries name
    have hword : (slotBase nr + off) / 4 % 1024 = off / 4 % 1024 := by
      unfold slotBase
      omega
    have hbyte : (slotBase nr + off) % 4 = off % 4 := by
      unfold slotBase
      omega
    have hmem : s.mem.storeByte (slotBase nr + off) x = s.mem.store D J (off / 4 % 1024)
        (setByte (c (off / 4 % 1024)) (off % 4) x) := by
      unfold Mem.storeByte Mem.storeAt
      rw [hentry, hdir, htab, hword, hbyte, ← hpt, hcontent]
    obtain ⟨S', -, hset, -, -, hshared⟩ := store_view S (k := off / 4 % 1024)
      (w := setByte (c (off / 4 % 1024)) (off % 4) x) hp (hpt ▸ hl)
    have hview := hshared d i hne ⟨hpd, hpt⟩
    rw [← hpt, hcontent] at hview
    rw [hmem] at hstore
    generalize s.mem.store D J (off / 4 % 1024) (setByte (c (off / 4 % 1024)) (off % 4) x) = m1 at *
    have hself : m1.pte D J = s.mem.pte D J ||| 0x60 := by rw [hset, setPte_self]
    have hother : m1.pte d i = s.mem.pte d i := by rw [hset, setPte_other hne]
    have hrest : ∀ k < bytes.length, dirIndex (slotBase nr + (off + 1 + k)) = D ∧
        tableIndex (slotBase nr + (off + 1 + k)) = J := fun k hk => by
      have := hcell (k + 1) (Nat.succ_lt_succ hk)
      rwa [show off + (k + 1) = off + 1 + k by omega] at this
    obtain ⟨s', b', hs', hv'⟩ := ih (s := { s with mem := m1 }) S' ht hrest
      (by rw [hself, present_or_used]; exact hp) (by rw [hother, hself, frame_or_used]; exact hpt) hview
    refine ⟨s', b', ?_, hv'⟩
    unfold putFs
    rw [hstore]
    exact hs'

/-! ## Stores that are seen -/

theorem shareEntry_ne_false {e : Word} {a b i : Nat} : shareEntry e a b i m ≠ .ok false m' := by
  unfold shareEntry
  split
  · nofun
  · nofun

/-- `try_to_share` does not pass over a clean page. -/
theorem tryToShare_ne_false (S : Sound lo hi m held) {address p cur : Nat} {c : Nat → Word}
    (hoff : dirIndex address < 16) (hp1 : 1 ≤ p) (hp2 : p < 64) (hc2 : cur < 64)
    (hv : cellView m (dirIndex address + 16 * p) (tableIndex address) = .page false c) :
    tryToShare address (slotBase p) (slotBase cur) m ≠ .ok false m' := by
  obtain ⟨hp, hl, hclean, -⟩ := cellView_eq_page hv
  obtain ⟨hd, hlt⟩ := pte_dir hp
  have hrange : frame (m.pte (dirIndex address + 16 * p) (tableIndex address)) < hi := by
    rcases S.acct.page hp with h | h
    · omega
    · exact h.2
  have hdm : dirIndex address + 16 * p ∈ dirs := mem_dirs.mpr (by omega)
  unfold tryToShare
  rw [dirIndex_slotBase hp2, dirIndex_slotBase hc2]
  dsimp only
  rw [present_ram hdm, ← dirv_eq hdm, if_pos hd, ← pte_eq hd hlt,
    if_neg (not_not.mpr ((mask_clean _).mpr ⟨hp, hclean⟩)), frame_mask,
    if_neg (by rw [S.high]; omega)]
  split
  · exact shareEntry_ne_false
  · split
    · nofun
    · exact shareEntry_ne_false

/-- When some task has a clean page to share, the task gets a page that another one shows. -/
theorem sharePage_exposes (I : Inv file lo hi s) {ino tmp p : Nat} {t' : Task} {c : Nat → Word}
    (h1 : 1 ≤ nr) (h64 : nr < 64) (htmp : tmp < 0x4000000)
    (ha : cellView s.mem (dirIndex (slotBase nr + tmp)) (tableIndex (slotBase nr + tmp)) = .absent)
    (hp1 : 1 ≤ p) (hpn : p ≠ nr) (htp : s.task p = some t') (hex : t'.executable = some ino)
    (hv : cellView s.mem (dirIndex (slotBase p + tmp)) (tableIndex (slotBase p + tmp)) = .page false c)
    {n : Nat} (hn : n < 64) (hle : p ≤ n) :
    (∃ m' q b, sharePage s.task nr ino tmp n s.mem = .ok true m' ∧ Sound lo hi m' s.held ∧
      1 ≤ q ∧ q < 64 ∧ q ≠ nr ∧
      present (m'.pte (dirIndex (slotBase nr + tmp)) (tableIndex (slotBase nr + tmp))) = true ∧
      frame (m'.pte (dirIndex (slotBase q + tmp)) (tableIndex (slotBase q + tmp))) =
        frame (m'.pte (dirIndex (slotBase nr + tmp)) (tableIndex (slotBase nr + tmp))) ∧
      cellView s.mem (dirIndex (slotBase q + tmp)) (tableIndex (slotBase q + tmp)) = .page false b ∧
      cellView m' (dirIndex (slotBase q + tmp)) (tableIndex (slotBase q + tmp)) = .page false b) ∨
    sharePage s.task nr ino tmp n s.mem = .oom s.mem := by
  induction n with
  | zero => omega
  | succ n ih =>
    have ih := fun h : p ≤ n => ih (by omega) h
    rw [sharePage]
    cases htq : s.task (n + 1) with
    | none =>
      refine ih ?_
      by_contra hlast
      rw [show n + 1 = p by omega, htp] at htq
      cases htq
    | some k =>
      dsimp only
      by_cases hskip : nr = n + 1 ∨ k.executable ≠ some ino
      · rw [if_pos hskip]
        refine ih ?_
        by_contra hlast
        have hpe : p = n + 1 := by omega
        rw [← hpe, htp] at htq
        cases htq
        rcases hskip with h | h
        · exact hpn (hpe.trans h.symm)
        · exact h hex
      · rw [if_neg hskip]
        obtain ⟨hne, -⟩ := not_or.mp hskip
        obtain ⟨h16, hd, hi'⟩ := share_index h64 htmp
        obtain ⟨-, hdq, hiq⟩ := share_index (p := n + 1) hn htmp
        rw [← hd, ← hi'] at ha ⊢
        rcases tryToShare_spec I.sound h16 (p := n + 1) (by omega) hn h1 h64 with
          ⟨m', hm, S', hpr, hclean, hl, -, vp, -⟩ | hm | ⟨hpr, -⟩ | hm
        · rcases tryToShare_view (p := n + 1) I.sound h16 (by omega) hn h1 h64 ha with
            ⟨m2, b, hm2, -, hfrom, hto, hrest, -⟩ | hm2 | hm2
          · obtain rfl : m' = m2 := by
              rw [hm] at hm2
              cases hm2
              rfl
            have hown : m'.pte (dirIndex tmp + 16 * nr) (tableIndex tmp) =
                s.mem.pte (dirIndex tmp + 16 * (n + 1)) (tableIndex tmp) &&& ~~~2 := by
              rw [vp, setPte_self]
            have hcell : ¬ (dirIndex tmp + 16 * (n + 1) = dirIndex tmp + 16 * nr ∧
                tableIndex tmp = tableIndex tmp) := by omega
            have hother : m'.pte (dirIndex tmp + 16 * (n + 1)) (tableIndex tmp) =
                s.mem.pte (dirIndex tmp + 16 * (n + 1)) (tableIndex tmp) &&& ~~~2 := by
              rw [vp, setPte_other hcell, setPte_self]
            refine Or.inl ⟨m', n + 1, b, ?_, S', by omega, hn, fun h => hne h.symm, ?_, ?_, ?_, ?_⟩
            · rw [hm]
              rfl
            · rw [hown, present_clear]
              exact hpr
            · rw [← hdq, ← hiq, hother, hown]
            · rw [← hdq, ← hiq]
              exact hfrom
            · rw [← hdq, ← hiq, hrest _ _ hcell]
              exact hfrom
          · rw [hm] at hm2
            cases hm2
          · rw [hm] at hm2
            cases hm2
        · rw [hm, hd, hi']
          refine ih ?_
          by_contra hlast
          have hpe : p = n + 1 := by omega
          rw [hpe, ← hdq, ← hiq] at hv
          exact tryToShare_ne_false I.sound h16 (by omega) hn h64 hv hm
        · rw [cellView_absent.mp ha] at hpr
          cases hpr
        · rw [hm]
          exact Or.inr rfl

/-- Another entry of the page of an entry is an entry of another task. -/
theorem other_task (S : Sound lo hi m held) {d i D J : Nat} (hp : present (m.pte D J) = true)
    (hl : lowMem ≤ frame (m.pte D J)) (hpt : Points (m.pte d i) (frame (m.pte D J)))
    (hne : ¬ (d = D ∧ i = J)) : d / 16 ≠ D / 16 ∧ 1 ≤ d / 16 ∧ d / 16 < 64 := by
  obtain ⟨hmod, hi⟩ := S.acct.offset hpt.1 hp hpt.2 (by rw [hpt.2]; exact hl)
  have hd := mem_dirs.mp (S.acct.cell hpt.1).1
  exact ⟨by omega, by omega, by omega⟩

/-- What the task of an entry sees there. -/
theorem shown_cell {d i : Nat} (h1 : 1 ≤ d / 16) : shown m (d / 16)
    (d % 16) i = (cellView m d i).content := by
  unfold shown slotView
  rw [if_neg (by omega), show 16 * (d / 16) + d % 16 = d by omega]

/-- The destination is another task's too: it names the page, or has it to share. -/
def Exposed (s : Sys) (iCount nr off : Nat) (t : Task) : Prop :=
  (∃ d i, ¬ (d = dirIndex (slotBase nr + off) ∧ i = tableIndex (slotBase nr + off)) ∧
    presentAt s.mem (slotBase nr + off) = true ∧
    lowMem ≤ frame (s.mem.pte (dirIndex (slotBase nr + off)) (tableIndex (slotBase nr + off))) ∧
    Points (s.mem.pte d i)
      (frame (s.mem.pte (dirIndex (slotBase nr + off)) (tableIndex (slotBase nr + off))))) ∨
  presentAt s.mem (slotBase nr + off) = false ∧ Shareable s iCount nr (off / 4096 * 4096) t

/-- A store to a page that another entry names. -/
theorem putFsByte_shared (S : Sound lo hi s.mem s.held) {b : Byte} {d i : Nat} {dirty : Bool}
    {c : Nat → Word} (ht : s.task nr = some t) (hz : t.phase ≠ .zombie)
    (hd : dirIndex (slotBase nr + off) ∈ dirs) (hp : presentAt s.mem (slotBase nr + off) = true)
    (hne : ¬ (d = dirIndex (slotBase nr + off) ∧ i = tableIndex (slotBase nr + off)))
    (hpt : frame (s.mem.pte d i) =
      frame (s.mem.pte (dirIndex (slotBase nr + off)) (tableIndex (slotBase nr + off))))
    (hv : cellView s.mem d i = .page dirty c) (h : putFsByte file iCount nr off b s = some s') :
    (cellView s'.mem d i).content = some (poked off [b] c) := by
  have hput : putFs file iCount nr off [b] s = some s' := by
    unfold putFs
    rw [h]
    rfl
  have hcell : ∀ k < [b].length, dirIndex (slotBase nr + (off + k)) = dirIndex (slotBase nr + off) ∧
      tableIndex (slotBase nr + (off + k)) = tableIndex (slotBase nr + off) := fun k hk => by
    rw [show k = 0 by rw [List.length_singleton] at hk; omega]
    exact ⟨rfl, rfl⟩
  obtain ⟨s2, b', hs2, hv'⟩ : ∃ s2 b', putFs file iCount nr off [b] s = some s2 ∧
      cellView s2.mem d i = .page b' (poked off [b] c) :=
    putFs_shared S ht hz hd hcell ((presentAt_eq hd).symm.trans hp) hne hpt hv
  rw [hput] at hs2
  cases hs2
  rw [hv']
  rfl

/-- A store to such a place is seen by another task, unless the task has run out of memory. -/
theorem putFsByte_exposed (I : Inv file lo hi s) {b : Byte} (h1 : 1 ≤ nr) (ht : s.task nr = some t)
    (hu : t.InUser) (hoff : off < t.dataLimit) (he : Exposed s iCount nr off t)
    (h : putFsByte file iCount nr off b s = some s') :
    Gone s' nr ∨ ∃ q, q ≠ nr ∧ ∃ k < 16, ∃ i p, shown s.mem q k i = some p ∧
      shown s'.mem q k i = some (poked off [b] p) := by
  have G := I.good h1 ht
  have hlt := Nat.lt_of_lt_of_le hoff G.data
  have hz : t.phase ≠ .zombie := by rw [hu.1]; nofun
  obtain ⟨hd, hslot⟩ := slot_dirs h1 G.slot hlt
  rcases he with ⟨d, i, hne, hp, hl, hpt⟩ | ⟨hp, hcount, hend, ino, p, t', c, hex, hpn, htp, hex', hv⟩
  · obtain ⟨hother, hq1, -⟩ := other_task I.sound ((presentAt_eq hd).symm.trans hp) hl hpt hne
    have hv := cellView_page hpt.1 (by rw [hpt.2]; exact hl)
    have hseen := putFsByte_shared I.sound ht hz hd hp hne hpt.2 hv h
    refine Or.inr ⟨d / 16, by omega, d % 16, by omega, i, s.mem.ram (frame (s.mem.pte d i)), ?_, ?_⟩
    · rw [shown_cell hq1, hv]
      rfl
    · rw [shown_cell hq1, hseen]
  · have ha := absent_page h1 G.slot hlt hp
    have hp1 : 1 ≤ p := by
      by_contra h0
      rw [show p = 0 by omega, I.zero] at htp
      cases htp
      cases hex'
    have hpage := page_cell G.slot hlt
    have hp64 := (I.good hp1 htp).slot
    unfold putFsByte at h
    rw [live_of ht hz, if_neg (by rw [hp]; nofun)] at h
    obtain ⟨u, hfault, hk⟩ := Option.bind_eq_some_iff.mp h
    unfold doNoPage noPage at hfault
    rw [hex] at hfault
    dsimp only at hfault
    rw [if_neg (by omega), if_neg (by omega)] at hfault
    rcases sharePage_exposes (n := 63) I h1 G.slot (by omega) ha hp1 hpn htp hex' hv (by omega)
      (by omega) with
      ⟨m', q, c', hm, S', hq1, hq2, hqn, hpresent, hframe, hbefore, hafter⟩ | hm
    · rw [hm] at hfault
      dsimp only at hfault
      rw [Option.bind_some, live_of (s := { s with mem := m' }) ht hz, hu.2.1] at hfault
      cases hfault
      have hq := (slot_dirs (o := off / 4096 * 4096) hq1 hq2 (by omega)).2
      rw [hpage.1, hpage.2] at hpresent hframe
      generalize dirIndex (slotBase q + off / 4096 * 4096) = d at hq hframe hbefore hafter
      generalize tableIndex (slotBase q + off / 4096 * 4096) = i at hframe hbefore hafter
      have hne : ¬ (d = dirIndex (slotBase nr + off) ∧ i = tableIndex (slotBase nr + off))
        := fun hsame => by
        rw [hsame.1, hslot] at hq
        exact hqn hq.symm
      have hthere : presentAt m' (slotBase nr + off) = true := (presentAt_eq hd).trans hpresent
      have hlive : ∀ k, Sys.live { s with mem := m' } nr k = k t := fun k =>
        live_of (s := { s with mem := m' }) ht hz
      rw [hlive] at hk
      have hstore : putFsByte file iCount nr off b { s with mem := m' } = some s' := by
        unfold putFsByte
        rw [hlive, if_pos hthere]
        exact hk
      have hseen := putFsByte_shared (s := { s with mem := m' })
        S' ht hz hd hthere hne hframe hafter hstore
      have hshown := fun m => shown_cell (m := m) (d := d) (i := i) (by omega)
      rw [hq] at hshown
      refine Or.inr ⟨q, hqn, d % 16, Nat.mod_lt _ (by omega), i, c', ?_, ?_⟩
      · rw [hshown, hbefore]
        rfl
      · rw [hshown, hseen]
    · rw [hm] at hfault
      obtain ⟨u', hexit, hl⟩ := Option.bind_eq_some_iff.mp hfault
      have hgone := doExit_gone hexit
      rw [hgone.live] at hl
      cases hl
      rw [hgone.live] at hk
      cases hk
      exact Or.inl hgone

/-- A system call changes nothing that another task sees: neither when it verifies its destination,
nor, after whatever other tasks have done in between, when it stores. A store to an exposed place is seen
by another task, unless the task has run out of memory. -/
theorem user_call_isolated (iCount : Nat) (I : Inv file lo hi s) (h1 : 1 ≤ nr) (ht : s.task nr = some t)
    (hu : t.InUser) {c : UserCall} (hc : c.Admitted)
    (hfit : c.copy.address + c.copy.bytes.length ≤ t.dataLimit) {v : Sys}
    (hv : c.copy.verify nr s = some v) :
    (∀ q, q ≠ nr → ∀ k < 16, ∀ i p, shown s.mem q k i = some p → shown v.mem q k i = some p) ∧
    (∀ w s', Lib.Reach (step file) (SaneStep file) (· = v) w → w.task nr = some t →
      Guarded v w iCount nr t c → c.copy.store file iCount nr w = some s' →
      ∀ q, q ≠ nr → ∀ k < 16, ∀ i p, shown w.mem q k i = some p → shown s'.mem q k i = some p) ∧
    ∀ w s', Lib.Reach (step file) (SaneStep file) (· = v) w → w.task nr = some t →
      ∀ off < t.dataLimit, Exposed w iCount nr off t → ∀ b, putFsByte file iCount nr off b w = some s' →
        Gone s' nr ∨ ∃ q, q ≠ nr ∧ ∃ k < 16, ∃ i p, shown w.mem q k i = some p ∧
          shown s'.mem q k i = some (poked off [b] p) := by
  have hverify : Inv file lo hi v ∧ Unseen s v nr := by
    unfold UserCopy.verify at hv
    split at hv
    · obtain ⟨I', hunseen, -⟩ := verifyLoop_spec I h1 ht (by rw [hu.1]; nofun) hv
      exact ⟨I', hunseen⟩
    · cases hv
      exact ⟨I, .refl _ _⟩
  have hreached : ∀ w, Lib.Reach (step file) (SaneStep file) (· = v) w → Inv file lo hi w := fun w hw =>
    Lib.Reach.invariant (fun _ h => h ▸ hverify.1) (fun _ _ _ I hg h => step_inv I hg h) hw
  refine ⟨fun q hq k hk i p hp => hverify.2.shown hq hk hp, fun w s' hw htw hg hs => ?_,
    fun w s' hw htw off hoff he b hs => putFsByte_exposed (hreached w hw) h1 htw hu hoff he hs⟩
  have Iw := hreached w hw
  have halone : ∀ k < c.copy.bytes.length,
      presentAt w.mem (slotBase nr + (c.copy.address + k)) = true →
        Alone w.mem (dirIndex (slotBase nr + (c.copy.address + k)))
          (tableIndex (slotBase nr + (c.copy.address + k))) := by
    rcases hg.alone with ⟨hver, rfl⟩ | hown
    · obtain ⟨size, hsize, hn, hlt⟩ := hver.size hc
      unfold UserCopy.verify at hv
      rw [hsize] at hv
      obtain ⟨-, -, hgone | ⟨-, hown⟩⟩ := verifyArea_spec I h1 ht hu hn hlt hfit hv
      · obtain ⟨t', ht', hz⟩ := hgone
        rw [htw] at ht'
        cases ht'
        rw [hu.1] at hz
        cases hz
      · exact hown
    · exact hown
  obtain ⟨-, L⟩ := putFs_spec Iw h1 htw hu hfit (fun k hk => ⟨halone k hk, hg.unshared k hk⟩) hs
  exact fun q hq k hk i p hp => L.unseen.shown hq hk hp

/-! ## Runs -/

/-- Two tasks of one program: the second has got the page of the first. -/
def sharedPage : Sys := (step wordFile pageLoaded (.noPage 2 0 2)).getD pageLoaded

theorem reach_sharedPage : SysReach wordFile (SaneStep wordFile) 4086 4096 sharedPage :=
  .next (.noPage 2 0 2) (reach_pageLoaded.mono fun _ _ => Careful.sane)
    (wordFile_sane pageLoaded (.noPage 2 0 2)) rfl

/-- The page that both tasks show. -/
theorem sharedPage_view : present (sharedPage.mem.pte 32 0) = true ∧
    frame (sharedPage.mem.pte 16 0) = frame (sharedPage.mem.pte 32 0) ∧
    cellView sharedPage.mem 16 0 = .page false (sharedPage.mem.ram (frame (sharedPage.mem.pte 16 0))) ∧
    sharedPage.mem.ram (frame (sharedPage.mem.pte 16 0)) 0 = 5#32 := by
  have hp : present (sharedPage.mem.pte 16 0) = true := by decide +kernel
  have hl : lowMem ≤ frame (sharedPage.mem.pte 16 0) := by decide +kernel
  have hclean : dirty (sharedPage.mem.pte 16 0) = false := by decide +kernel
  refine ⟨by decide +kernel, by decide +kernel, ?_, by decide +kernel⟩
  rw [cellView_page hp hl, hclean]

/-- The second task. -/
def sharer : Task :=
  { initTask with
    page := 4094
    executable := some 5
    endData := 0x1000
    codeLimit := 0x1000
    dataLimit := 0x4000000 }

theorem sharedPage_task : sharedPage.task 2 = some sharer := rfl

/-- The first word of a page after the descriptor 3 went over it. -/
theorem poked_pipe {c : Nat → Word} (hc : c 0 = 5#32) : poked 0 (sysPipe 0 3 4).bytes c 0 = 3#32 := by
  show setByte (setByte (setByte (setByte (c 0) 0 3) 1 0) 2 0) 3 0 = 3#32
  rw [hc]
  decide

/-- Two descriptors of task 2, stored over a page that task 1 shows too. -/
theorem sysPipe_shared {t : Task} {c : Nat → Word} (S : Sound lo hi s.mem s.held) (ht : s.task 2 = some t)
    (hz : t.phase ≠ .zombie) (hp : present (s.mem.pte 32 0) = true)
    (hpt : frame (s.mem.pte 16 0) = frame (s.mem.pte 32 0)) (hv : cellView s.mem 16 0 = .page false c)
    (hc : c 0 = 5#32) : ∃ s', ((UserCall.pipe 0 3 4).copy.verify 2 s).bind
        ((UserCall.pipe 0 3 4).copy.store file iCount 2) = some s' ∧
      (shown s.mem 1 0 0).map (fun p => p 0) = some 5#32 ∧
      (shown s'.mem 1 0 0).map (fun p => p 0) = some 3#32 := by
  have hcell : ∀ k < (sysPipe 0 3 4).bytes.length,
      dirIndex (slotBase 2 + (0 + k)) = 32 ∧ tableIndex (slotBase 2 + (0 + k)) = 0 := by
    decide
  have hD : 32 ∈ dirs := by
    rw [mem_dirs]
    decide
  obtain ⟨s', b', hs', hv'⟩ := putFs_shared S ht hz hD hcell hp (by decide) hpt hv
  refine ⟨s', hs', ?_, ?_⟩
  · show ((cellView s.mem 16 0).content).map _ = _
    rw [hv]
    exact congrArg some hc
  · show ((cellView s'.mem 16 0).content).map _ = _
    rw [hv']
    exact congrArg some (poked_pipe hc)

/-- `sys_pipe` does not verify: the descriptors 3 and 4 of one task overwrite the page of another. -/
theorem sysPipe_overwrites : SysReach wordFile (SaneStep wordFile) 4086 4096 sharedPage ∧
    ∃ s', ((UserCall.pipe 0 3 4).copy.verify 2 sharedPage).bind
        ((UserCall.pipe 0 3 4).copy.store wordFile 2 2) = some s' ∧
      (shown sharedPage.mem 1 0 0).map (fun p => p 0) = some 5#32 ∧
      (shown s'.mem 1 0 0).map (fun p => p 0) = some 3#32 := by
  have hreach := reach_sharedPage
  have I := hreach.inv (fun _ _ h => h) (by decide) (by decide) (by decide)
  obtain ⟨hp, hpt, hv, hc⟩ := sharedPage_view
  exact ⟨hreach, sysPipe_shared I.sound sharedPage_task (by decide) hp hpt hv hc⟩

/-- `sys_time` by the second task, before and after its store. -/
def timeVerified : Sys := ((UserCall.time 0 7).copy.verify 2 sharedPage).getD sharedPage

def timeStored : Sys :=
  ((UserCall.time 0 7).copy.store wordFile 2 2 timeVerified).getD timeVerified

theorem timeVerified_eq : (UserCall.time 0 7).copy.verify 2 sharedPage = some timeVerified :=
  (Option.getD_of_ne_none (Option.isSome_iff_ne_none.mp (by decide +kernel)) _).symm

theorem timeStored_eq : (UserCall.time 0 7).copy.store wordFile 2 2 timeVerified = some timeStored :=
  (Option.getD_of_ne_none (Option.isSome_iff_ne_none.mp (by decide +kernel)) _).symm

theorem timeVerified_guarded : Guarded timeVerified timeVerified 2 2 sharer (.time 0 7) := by
  have hp : ∀ k < 4, presentAt timeVerified.mem (slotBase 2 + (0 + k)) = true := by decide +kernel
  refine ⟨Or.inl ⟨trivial, rfl⟩, fun k hk habsent => ?_⟩
  rw [show (UserCall.time 0 7).copy.address = 0 from rfl, hp k hk] at habsent
  cases habsent

/-- `sys_time` verifies: the first task keeps its page. -/
theorem user_call_isolated_time : ∃ p, shown sharedPage.mem 1 0 0 = some p ∧ p 0 = 5#32 ∧
    shown timeStored.mem 1 0 0 = some p := by
  have I := reach_sharedPage.inv (fun _ _ h => h) (by decide) (by decide) (by decide)
  obtain ⟨-, -, hv, hfive⟩ := sharedPage_view
  have hshown : shown sharedPage.mem 1 0 0 = some (sharedPage.mem.ram
    (frame (sharedPage.mem.pte 16 0))) := by
    show (cellView sharedPage.mem 16 0).content = _
    rw [hv]
    rfl
  obtain ⟨hverify, hstore, -⟩ := user_call_isolated (c := .time 0 7) 2 I (by decide)
    sharedPage_task (by decide) trivial (by decide) timeVerified_eq
  refine ⟨_, hshown, hfive, ?_⟩
  exact hstore timeVerified timeStored (.start rfl) rfl timeVerified_guarded timeStored_eq 1 (by decide) 0
    (by decide) 0 _ (hverify 1 (by decide) 0 (by decide) 0 _ hshown)

end Linux011.Mm

import Linux011.Mm.ExecEvents
import Linux011.Mm.Fork

/-!
# Page faults of one task, by the entries

`Events.lean` says what a fault shows; here it is said which entries and which counts a fault
changes, for any memory that satisfies `Sound` and whatever the task runs. `Grown` is the relation:
the entries of the task that were there stay, new ones name pages above `LOW_MEM`, and other tasks
at most lose R/W bits (`try_to_share` takes the bit from the task it shares with).

The rest of what `do_execve` does to the memory is said in the same terms: the argument pages given
back, the region released, which leaves at least one page free, and the argument pages mapped at the
top of it. That none of them is lost hangs on that one page: `put_page` may need a page table.
-/

namespace Linux011.Mm

variable {lo hi : Nat} {m m' m'' : Mem} {held : Nat → Bool} {nr : Nat}

/-! ## Memory that has grown -/

/-- The region of slot `nr` has got entries, and nothing else has happened but lost R/W bits. -/
structure Grown (m : Mem) (nr : Nat) (m' : Mem) : Prop where
  dirv : ∀ d, d / 16 ≠ nr ∨ present (m.dirv d) = true → m'.dirv d = m.dirv d
  soft : ∀ d i, d / 16 ≠ nr → Soft (m.pte d i) (m'.pte d i)
  keeps : ∀ d i, present (m.pte d i) = true → d / 16 = nr → m'.pte d i = m.pte d i
  high : ∀ d i, d / 16 = nr → present (m.pte d i) = false → present (m'.pte d i) = true →
    lowMem ≤ frame (m'.pte d i)
  table : ∀ d, present (m.dirv d) = false → present (m'.dirv d) = true →
    ∃ i, present (m.pte d i) = false ∧ present (m'.pte d i) = true

namespace Grown

theorem refl (m : Mem) (nr : Nat) : Grown m nr m where
  dirv _ _ := rfl
  soft _ _ _ := Soft.refl _
  keeps _ _ _ _ := rfl
  high _ _ _ h h' := by
    rw [h] at h'
    cases h'
  table _ h h' := by
    rw [h] at h'
    cases h'

theorem trans (G : Grown m nr m') (G' : Grown m' nr m'') : Grown m nr m'' where
  dirv d hd := by
    have hsame := G.dirv d hd
    rw [G'.dirv d (by rw [hsame]; exact hd), hsame]
  soft d i hd := (G.soft d i hd).trans (G'.soft d i hd)
  keeps d i hp hd := by
    have hsame := G.keeps d i hp hd
    rw [G'.keeps d i (by rw [hsame]; exact hp) hd, hsame]
  high d i hd ha hp := by
    cases hm : present (m'.pte d i) with
    | true =>
      rw [G'.keeps d i hm hd]
      exact G.high d i hd ha hm
    | false => exact G'.high d i hd hm hp
  table d ha hp := by
    have hd : d / 16 = nr := by
      by_contra hd
      rw [G'.dirv d (Or.inl hd), G.dirv d (Or.inl hd), ha] at hp
      cases hp
    cases hm : present (m'.dirv d) with
    | true =>
      obtain ⟨i, hi, hi'⟩ := G.table d ha hm
      exact ⟨i, hi, by rw [G'.keeps d i hi' hd]; exact hi'⟩
    | false =>
      obtain ⟨i, -, hi'⟩ := G'.table d hm hp
      exact ⟨i, by rw [pte_absent ha]; rfl, hi'⟩

/-- The same directory and the same entries. -/
theorem of_same (hd : m'.dirv = m.dirv) (hp : m'.pte = m.pte) : Grown m nr m' where
  dirv d _ := by rw [hd]
  soft d i _ := by
    rw [hp]
    exact Soft.refl _
  keeps d i _ _ := by rw [hp]
  high d i _ ha hp' := by
    rw [hp, ha] at hp'
    cases hp'
  table d ha hp' := by
    rw [hd, ha] at hp'
    cases hp'

/-- One entry that was absent names a page now, in a table that may be new. -/
theorem of_set {d i : Nat} {e : Word} (hd : d / 16 = nr) (ha : present (m.pte d i) = false)
    (hdir : ∀ d', d' ≠ d ∨ present (m.dirv d') = true → m'.dirv d' = m.dirv d')
    (hpte : m'.pte = setPte m.pte d i e) (hp : present e = true) (hl : lowMem ≤ frame e) :
    Grown m nr m' where
  dirv d' h := hdir d' (h.imp_left fun hne he => hne (he ▸ hd))
  soft d' i' h := by
    rw [hpte, setPte_other fun he => h (by rw [he.1]; exact hd)]
    exact Soft.refl _
  keeps d' i' hp' _ := by
    rw [hpte, setPte_other]
    rintro ⟨rfl, rfl⟩
    rw [ha] at hp'
    cases hp'
  high d' i' _ ha' hp' := by
    by_cases h : d' = d ∧ i' = i
    · rw [hpte, h.1, h.2, setPte_self]
      exact hl
    · rw [hpte, setPte_other h, ha'] at hp'
      cases hp'
  table d' ha' hp' := by
    by_cases h : d' = d
    · rw [h]
      exact ⟨i, ha, by rw [hpte, setPte_self]; exact hp⟩
    · rw [hdir d' (Or.inl h), ha'] at hp'
      cases hp'

/-- What is there stays there. -/
theorem present_of (G : Grown m nr m') {d i : Nat} (h : present (m.pte d i) = true) :
    present (m'.pte d i) = true := by
  by_cases hd : d / 16 = nr
  · rw [G.keeps d i h hd]
    exact h
  · rw [(G.soft d i hd).present]
    exact h

/-- The frames of present entries stay. -/
theorem frame_of (G : Grown m nr m') {d i : Nat} (h : present (m.pte d i) = true) :
    frame (m'.pte d i) = frame (m.pte d i) := by
  by_cases hd : d / 16 = nr
  · rw [G.keeps d i h hd]
  · exact (G.soft d i hd).frame

/-- Without a new entry `mem_map` is exactly as before. -/
theorem counts_same (G : Grown m nr m') (S : Sound lo hi m held) (S' : Sound lo hi m' held)
    (hnone : ∀ d i, present (m'.pte d i) = true → present (m.pte d i) = true) {i : Nat}
    (h : i < pagingPages) : m'.memMap i = m.memMap i := by
  have hpte : ∀ d j f, Points (m'.pte d j) f ↔ Points (m.pte d j) f := by
    intro d j f
    cases hp : present (m.pte d j) with
    | true => exact and_congr (by rw [hp, G.present_of hp]) (by rw [G.frame_of hp])
    | false =>
      have hp' : present (m'.pte d j) = false := by
        by_contra hne
        rw [hnone d j (Bool.not_eq_false _ ▸ hne)] at hp
        cases hp
      exact iff_of_false (not_points_absent hp') (not_points_absent hp)
  have hdir : ∀ d f, Points (m'.dirv d) f ↔ Points (m.dirv d) f := by
    intro d f
    cases hp : present (m.dirv d) with
    | true => rw [G.dirv d (Or.inr hp)]
    | false =>
      have hp' : present (m'.dirv d) = false := by
        by_contra hne
        obtain ⟨j, ha, hj⟩ := G.table d hp (Bool.not_eq_false _ ▸ hne)
        rw [hnone d j hj] at ha
        cases ha
      exact iff_of_false (not_points_absent hp') (not_points_absent hp)
  have key := S.acct.count_same S'.acct (f := lowMem + i) (fun d => hdir d _)
    (fun d j => hpte d j _) (by omega) (by omega)
  have hi' : mapNr (lowMem + i) = i := by rw [mapNr, Nat.add_sub_cancel_left]
  rw [Mem.cnt, Mem.cnt, if_neg (by omega), if_neg (by omega), hi'] at key
  exact key

end Grown

/-! ## Faults -/

variable {file : Nat → Program} {s s' : Sys} {t : Task} {off iCount : Nat}

/-- `do_no_page` while no other task runs: the blocks that it sleeps for arrive. -/
def serveNoPage (file : Nat → Program) (s : Sys) (nr off iCount : Nat) : Option Sys :=
  (s.task nr).bind fun t =>
    (noPage s nr t (off / 4096 * 4096) iCount).bind fun s =>
      (s.task nr).bind fun t =>
        match t.loading, t.executable with
        | some (tmp, page), some ino => loaded file s nr t ino tmp page
        | _, _ => some s

/-- The task of the slot is a zombie. -/
def Dead (s : Sys) (nr : Nat) : Prop :=
  ∃ z, s.task nr = some z ∧ z.phase = .zombie ∧ z.loading = none

theorem doExit_dead (h : doExit s nr t = some s') : Dead s' nr := by
  unfold doExit at h
  split at h
  · split at h
    · cases h
      exact ⟨_, Function.update_self .., rfl, rfl⟩
    · cases h
  · cases h

/-- A fault that has been served: the page is there, and only entries have changed. -/
structure Served (lo hi : Nat) (s s' : Sys) (nr : Nat) (address : Nat) : Prop where
  task : s'.task = s.task
  held : s'.held = s.held
  sound : Sound lo hi s'.mem s'.held
  grown : Grown s.mem nr s'.mem
  dirv : ∀ d, d ≠ dirIndex address → s'.mem.dirv d = s.mem.dirv d
  there : present (s'.mem.pte (dirIndex address) (tableIndex address)) = true

section

variable {address : Nat}

theorem getEmptyPage_grown (S : Sound lo hi s.mem s.held) (hd : dirIndex address ∈ dirs)
    (hslot : dirIndex address / 16 = nr)
    (ha : present (s.mem.pte (dirIndex address) (tableIndex address)) = false)
    (h : s.after nr t (getEmptyPage address s.mem) = some s') :
    Dead s' nr ∨ Served lo hi s s' nr address := by
  rcases getEmptyPage_spec S hd ha with
    ⟨m1, page, hm, S1, hlo, hhi, -, vp, vd, -⟩ | ⟨m1, hm, -⟩
  · rw [hm] at h
    cases h
    have hr := S.frame_range hlo hhi
    refine Or.inr ⟨rfl, rfl, S1, .of_set hslot ha vd vp (present_userEntry page) ?_,
      fun d hne => vd d (Or.inl hne), ?_⟩
    · rw [frame_userEntry hr.1]
      exact hr.2
    · show present (m1.pte _ _) = true
      rw [vp, setPte_self]
      exact present_userEntry page
  · rw [hm] at h
    exact Or.inl (doExit_dead h)

/-- `share_page`: the page of another task appears, or nothing has changed. -/
theorem sharePage_grown (S : Sound lo hi s.mem s.held) {ino tmp : Nat} (h1 : 1 ≤ nr) (h64 : nr < 64)
    (htmp : tmp < 0x4000000)
    (ha : present (s.mem.pte (dirIndex (slotBase nr + tmp)) (tableIndex (slotBase nr + tmp))) = false)
    {n : Nat} (hn : n < 64) :
    (∃ m', sharePage s.task nr ino tmp n s.mem = .ok true m' ∧
      Served lo hi s { s with mem := m' } nr (slotBase nr + tmp)) ∨
    sharePage s.task nr ino tmp n s.mem = .ok false s.mem ∨
    sharePage s.task nr ino tmp n s.mem = .oom s.mem := by
  induction n with
  | zero => exact Or.inr (Or.inl rfl)
  | succ p ih =>
    have ih := ih (by omega)
    rw [sharePage]
    cases htp : s.task (p + 1) with
    | none => exact ih
    | some t' =>
      dsimp only
      by_cases hskip : nr = p + 1 ∨ t'.executable ≠ some ino
      · rw [if_pos hskip]
        exact ih
      · rw [if_neg hskip]
        have hne := (not_or.mp hskip).1
        obtain ⟨h16, hd, hi'⟩ := share_index h64 htmp
        obtain ⟨-, hdp, -⟩ := share_index (p := p + 1) (by omega) htmp
        rcases tryToShare_spec S h16 (p := p + 1) (by omega) (by omega) h1 h64 with
          ⟨m', hm, S', hpr, -, hl, habs, vp, vd, -⟩ | hm | ⟨hpr, -⟩ | hm
        · refine Or.inl ⟨m', by rw [hm]; rfl, rfl, rfl, S', ?_,
            fun x hx => vd x (Or.inl (by rw [hd]; exact hx)), ?_⟩
          · rw [hd, hi'] at vp habs
            rw [hd] at vd
            rw [hi'] at hpr hl
            have hown : dirIndex (slotBase nr + tmp) / 16 = nr := by omega
            have hother : (dirIndex tmp + 16 * (p + 1)) / 16 ≠ nr := by omega
            -- first the other task loses the bit, then the entry appears
            generalize hq : dirIndex tmp + 16 * (p + 1) = q at *
            generalize tableIndex (slotBase nr + tmp) = i at *
            generalize dirIndex (slotBase nr + tmp) = d at *
            have hq' : ∀ x j, ¬ (x = d ∧ j = i) → Soft (s.mem.pte x j) (m'.pte x j) := by
              intro x j hxj
              rw [vp, setPte_other hxj]
              by_cases hx : x = q ∧ j = i
              · rw [hx.1, hx.2, setPte_self]
                exact Or.inr rfl
              · rw [setPte_other hx]
                exact Soft.refl _
            refine ⟨fun x hx => vd x (hx.imp_left fun h he => h (he ▸ hown)),
              fun x j hx => hq' x j fun h => hx (h.1 ▸ hown), fun x j hp hx => ?_,
              fun x j _ hxa hxp => ?_, fun x hxa hxp => ?_⟩
            · rw [vp, setPte_other, setPte_other]
              · rintro ⟨rfl, -⟩
                exact hother hx
              · rintro ⟨rfl, rfl⟩
                rw [habs] at hp
                cases hp
            · by_cases hxj : x = d ∧ j = i
              · rw [vp, hxj.1, hxj.2, setPte_self, frame_clear]
                exact hl
              · rw [(hq' x j hxj).present, hxa] at hxp
                cases hxp
            · by_cases hxd : x = d
              · rw [hxd]
                exact ⟨i, habs, by rw [vp, setPte_self, present_clear, hpr]⟩
              · rw [vd x (Or.inl hxd), hxa] at hxp
                cases hxp
          · show present (m'.pte _ _) = true
            rw [vp, ← hd, ← hi', setPte_self, present_clear, hpr]
        · rw [hm]
          exact ih
        · rw [hd, hi', ha] at hpr
          cases hpr
        · rw [hm]
          exact Or.inr (Or.inr rfl)

end

/-- The blocks have arrived: the page that the task slept with is mapped. -/
theorem loaded_grown (S : Sound lo hi s.mem s.held) {ino tmp page : Nat} {m1 : Mem}
    (h1 : 1 ≤ nr) (h64 : nr < 64) (htmp : tmp < 0x4000000) (ht : s.task nr = some t)
    (hl : t.loading = none)
    (ha : present (s.mem.pte (dirIndex (slotBase nr + tmp)) (tableIndex (slotBase nr + tmp))) = false)
    (hg : getFreePage s.mem = some (page, m1))
    (h : loaded file (Sys.setTask ⟨m1, Function.update s.held page true, s.task⟩ nr
      { t with loading := some (tmp, page) }) nr { t with loading := some (tmp, page) } ino tmp page
        = some s') :
    Dead s' nr ∨ Served lo hi s s' nr (slotBase nr + tmp) := by
  have F := getFreePage_spec S hg
  have hd := slot_dirs h1 h64 htmp
  have hheld : Function.update s.held page true page = true := Function.update_self ..
  have hnt := F.sound.notTable (Or.inl hheld)
  dsimp only [loaded, Sys.setTask] at h
  obtain ⟨S2, -⟩ := fill_view F.sound hheld ((file ino).image tmp t.endData)
  obtain ⟨wd, wp⟩ := view_fill (p := (file ino).image tmp t.endData) hnt
  have hr := S.frame_range F.range.1 F.range.2
  have ha2 : present ((m1.fill page ((file ino).image tmp t.endData)).pte
      (dirIndex (slotBase nr + tmp)) (tableIndex (slotBase nr + tmp))) = false := by
    rw [wp, F.pte]
    exact ha
  rcases putPage_spec S2 hd.1 ha2 hheld with ⟨m3, hm, S3, vp, vd, -⟩ | hm
  · rw [hm] at h
    cases h
    rw [F.back S] at S3
    rw [wp, F.pte] at vp
    have htask : Function.update (Function.update s.task nr
        (some { t with loading := some (tmp, page) })) nr (some { t with loading := none })
          = s.task := by
      rw [Function.update_idem, loading_none hl, ← ht, Function.update_eq_self]
    have hback : Function.update (Function.update s.held page true) page false = s.held := F.back S
    rw [wd, F.dirv] at vd
    refine Or.inr ⟨htask, hback, ?_, .of_set hd.2 ha vd vp (present_userEntry page) ?_,
      fun d hne => vd d (Or.inl hne), ?_⟩
    · show Sound lo hi m3 (Function.update (Function.update s.held page true) page false)
      rw [hback]
      exact S3
    · rw [frame_userEntry hr.1]
      exact hr.2
    · show present (m3.pte _ _) = true
      rw [vp, setPte_self]
      exact present_userEntry page
  · rw [hm] at h
    dsimp only at h
    split at h
    · exact Or.inl (doExit_dead h)
    · cases h

/-- THE FAULT RULE: a fault that is served adds its page and takes nothing away; otherwise the task
is dead. -/
theorem serveNoPage_spec (S : Sound lo hi s.mem s.held) (h1 : 1 ≤ nr) (h64 : nr < 64)
    (ht : s.task nr = some t) (hl : t.loading = none) (hoff : off < 0x4000000)
    (ha : presentAt s.mem (slotBase nr + off) = false)
    (h : serveNoPage file s nr off iCount = some s') :
    Dead s' nr ∨ Served lo hi s s' nr (slotBase nr + off) := by
  have hd := slot_dirs h1 h64 hoff
  obtain ⟨hle, -, -, -⟩ := page_offset off
  have hdirs := (slot_dirs (o := off / 4096 * 4096) h1 h64 (by omega))
  have hcell : dirIndex (slotBase nr + off / 4096 * 4096) = dirIndex (slotBase nr + off) ∧
      tableIndex (slotBase nr + off / 4096 * 4096) = tableIndex (slotBase nr + off) := by
    rw [dirIndex_slot h64 (by omega), dirIndex_slot h64 hoff, tableIndex_slot, tableIndex_slot]
    omega
  rw [presentAt_eq hd.1, ← hcell.1, ← hcell.2] at ha
  have hsame : ∀ s', Served lo hi s s' nr (slotBase nr + off / 4096 * 4096) →
      Served lo hi s s' nr (slotBase nr + off) := fun s' V =>
    ⟨V.task, V.held, V.sound, V.grown, by rw [← hcell.1]; exact V.dirv,
      by rw [← hcell.1, ← hcell.2]; exact V.there⟩
  unfold serveNoPage at h
  rw [ht, Option.bind_some] at h
  obtain ⟨s1, hno, h⟩ := Option.bind_eq_some_iff.mp h
  -- what does not sleep is done
  have awake : Dead s1 nr ∨ Served lo hi s s1 nr (slotBase nr + off / 4096 * 4096) →
      Dead s' nr ∨ Served lo hi s s' nr (slotBase nr + off) := by
    intro hs
    have hstay : ∃ u, s1.task nr = some u ∧ u.loading = none := by
      rcases hs with ⟨z, hz, -, hlz⟩ | V
      · exact ⟨z, hz, hlz⟩
      · exact ⟨t, by rw [V.task, ht], hl⟩
    obtain ⟨u, hu, hlu⟩ := hstay
    rw [hu, Option.bind_some, hlu] at h
    cases h
    exact hs.imp_right (hsame s')
  have hempty : s.after nr t (getEmptyPage (slotBase nr + off / 4096 * 4096) s.mem) = some s1 →
      Dead s' nr ∨ Served lo hi s s' nr (slotBase nr + off) := fun h =>
    awake (getEmptyPage_grown S hdirs.1 hdirs.2 ha h)
  unfold noPage at hno
  cases hex : t.executable with
  | none =>
    rw [hex] at hno
    exact hempty hno
  | some ino =>
    rw [hex] at hno
    dsimp only at hno
    by_cases hend : t.endData ≤ off / 4096 * 4096
    · rw [if_pos hend] at hno
      exact hempty hno
    · rw [if_neg hend] at hno
      -- without a page to share the task sleeps with one of its own
      have own : readPage s nr t (off / 4096 * 4096) = some s1 →
          Dead s' nr ∨ Served lo hi s s' nr (slotBase nr + off) := by
        intro hr
        unfold readPage at hr
        cases hg : getFreePage s.mem with
        | none =>
          rw [hg] at hr
          exact awake (Or.inl (doExit_dead hr))
        | some r =>
          obtain ⟨page, m1⟩ := r
          rw [hg] at hr
          cases hr
          generalize hu : ({ t with loading := some (off / 4096 * 4096, page) } : Task) = u at h
          have hlu : u.loading = some (off / 4096 * 4096, page) := by rw [← hu]
          have heu : u.executable = some ino := by rw [← hu, ← hex]
          have hself : (Sys.setTask ⟨m1, Function.update s.held page true, s.task⟩ nr u).task nr
              = some u := Function.update_self ..
          rw [hself, Option.bind_some, hlu, heu] at h
          subst hu
          exact (loaded_grown S h1 h64 (by omega) ht hl ha hg h).imp_right (hsame s')
      by_cases hcount : iCount < 2
      · rw [if_pos hcount] at hno
        exact own hno
      · rw [if_neg hcount] at hno
        rcases @sharePage_grown _ _ _ _ S ino _ h1 h64 (by omega) ha 63 (by omega) with
          ⟨m1, hm, V⟩ | hm | hm
        · rw [hm] at hno
          cases hno
          exact awake (Or.inr V)
        · rw [hm] at hno
          exact own hno
        · rw [hm] at hno
          exact awake (Or.inl (doExit_dead hno))

/-! ## Regions -/

/-- A region released by `free_page_tables`, for the code and for the data, is empty; and if it had
a page table, a page is free now. -/
theorem freeRegion_spec (S : Sound lo hi m held) (h1 : 1 ≤ nr) (h64 : nr < 64) {code data : Nat}
    (hcode : code ≤ 0x4000000) (hdata : data ≤ 0x4000000)
    (hbeyond : ∀ k < 16, blocks data ≤ k → present (m.dirv (16 * nr + k)) = false) :
    ∃ m1 m2, freePageTables (slotBase nr) code m = .ok () m1 ∧
      freePageTables (slotBase nr) data m1 = .ok () m2 ∧ Sound lo hi m2 held ∧ Empty m2 nr ∧
      ((∃ k < 16, present (m.dirv (16 * nr + k)) = true) → getFreePage m2 ≠ none) := by
  obtain ⟨m1, hm1, S1, gone1, rest1, -⟩ := freePageTables_spec S h1 h64 hcode
  obtain ⟨m2, hm2, S2, gone2, rest2, -⟩ := freePageTables_spec S1 h1 h64 hdata
  have hbc := blocks_le hcode
  have hbd := blocks_le hdata
  have hempty : Empty m2 nr := by
    intro k hk
    by_cases hb : k < blocks data
    · exact (gone2 k hb).1
    · rw [(rest2 _ (by omega)).1]
      by_cases hc : k < blocks code
      · exact (gone1 k hc).1
      · rw [(rest1 _ (by omega)).1]
        exact hbeyond k hk (by omega)
  refine ⟨m1, m2, hm1, hm2, S2, hempty, ?_⟩
  rintro ⟨k, hk, hp⟩
  have hother : ∀ d, d / 16 ≠ nr → m2.dirv d = m.dirv d ∧ ∀ i, m2.pte d i = m.pte d i := by
    intro d hd
    obtain ⟨hd1, hp1⟩ := rest1 d (by omega)
    obtain ⟨hd2, hp2⟩ := rest2 d (by omega)
    exact ⟨hd2.trans hd1, fun i => (hp2 i).trans (hp1 i)⟩
  have hown : ∀ d, d / 16 = nr → present (m2.dirv d) = false := by
    intro d hd
    have hsplit : d = 16 * nr + d % 16 := by omega
    rw [hsplit]
    exact hempty _ (by omega)
  -- the page of the table itself has no reference left
  have hr := S.acct.table hp
  have hdir : dirRefs m2.dirv (frame (m.dirv (16 * nr + k))) = 0 := by
    refine dirRefs_zero.mpr fun d _ hpt => ?_
    by_cases hd : d / 16 = nr
    · exact not_points_absent (hown d hd) hpt
    · rw [(hother d hd).1] at hpt
      have hsame := S.acct.tableOnce hpt.1 hp hpt.2
      omega
  have hpte : pteRefs m2.pte (frame (m.dirv (16 * nr + k))) = 0 := by
    refine pteRefs_zero.mpr fun d i _ _ hpt => ?_
    by_cases hd : d / 16 = nr
    · exact not_points_absent (by rw [pte_absent (hown d hd)]; rfl) hpt
    · rw [(hother d hd).2 i] at hpt
      exact S.acct.tableApart hp hpt.1 hpt.2
  have hcnt : m2.cnt (frame (m.dirv (16 * nr + k))) = 0 := by
    rw [S2.acct.count hr.1 hr.2, hdir, hpte, S.acct.tableHeld hp]
    rfl
  have hl := S.frame_range hr.1 hr.2
  rw [Mem.cnt, if_neg (by omega)] at hcnt
  have hhigh := S.acct.high
  have hindex : mapNr (frame (m.dirv (16 * nr + k))) < pagingPages := by
    rw [mapNr]
    omega
  intro hnone
  rw [getFreePage, Option.map_eq_none_iff] at hnone
  exact scanFree_none hnone _ hindex hcnt

/-- The entry of an argument page. -/
theorem arg_index {i : Nat} (h64 : nr < 64) (hi : i < 32) :
    dirIndex (slotBase nr + 0x4000000 - (32 - i) * 4096) = 16 * nr + 15 ∧
      tableIndex (slotBase nr + 0x4000000 - (32 - i) * 4096) = 992 + i := by
  rw [arg_offset hi, dirIndex_slot h64 (arg_lt hi), tableIndex_slot]
  omega

/-- A page for the table, or the table itself, is all that `put_page` needs. -/
theorem putPage_room {page address : Nat}
    (h : present (m.ram 0 (dirIndex address)) = true ∨ getFreePage m ≠ none) :
    (putPage page address m).1 = true := by
  unfold putPage
  cases hp : present (m.ram 0 (dirIndex address)) with
  | true => rfl
  | false =>
    cases hg : getFreePage m with
    | none =>
      rw [hp] at h
      exact absurd hg (h.resolve_left Bool.false_ne_true)
    | some r => rfl

/-- The loop of `change_ldt` maps every argument page, if it can have a page table. -/
theorem putArgs_mapped (S : Sound lo hi m held) (h1 : 1 ≤ nr) (h64 : nr < 64)
    {args : List (Nat × Nat)} (honce : (args.map Prod.snd).Nodup) {l : List Nat} (his : l.Nodup)
    (hlt : ∀ i ∈ l, i < 32) (hheld : ∀ i ∈ l, ∀ f, args.lookup i = some f → held f = true)
    (habs : ∀ i ∈ l, present (m.pte (16 * nr + 15) (992 + i)) = false)
    (hroom : present (m.dirv (16 * nr + 15)) = true ∨ getFreePage m ≠ none) :
    Sound lo hi (putArgs (slotBase nr) args l (m, held)).1
        (putArgs (slotBase nr) args l (m, held)).2 ∧
      Grown m nr (putArgs (slotBase nr) args l (m, held)).1 ∧
      (∀ i ∈ l, ∀ f, args.lookup i = some f →
        (putArgs (slotBase nr) args l (m, held)).1.pte (16 * nr + 15) (992 + i) = userEntry f ∧
          (putArgs (slotBase nr) args l (m, held)).2 f = false) ∧
      ∀ f, (∀ i ∈ l, args.lookup i ≠ some f) →
        (putArgs (slotBase nr) args l (m, held)).2 f = held f := by
  induction l generalizing m held with
  | nil =>
    exact ⟨S, Grown.refl m nr, fun i hi => absurd hi List.not_mem_nil, fun _ _ => rfl⟩
  | cons i l ih =>
    obtain ⟨hi, his'⟩ := List.nodup_cons.mp his
    have hi32 := hlt i List.mem_cons_self
    have rest : ∀ j ∈ l, j ∈ i :: l := fun j hj => List.mem_cons_of_mem _ hj
    rw [putArgs]
    cases hl : args.lookup i with
    | none =>
      obtain ⟨S', G, hmap, hkeep⟩ := ih S his' (fun j hj => hlt j (rest j hj))
        (fun j hj => hheld j (rest j hj)) (fun j hj => habs j (rest j hj)) hroom
      refine ⟨S', G, fun j hj f hf => ?_, fun f hf => hkeep f fun j hj => hf j (rest j hj)⟩
      rcases List.mem_cons.mp hj with rfl | hj
      · rw [hl] at hf
        cases hf
      · exact hmap j hj f hf
    | some f =>
      dsimp only
      obtain ⟨hdir, htab⟩ := arg_index h64 hi32
      have hmem : 16 * nr + 15 ∈ dirs := mem_dirs.mpr (by omega)
      have hput : (putPage f (slotBase nr + 0x4000000 - (32 - i) * 4096) m).1 = true := by
        refine putPage_room (hroom.imp_left fun h => ?_)
        rw [hdir, ← dirv_eq hmem]
        exact h
      have hpages : ∀ j ∈ l, ∀ g, args.lookup j = some g → g ≠ f := by
        rintro j hj g hg rfl
        have hinj := List.inj_on_of_nodup_map honce (lookup_mem hl) (lookup_mem hg) rfl
        exact hi ((Prod.mk.inj hinj).1 ▸ hj)
      rcases putPage_spec S (by rw [hdir]; exact hmem)
        (by rw [hdir, htab]; exact habs i List.mem_cons_self)
        (hheld i List.mem_cons_self f hl) with ⟨m1, hm, S1, vp, vd, -⟩ | hm
      · rw [hm]
        dsimp only
        rw [hdir, htab] at vp
        rw [hdir] at vd
        have hr := S.acct.heldRange (hheld i List.mem_cons_self f hl)
        have hf := S.frame_range hr.1 hr.2
        have hself : m1.pte (16 * nr + 15) (992 + i) = userEntry f := by rw [vp, setPte_self]
        have hthere : present (m1.pte (16 * nr + 15) (992 + i)) = true := by
          rw [hself]
          exact present_userEntry f
        have G1 : Grown m nr m1 := .of_set (by omega) (habs i List.mem_cons_self) vd vp
          (present_userEntry f) (by rw [frame_userEntry hf.1]; exact hf.2)
        obtain ⟨S2, G2, hmap, hkeep⟩ := ih S1 his' (fun j hj => hlt j (rest j hj))
          (fun j hj g hg => by
            rw [Function.update_of_ne (hpages j hj g hg)]
            exact hheld j (rest j hj) g hg)
          (fun j hj => by
            have hne : j ≠ i := fun h => hi (h ▸ hj)
            rw [vp, setPte_other (by omega)]
            exact habs j (rest j hj))
          (Or.inl (pte_dir hthere).1)
        refine ⟨S2, G1.trans G2, fun j hj g hg => ?_, fun g hg => ?_⟩
        · rcases List.mem_cons.mp hj with rfl | hj
          · rw [hl] at hg
            cases hg
            refine ⟨by rw [G2.keeps _ _ hthere (by omega), hself], ?_⟩
            rw [hkeep f fun k hk he => hpages k hk f he rfl, Function.update_self]
          · exact hmap j hj g hg
        · have hne : g ≠ f := fun h => hg i List.mem_cons_self (by rw [h]; exact hl)
          rw [hkeep g fun j hj => hg j (rest j hj), Function.update_of_ne hne]
      · rw [hm] at hput
        cases hput

end Linux011.Mm

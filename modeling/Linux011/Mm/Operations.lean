import Linux011.Mm.Refine

/-!
# Mapping, copying and sharing pages

The specification lemmas of the operations that build page tables: `put_page`, `get_empty_page`,
`un_wp_page`, `copy_page_tables` and `try_to_share`. Each says that the invariant is kept, what the
page map becomes, and that pages which carried data before keep their contents. An entry of another
task may change in one way only, it may lose its R/W bit (`Soft`).
-/

namespace Linux011.Mm

variable {lo hi : Nat} {m : Mem} {held : Nat → Bool}

/-- An entry that is as before, or has lost its R/W bit. -/
def Soft (e e' : Word) : Prop := e' = e ∨ e' = e &&& ~~~2

theorem Soft.refl (e : Word) : Soft e e := Or.inl rfl

theorem clear_clear (e : Word) : e &&& ~~~2 &&& ~~~2 = e &&& ~~~2 := by
  rw [BitVec.and_assoc, BitVec.and_self]

theorem Soft.trans {e e' e'' : Word} (h : Soft e e') (h' : Soft e' e'') : Soft e e'' := by
  rcases h with rfl | rfl <;> rcases h' with rfl | rfl
  · exact Or.inl rfl
  · exact Or.inr rfl
  · exact Or.inr rfl
  · exact Or.inr (clear_clear e)

theorem Soft.present {e e' : Word} (h : Soft e e') : present e' = present e := by
  rcases h with rfl | rfl
  · rfl
  · exact present_clear e

theorem Soft.frame {e e' : Word} (h : Soft e e') : frame e' = frame e := by
  rcases h with rfl | rfl
  · rfl
  · exact frame_clear e

theorem Soft.dirty {e e' : Word} (h : Soft e e') : dirty e' = dirty e := by
  rcases h with rfl | rfl
  · rfl
  · exact dirty_clear e

/-! ## Tables and pages -/

/-- A fresh page attached as a table: the page map is as before. -/
theorem attach_spec (S : Sound lo hi m held) {d t : Nat} {m' : Mem} (hd : d ∈ dirs)
    (ha : present (m.dirv d) = false) (F : Fresh lo hi m held t m') :
    Sound lo hi (m'.poke 0 d (userEntry t)) held ∧
      (m'.poke 0 d (userEntry t)).dirv = Function.update m.dirv d (userEntry t) ∧
      (m'.poke 0 d (userEntry t)).pte = m.pte ∧
      ∀ g, Data m held g → (m'.poke 0 d (userEntry t)).ram g = m.ram g := by
  have hlow := S.acct.low
  have hr := F.range
  rw [lowMem] at hlow
  have hft := F.frame S
  have ha' : present (m'.dirv d) = false := by rw [F.dirv]; exact ha
  have hdir := dirv_poke_dir (m := m') (w := userEntry t) hd
  have hpte : (m'.poke 0 d (userEntry t)).pte = m'.pte :=
    pte_attach F.sound hd ha' (by rw [hft]; omega) (by rw [hft]; exact F.clear)
  refine ⟨⟨?_, F.sound.high, ?_, ?_⟩, ?_, ?_, ?_⟩
  · rw [hdir, hpte, cnt_poke, ← F.back S]
    exact F.sound.acct.attach (Function.update_self ..) hd ha' ⟨present_userEntry t, hft⟩
  · intro x hx
    have := mem_dirs.mp hd
    rw [poke_ram_self, if_neg (by omega)]
    exact F.sound.root x hx
  · intro x hx1 hx4
    rw [poke_ram_other (by omega)]
    exact F.sound.kernel x hx1 hx4
  · rw [hdir, F.dirv]
  · rw [hpte, F.pte]
  · intro g hg
    rw [poke_ram_other (S.notTable hg).1]
    exact F.keeps g ((F.new S).2 hg)

/-- A held page mapped at an absent entry of a present table. -/
theorem map_spec (S : Sound lo hi m held) {d i page : Nat} (hd : present (m.dirv d) = true)
    (hlt : i < 1024) (ha : present (m.pte d i) = false) (hp : held page = true) :
    Sound lo hi (m.poke (frame (m.dirv d)) i (userEntry page)) (Function.update held page false) ∧
      (m.poke (frame (m.dirv d)) i (userEntry page)).dirv = m.dirv ∧
      (m.poke (frame (m.dirv d)) i (userEntry page)).pte = setPte m.pte d i (userEntry page) ∧
      ∀ g, g ≠ frame (m.dirv d) →
        (m.poke (frame (m.dirv d)) i (userEntry page)).ram g = m.ram g := by
  have hr := S.acct.heldRange hp
  have hhigh := S.acct.high
  simp only [lowMem, pagingPages] at hhigh
  exact S.poke hd hlt rfl rfl
    (S.acct.map hp hd hlt ha ⟨present_userEntry page, frame_userEntry (by omega)⟩)

theorem tableIndex_lt (address : Nat) : tableIndex address < 1024 := Nat.mod_lt _ (by omega)

/-- `put_page` of a held page: it is mapped, or nothing has changed. -/
theorem putPage_spec (S : Sound lo hi m held) {page address : Nat} (hd : dirIndex address ∈ dirs)
    (ha : present (m.pte (dirIndex address) (tableIndex address)) = false)
    (hp : held page = true) :
    (∃ m', putPage page address m = (true, m') ∧
      Sound lo hi m' (Function.update held page false) ∧
      m'.pte = setPte m.pte (dirIndex address) (tableIndex address) (userEntry page) ∧
      (∀ d, d ≠ dirIndex address ∨ present (m.dirv d) = true → m'.dirv d = m.dirv d) ∧
      ∀ g, Data m held g → m'.ram g = m.ram g) ∨
    putPage page address m = (false, m) := by
  have hlt := tableIndex_lt address
  unfold putPage
  rw [present_ram hd, ← dirv_eq hd]
  cases hpr : present (m.dirv (dirIndex address)) with
  | true =>
    obtain ⟨S', vd, vp, vr⟩ := map_spec S hpr hlt ha hp
    refine Or.inl ⟨_, rfl, S', vp, fun _ _ => by rw [vd], fun g hg => vr g fun h => ?_⟩
    exact (S.notTable hg).2 _ ⟨hpr, h.symm⟩
  | false =>
    cases hf : getFreePage m with
    | none => exact Or.inr rfl
    | some r =>
      obtain ⟨tmp, m'⟩ := r
      have F := getFreePage_spec S hf
      obtain ⟨Sa, vd, vp, vr⟩ := attach_spec S hd hpr F
      have hfr : frame ((m'.poke 0 (dirIndex address) (userEntry tmp)).dirv (dirIndex address))
          = tmp := by
        rw [vd, Function.update_self, F.frame S]
      have hpr' : present ((m'.poke 0 (dirIndex address) (userEntry tmp)).dirv (dirIndex address))
          = true := by
        rw [vd, Function.update_self]
        exact present_userEntry tmp
      obtain ⟨S', vd', vp', vr'⟩ := map_spec Sa hpr' hlt (by rw [vp]; exact ha) hp
      rw [hfr] at S' vd' vp' vr'
      refine Or.inl ⟨_, rfl, S', by rw [vp', vp], fun d hd' => ?_, fun g hg => ?_⟩
      · have hne : d ≠ dirIndex address := hd'.elim id fun h he => by
          rw [he, hpr] at h
          cases h
        rw [vd', vd, Function.update_of_ne hne]
      · rw [vr' g ((F.new S).2 hg)]
        exact vr g hg

/-- `get_empty_page` at an absent entry: a cleared page is mapped there, or the memory is as
before (up to a count given back) and the task is to be killed. -/
theorem getEmptyPage_spec (S : Sound lo hi m held) {address : Nat} (hd : dirIndex address ∈ dirs)
    (ha : present (m.pte (dirIndex address) (tableIndex address)) = false) :
    (∃ m' page, getEmptyPage address m = .ok () m' ∧ Sound lo hi m' held ∧ lo ≤ page ∧ page < hi ∧
      ¬ Data m held page ∧
      m'.pte = setPte m.pte (dirIndex address) (tableIndex address) (userEntry page) ∧
      (∀ d, d ≠ dirIndex address ∨ present (m.dirv d) = true → m'.dirv d = m.dirv d) ∧
      m'.ram page = (fun _ => 0) ∧ ∀ g, Data m held g → m'.ram g = m.ram g) ∨
    (∃ m', getEmptyPage address m = .oom m' ∧ Sound lo hi m' held ∧ m'.dirv = m.dirv ∧
      m'.pte = m.pte ∧ ∀ g, Data m held g → m'.ram g = m.ram g) := by
  unfold getEmptyPage
  cases hf : getFreePage m with
  | none => exact Or.inr ⟨m, rfl, S, rfl, rfl, fun _ _ => rfl⟩
  | some r =>
    obtain ⟨tmp, m'⟩ := r
    have F := getFreePage_spec S hf
    have hh : Function.update held tmp true tmp = true := Function.update_self ..
    have ha' : present (m'.pte (dirIndex address) (tableIndex address)) = false := by
      rw [F.pte]
      exact ha
    rcases putPage_spec F.sound hd ha' hh with ⟨m'', hput, S'', vp, vd, vr⟩ | hput
    · rw [F.back S] at S''
      refine Or.inl ⟨m'', tmp, by simp only [hput], S'', F.range.1, F.range.2, ?_, ?_, ?_, ?_, ?_⟩
      · exact fun h => (F.new S).2 h rfl
      · rw [vp, F.pte]
      · intro d hd'
        rw [vd d (hd'.imp_right fun h => by rw [F.dirv]; exact h), F.dirv]
      · rw [vr tmp (Or.inl hh), F.clear]
      · intro g hg
        rw [vr g (F.grow hg)]
        exact F.keeps g ((F.new S).2 hg)
    · obtain ⟨m'', hfree, S'', vd, vp, vr⟩ := freePage_held F.sound hh
      rw [F.back S] at S''
      refine Or.inr ⟨m'', by simp only [hput, hfree, Res.bind], S'', vd.trans F.dirv,
        vp.trans F.pte, fun g hg => ?_⟩
      rw [vr]
      exact F.keeps g ((F.new S).2 hg)

/-! ## `un_wp_page` -/

/-- `un_wp_page` of a present entry. A page above `LOW_MEM` that is counted once gets its R/W bit
back; any other page is copied to a fresh one, which the entry then names; or there is no page. -/
theorem unWpPage_spec (S : Sound lo hi m held) {d i : Nat} (hp : present (m.pte d i) = true) :
    (∃ m', unWpPage (frame (m.dirv d)) i m = .ok () m' ∧ Sound lo hi m' held ∧ m'.dirv = m.dirv ∧
      lowMem ≤ frame (m.pte d i) ∧ m.cnt (frame (m.pte d i)) = 1 ∧
      m'.pte = setPte m.pte d i (m.pte d i ||| 2) ∧
      ∀ g, NotTable m g → m'.ram g = m.ram g) ∨
    (∃ m' page, unWpPage (frame (m.dirv d)) i m = .ok () m' ∧ Sound lo hi m' held ∧
      m'.dirv = m.dirv ∧ ¬ (lowMem ≤ frame (m.pte d i) ∧ m.cnt (frame (m.pte d i)) = 1) ∧
      lo ≤ page ∧ page < hi ∧ ¬ Data m held page ∧
      m'.pte = setPte m.pte d i (userEntry page) ∧
      m'.ram page = m.ram (frame (m.pte d i)) ∧
      ∀ g, NotTable m g → g ≠ page → m'.ram g = m.ram g) ∨
    unWpPage (frame (m.dirv d)) i m = .oom m := by
  obtain ⟨hd, hlt⟩ := pte_dir hp
  have A := S.acct
  have he : m.ram (frame (m.dirv d)) i = m.pte d i := (pte_eq hd hlt).symm
  have hcnt : lowMem ≤ frame (m.pte d i) →
      m.memMap (mapNr (frame (m.pte d i))) = m.cnt (frame (m.pte d i)) :=
    fun h => (if_neg (Nat.not_lt.mpr h)).symm
  unfold unWpPage
  simp only [he]
  by_cases hone : frame (m.pte d i) ≥ lowMem ∧ m.memMap (mapNr (frame (m.pte d i))) = 1
  · rw [if_pos hone]
    have hc : m.cnt (frame (m.pte d i)) = 1 := (hcnt hone.1).symm.trans hone.2
    obtain ⟨S', vd, vp, vr⟩ := S.poke (n := m.poke (frame (m.dirv d)) i (m.pte d i ||| 2))
      hd hlt rfl rfl (A.flags (e := m.pte d i ||| 2) hp
      ⟨(present_or_two _).trans hp, frame_or_two _⟩ fun _ => Or.inr ⟨hone.1, hc⟩)
    refine Or.inl ⟨_, rfl, S', vd, hone.1, hc, vp, fun g hg => vr g ?_⟩
    exact fun h => hg.2 d ⟨hd, h.symm⟩
  · rw [if_neg hone]
    cases hf : getFreePage m with
    | none => exact Or.inr (Or.inr rfl)
    | some r =>
      obtain ⟨page, m1⟩ := r
      have F := getFreePage_spec S hf
      have A1 := F.sound.acct
      have hp1 : present (m1.pte d i) = true := by rw [F.pte]; exact hp
      have hd1 : present (m1.dirv d) = true := by rw [F.dirv]; exact hd
      have hfr1 : frame (m1.pte d i) = frame (m.pte d i) := by rw [F.pte]
      -- the old page loses a reference, and the fresh one takes its place in the map
      let m2 := if frame (m.pte d i) ≥ lowMem
        then m1.setCount (mapNr (frame (m.pte d i)))
          ((m1.memMap (mapNr (frame (m.pte d i))) + 255) % 256) else m1
      have hcnt2 : ∀ g, lowMem ≤ g → m2.cnt g = if g = frame (m1.pte d i) then m1.cnt g - 1
          else m1.cnt g := by
        intro g hg
        rw [hfr1]
        by_cases hl : frame (m.pte d i) ≥ lowMem
        · have hmm : m1.memMap (mapNr (frame (m.pte d i))) = m1.cnt (frame (m.pte d i)) :=
            (if_neg (Nat.not_lt.mpr hl)).symm
          have hpos : m1.cnt (frame (m.pte d i)) ≠ 0 := by
            rw [← hfr1, A1.page_count hp1 (hfr1 ▸ hl)]
            exact fun h => A1.not_points h ⟨hp1, rfl⟩
          have h63 := A1.pteRefs_le (hfr1 ▸ hl : lowMem ≤ frame (m1.pte d i))
          have hpc := A1.page_count hp1 (hfr1 ▸ hl)
          rw [hfr1] at h63 hpc
          simp only [m2, if_pos hl, hmm]
          rw [cnt_setCount hl]
          by_cases hgf : g = frame (m.pte d i)
          · rw [hgf, Function.update_self, if_pos rfl]
            omega
          · rw [Function.update_of_ne hgf, if_neg hgf]
        · simp only [m2, if_neg hl]
          rw [if_neg (by omega)]
      have hheld : Function.update held page true page = true := Function.update_self ..
      have A2 := A1.unmap hd1 hp1 hcnt2
      have A3 := A2.map (e := userEntry page) hheld hd1 (A1.cell hp1).2
        (by rw [setPte_self]; rfl) ⟨present_userEntry page, F.frame S⟩
      rw [setPte_setPte, F.back S] at A3
      have hm2 : m2.poke (frame (m1.dirv d)) i (userEntry page) =
          { (m1.poke (frame (m1.dirv d)) i (userEntry page)) with
            memMap := (m2.poke (frame (m1.dirv d)) i (userEntry page)).memMap } := by
        by_cases hl : frame (m.pte d i) ≥ lowMem
        · simp only [m2, if_pos hl]
          rfl
        · simp only [m2, if_neg hl]
      obtain ⟨S3, vd3, vp3, vr3⟩ := F.sound.poke hd1 (A1.cell hp1).2 hm2 cnt_poke A3
      rw [F.dirv] at vd3 vr3 S3 vp3
      rw [F.pte] at vp3
      have hnew := F.new S
      have hlow := S.acct.low
      have hpl : lowMem ≤ page := hlow.trans F.range.1
      have hnt3 : NotTable (m2.poke (frame (m.dirv d)) i (userEntry page)) page :=
        ⟨hnew.1.1, fun d' hpt => hnew.1.2 d' (by rw [vd3] at hpt; exact hpt)⟩
      have hold : frame (m.pte d i) ≠ page ∧ frame (m.pte d i) ≠ frame (m.dirv d) := by
        refine ⟨fun h => ?_, fun h => S.acct.tableApart hd hp h⟩
        rcases A.page hp with h' | h'
        · omega
        · exact hnew.2 (Or.inr ⟨by omega, d, i, hp, rfl⟩) h
      obtain ⟨vd4, vp4⟩ := view_fill
        (p := (m2.poke (frame (m.dirv d)) i (userEntry page)).ram (frame (m.pte d i))) hnt3
      refine Or.inr (Or.inl ⟨_, page, rfl, S3.fill hnt3 hpl, vd4.trans vd3, ?_, F.range.1,
        F.range.2, fun h => hnew.2 h rfl, vp4.trans vp3, ?_, ?_⟩)
      · rintro ⟨hl, hc⟩
        exact hone ⟨hl, (hcnt hl).trans hc⟩
      · rw [fill_ram_self, vr3 _ hold.2, F.keeps _ hold.1]
      · intro g hg hgp
        rw [fill_ram_other hgp, vr3 g fun h => hg.2 d ⟨hd, h.symm⟩, F.keeps g hgp]

/-! ## Sharing one entry -/

/-- Both entries of a shared page, written without the R/W bit, and the page counted once more.
`copy_page_tables` and `try_to_share` write the two words in different orders; only the memory they
leave matters. -/
theorem share_mem (S : Sound lo hi m held) {d i d' : Nat} {n : Mem}
    (hp : present (m.pte d i) = true) (hd' : present (m.dirv d') = true)
    (ha : present (m.pte d' i) = false) (hoff : d' % 16 = d % 16)
    (hl : lowMem ≤ frame (m.pte d i))
    (hfrom : ∀ j, n.ram (frame (m.dirv d)) j
      = if j = i then m.pte d i &&& ~~~2 else m.ram (frame (m.dirv d)) j)
    (hto : ∀ j, n.ram (frame (m.dirv d')) j
      = if j = i then m.pte d i &&& ~~~2 else m.ram (frame (m.dirv d')) j)
    (hrest : ∀ g, g ≠ frame (m.dirv d) → g ≠ frame (m.dirv d') → n.ram g = m.ram g)
    (hcnt : ∀ g, lowMem ≤ g → n.cnt g
      = if g = frame (m.pte d i) then (m.cnt g + 1) % 256 else m.cnt g)
    (hhigh : n.highMemory = m.highMemory) :
    Sound lo hi n held ∧ n.dirv = m.dirv ∧
      n.pte = setPte (setPte m.pte d i (m.pte d i &&& ~~~2)) d' i (m.pte d i &&& ~~~2) ∧
      ∀ g, NotTable m g → n.ram g = m.ram g := by
  obtain ⟨hd, hlt⟩ := pte_dir hp
  have ht := S.table_ne hd
  have ht' := S.table_ne hd'
  rw [lowMem] at ht ht'
  have hdir : n.dirv = m.dirv := by
    funext x
    rw [Mem.dirv, Mem.dirv, hrest 0 (by omega) (by omega)]
  have hpte : n.pte
      = setPte (setPte m.pte d i (m.pte d i &&& ~~~2)) d' i (m.pte d i &&& ~~~2) := by
    funext x j
    by_cases hx : present (m.dirv x) = true ∧ j < 1024
    · have hx' : present (n.dirv x) = true := hdir ▸ hx.1
      rw [pte_eq hx' hx.2, hdir, setPte, setPte]
      by_cases h1 : x = d'
      · subst h1
        rw [hto j]
        by_cases hj : j = i
        · rw [if_pos hj, if_pos ⟨rfl, hj⟩]
        · rw [if_neg hj, if_neg fun h => hj h.2, if_neg fun h => hj h.2, pte_eq hx.1 hx.2]
      · rw [if_neg fun h => h1 h.1]
        by_cases h2 : x = d
        · subst h2
          rw [hfrom j]
          by_cases hj : j = i
          · rw [if_pos hj, if_pos ⟨rfl, hj⟩]
          · rw [if_neg hj, if_neg fun h => hj h.2, pte_eq hx.1 hx.2]
        · rw [if_neg fun h => h2 h.1, pte_eq hx.1 hx.2, hrest]
          · exact fun h => h2 (S.acct.tableOnce hx.1 hd h)
          · exact fun h => h1 (S.acct.tableOnce hx.1 hd' h)
    · have hx' : ¬ (present (n.dirv x) = true ∧ j < 1024) := hdir ▸ hx
      rw [setPte_other, setPte_other, Mem.pte, Mem.pte, if_neg hx, if_neg hx']
      · rintro ⟨rfl, rfl⟩
        exact hx ⟨hd, hlt⟩
      · rintro ⟨rfl, rfl⟩
        exact hx ⟨hd', hlt⟩
  refine ⟨⟨?_, hhigh.trans S.high, ?_, ?_⟩, hdir, hpte, ?_⟩
  · rw [hdir, hpte]
    exact S.acct.share hp hd hd' ha hoff ⟨(present_clear _).trans hp, frame_clear _⟩
      (writable_clear _) hl hcnt
  · rw [hrest 0 (by omega) (by omega)]
    exact S.root
  · intro t ht1 ht4
    rw [hrest t (by omega) (by omega)]
    exact S.kernel t ht1 ht4
  · intro g hg
    exact hrest g (fun h => hg.2 d ⟨hd, h.symm⟩) fun h => hg.2 d' ⟨hd', h.symm⟩

/-- The count after `mem_map[MAP_NR(f)]++`. -/
theorem cnt_more {n : Mem} {f : Nat} (hl : lowMem ≤ f) :
    ∀ g, lowMem ≤ g → (n.setCount (mapNr f) ((n.memMap (mapNr f) + 1) % 256)).cnt g =
      if g = f then (n.cnt g + 1) % 256 else n.cnt g := by
  intro g _
  rw [cnt_setCount hl]
  by_cases h : g = f
  · rw [h, Function.update_self, if_pos rfl, Mem.cnt, if_neg (Nat.not_lt.mpr hl)]
  · rw [Function.update_of_ne h, if_neg h]

/-! ## `copy_page_tables` -/

/-- What the child gets of an entry. -/
def copied (e : Word) : Word := if present e then e &&& ~~~2 else 0

theorem present_copied (e : Word) : present (copied e) = present e := by
  unfold copied
  cases h : present e with
  | false => rw [if_neg Bool.false_ne_true]; rfl
  | true => rw [if_pos rfl, present_clear, h]

theorem Soft.copied {e e' : Word} (h : Soft e e') : copied e' = copied e := by
  rcases h with rfl | rfl
  · rfl
  · unfold Mm.copied
    rw [present_clear, clear_clear]

theorem Soft.of_copied {e e' : Word} (h : Soft (Mm.copied e) e') : e' = Mm.copied e := by
  rcases h with rfl | rfl
  · rfl
  · unfold Mm.copied
    split
    · rw [clear_clear]
    · exact BitVec.zero_and

theorem Soft.of_zero {e : Word} (h : Soft 0 e) : e = 0 := by
  rcases h with rfl | rfl
  · rfl
  · exact BitVec.zero_and

/-- What carried data still does when entries only lose their R/W bit or come into being. -/
theorem Data.soft {m' : Mem} {g : Nat} (h : Data m held g)
    (hs : ∀ d i, present (m.pte d i) = true → Soft (m.pte d i) (m'.pte d i)) : Data m' held g := by
  rcases h with hg | ⟨hl, d, i, hp, hf⟩
  · exact Or.inl hg
  · have := hs d i hp
    exact Or.inr ⟨hl, d, i, this.present.trans hp, this.frame.trans hf⟩

/-- One entry copied between two task slots. -/
theorem copyEntry_slot (S : Sound lo hi m held) {d d' i : Nat} (hd : present (m.dirv d) = true)
    (hd' : present (m.dirv d') = true) (hlt : i < 1024) (ha : m.pte d' i = 0)
    (hoff : d' % 16 = d % 16) (hne : d' ≠ d) :
    ∃ m', copyEntry (frame (m.dirv d)) (frame (m.dirv d')) i m = .ok true m' ∧
      Sound lo hi m' held ∧ m'.dirv = m.dirv ∧ m'.pte d' i = copied (m.pte d i) ∧
      (∀ d2 i2, ¬ (d2 = d' ∧ i2 = i) → Soft (m.pte d2 i2) (m'.pte d2 i2)) ∧
      ∀ g, NotTable m g → m'.ram g = m.ram g := by
  have he : m.ram (frame (m.dirv d)) i = m.pte d i := (pte_eq hd hlt).symm
  have htt : frame (m.dirv d') ≠ frame (m.dirv d) := fun h => hne (S.acct.tableOnce hd' hd h)
  have ha' : present (m.pte d' i) = false := by rw [ha]; rfl
  unfold copyEntry
  simp only [he]
  cases hp : present (m.pte d i) with
  | false =>
    refine ⟨m, rfl, S, rfl, ?_, fun _ _ _ => Soft.refl _, fun _ _ => rfl⟩
    rw [ha, copied, hp]
    rfl
  | true =>
    have hcop : copied (m.pte d i) = m.pte d i &&& ~~~2 := if_pos hp
    simp only [if_true]
    by_cases hl : lowMem ≤ frame (m.pte d i)
    · have hgt : m.pte d i &&& ~~~2 > 0x100000 :=
        (above_lowMem ((present_clear _).trans hp)).mpr (by rw [frame_clear]; exact hl)
      rw [if_pos hgt, mapNr_sub (by rw [frame_clear]; exact hl), frame_clear]
      generalize hn : (m.poke (frame (m.dirv d')) i (m.pte d i &&& ~~~2)).poke (frame (m.dirv d)) i
        (m.pte d i &&& ~~~2) = n
      have hncnt : n.cnt = m.cnt := by rw [← hn, cnt_poke, cnt_poke]
      obtain ⟨S', vd, vp, vr⟩ := share_mem S (n := n.setCount (mapNr (frame (m.pte d i)))
        ((n.memMap (mapNr (frame (m.pte d i))) + 1) % 256)) hp hd' ha' hoff hl
        (fun j => by rw [setCount_ram, ← hn, poke_ram_self, poke_ram_other htt.symm])
        (fun j => by rw [setCount_ram, ← hn, poke_ram_other htt, poke_ram_self])
        (fun g h1 h2 => by rw [setCount_ram, ← hn, poke_ram_other h1, poke_ram_other h2])
        (fun g hg => by rw [cnt_more hl g hg, hncnt]) (by rw [← hn]; rfl)
      refine ⟨_, rfl, S', vd, ?_, ?_, vr⟩
      · rw [vp, setPte_self, hcop]
      · intro d2 i2 h1
        rw [vp, setPte_other h1]
        by_cases h2 : d2 = d ∧ i2 = i
        · rw [h2.1, h2.2, setPte_self]
          exact Or.inr rfl
        · rw [setPte_other h2]
          exact Soft.refl _
    · have hgt : ¬ m.pte d i &&& ~~~2 > 0x100000 := fun h =>
        hl (by rw [← frame_clear]; exact (above_lowMem ((present_clear _).trans hp)).mp h)
      rw [if_neg hgt]
      obtain ⟨S', vd, vp, vr⟩ := S.poke
        (n := m.poke (frame (m.dirv d')) i (m.pte d i &&& ~~~2)) hd' hlt rfl rfl
        (S.acct.shareLow hd' hlt ha' (writable_clear _) (by rw [frame_clear]; omega))
      refine ⟨_, rfl, S', vd, ?_, ?_, fun g hg => vr g fun h => hg.2 d' ⟨hd', h.symm⟩⟩
      · rw [vp, setPte_self, hcop]
      · intro d2 i2 h1
        rw [vp, setPte_other h1]
        exact Soft.refl _

/-- The row a directory entry gives to a child: task 0 lives in the first 640 KB of the kernel's
own table, every other task in its slot. -/
def source (m : Mem) (d i : Nat) : Word :=
  if d = 0 then (if i < 0xA0 then userEntry i else 0) else m.pte d i

/-- One entry copied out of the kernel's table. -/
theorem copyEntry_kernel (S : Sound lo hi m held) {d' i : Nat} (hd' : present (m.dirv d') = true)
    (hlt : i < 0xA0) (ha : m.pte d' i = 0) :
    ∃ m', copyEntry 1 (frame (m.dirv d')) i m = .ok true m' ∧
      Sound lo hi m' held ∧ m'.dirv = m.dirv ∧ m'.pte d' i = copied (userEntry i) ∧
      (∀ d2 i2, ¬ (d2 = d' ∧ i2 = i) → Soft (m.pte d2 i2) (m'.pte d2 i2)) ∧
      ∀ g, NotTable m g → m'.ram g = m.ram g := by
  have ha' : present (m.pte d' i) = false := by rw [ha]; rfl
  have hf : frame (userEntry i &&& ~~~2) = i := by rw [frame_clear, frame_userEntry (by omega)]
  have hp : present (userEntry i &&& ~~~2) = true := by rw [present_clear, present_userEntry]
  have hgt : ¬ userEntry i &&& ~~~2 > 0x100000 := fun h => by
    have := (above_lowMem hp).mp h
    rw [hf, lowMem] at this
    omega
  have hrow : m.ram 1 i = userEntry i := by
    rw [S.kernel 1 (by omega) (by omega), kernelTable, Nat.sub_self, Nat.zero_mul, Nat.zero_add]
  unfold copyEntry
  simp only [hrow, present_userEntry, if_true, if_neg hgt]
  obtain ⟨S', vd, vp, vr⟩ := S.poke
    (n := m.poke (frame (m.dirv d')) i (userEntry i &&& ~~~2)) hd' (by omega) rfl rfl
    (S.acct.shareLow hd' (by omega) ha' (writable_clear _) (by rw [hf, lowMem]; omega))
  refine ⟨_, rfl, S', vd, ?_, ?_, fun g hg => vr g fun h => hg.2 d' ⟨hd', h.symm⟩⟩
  · rw [vp, setPte_self, copied, if_pos (present_userEntry i)]
  · intro d2 i2 h1
    rw [vp, setPte_other h1]
    exact Soft.refl _

/-- The directory entry `d` is one a child may be copied from: the kernel's first, of which
`nr` entries are looked at, or one of a task slot. -/
def Copyable (nr d d' : Nat) : Prop :=
  (d = 0 ∧ nr = 0xA0) ∨ (d ∈ dirs ∧ nr = 1024 ∧ d' % 16 = d % 16 ∧ d' ≠ d)

/-- The two kinds of directory entries a child is copied from change with the view only. -/
theorem Copyable.ram {n : Mem} {nr d d' : Nat} (hc : Copyable nr d d') (S : Sound lo hi m held)
    (S' : Sound lo hi n held) (h : n.dirv d = m.dirv d) :
    n.ram 0 d = m.ram 0 d := by
  rcases hc with ⟨rfl, -⟩ | ⟨hmem, -, -, -⟩
  · rw [S.root 0 (by omega), S'.root 0 (by omega)]
  · rw [← dirv_eq hmem, ← dirv_eq hmem]
    exact h

theorem copyEntry_spec (S : Sound lo hi m held) {nr d d' i : Nat} (hc : Copyable nr d d')
    (hd : present (m.ram 0 d) = true) (hd' : present (m.dirv d') = true) (hlt : i < nr)
    (ha : m.pte d' i = 0) :
    ∃ m', copyEntry (frame (m.ram 0 d)) (frame (m.dirv d')) i m = .ok true m' ∧
      Sound lo hi m' held ∧ m'.dirv = m.dirv ∧ m'.pte d' i = copied (source m d i) ∧
      (∀ d2 i2, ¬ (d2 = d' ∧ i2 = i) → Soft (m.pte d2 i2) (m'.pte d2 i2)) ∧
      ∀ g, NotTable m g → m'.ram g = m.ram g := by
  rcases hc with ⟨rfl, rfl⟩ | ⟨hmem, rfl, hoff, hne⟩
  · have hone : frame (m.ram 0 0) = 1 := by
      rw [S.root 0 (by omega), kernelDir, if_pos (by omega), frame_userEntry (by omega)]
    have hrow : source m 0 i = userEntry i := by rw [source, if_pos rfl, if_pos hlt]
    rw [hone, hrow]
    exact copyEntry_kernel S hd' hlt ha
  · have hrow : source m d i = m.pte d i := if_neg (by have := mem_dirs.mp hmem; omega)
    rw [← dirv_eq hmem] at hd ⊢
    rw [hrow]
    exact copyEntry_slot S hd hd' hlt ha hoff hne

/-- Rows only lose R/W bits, so what they give to a child stays. -/
theorem source_soft {n : Mem} {d : Nat} (h : ∀ i, Soft (m.pte d i) (n.pte d i)) (i : Nat) :
    copied (source n d i) = copied (source m d i) := by
  unfold source
  split
  · rfl
  · exact (h i).copied

/-- Entries that the loop does not look at are absent. -/
theorem source_end (S : Sound lo hi m held) {nr d d' i : Nat} (hc : Copyable nr d d')
    (h : nr ≤ i) : copied (source m d i) = 0 := by
  have hz : present (source m d i) = false := by
    unfold source
    rcases hc with ⟨rfl, rfl⟩ | ⟨hmem, rfl, -, -⟩
    · rw [if_pos rfl, if_neg (by omega)]
      rfl
    · rw [if_neg (by have := mem_dirs.mp hmem; omega)]
      cases hp : present (m.pte d i) with
      | false => rfl
      | true => have := (S.acct.cell hp).2; omega
  rw [copied, hz, if_neg Bool.false_ne_true]

/-- One page table copied: the child has the row of the parent, or there was no page for the new
table and nothing has changed. -/
theorem copyDir_spec (S : Sound lo hi m held) {nr d d' : Nat} (hc : Copyable nr d d')
    (hd' : d' ∈ dirs) (ha : present (m.dirv d') = false) :
    (∃ m', copyDir nr d d' m = .ok true m' ∧ Sound lo hi m' held ∧
      (∀ d2, d2 ≠ d' → m'.dirv d2 = m.dirv d2) ∧
      (∀ i, m'.pte d' i = copied (source m d i)) ∧
      (∀ d2 i, d2 ≠ d' → Soft (m.pte d2 i) (m'.pte d2 i)) ∧
      (∀ g, Data m held g → m'.ram g = m.ram g) ∧
      (present (m'.dirv d') = true ∨ m'.dirv d' = m.dirv d') ∧
      ∀ g, 0 < g → g < lowMem → m'.ram g = m.ram g) ∨
    copyDir nr d d' m = .ok false m := by
  have hrow0 : ∀ i, m.pte d' i = 0 := fun i => pte_absent ha
  unfold copyDir
  rw [present_ram hd', ha, if_neg Bool.false_ne_true]
  cases hd : present (m.ram 0 d) with
  | false =>
    -- an absent table has nothing to copy
    refine Or.inl ⟨m, rfl, S, fun _ _ => rfl, fun i => ?_, fun _ _ _ => Soft.refl _, fun _ _ => rfl,
      Or.inr rfl, fun _ _ _ => rfl⟩
    rcases hc with ⟨rfl, -⟩ | ⟨hmem, -, -, -⟩
    · rw [S.root 0 (by omega), kernelDir, if_pos (by omega), present_userEntry] at hd
      cases hd
    · rw [present_ram hmem] at hd
      have hz : source m d i = 0 := by
        rw [source, if_neg (by have := mem_dirs.mp hmem; omega), pte_absent hd]
      rw [hz, hrow0]
      rfl
  | true =>
    simp only [if_true]
    cases hf : getFreePage m with
    | none => exact Or.inr rfl
    | some r =>
      obtain ⟨t, m1⟩ := r
      dsimp only
      have F := getFreePage_spec S hf
      obtain ⟨Sa, vd, vp, vr⟩ := attach_spec S hd' ha F
      have hne0 : d ≠ d' := by
        rintro rfl
        rw [present_ram hd', ha] at hd
        cases hd
      have hfr : frame ((m1.poke 0 d' (userEntry t)).dirv d') = t := by
        rw [vd, Function.update_self, F.frame S]
      have hpr : present ((m1.poke 0 d' (userEntry t)).dirv d') = true := by
        rw [vd, Function.update_self]
        exact present_userEntry t
      have hlow : ∀ g, 0 < g → g < lowMem → (m1.poke 0 d' (userEntry t)).ram g = m.ram g := by
        intro g h0 hg
        have := S.acct.low
        have := F.range
        rw [poke_ram_other (by omega), F.keeps g (by omega)]
      generalize m1.poke 0 d' (userEntry t) = a at Sa vd vp vr hfr hpr hlow
      have hD : ∀ {g}, Data m held g → NotTable a g := fun hg =>
        Sa.notTable (hg.soft fun d i _ => by rw [vp]; exact Soft.refl _)
      -- after `k` turns the first `k` entries of the new table are copies
      let P : Nat → Mem → Prop := fun k n => Sound lo hi n held ∧ n.dirv = a.dirv ∧
        (∀ i, i < k → n.pte d' i = copied (source m d i)) ∧
        (∀ i, k ≤ i → n.pte d' i = 0) ∧ (∀ d2 i, d2 ≠ d' → Soft (m.pte d2 i) (n.pte d2 i)) ∧
        ∀ g, NotTable a g → n.ram g = a.ram g
      obtain ⟨n, hn, Sn, vdn, vdone, vzero, vsoft, vram⟩ := forLoop_total (n := nr) (P := P)
        (b := copyEntry (frame (m.ram 0 d)) t) (m := a) 0 (by
          rintro k hk n ⟨Sn, vdn, vdone, vzero, vsoft, vram⟩
          have hprn : present (n.dirv d') = true := by rw [vdn]; exact hpr
          have hram0 : n.ram 0 d = m.ram 0 d :=
            hc.ram S Sn (by rw [vdn, vd, Function.update_of_ne hne0])
          have hdn : present (n.ram 0 d) = true := by rw [hram0]; exact hd
          obtain ⟨n', hb, Sn', vd', vrow', vsoft', vram'⟩ :=
            copyEntry_spec Sn hc hdn hprn hk (vzero k (le_refl k))
          rw [vdn, hfr, hram0] at hb
          have hnt : ∀ {g}, NotTable a g → NotTable n g := fun hg =>
            ⟨hg.1, fun d2 => by rw [vdn]; exact hg.2 d2⟩
          rw [Nat.zero_add]
          refine ⟨n', hb, Sn', vd'.trans vdn, fun i hi => ?_, fun i hi => ?_,
            fun d2 i h2 => (vsoft d2 i h2).trans (vsoft' d2 i fun h => h2 h.1), fun g hg => ?_⟩
          · by_cases hik : i = k
            · rw [hik, vrow']
              exact source_soft (vsoft d · hne0) k
            · have := vsoft' d' i fun h => hik h.2
              rw [vdone i (by omega)] at this
              exact this.of_copied
          · have := vsoft' d' i fun h => by omega
            rw [vzero i (by omega)] at this
            exact this.of_zero
          · rw [vram' g (hnt hg), vram g hg])
        ⟨Sa, rfl, fun i h => absurd h (Nat.not_lt_zero i), fun i _ => by rw [vp, hrow0],
          fun d2 i _ => by rw [vp]; exact Soft.refl _, fun _ _ => rfl⟩
      rw [List.range_eq_range', hn]
      refine Or.inl ⟨n, rfl, Sn, fun d2 h2 => ?_, fun i => ?_, vsoft, fun g hg => ?_,
        Or.inl (by rw [vdn]; exact hpr), fun g h0 hg => ?_⟩
      · rw [vdn, vd, Function.update_of_ne h2]
      · by_cases hi : i < nr
        · exact vdone i hi
        · rw [vzero i (by omega), source_end S hc (by omega)]
      · rw [vram g (hD hg), vr g hg]
      · have hnt : NotTable a g := ⟨by omega, fun d2 hp => by
          have := (Sa.acct.table hp.1).1
          have := Sa.acct.low
          have := hp.2
          omega⟩
        rw [vram g hnt, hlow g h0 hg]

/-- What `copy_page_tables` does outside the child's region: entries only lose R/W bits, and pages
with data stay as they are. -/
structure Frame (m : Mem) (held : Nat → Bool) (child : Nat) (m' : Mem) : Prop where
  dirv : ∀ d, d / 16 ≠ child → m'.dirv d = m.dirv d
  soft : ∀ d i, d / 16 ≠ child → Soft (m.pte d i) (m'.pte d i)
  ram : ∀ g, Data m held g → m'.ram g = m.ram g

/-- `copy_page_tables` into the empty region of slot `child`: the child has the rows of the parent,
or a page was missing on the way; then what was copied so far stays behind, in entries that are
present now, and the kernel's own pages are as they were. -/
theorem copyPageTables_spec (S : Sound lo hi m held) {parent child size : Nat}
    (hp : parent < 64) (h1 : 1 ≤ child) (h2 : child < 64) (hne : child ≠ parent)
    (hs : size ≤ 0x4000000) (hk : parent = 0 → blocks size ≤ 1)
    (hempty : ∀ k < 16, present (m.dirv (16 * child + k)) = false) :
    (∃ m', copyPageTables (slotBase parent) (slotBase child) size m = .ok true m' ∧
      Sound lo hi m' held ∧ Frame m held child m' ∧
      (∀ k < blocks size, ∀ i, m'.pte (16 * child + k) i = copied (source m (16 * parent + k) i)) ∧
      ∀ k < 16, blocks size ≤ k → present (m'.dirv (16 * child + k)) = false) ∨
    (∃ m', copyPageTables (slotBase parent) (slotBase child) size m = .ok false m' ∧
      Sound lo hi m' held ∧ Frame m held child m' ∧
      (∀ k < 16, blocks size ≤ k → present (m'.dirv (16 * child + k)) = false) ∧
      (∀ k < 16, present (m'.dirv (16 * child + k)) = true ∨
        m'.dirv (16 * child + k) = m.dirv (16 * child + k)) ∧
      ∀ g, 0 < g → g < lowMem → m'.ram g = m.ram g) := by
  have hb := blocks_le hs
  have halign : ¬ (slotBase parent % 0x400000 ≠ 0 ∨ slotBase child % 0x400000 ≠ 0) := by
    simp only [slotBase]
    omega
  rw [copyPageTables, if_neg halign, dirIndex_slotBase hp, dirIndex_slotBase h2]
  dsimp only
  have hnr : ∀ k < blocks size, Copyable (if slotBase parent = 0 then 0xA0 else 1024)
      (16 * parent + k) (16 * child + k) := by
    intro k hkb
    by_cases h0 : parent = 0
    · have := hk h0
      refine Or.inl ⟨by omega, if_pos (by rw [h0, slotBase, Nat.mul_zero])⟩
    · refine Or.inr ⟨mem_dirs.mpr (by omega), if_neg ?_, by omega, by omega⟩
      simp only [slotBase]
      omega
  generalize (if slotBase parent = 0 then 0xA0 else 1024) = nr at hnr ⊢
  -- the first `k` tables of the child are there, the others are still absent
  let P : Nat → Mem → Prop := fun k n => Sound lo hi n held ∧ Frame m held child n ∧
    (∀ j, j < k → ∀ i, n.pte (16 * child + j) i = copied (source m (16 * parent + j) i)) ∧
    (∀ j, j < 16 → k ≤ j → present (n.dirv (16 * child + j)) = false) ∧
    (∀ j, j < 16 → present (n.dirv (16 * child + j)) = true ∨
      n.dirv (16 * child + j) = m.dirv (16 * child + j)) ∧
    ∀ g, 0 < g → g < lowMem → n.ram g = m.ram g
  have start : P 0 m := ⟨S, ⟨fun _ _ => rfl, fun _ _ _ => Soft.refl _, fun _ _ => rfl⟩,
    fun j h => absurd h (Nat.not_lt_zero j), fun j hj _ => hempty j hj, fun _ _ => Or.inr rfl,
    fun _ _ _ => rfl⟩
  have loop := forLoop_rule (n := blocks size) (P := P)
    (Q := fun n => Sound lo hi n held ∧ Frame m held child n ∧
      (∀ j < 16, blocks size ≤ j → present (n.dirv (16 * child + j)) = false) ∧
      (∀ j < 16, present (n.dirv (16 * child + j)) = true ∨
        n.dirv (16 * child + j) = m.dirv (16 * child + j)) ∧
      ∀ g, 0 < g → g < lowMem → n.ram g = m.ram g)
    (b := fun k => copyDir nr (16 * parent + k) (16 * child + k)) 0 (by
      rintro k hkb n ⟨Sn, ⟨vdir, vsoft, vram⟩, vdone, vempty, vword, vlow⟩
      rw [Nat.zero_add]
      have hkeep : ∀ {g}, Data m held g → Data n held g := fun hg =>
        hg.soft fun d i hpd => vsoft d i fun h => by
          have := pte_dir hpd
          have hd := hempty (d % 16) (Nat.mod_lt _ (by omega))
          rw [← h, Nat.div_add_mod, this.1] at hd
          cases hd
      have hsrc : ∀ i, copied (source n (16 * parent + k) i)
          = copied (source m (16 * parent + k) i) :=
        source_soft fun i => vsoft _ i (by omega)
      rcases copyDir_spec Sn (hnr k hkb) (mem_dirs.mpr (by omega)) (vempty k (by omega) (le_refl k))
        with ⟨n', hb', Sn', vdir', vrow', vsoft', vram', vword', vlow'⟩ | hb'
      · refine Or.inl ⟨n', hb', Sn', ⟨fun d hd => ?_, fun d i hd => ?_, fun g hg => ?_⟩,
          fun j hj i => ?_, fun j hj hkj => ?_, fun j hj => ?_, fun g h0 hg => ?_⟩
        · rw [vdir' d (by omega), vdir d hd]
        · exact (vsoft d i hd).trans (vsoft' d i (by omega))
        · rw [vram' g (hkeep hg), vram g hg]
        · by_cases hjk : j = k
          · rw [hjk, vrow', hsrc]
          · have := vsoft' (16 * child + j) i (by omega)
            rw [vdone j (by omega)] at this
            exact this.of_copied
        · rw [vdir' _ (by omega)]
          exact vempty j hj (by omega)
        · by_cases hjk : j = k
          · rw [hjk]
            rcases vword' with h | h
            · exact Or.inl h
            · rw [h]
              exact vword k (by omega)
          · rw [vdir' _ (by omega)]
            exact vword j hj
        · rw [vlow' g h0 hg, vlow g h0 hg]
      · exact Or.inr ⟨n, hb', Sn, ⟨vdir, vsoft, vram⟩, fun j hj hbj => vempty j hj (by omega),
          vword, vlow⟩)
    start
  rw [List.range_eq_range']
  rcases loop with ⟨n, hn, Sn, Fn, vdone, vempty, -⟩ | ⟨n, hn, Sn, Fn, vempty⟩
  · exact Or.inl ⟨n, hn, Sn, Fn, vdone, vempty⟩
  · exact Or.inr ⟨n, hn, Sn, Fn, vempty⟩

/-! ## `try_to_share` -/

/-- The last lines of `try_to_share`. -/
theorem shareEntry_spec (S : Sound lo hi m held) {d d' i : Nat} (hp : present (m.pte d i) = true)
    (hd' : present (m.dirv d') = true) (ha : present (m.pte d' i) = false)
    (hoff : d' % 16 = d % 16) (hl : lowMem ≤ frame (m.pte d i)) :
    ∃ m', shareEntry (m.pte d i &&& 0xfffff000) (frame (m.dirv d)) (frame (m.dirv d')) i m
        = .ok true m' ∧ Sound lo hi m' held ∧ m'.dirv = m.dirv ∧
      m'.pte = setPte (setPte m.pte d i (m.pte d i &&& ~~~2)) d' i (m.pte d i &&& ~~~2) ∧
      ∀ g, NotTable m g → m'.ram g = m.ram g := by
  obtain ⟨hd, hlt⟩ := pte_dir hp
  have he : m.ram (frame (m.dirv d)) i = m.pte d i := (pte_eq hd hlt).symm
  have he' : m.ram (frame (m.dirv d')) i = m.pte d' i := (pte_eq hd' hlt).symm
  have htt : frame (m.dirv d') ≠ frame (m.dirv d) := fun h => by
    rw [S.acct.tableOnce hd' hd h, hp] at ha
    cases ha
  unfold shareEntry
  dsimp only
  rw [he', ha, if_neg Bool.false_ne_true, he, mapNr_sub (by rw [frame_mask]; exact hl), frame_mask,
    poke_ram_self, if_pos rfl]
  generalize hn : (m.poke (frame (m.dirv d)) i (m.pte d i &&& ~~~2)).poke (frame (m.dirv d')) i
    (m.pte d i &&& ~~~2) = n
  have hncnt : n.cnt = m.cnt := by rw [← hn, cnt_poke, cnt_poke]
  obtain ⟨S', vd, vp, vr⟩ := share_mem S (n := n.setCount (mapNr (frame (m.pte d i)))
    ((n.memMap (mapNr (frame (m.pte d i))) + 1) % 256)) hp hd' ha hoff hl
    (fun j => by rw [setCount_ram, ← hn, poke_ram_other htt.symm, poke_ram_self])
    (fun j => by rw [setCount_ram, ← hn, poke_ram_self, poke_ram_other htt])
    (fun g h1 h2 => by rw [setCount_ram, ← hn, poke_ram_other h2, poke_ram_other h1])
    (fun g hg => by rw [cnt_more hl g hg, hncnt]) (by rw [← hn]; rfl)
  exact ⟨_, rfl, S', vd, vp, vr⟩

/-- `try_to_share` between two slots: the page is shared, and it was clean; or nothing has
changed, whether the function returned, panicked or called `oom`. -/
theorem tryToShare_spec (S : Sound lo hi m held) {address p cur : Nat}
    (hoff : dirIndex address < 16) (hp1 : 1 ≤ p) (hp2 : p < 64) (hc1 : 1 ≤ cur) (hc2 : cur < 64) :
    (∃ m', tryToShare address (slotBase p) (slotBase cur) m = .ok true m' ∧ Sound lo hi m' held ∧
      present (m.pte (dirIndex address + 16 * p) (tableIndex address)) = true ∧
      dirty (m.pte (dirIndex address + 16 * p) (tableIndex address)) = false ∧
      lowMem ≤ frame (m.pte (dirIndex address + 16 * p) (tableIndex address)) ∧
      present (m.pte (dirIndex address + 16 * cur) (tableIndex address)) = false ∧
      m'.pte = setPte (setPte m.pte (dirIndex address + 16 * p) (tableIndex address)
          (m.pte (dirIndex address + 16 * p) (tableIndex address) &&& ~~~2))
        (dirIndex address + 16 * cur) (tableIndex address)
        (m.pte (dirIndex address + 16 * p) (tableIndex address) &&& ~~~2) ∧
      (∀ d, d ≠ dirIndex address + 16 * cur ∨ present (m.dirv d) = true → m'.dirv d = m.dirv d) ∧
      ∀ g, Data m held g → m'.ram g = m.ram g) ∨
    tryToShare address (slotBase p) (slotBase cur) m = .ok false m ∨
    (present (m.pte (dirIndex address + 16 * cur) (tableIndex address)) = true ∧
      ∃ msg, tryToShare address (slotBase p) (slotBase cur) m = .panic msg m) ∨
    tryToShare address (slotBase p) (slotBase cur) m = .oom m := by
  have hlt := tableIndex_lt address
  unfold tryToShare
  rw [dirIndex_slotBase hp2, dirIndex_slotBase hc2]
  have hdm : dirIndex address + 16 * p ∈ dirs := mem_dirs.mpr (by omega)
  have hdm' : dirIndex address + 16 * cur ∈ dirs := mem_dirs.mpr (by omega)
  have hmod : (dirIndex address + 16 * cur) % 16 = (dirIndex address + 16 * p) % 16 := by omega
  generalize dirIndex address + 16 * p = d at *
  generalize dirIndex address + 16 * cur = d' at *
  generalize tableIndex address = i at *
  dsimp only
  rw [present_ram hdm, present_ram hdm', ← dirv_eq hdm, ← dirv_eq hdm']
  cases hd : present (m.dirv d) with
  | false => exact Or.inr (Or.inl rfl)
  | true =>
    rw [← pte_eq hd hlt]
    simp only [if_true]
    by_cases hclean : m.pte d i &&& 0x41 ≠ 1
    · rw [if_pos hclean]
      exact Or.inr (Or.inl rfl)
    · rw [if_neg hclean]
      obtain ⟨hp, hdirty⟩ := (mask_clean _).mp (not_not.mp hclean)
      rw [frame_mask]
      by_cases hout : frame (m.pte d i) ≥ m.highMemory ∨ frame (m.pte d i) < lowMem
      · rw [if_pos hout]
        exact Or.inr (Or.inl rfl)
      · rw [if_neg hout]
        have hl : lowMem ≤ frame (m.pte d i) := by omega
        cases hd' : present (m.dirv d') with
        | true =>
          simp only [if_true]
          cases ha : present (m.pte d' i) with
          | true =>
            refine Or.inr (Or.inr (Or.inl ⟨rfl, "try_to_share: to_page already exists", ?_⟩))
            rw [shareEntry, ← pte_eq hd' hlt, ha, if_pos rfl]
          | false =>
            obtain ⟨m', hr, S', vd, vp, vr⟩ := shareEntry_spec S hp hd' ha hmod hl
            exact Or.inl ⟨m', hr, S', hp, hdirty, hl, rfl, vp, fun _ _ => by rw [vd],
              fun g hg => vr g (S.notTable hg)⟩
        | false =>
          rw [if_neg Bool.false_ne_true]
          cases hf : getFreePage m with
          | none => exact Or.inr (Or.inr (Or.inr rfl))
          | some r =>
            obtain ⟨t, m1⟩ := r
            dsimp only
            have F := getFreePage_spec S hf
            obtain ⟨Sa, vd, vp, vr⟩ := attach_spec S hdm' hd' F
            have hne : d ≠ d' := by
              rintro rfl
              rw [hd] at hd'
              cases hd'
            have hfr : frame ((m1.poke 0 d' (userEntry t)).dirv d') = t := by
              rw [vd, Function.update_self, F.frame S]
            have hpr : present ((m1.poke 0 d' (userEntry t)).dirv d') = true := by
              rw [vd, Function.update_self]
              exact present_userEntry t
            have hfrom : (m1.poke 0 d' (userEntry t)).dirv d = m.dirv d := by
              rw [vd, Function.update_of_ne hne]
            generalize m1.poke 0 d' (userEntry t) = a at Sa vd vp vr hfr hpr hfrom ⊢
            have ha : present (a.pte d' i) = false := by
              rw [vp, pte_absent hd']
              rfl
            obtain ⟨m', hr, S', vd', vp', vr'⟩ := shareEntry_spec Sa (d := d) (i := i)
              (by rw [vp]; exact hp) hpr ha hmod (by rw [vp]; exact hl)
            rw [vp, hfr, hfrom] at hr
            rw [vp] at vp'
            refine Or.inl ⟨m', hr, S', hp, hdirty, hl, by rw [pte_absent hd']; rfl, vp', ?_, ?_⟩
            · intro x hx
              have hxd : x ≠ d' := hx.elim id fun h he => by
                rw [he, hd'] at h
                cases h
              rw [vd', vd, Function.update_of_ne hxd]
            · intro g hg
              rw [vr' g (Sa.notTable (hg.soft fun d i _ => by rw [vp]; exact Soft.refl _)), vr g hg]

end Linux011.Mm

import Linux011.Mm.Isolation

/-!
# Page sharing and demand loading

`share_page` maps the page of another task in place of the four blocks `do_no_page` would read, on
the word of the hardware dirty bit. That bit is believed to mean that the page differs from the file.
The invariant `Faithful` says when it does: a clean page of a task, below its `end_data`, holds
what `do_no_page` loads there.

Three steps of the source break it, and the guard `Careful` excludes just these:

- between `executable = inode` and `end_data = …`, `do_execve` closes files and may sleep, with the
  pages of the old program under the name of the new one (`Phase.closing`);
- `un_wp_page` stores `new_page | 7`, so the copy of a dirty page is clean; a write through the
  entry follows at once in `userWrite`, but not in `write_verify`, and not when the task is preempted
  before it retries (`Forgets`);
- a header whose sizes wrap gives a code limit beyond the region of the task.
-/

namespace Linux011.Mm

variable {file : Nat → Program} {lo hi : Nat} {s s' : Sys} {m m' : Mem} {nr : Nat} {t : Task}

/-! ## Faithful pages -/

/-- What `do_no_page` would load is what the clean pages of a task hold below `end_data`; while
`do_execve` clears the rest of the last page, the dirty pages hold it too. -/
structure Faithful (file : Nat → Program) (m : Mem) (nr : Nat) (t : Task) : Prop where
  clean : ∀ ino, t.executable = some ino → t.phase ≠ .closing → ∀ k < 16, ∀ i < 1024,
    (1024 * k + i) * 4096 < t.endData → ∀ b c, cellView m (16 * nr + k) i = .page b c →
    (b = false ∨ ∃ n, t.phase = .zeroing n) →
    c = (file ino).image ((1024 * k + i) * 4096) t.endData
  tail : ∀ n, t.phase = .zeroing n → t.endData ≤ n ∧ n ≤ (t.endData + 4095) / 4096 * 4096

/-- The invariant of the machine with careful steps. -/
structure Loads (file : Nat → Program) (lo hi : Nat) (s : Sys) : Prop where
  inv : Inv file lo hi s
  faithful : ∀ {nr t}, 1 ≤ nr → s.task nr = some t → Faithful file s.mem nr t

theorem Faithful.of_view (F : Faithful file m nr t)
    (hv : ∀ k < 16, ∀ i, cellView m' (16 * nr + k) i = cellView m (16 * nr + k) i) :
    Faithful file m' nr t := by
  refine ⟨fun ino hex hph k hk i hi hlt b c hc => ?_, F.tail⟩
  rw [hv k hk] at hc
  exact F.clean ino hex hph k hk i hi hlt b c hc

/-- A task without an executable has nothing to be faithful to. -/
theorem Faithful.none (hex : t.executable = none) (hz : ∀ n, t.phase ≠ .zeroing n) :
    Faithful file m nr t :=
  ⟨fun ino h => (by rw [hex] at h; cases h), fun n h => absurd h (hz n)⟩

/-- THE RULE for a change of one slot. -/
theorem Loads.local (D : Loads file lo hi s) (I' : Inv file lo hi s') (L : Local s s' nr)
    (h : ∀ t, s'.task nr = some t → Faithful file s'.mem nr t) : Loads file lo hi s' := by
  refine ⟨I', fun {q t} hq ht => ?_⟩
  by_cases hqn : q = nr
  · subst hqn
    exact h t ht
  · rw [L.task q hqn] at ht
    exact (D.faithful hq ht).of_view fun k _ i => L.view _ i (by omega)

theorem Loads.exited (D : Loads file lo hi s) (E : Exited file lo hi s s' nr) :
    Loads file lo hi s' := by
  obtain ⟨t, ht, hex, hz⟩ := E.zombie
  refine D.local E.inv E.only fun t' ht' => ?_
  rw [ht] at ht'
  cases ht'
  exact .none hex fun n h => by rw [hz] at h; cases h

/-- One entry shows `v` now: the task stays faithful when `v` is. -/
theorem Faithful.cell (F : Faithful file m nr t) {d i : Nat} {v : View} (C : Cell m m' d i v)
    (hv : ∀ ino k, t.executable = some ino → t.phase ≠ .closing → k < 16 → d = 16 * nr + k →
      i < 1024 → (1024 * k + i) * 4096 < t.endData → ∀ b c, v = .page b c →
      (b = false ∨ ∃ n, t.phase = .zeroing n) →
      c = (file ino).image ((1024 * k + i) * 4096) t.endData) : Faithful file m' nr t := by
  refine ⟨fun ino hex hph k hk j hj hlt b c hc hb => ?_, F.tail⟩
  by_cases h : 16 * nr + k = d ∧ j = i
  · obtain ⟨hd, rfl⟩ := h
    rw [hd, C.here] at hc
    exact hv ino k hex hph hk hd.symm hj hlt b c hc hb
  · rw [C.rest _ _ h] at hc
    exact F.clean ino hex hph k hk j hj hlt b c hc hb

/-- The cell of an offset, and the offset of the cell. -/
theorem cell_offset {off k : Nat} (h64 : nr < 64) (hoff : off < 0x4000000)
    (hd : dirIndex (slotBase nr + off) = 16 * nr + k) :
    (1024 * k + tableIndex (slotBase nr + off)) * 4096 = off / 4096 * 4096 := by
  rw [dirIndex_slot h64 hoff] at hd
  rw [tableIndex_slot]
  omega

/-- A clean page at an offset below `end_data` holds what the file holds. -/
theorem Faithful.at (F : Faithful file m nr t) (h64 : nr < 64) {off ino : Nat}
    (hex : t.executable = some ino) (hph : t.phase ≠ .closing) (hoff : off < 0x4000000)
    (hpage : off % 4096 = 0) (hlt : off < t.endData) {b : Bool} {c : Nat → Word}
    (hv : cellView m (dirIndex (slotBase nr + off)) (tableIndex (slotBase nr + off)) = .page b c)
    (hb : b = false ∨ ∃ n, t.phase = .zeroing n) : c = (file ino).image off t.endData := by
  have h0 : off / 4096 * 4096 = off := by omega
  have h16 : off / 0x400000 < 16 := by omega
  have hdir := dirIndex_slot h64 hoff
  have hk := cell_offset h64 hoff hdir
  rw [hdir] at hv
  have := F.clean ino hex hph _ h16 _ (tableIndex_lt _) (by rw [hk, h0]; exact hlt) b c hv hb
  rwa [hk, h0] at this

/-! ## Clearing the rest of the last page -/

/-- The bytes from `end_data` on are zero already, so clearing one of them changes nothing. -/
theorem clearByte_image {p : Program} {n e base : Nat} (hbase : base % 4096 = 0) (h1 : e ≤ n)
    (h2 : n / 4096 * 4096 < e) :
    clearByte (base + n) (p.image (n / 4096 * 4096) e) = p.image (n / 4096 * 4096) e := by
  have hword : (base + n) / 4 % 1024 = n / 4 % 1024 := by omega
  have hbyte : (base + n) % 4 = n % 4 := by omega
  unfold clearByte
  rw [hword, hbyte]
  refine Function.update_eq_self_iff.mpr ?_
  simp only [Program.image, zeroFrom]
  generalize p.block _ _ = w
  refine BitVec.eq_of_getLsbD_eq fun j hj => ?_
  simp only [BitVec.getLsbD_and, BitVec.getLsbD_not, BitVec.getLsbD_shiftLeft,
    BitVec.getLsbD_ofNat, Nat.testBit_two_pow_sub_one, hj, decide_true, Bool.true_and]
  -- a bit below `end_data` is not one of the byte, which lies at or above it
  by_cases hb : j < 8 * min (e - n / 4096 * 4096 - 4 * (n / 4 % 1024)) 4
  · have hlt : j < 8 * (n % 4) := by omega
    simp [hlt]
  · simp [hb]

/-! ## Careful steps -/

/-- `un_wp_page` of the entry at this address would make a clean copy of a dirty page: the entry is
dirty, its page is counted more than once, and it lies below the `end_data` of a task that runs an
executable. -/
def Forgets (s : Sys) (address : Nat) : Prop :=
  ∃ t, s.task (address / 0x4000000) = some t ∧ t.executable ≠ none ∧
    address % 0x4000000 / 4096 * 4096 < t.endData ∧ dirty (entryAt s.mem address) = true ∧
    ¬ (lowMem ≤ frame (entryAt s.mem address) ∧
      s.mem.memMap (mapNr (frame (entryAt s.mem address))) = 1)

/-- The steps after which the dirty bit can still be believed. -/
def Careful (file : Nat → Program) (s : Sys) : Event → Prop
  | .execSet _ ino => (file ino).Sane
  | .wpFault nr off => ¬ Forgets s (slotBase nr + off)
  | .verify _ address => ¬ Forgets s address
  | .noPage nr _ _ => ∀ q t t', s.task nr = some t → s.task q = some t' →
      t'.executable = t.executable → t'.phase ≠ .closing
  | _ => True

theorem Careful.sane {e : Event} (h : Careful file s e) : SaneStep file s e := by
  rintro nr ino rfl
  exact h

/-- `un_wp_page` of a page whose bytes are not forgotten keeps a task faithful, whatever slot the
page belongs to. -/
theorem Faithful.unprotect (I : Inv file lo hi s) (h1 : 1 ≤ nr) (ht : s.task nr = some t)
    (F : Faithful file s.mem nr t) {address : Nat} (hlt : address < 2 ^ 32)
    (hp : present (s.mem.pte (dirIndex address) (tableIndex address)) = true) {v : View}
    (C : Cell s.mem m' (dirIndex address) (tableIndex address) v)
    (U : Unprotected s.mem (dirIndex address) (tableIndex address) v)
    (hf : ¬ Forgets s address) : Faithful file m' nr t := by
  refine F.cell C fun ino k hex hph hk hd hi hoff b c hv hb => ?_
  rcases U with ⟨rfl, -, -⟩ | ⟨rfl, hcopy⟩
  · rw [hd] at hv
    exact F.clean ino hex hph k hk _ hi hoff b c hv hb
  · cases hv
    have hhigh := ((I.good h1 ht).ready ino hex hph).2 k hk (tableIndex address)
    rw [← hd] at hhigh
    have hl : lowMem ≤ frame (s.mem.pte (dirIndex address) (tableIndex address)) := by
      by_contra hno
      exact hhigh (by rw [cellView, if_pos hp, if_pos (Nat.lt_of_not_le hno)])
    have hview := cellView_page hp hl
    cases hdirty : dirty (s.mem.pte (dirIndex address) (tableIndex address)) with
    | false =>
      rw [hdirty] at hview
      rw [hd] at hview ⊢
      exact F.clean ino hex hph k hk _ hi hoff false _ hview (Or.inl rfl)
    | true =>
      -- the address lies in this slot, below `end_data`
      refine absurd ⟨t, ?_, by rw [hex]; rintro ⟨⟩, ?_, ?_, ?_⟩ hf
      · have hq : address / 0x4000000 = nr := by
          simp only [dirIndex, Nat.shiftRight_eq_div_pow] at hd
          omega
        rw [hq, ht]
      · have hsame : address % 0x4000000 / 4096 * 4096
            = (1024 * k + tableIndex address) * 4096 := by
          simp only [dirIndex, tableIndex, Nat.shiftRight_eq_div_pow] at hd ⊢
          omega
        rw [hsame]
        exact hoff
      · have hdirs := (pte_dir hp).1
        rw [entryAt_eq (dirv_mem hdirs) (by rw [presentAt_eq (dirv_mem hdirs)]; exact hp)]
        exact hdirty
      · have hdirs := (pte_dir hp).1
        rw [entryAt_eq (dirv_mem hdirs) (by rw [presentAt_eq (dirv_mem hdirs)]; exact hp)]
        rw [Mem.cnt, if_neg (Nat.not_lt.mpr hl)] at hcopy
        exact hcopy

/-- Every careful step keeps the pages faithful. -/
theorem step_loads (D : Loads file lo hi s) {e : Event} (hc : Careful file s e)
    (h : step file s e = some s') : Loads file lo hi s' := by
  have I := D.inv
  have I' := step_inv I hc.sane h
  -- a step that changes neither what the slot shows nor what its task runs
  have quiet : ∀ {nr t t'}, 1 ≤ nr → s.task nr = some t → Local s s' nr →
      s'.task = Function.update s.task nr (some t') → t'.executable = t.executable →
      t'.endData = t.endData → t'.phase = t.phase →
      (∀ d i, cellView s'.mem d i = cellView s.mem d i) → Loads file lo hi s' := by
    intro nr t t' h1 ht L ht' hex hed hph hv
    refine D.local I' L fun t2 ht2 => ?_
    rw [ht', Function.update_self] at ht2
    cases ht2
    have F : Faithful file s'.mem nr t := (D.faithful h1 ht).of_view fun k _ i => hv _ i
    refine ⟨?_, ?_⟩
    · rw [hex, hed, hph]
      exact F.clean
    · rw [hed, hph]
      exact F.tail
  cases e with
  | fork parent child =>
    simp only [step] at h
    split at h
    · next t ht hch =>
      split at h
      · next hu =>
        obtain ⟨-, L, hsame | ⟨p, htask, hview⟩⟩ := fork_spec I ht hu.1 hu.2.1 hu.2.2 hch h
        · refine D.local I' L fun t' ht' => ?_
          rw [hsame, hch] at ht'
          cases ht'
        · refine D.local I' L fun t' ht' => ?_
          rw [htask, Function.update_self] at ht'
          cases ht'
          have hz : ∀ n, t.phase ≠ .zeroing n := fun n hn => by
            rw [hu.1.1] at hn
            cases hn
          by_cases h0 : parent = 0
          · rw [h0, I.zero] at ht
            cases ht
            exact .none rfl (by rintro _ ⟨⟩)
          · have F := D.faithful (by omega) ht
            refine ⟨fun ino hex hph k hk i hi hlt b c hc hb => ?_, F.tail⟩
            rw [hview k hk i, slotView, if_neg h0] at hc
            exact F.clean ino hex hph k hk i hi hlt b c hc hb
      · cases h
    · cases h
  | exit nr =>
    obtain ⟨t, ht, h1, -, h⟩ := withTask_some h
    exact D.exited (exit_of I h1 ht h)
  | release nr =>
    obtain ⟨t, ht, h1, hz, h⟩ := withTask_some h
    obtain ⟨-, L, hnone⟩ := release_spec I h1 ht (of_decide_eq_true hz) h
    refine D.local I' L fun t' ht' => ?_
    rw [hnone] at ht'
    cases ht'
  | userWrite nr off w =>
    obtain ⟨t, ht, h1, hcond, h⟩ := withTask_some h
    obtain ⟨hu, hoff, hp⟩ := of_decide_eq_true hcond
    rcases userWrite_spec I h1 ht hu hoff hp h with E | ⟨-, L, htask, c, C⟩
    · exact D.exited E
    · refine D.local I' L fun t' ht' => ?_
      rw [htask, ht] at ht'
      cases ht'
      -- the page is dirty now, and the task is not clearing it
      refine (D.faithful h1 ht).cell C fun ino k _ _ _ _ _ _ b c' hv hb => ?_
      cases hv
      rcases hb with hb | ⟨n, hn⟩
      · cases hb
      · rw [hu.1] at hn
        cases hn
  | wpFault nr off =>
    obtain ⟨t, ht, h1, hcond, h⟩ := withTask_some h
    obtain ⟨hu, hoff, hp, -⟩ := of_decide_eq_true hcond
    have G := I.good h1 ht
    have hmax := Nat.lt_of_lt_of_le hoff G.data
    rcases wpFault_spec I h1 ht hu hoff hp h with E | ⟨-, L, htask, v, C, U⟩
    · exact D.exited E
    · refine D.local I' L fun t' ht' => ?_
      rw [htask, ht] at ht'
      cases ht'
      have hpte := (presentAt_eq (slot_dirs h1 G.slot hmax).1).symm.trans hp
      have hlt : slotBase nr + off < 2 ^ 32 := by
        have := G.slot
        simp only [slotBase]
        omega
      exact (D.faithful h1 ht).unprotect I h1 ht hlt hpte C U hc
  | verify nr address =>
    obtain ⟨t, ht, h1, hcond, h⟩ := withTask_some h
    obtain ⟨-, hlt⟩ := of_decide_eq_true hcond
    rcases verify_spec I h1 ht h with E | rfl | ⟨-, htask, hp, -, v, C, U⟩
    · exact D.exited E
    · exact D
    · refine ⟨I', fun {q t'} hq ht' => ?_⟩
      rw [htask] at ht'
      exact (D.faithful hq ht').unprotect I hq ht' hlt hp C U hc
  | noPage nr off iCount =>
    obtain ⟨t, ht, h1, hcond, h⟩ := withTask_some h
    obtain ⟨hmf, hoff, hp⟩ := of_decide_eq_true hcond
    have G := I.good h1 ht
    obtain ⟨hle, h4096, -, -⟩ := page_offset off
    have hmax : off / 4096 * 4096 < 0x4000000 := by
      have := G.data
      omega
    rcases noPage_spec I h1 ht hmf hoff hp h with E | ⟨-, L, hcase⟩
    · exact D.exited E
    · generalize off / 4096 * 4096 = tmp at *
      have h0 : tmp / 4096 * 4096 = tmp := by omega
      cases hcase with
      | cleared hex htask C =>
        refine D.local I' L fun t' ht' => ?_
        rw [htask, ht] at ht'
        cases ht'
        refine (D.faithful h1 ht).cell C fun ino k hino _ _ hd _ hlt => ?_
        have := hex ino hino
        rw [cell_offset G.slot hmax hd, h0] at hlt
        omega
      | shared ino p t2 c hex hp1 hpn htp hex2 hlt htask hfrom C =>
        refine D.local I' L fun t' ht' => ?_
        rw [htask, ht] at ht'
        cases ht'
        refine (D.faithful h1 ht).cell C fun ino' k hino hph _ hd _ _ b c' hv _ => ?_
        cases hv
        obtain rfl : ino = ino' := Option.some.inj (hex.symm.trans hino)
        have hph2 := hc p t t2 ht htp (hex2.trans hex.symm)
        -- both tasks run the same program, so they have the same `end_data`
        have hend := ((I.good hp1 htp).ready ino hex2 hph2).1
        rw [← (G.ready ino hex hph).1] at hend
        have := (D.faithful hp1 htp).at (I.good hp1 htp).slot hex2 hph2 hmax h4096
          (by rw [hend]; exact hlt) hfrom (Or.inl rfl)
        rw [cell_offset G.slot hmax hd, h0, this, hend]
      | asleep page _ _ htask hv =>
        exact quiet h1 ht L htask rfl rfl rfl hv
  | loaded nr =>
    obtain ⟨t, ht, h1, -, h⟩ := withTask_some h
    split at h
    · next tmp page ino hl hex =>
      have G := I.good h1 ht
      obtain ⟨htmp, h4096, -, -, -⟩ := G.loading tmp page hl
      rcases loaded_spec I h1 ht hl hex h with E | ⟨-, L, htask, C⟩
      · exact D.exited E
      · refine D.local I' L fun t' ht' => ?_
        rw [htask, Function.update_self] at ht'
        cases ht'
        have F := (D.faithful h1 ht).cell C fun ino' k hino _ _ hd _ _ b c hv _ => by
          cases hv
          obtain rfl : ino = ino' := Option.some.inj (hex.symm.trans hino)
          have h0 : tmp / 4096 * 4096 = tmp := by omega
          rw [cell_offset G.slot (Nat.lt_of_lt_of_le htmp G.data) hd, h0]
        exact ⟨F.clean, F.tail⟩
    · cases h
  | execArg nr i content =>
    obtain ⟨t, ht, h1, hcond, h⟩ := withTask_some h
    obtain ⟨-, hl, -⟩ := of_decide_eq_true hcond
    cases h
    obtain ⟨-, L, args, htask, hv⟩ := execArg_spec I i content h1 ht
      (Option.isNone_iff_eq_none.mp hl)
    exact quiet h1 ht L htask rfl rfl rfl hv
  | execFail nr =>
    obtain ⟨t, ht, h1, hcond, h⟩ := withTask_some h
    obtain ⟨-, hl⟩ := of_decide_eq_true hcond
    obtain ⟨-, L, htask, hv⟩ := execFail_spec I h1 ht (Option.isNone_iff_eq_none.mp hl) h
    exact quiet h1 ht L htask rfl rfl rfl hv
  | execSet nr ino =>
    obtain ⟨t, ht, h1, hcond, h⟩ := withTask_some h
    obtain ⟨-, hl, ha⟩ := of_decide_eq_true hcond
    cases h
    have L := (execSet_spec I h1 ht (Option.isNone_iff_eq_none.mp hl) ha hc).2
    refine D.local I' L fun t' ht' => ?_
    rw [setTask_self] at ht'
    cases ht'
    exact ⟨fun _ _ hph => absurd rfl hph, by rintro _ ⟨⟩⟩
  | execFinish nr stack =>
    obtain ⟨t, ht, h1, hcond, h⟩ := withTask_some h
    obtain ⟨-, hl, hst⟩ := of_decide_eq_true hcond
    obtain ⟨ino, hex, h⟩ := Option.bind_eq_some_iff.mp h
    rcases execFinish_spec I h1 ht (Option.isNone_iff_eq_none.mp hl) hex
      (fun x hx => ⟨(hst x hx).1, (hst x hx).2.1⟩) h with E | ⟨-, L, R, t1, ht1, hex1, hz⟩
    · exact D.exited E
    · refine D.local I' L fun t' ht' => ?_
      rw [ht1] at ht'
      cases ht'
      have G1 := I'.good h1 ht1
      obtain ⟨ha, hsane⟩ := G1.sane ino hex1
      have hend := (G1.ready ino hex1 (by rw [hz]; rintro ⟨⟩)).1
      have hlim := (Program.limits ha hsane).2
      -- below `end_data` the region is empty
      refine ⟨fun _ _ _ k hk i _ hlt b c hv _ => ?_, fun n hn => ?_⟩
      · rw [R.top k hk i (by omega)] at hv
        cases hv
      · rw [hz] at hn
        cases hn
        omega
  | zeroByte nr =>
    obtain ⟨t, ht, h1, -, h⟩ := withTask_some h
    split at h
    · next n hz =>
      split at h
      · next hcond =>
        cases h
        have G := I.good h1 ht
        have F := D.faithful h1 ht
        have hl := Option.isNone_iff_eq_none.mp hcond.1
        obtain ⟨ino, hex⟩ := Option.ne_none_iff_exists'.mp (G.zeroing n hz)
        have hph : t.phase ≠ .closing := by rw [hz]; rintro ⟨⟩
        have hmax := Nat.lt_of_lt_of_le hcond.2.2.1 G.data
        obtain ⟨hge, hle⟩ := F.tail n hz
        have hmod := hcond.2.1
        have htail : n / 4096 * 4096 < t.endData := by omega
        have hnext : n + 1 ≤ (t.endData + 4095) / 4096 * 4096 := by omega
        obtain ⟨-, b, c, hv, hv', hrest⟩ :=
          zeroByte_spec I h1 ht hz hl hcond.2.2.1 hcond.2.2.2
        have hdir := dirIndex_slot G.slot hmax
        have h16 : n / 0x400000 < 16 := by omega
        have hoff := cell_offset G.slot hmax hdir
        -- the page holds what the file holds, so clearing the byte changes nothing
        have himage : c = (file ino).image (n / 4096 * 4096) t.endData := by
          rw [hdir] at hv
          have := F.clean ino hex hph _ h16 _ (tableIndex_lt _) (by rw [hoff]; exact htail) b c hv
            (Or.inr ⟨n, hz⟩)
          rwa [hoff] at this
        have hclear : clearByte (slotBase nr + n) c = c := by
          rw [himage]
          refine clearByte_image ?_ hge htail
          simp only [slotBase]
          omega
        rw [hclear] at hv' hrest
        have hsame : ∀ d j, ¬ (d = dirIndex (slotBase nr + n) ∧ j = tableIndex (slotBase nr + n)) →
            cellView (zeroByte s.mem (slotBase nr + n)) d j = cellView s.mem d j := by
          intro d j hne
          rcases hrest d j hne with h | ⟨b', h, h'⟩
          · exact h
          · rw [h, h']
        refine ⟨I', fun {q t'} hq ht' => ?_⟩
        by_cases hqn : q = nr
        · subst hqn
          rw [setTask_self] at ht'
          cases ht'
          refine ⟨fun ino' hex' _ k hk i hi hlt b' c' hc' hb' => ?_, fun n' hn' => ?_⟩
          · by_cases hki : 16 * q + k = dirIndex (slotBase q + n) ∧ i = tableIndex (slotBase q + n)
            · have hc2 := hc'
              rw [show (Sys.setTask _ _ _).mem = zeroByte s.mem (slotBase q + n) from rfl, hki.1,
                hki.2, hv'] at hc2
              cases hc2
              have hk2 := cell_offset G.slot hmax hki.1.symm
              rw [← hki.2] at hk2
              rw [hk2, himage]
              exact congrArg (fun x => (file x).image _ _) (Option.some.inj (hex.symm.trans hex'))
            · exact F.clean ino' hex' hph k hk i hi hlt b' c' ((hsame _ _ hki).symm.trans hc')
                (Or.inr ⟨n, hz⟩)
          · cases hn'
            exact ⟨Nat.le_succ_of_le hge, hnext⟩
        · have htq : s.task q = some t' := by
            rw [← ht']
            exact (Function.update_of_ne hqn _ _).symm
          refine (D.faithful hq htq).of_view fun k hk i => hsame _ _ fun h => hqn ?_
          have := h.1
          rw [hdir] at this
          omega
      · cases h
    · cases h
  | execDone nr =>
    obtain ⟨t, ht, h1, -, h⟩ := withTask_some h
    split at h
    · next n hz =>
      split at h
      · next hcond =>
        cases h
        have F := D.faithful h1 ht
        have L := (execDone_spec I h1 ht hz (Option.isNone_iff_eq_none.mp hcond.1)).2
        refine D.local I' L fun t' ht' => ?_
        rw [setTask_self] at ht'
        cases ht'
        refine ⟨fun ino hex _ k hk i hi hlt b c hv hb => ?_, by rintro _ ⟨⟩⟩
        refine F.clean ino hex (by rw [hz]; rintro ⟨⟩) k hk i hi hlt b c hv ?_
        rcases hb with hb | ⟨n, hn⟩
        · exact Or.inl hb
        · cases hn
      · cases h
    · cases h

theorem boot_loads (m : Mem) (h1 : lowMem ≤ lo) (h2 : lo ≤ hi) (h3 : hi ≤ lowMem + pagingPages) :
    Loads file lo hi (Sys.boot lo hi m) := by
  refine ⟨boot_inv m h1 h2 h3, fun {nr t} hnr ht => ?_⟩
  have hnone : (Sys.boot lo hi m).task nr = none := if_neg (by omega)
  rw [hnone] at ht
  cases ht

theorem SysReach.loads (h1 : lowMem ≤ lo) (h2 : lo ≤ hi) (h3 : hi ≤ lowMem + pagingPages)
    (h : SysReach file (Careful file) lo hi s) : Loads file lo hi s := by
  refine Lib.Reach.invariant ?_ (fun s e s' D hc hs => step_loads D hc hs) h
  rintro _ ⟨m, rfl⟩
  exact boot_loads m h1 h2 h3

/-! ## The result -/

/-- The page at a linear address. -/
def pageAt (m : Mem) (address : Nat) : Nat → Word := m.ram (frame (entryAt m address))

/-- What `try_to_share` reads of a page of a slot is what the view shows. -/
theorem cellView_at (h1 : 1 ≤ nr) (h64 : nr < 64) {off : Nat} (hoff : off < 0x4000000)
    (hp : presentAt m (slotBase nr + off) = true)
    (hl : lowMem ≤ frame (entryAt m (slotBase nr + off))) :
    cellView m (dirIndex (slotBase nr + off)) (tableIndex (slotBase nr + off))
      = .page (dirty (entryAt m (slotBase nr + off))) (pageAt m (slotBase nr + off)) := by
  have hd := (slot_dirs h1 h64 hoff).1
  rw [pageAt, entryAt_eq hd hp] at *
  rw [presentAt_eq hd] at hp
  exact cellView_page hp hl

theorem pageAt_view (h1 : 1 ≤ nr) (h64 : nr < 64) {off : Nat} (hoff : off < 0x4000000) {b : Bool}
    {c : Nat → Word} (hv : cellView m (dirIndex (slotBase nr + off))
      (tableIndex (slotBase nr + off)) = .page b c) :
    presentAt m (slotBase nr + off) = true ∧ pageAt m (slotBase nr + off) = c := by
  have hd := (slot_dirs h1 h64 hoff).1
  obtain ⟨hp, -, -, hc⟩ := cellView_eq_page hv
  have hat := (presentAt_eq hd).trans hp
  exact ⟨hat, by rw [pageAt, entryAt_eq hd hat, hc]⟩

/-- The pages a task with an executable has are its own, none of the kernel's. -/
theorem Inv.entry_high (I : Inv file lo hi s) (h1 : 1 ≤ nr) (ht : s.task nr = some t) {ino off : Nat}
    (hex : t.executable = some ino) (hph : t.phase ≠ .closing) (hoff : off < 0x4000000)
    (hp : presentAt s.mem (slotBase nr + off) = true) :
    lowMem ≤ frame (entryAt s.mem (slotBase nr + off)) := by
  have G := I.good h1 ht
  have hd := (slot_dirs h1 G.slot hoff).1
  have h16 : off / 0x400000 < 16 := by omega
  have hhigh := (G.ready ino hex hph).2 _ h16 (tableIndex (slotBase nr + off))
  rw [← dirIndex_slot G.slot hoff] at hhigh
  rw [entryAt_eq hd hp]
  by_contra hno
  rw [presentAt_eq hd] at hp
  exact hhigh (by rw [cellView, if_pos hp, if_pos (Nat.lt_of_not_le hno)])

/-- SHARING AGREES WITH DEMAND LOADING as long as every step is careful. A clean entry below the
`end_data` of a task, once `do_execve` has set it, names a page that holds what the file holds; and
a page that `do_no_page` maps through `share_page` is the page it would have loaded. -/
theorem shared_page_is_loaded_page (h1 : lowMem ≤ lo) (h2 : lo ≤ hi)
    (h3 : hi ≤ lowMem + pagingPages) (h : SysReach file (Careful file) lo hi s) :
    (∀ nr t ino off, 1 ≤ nr → s.task nr = some t → t.executable = some ino → t.phase ≠ .closing →
      off < t.endData → off % 4096 = 0 → presentAt s.mem (slotBase nr + off) = true →
      dirty (entryAt s.mem (slotBase nr + off)) = false →
      pageAt s.mem (slotBase nr + off) = (file ino).image off t.endData) ∧
    ∀ nr off iCount t ino s', s.task nr = some t → t.executable = some ino →
      Careful file s (.noPage nr off iCount) → step file s (.noPage nr off iCount) = some s' →
      ∀ tmp, tmp = off / 4096 * 4096 → tmp < t.endData → 2 ≤ iCount →
      (∃ m', sharePage s.task nr ino tmp 63 s.mem = .ok true m') →
      presentAt s'.mem (slotBase nr + tmp) = true ∧
        pageAt s'.mem (slotBase nr + tmp) = (file ino).image tmp t.endData := by
  have D := h.loads h1 h2 h3
  have limit : ∀ {s nr t ino}, Loads file lo hi s → 1 ≤ nr → s.task nr = some t →
      t.executable = some ino → t.phase ≠ .closing → t.endData ≤ 0x3000000 := by
    intro s nr t ino D h1 ht hex hph
    have G := D.inv.good h1 ht
    obtain ⟨ha, hs⟩ := G.sane ino hex
    rw [(G.ready ino hex hph).1]
    exact (Program.limits ha hs).2
  refine ⟨fun nr t ino off hnr ht hex hph hlt hmod hp hd => ?_,
    fun nr off iCount t ino s' ht hex hc hs tmp htmp hlt hcount hshare => ?_⟩
  · have hmax := limit D hnr ht hex hph
    have hv := cellView_at hnr (D.inv.good hnr ht).slot (by omega) hp
      (D.inv.entry_high hnr ht hex hph (by omega) hp)
    rw [hd] at hv
    exact (D.faithful hnr ht).at (D.inv.good hnr ht).slot hex hph (by omega) hmod hlt hv
      (Or.inl rfl)
  · have D' := step_loads D hc hs
    obtain ⟨t0, ht0, hnr, hcond, hk⟩ := withTask_some hs
    obtain rfl : t = t0 := Option.some.inj (ht.symm.trans ht0)
    obtain ⟨hf, hoff, hp⟩ := of_decide_eq_true hcond
    have hph := (mayFault_iff hf).2.1
    have G := D.inv.good hnr ht
    have hmax := limit D hnr ht hex hph
    have ha := absent_page hnr G.slot (Nat.lt_of_lt_of_le hoff G.data) hp
    obtain ⟨m', hm⟩ := hshare
    rw [← htmp] at hk ha
    rcases sharePage_spec D.inv ino hnr G.slot (by omega) ha (n := 63) (by omega) with
      ⟨m1, p, t', c, hm1, -, -, -, -, -, -, -, C⟩ | hm1 | hm1
    · -- the memory after the step is the one `share_page` leaves
      have hs' : s' = { s with mem := m1 } := by
        unfold noPage at hk
        rw [hex] at hk
        dsimp only at hk
        rw [if_neg (by omega), if_neg (by omega), hm1] at hk
        cases hk
        rfl
      subst hs'
      obtain ⟨hat, hpage⟩ := pageAt_view hnr G.slot (by omega) C.here
      refine ⟨hat, hpage.trans ?_⟩
      exact (D'.faithful hnr ht).at G.slot hex hph (by omega) (by omega) hlt C.here (Or.inl rfl)
    · rw [hm1] at hm
      cases hm
    · rw [hm1] at hm
      cases hm

/-! ## Two runs -/

/-- Files of one page of text; every word of it is the number of the inode. -/
def wordFile (ino : Nat) : Program :=
  ⟨⟨zmagic, 0x1000, 0, 0, 0, 0, 0⟩, 0x1400, fun _ _ => BitVec.ofNat 32 ino⟩

theorem wordFile_sane (s : Sys) (e : Event) : SaneStep wordFile s e := by
  intro nr ino _
  exact (by decide : 0x1000 + 0 + 0 < 2 ^ 32)

/-- Task 1 of `firstChild` between the two halves of `do_execve`. -/
def execStarted : Sys :=
  firstChild.setTask 1 { initTask with page := 4095, executable := some 5, phase := .closing }

/-- Task 1 with the program of inode 5 and an empty region. -/
def execCleared : Sys :=
  Sys.setTask
    ⟨((execStarted.mem.fill 4094 fun i => if i < 1024 then 0 else execStarted.mem.ram 4094 i).setCount
        (mapNr 4094) (execStarted.mem.memMap (mapNr 4094) - 1)).poke 0 16 0,
      execStarted.held, execStarted.task⟩ 1
    { initTask with page := 4095, executable := some 5, endData := 0x1000, codeLimit := 0x1000,
                    dataLimit := 0x4000000, phase := .zeroing 0x1000 }

/-- `do_execve` of the first child: its old region holds pages of the kernel only. -/
theorem step_execCleared : step wordFile execStarted (.execFinish 1 []) = some execCleared := by
  have hrow : ∀ i < 1024, present (execStarted.mem.ram 4094 i) = true →
      frame (execStarted.mem.ram 4094 i) < lowMem := by
    intro i _ hp
    have he : execStarted.mem.ram 4094 i = if i < 0xA0 then userEntry i &&& ~~~2 else 0 := rfl
    rw [he] at hp ⊢
    split
    · next h =>
      rw [frame_clear, frame_userEntry (by omega), lowMem]
      omega
    · next h =>
      rw [if_neg h] at hp
      cases hp
  rw [step_execFinish_kernel (t := 4094) (by decide) (by decide) rfl rfl rfl rfl rfl
    (by decide) (by decide) rfl (by decide) (by decide) (by decide) (by decide) hrow]
  rfl

/-- Task 2 is a child of task 1, which has no page yet. -/
def bothEmpty : Sys :=
  (Lib.run (step wordFile) execCleared [.execDone 1, .fork 1 2]).getD execCleared

/-- Task 1 has loaded the page of its program. -/
def pageLoaded : Sys :=
  (Lib.run (step wordFile) bothEmpty [.noPage 1 0 0, .loaded 1]).getD bothEmpty

/-- Now both tasks execute the file of inode 6: task 1 sleeps in `sys_close`, task 2 is through. -/
def oneClosing : Sys :=
  (Lib.run (step wordFile) pageLoaded
    [.execSet 1 6, .execSet 2 6, .execFinish 2 [], .execDone 2]).getD pageLoaded

/-- Task 2 after its page fault. -/
def wronglyShared : Sys := (step wordFile oneClosing (.noPage 2 0 2)).getD oneClosing

/-- A fault is careful when no task is in the middle of `do_execve`. -/
theorem careful_noPage (I : Inv file lo hi s) {off iCount : Nat}
    (h : ∀ q < 64, (s.task q).all fun t => t.phase ≠ .closing) :
    Careful file s (.noPage nr off iCount) := by
  intro q t t' _ ht' _
  have hq : q < 64 := by
    by_cases h0 : q = 0
    · omega
    · exact (I.good (by omega) ht').slot
  have := h q hq
  rw [ht', Option.all_some] at this
  exact of_decide_eq_true this

theorem reach_pageLoaded : SysReach wordFile (Careful wordFile) 4086 4096 pageLoaded := by
  have h0 : SysReach wordFile (Careful wordFile) 4086 4096 firstChild :=
    .next (.fork 0 1) (.start ⟨_, rfl⟩) trivial (step_firstChild _)
  have h1 : SysReach wordFile (Careful wordFile) 4086 4096 execStarted :=
    .next (.execSet 1 5) h0 (wordFile_sane tenPages (.execSet 1 5) 1 5 rfl) rfl
  have h2 : SysReach wordFile (Careful wordFile) 4086 4096 execCleared :=
    .next (.execFinish 1 []) h1 trivial step_execCleared
  have h3 : SysReach wordFile (Careful wordFile) 4086 4096 bothEmpty := by
    refine .next (.fork 1 2) (.next (.execDone 1) h2 trivial rfl) trivial ?_
    rfl
  have I3 := (h3.loads (by decide) (by decide) (by decide)).inv
  have hfault : Careful wordFile bothEmpty (.noPage 1 0 0) :=
    careful_noPage I3 (by decide +kernel)
  refine .next (.loaded 1) (.next (.noPage 1 0 0) h3 hfault rfl) trivial ?_
  rfl

/-- `share_page` mapped a page, read off its evaluation. -/
theorem shares_of_eq {r : Res Bool}
    (h : (match r with | .ok done _ => done | _ => false) = true) : ∃ m', r = .ok true m' := by
  cases r with
  | ok done m' => exact ⟨m', by rw [← h]⟩
  | panic msg m' => cases h
  | oom m' => cases h

/-- A task that faults while another one sleeps in `do_execve` gets a page of the wrong program. -/
theorem share_page_of_closing_task : ∃ s s' t,
    SysReach wordFile (SaneStep wordFile) 4086 4096 s ∧ s.task 2 = some t ∧
    t.executable = some 6 ∧ t.phase = .running ∧ 0 < t.endData ∧
    step wordFile s (.noPage 2 0 2) = some s' ∧
    (∃ m', sharePage s.task 2 6 0 63 s.mem = .ok true m') ∧
    presentAt s'.mem (slotBase 2) = true ∧ dirty (entryAt s'.mem (slotBase 2)) = false ∧
    pageAt s'.mem (slotBase 2) ≠ (wordFile 6).image 0 t.endData := by
  have hreach : SysReach wordFile (SaneStep wordFile) 4086 4096 oneClosing :=
    Lib.Reach.ofRun wordFile_sane (reach_pageLoaded.mono fun _ _ => Careful.sane) (show Lib.run (step wordFile) pageLoaded
      [.execSet 1 6, .execSet 2 6, .execFinish 2 [], .execDone 2] = some oneClosing from rfl)
  refine ⟨oneClosing, wronglyShared, _, hreach, rfl, rfl, rfl, by decide, rfl,
    shares_of_eq rfl, rfl, rfl, ?_⟩
  intro h
  have h5 : pageAt wronglyShared.mem (slotBase 2) 0 = 5#32 := rfl
  rw [h] at h5
  cases h5

/-- The child of a task that has loaded its page shares that page, and it is the right one. -/
theorem shared_page_is_loaded_page_ofParent :
    presentAt (((step wordFile pageLoaded (.noPage 2 0 2)).getD pageLoaded).mem) (slotBase 2 + 0)
      = true ∧
    pageAt (((step wordFile pageLoaded (.noPage 2 0 2)).getD pageLoaded).mem) (slotBase 2 + 0)
      = (wordFile 5).image 0 0x1000 := by
  have hreach := reach_pageLoaded
  have I := (hreach.loads (by decide) (by decide) (by decide)).inv
  have hfault : Careful wordFile pageLoaded (.noPage 2 0 2) :=
    careful_noPage I (by decide +kernel)
  have key := (shared_page_is_loaded_page (by decide) (by decide) (by decide) hreach).2 2 0 2 _ 5
    ((step wordFile pageLoaded (.noPage 2 0 2)).getD pageLoaded) rfl rfl hfault rfl 0 rfl
    (by decide) (by decide) (shares_of_eq rfl)
  exact key

end Linux011.Mm

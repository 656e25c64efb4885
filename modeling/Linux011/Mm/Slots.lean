import Linux011.Mm.Process

/-!
# Task slots

The invariant of the task machine. `Good` says what holds of one task: its tables lie inside its
limits, the entry it sleeps for is absent, and the pages it holds are its own. `Inv` puts the tasks
together over the invariant of the memory manager.

Nearly every event belongs to one slot and touches that slot only (`Local`): no other task sees a
different byte or a different dirty bit. The rules of this module turn such a change into the
invariant of the next state; the module after it shows that the events are such changes.
-/

namespace Linux011.Mm

variable {lo hi : Nat} {m m' : Mem} {held : Nat → Bool}

/-! ## Addresses -/

theorem dirIndex_slot {nr off : Nat} (h : nr < 64) (ho : off < 0x4000000) :
    dirIndex (slotBase nr + off) = 16 * nr + off / 0x400000 := by
  simp only [dirIndex, slotBase, Nat.shiftRight_eq_div_pow]
  omega

theorem tableIndex_slot {nr off : Nat} :
    tableIndex (slotBase nr + off) = off / 4096 % 1024 := by
  simp only [tableIndex, slotBase, Nat.shiftRight_eq_div_pow]
  omega

theorem slot_dirs {nr o : Nat} (h1 : 1 ≤ nr) (h : nr < 64) (ho : o < 0x4000000) :
    dirIndex (slotBase nr + o) ∈ dirs ∧ dirIndex (slotBase nr + o) / 16 = nr := by
  rw [dirIndex_slot h ho, mem_dirs]
  omega

theorem presentAt_eq {address : Nat} (hd : dirIndex address ∈ dirs) :
    presentAt m address = present (m.pte (dirIndex address) (tableIndex address)) := by
  unfold presentAt entryAt
  rw [present_ram hd, ← dirv_eq hd]
  cases h : present (m.dirv (dirIndex address)) with
  | false =>
    rw [pte_absent h]
    rfl
  | true =>
    rw [pte_eq h (tableIndex_lt address)]
    rfl

theorem entryAt_eq {address : Nat} (hd : dirIndex address ∈ dirs)
    (hp : presentAt m address = true) :
    entryAt m address = m.pte (dirIndex address) (tableIndex address) := by
  have hp' := (presentAt_eq hd).symm.trans hp
  rw [entryAt, ← dirv_eq hd, pte_ram hp']

theorem absent_of_dirv {d i : Nat} (h : present (m.dirv d) = false) : cellView m d i = .absent := by
  rw [cellView_absent, pte_absent h]
  rfl

/-! ## The invariant -/

/-- The pages a task holds: its `task_struct`, the page it loads, and its argument pages. -/
def Task.pages (t : Task) : List Nat :=
  t.page :: (t.loading.toList.map Prod.snd ++ t.args.map Prod.snd)

/-- The pages held by the task of a slot. -/
def Sys.pages (s : Sys) (nr : Nat) : List Nat :=
  match s.task nr with
  | some t => t.pages
  | none => []

/-- No table of the slot is there. -/
def Empty (m : Mem) (nr : Nat) : Prop := ∀ k < 16, present (m.dirv (16 * nr + k)) = false

/-- No entry of the slot names a page below `LOW_MEM`. -/
def High (m : Mem) (nr : Nat) : Prop := ∀ k < 16, ∀ i, cellView m (16 * nr + k) i ≠ .low

/-- What holds of one task. -/
structure Good (file : Nat → Program) (m : Mem) (held : Nat → Bool) (nr : Nat) (t : Task) :
    Prop where
  slot : nr < 64
  code : t.codeLimit ≤ 0x4000000
  data : t.dataLimit ≤ 0x4000000
  beyond : ∀ k < 16, blocks t.dataLimit ≤ k → present (m.dirv (16 * nr + k)) = false
  zombie : t.phase = .zombie → Empty m nr ∧ t.executable = none
  sane : ∀ ino, t.executable = some ino → (file ino).Accepted ∧ (file ino).Sane
  ready : ∀ ino, t.executable = some ino → t.phase ≠ .closing →
    t.endData = (file ino).endData ∧ High m nr
  zeroing : ∀ i, t.phase = .zeroing i → t.executable ≠ none
  loading : ∀ tmp page, t.loading = some (tmp, page) → tmp < t.dataLimit ∧ tmp % 4096 = 0 ∧
    t.phase ≠ .closing ∧ tmp < t.endData ∧
    cellView m (dirIndex (slotBase nr + tmp)) (tableIndex (slotBase nr + tmp)) = .absent
  once : t.pages.Nodup
  owns : ∀ f ∈ t.pages, held f = true

/-- The invariant of the task machine. -/
structure Inv (file : Nat → Program) (lo hi : Nat) (s : Sys) : Prop where
  sound : Sound lo hi s.mem s.held
  zero : s.task 0 = some initTask
  good : ∀ {nr t}, 1 ≤ nr → s.task nr = some t → Good file s.mem s.held nr t
  free : ∀ {nr}, 1 ≤ nr → nr < 64 → s.task nr = none → Empty s.mem nr
  apart : ∀ {nr nr'}, 1 ≤ nr → 1 ≤ nr' → nr ≠ nr' → ∀ f ∈ s.pages nr, f ∉ s.pages nr'

/-- What an entry may become without its task: what it was, or a copy of its page. -/
def Tame (v v' : View) : Prop := v' = v ∨ (v ≠ .absent ∧ v' ≠ .absent ∧ v' ≠ .low)

theorem Tame.absent {v v' : View} (h : Tame v v') (hv : v = .absent) : v' = .absent := by
  rcases h with rfl | ⟨h, -⟩
  · exact hv
  · exact absurd hv h

theorem Tame.high {v v' : View} (h : Tame v v') (hv : v ≠ .low) : v' ≠ .low := by
  rcases h with rfl | ⟨-, -, h⟩
  · exact hv
  · exact h

variable {file : Nat → Program} {s s' : Sys}

/-- A good task of a slot that nobody touched stays good. -/
theorem Good.tame {nr : Nat} {t : Task} {held' : Nat → Bool} (G : Good file m held nr t)
    (hd : ∀ k < 16, m'.dirv (16 * nr + k) = m.dirv (16 * nr + k))
    (hv : ∀ k < 16, ∀ i, Tame (cellView m (16 * nr + k) i) (cellView m' (16 * nr + k) i))
    (hh : ∀ f ∈ t.pages, held' f = true) : Good file m' held' nr t := by
  refine { G with beyond := ?_, zombie := ?_, ready := ?_, loading := ?_, owns := hh }
  · intro k hk hb
    rw [hd k hk]
    exact G.beyond k hk hb
  · intro hz
    refine ⟨fun k hk => ?_, (G.zombie hz).2⟩
    rw [hd k hk]
    exact (G.zombie hz).1 k hk
  · intro ino hino hph
    obtain ⟨he, hhigh⟩ := G.ready ino hino hph
    exact ⟨he, fun k hk i => (hv k hk i).high (hhigh k hk i)⟩
  · intro tmp page hl
    obtain ⟨h1, h2, h3, h4, h5⟩ := G.loading tmp page hl
    have hdir := dirIndex_slot G.slot (Nat.lt_of_lt_of_le h1 G.data)
    have hk : tmp / 0x400000 < 16 := by
      have := G.data
      omega
    refine ⟨h1, h2, h3, h4, ?_⟩
    rw [hdir] at h5 ⊢
    exact (hv _ hk _).absent h5

/-- THE INVARIANT RULE of the task machine: an event that changes slot `nr` and is tame elsewhere
keeps the invariant when slot `nr` is good afterwards. -/
theorem Inv.change (I : Inv file lo hi s) {nr : Nat} (h1 : 1 ≤ nr)
    (S : Sound lo hi s'.mem s'.held) (ht : ∀ q, q ≠ nr → s'.task q = s.task q)
    (hd : ∀ d, d / 16 ≠ nr → s'.mem.dirv d = s.mem.dirv d)
    (hv : ∀ d i, d / 16 ≠ nr → Tame (cellView s.mem d i) (cellView s'.mem d i))
    (hheld : ∀ f, s.held f = true → f ∉ s.pages nr → s'.held f = true)
    (hpages : ∀ f ∈ s'.pages nr, f ∈ s.pages nr ∨ s.held f = false)
    (hgood : ∀ t, s'.task nr = some t → Good file s'.mem s'.held nr t)
    (hfree : s'.task nr = none → Empty s'.mem nr) : Inv file lo hi s' := by
  have hpag : ∀ q, q ≠ nr → s'.pages q = s.pages q := fun q hq => by
    rw [Sys.pages, Sys.pages, ht q hq]
  have hown : ∀ q, 1 ≤ q → ∀ f ∈ s.pages q, s.held f = true := by
    intro q hq f hf
    unfold Sys.pages at hf
    split at hf
    · next t htq => exact (I.good hq htq).owns f hf
    · cases hf
  refine ⟨S, ?_, fun {q t} hq htq => ?_, fun {q} hq hq64 htq => ?_, fun {q q'} hq hq' hne f hf => ?_⟩
  · rw [ht 0 (by omega)]
    exact I.zero
  · by_cases hqn : q = nr
    · subst hqn
      exact hgood t htq
    · rw [ht q hqn] at htq
      refine (I.good hq htq).tame (fun k _ => hd _ (by omega)) (fun k _ i => hv _ i (by omega)) ?_
      intro f hf
      have hfq : f ∈ s.pages q := by
        rw [Sys.pages, htq]
        exact hf
      exact hheld f (hown q hq f hfq) (I.apart hq h1 hqn f hfq)
  · by_cases hqn : q = nr
    · subst hqn
      exact hfree htq
    · rw [ht q hqn] at htq
      intro k hk
      rw [hd _ (by omega)]
      exact I.free hq hq64 htq k hk
  · by_cases hqn : q = nr
    · subst hqn
      rw [hpag q' fun h => hne h.symm]
      rcases hpages f hf with h | h
      · exact I.apart hq hq' hne f h
      · intro hf'
        rw [hown q' hq' f hf'] at h
        cases h
    · rw [hpag q hqn] at hf
      by_cases hqn' : q' = nr
      · subst hqn'
        intro hf'
        rcases hpages f hf' with h | h
        · exact I.apart hq hq' hne f hf h
        · rw [hown q hq f hf] at h
          cases h
      · rw [hpag q' hqn']
        exact I.apart hq hq' hne f hf

/-! ## Events of one slot -/

/-- Outside slot `nr` every task, every table and every view is as it was. -/
structure Local (s s' : Sys) (nr : Nat) : Prop where
  task : ∀ q, q ≠ nr → s'.task q = s.task q
  dirv : ∀ d, d / 16 ≠ nr → s'.mem.dirv d = s.mem.dirv d
  view : ∀ d i, d / 16 ≠ nr → cellView s'.mem d i = cellView s.mem d i

theorem Local.refl (s : Sys) (nr : Nat) : Local s s nr :=
  ⟨fun _ _ => rfl, fun _ _ => rfl, fun _ _ _ => rfl⟩

theorem Local.trans {u : Sys} {nr : Nat} (h : Local s u nr) (h' : Local u s' nr) :
    Local s s' nr :=
  ⟨fun q hq => (h'.task q hq).trans (h.task q hq), fun d hd => (h'.dirv d hd).trans (h.dirv d hd),
    fun d i hd => (h'.view d i hd).trans (h.view d i hd)⟩

/-- A change of memory that shows in slot `nr` alone, and of the task there. -/
theorem Local.of (nr : Nat) (held' : Nat → Bool) (t : Task)
    (hd : ∀ d, d / 16 ≠ nr → m'.dirv d = s.mem.dirv d)
    (hv : ∀ d i, d / 16 ≠ nr → cellView m' d i = cellView s.mem d i) :
    Local s (Sys.setTask ⟨m', held', s.task⟩ nr t) nr :=
  ⟨fun _ hq => Function.update_of_ne hq _ _, hd, hv⟩

@[simp] theorem setTask_self (s : Sys) (nr : Nat) (t : Task) :
    (s.setTask nr t).task nr = some t := Function.update_self ..

theorem pages_of {nr : Nat} {t : Task} (h : s.task nr = some t) : s.pages nr = t.pages := by
  rw [Sys.pages, h]

/-- The invariant rule for a change of one slot. -/
theorem Inv.local (I : Inv file lo hi s) {nr : Nat} {t : Task} (h1 : 1 ≤ nr)
    (S : Sound lo hi s'.mem s'.held) (L : Local s s' nr) (ht : s'.task nr = some t)
    (hheld : ∀ f, s.held f = true → f ∉ s.pages nr → s'.held f = true)
    (hpages : ∀ f ∈ t.pages, f ∈ s.pages nr ∨ s.held f = false)
    (hgood : Good file s'.mem s'.held nr t) : Inv file lo hi s' := by
  refine I.change h1 S L.task L.dirv (fun d i hd => Or.inl (L.view d i hd)) hheld ?_ ?_ ?_
  · rw [pages_of ht]
    exact hpages
  · intro t' ht'
    rw [ht] at ht'
    cases ht'
    exact hgood
  · intro hn
    rw [ht] at hn
    cases hn

/-- The task of slot `nr` has become a zombie. -/
structure Exited (file : Nat → Program) (lo hi : Nat) (s s' : Sys) (nr : Nat) : Prop where
  inv : Inv file lo hi s'
  only : Local s s' nr
  zombie : ∃ t, s'.task nr = some t ∧ t.executable = none ∧ t.phase = .zombie

/-- `do_exit`, from whatever the task had come to in its own slot. -/
theorem doExit_spec (I : Inv file lo hi s) {u : Sys} {nr : Nat} {t k : Task} (h1 : 1 ≤ nr)
    (ht : s.task nr = some t) (S : Sound lo hi u.mem u.held) (L : Local s u nr)
    (hheld : ∀ f, s.held f = true → f ∉ s.pages nr → u.held f = true)
    (hpage : k.page = t.page) (hown : u.held t.page = true)
    (hcode : k.codeLimit ≤ 0x4000000) (hdata : k.dataLimit ≤ 0x4000000)
    (hbeyond : ∀ j < 16, blocks k.dataLimit ≤ j → present (u.mem.dirv (16 * nr + j)) = false) :
    ∃ s', doExit u nr k = some s' ∧ Exited file lo hi s s' nr := by
  have G := I.good h1 ht
  obtain ⟨m1, hm1, S1, gone1, rest1, keep1, -⟩ := freePageTables_view S h1 G.slot hcode
  obtain ⟨m2, hm2, S2, gone2, rest2, keep2, -⟩ := freePageTables_view S1 h1 G.slot hdata
  have hempty : Empty m2 nr := by
    intro j hj
    by_cases hb : j < blocks k.dataLimit
    · exact gone2 j hb
    · rw [keep2 j hj (by omega)]
      by_cases hc : j < blocks k.codeLimit
      · exact gone1 j hc
      · rw [keep1 j hj (by omega)]
        exact hbeyond j hj (by omega)
  let z : Task := { k with executable := none, args := [], loading := none, phase := .zombie }
  have hz : z.pages = [t.page] := by
    rw [← hpage]
    rfl
  have L' : Local s (Sys.setTask { u with mem := m2 } nr z) nr := by
    refine L.trans ⟨fun q hq => Function.update_of_ne hq _ _, fun d hd => ?_, fun d i hd => ?_⟩
    · exact (rest2 d hd).1.trans (rest1 d hd).1
    · exact ((rest2 d hd).2 i).trans ((rest1 d hd).2 i)
  have hs : doExit u nr k = some (Sys.setTask { u with mem := m2 } nr z) := by
    simp only [doExit, hm1, hm2]
    rfl
  refine ⟨_, hs, ?_, L', z, setTask_self _ _ _, rfl, rfl⟩
  refine I.local h1 S2 L' (setTask_self _ _ _) hheld ?_ ?_
  · intro f hf
    rw [hz, List.mem_singleton] at hf
    rw [pages_of ht, hf]
    exact Or.inl List.mem_cons_self
  · refine { slot := G.slot, code := hcode, data := hdata, beyond := fun k hk _ => hempty k hk,
             zombie := fun _ => ⟨hempty, rfl⟩, sane := fun _ h => (nomatch h),
             ready := fun _ h => (nomatch h), zeroing := fun _ h => (nomatch h),
             loading := fun _ _ h => (nomatch h), once := ?_, owns := ?_ }
    · rw [hz]
      exact List.nodup_singleton _
    · intro f hf
      rw [hz, List.mem_singleton] at hf
      rw [hf]
      exact hown

/-- One entry shows `v` now, all others show what they showed; only its own table may be new. -/
structure Cell (m m' : Mem) (d i : Nat) (v : View) : Prop where
  here : cellView m' d i = v
  rest : ∀ d2 i2, ¬ (d2 = d ∧ i2 = i) → cellView m' d2 i2 = cellView m d2 i2
  dirv : ∀ d2, d2 ≠ d → m'.dirv d2 = m.dirv d2

theorem blocks_of_offset {off size : Nat} (h : off < size) (hs : size ≤ 0x4000000) :
    off / 0x400000 < blocks size := by
  simp only [blocks, Nat.shiftRight_eq_div_pow]
  omega

theorem Cell.other {d i : Nat} {v : View} {nr : Nat} (C : Cell m m' d i v) (hd : d / 16 = nr) :
    (∀ d2, d2 / 16 ≠ nr → m'.dirv d2 = m.dirv d2) ∧
      ∀ d2 i2, d2 / 16 ≠ nr → cellView m' d2 i2 = cellView m d2 i2 := by
  have hne : ∀ d2, d2 / 16 ≠ nr → d2 ≠ d := fun d2 h2 h => h2 (h ▸ hd)
  exact ⟨fun d2 h2 => C.dirv d2 (hne d2 h2), fun d2 i2 h2 => C.rest d2 i2 fun h => hne d2 h2 h.1⟩

/-- A live task stays good when a page appears or changes inside its limits. -/
theorem Good.cell {nr off : Nat} {t : Task} {v : View} {held' : Nat → Bool}
    (G : Good file m held nr t) (hph : t.phase ≠ .zombie) (hoff : off < t.dataLimit)
    (C : Cell m m' (dirIndex (slotBase nr + off)) (tableIndex (slotBase nr + off)) v)
    (hv : v ≠ .low) (hown : ∀ f ∈ ({ t with loading := none } : Task).pages, held' f = true) :
    Good file m' held' nr { t with loading := none } := by
  have hdata := G.data
  have hdir := dirIndex_slot G.slot (Nat.lt_of_lt_of_le hoff hdata)
  have hblk := blocks_of_offset hoff hdata
  refine { slot := G.slot, code := G.code, data := G.data, beyond := ?_, zombie := ?_,
           sane := G.sane, ready := ?_, zeroing := G.zeroing, loading := ?_, once := ?_,
           owns := hown }
  · intro k hk hb
    have hne : 16 * nr + k ≠ dirIndex (slotBase nr + off) := by
      rw [hdir]
      have : blocks t.dataLimit ≤ k := hb
      omega
    rw [C.dirv _ hne]
    exact G.beyond k hk hb
  · exact fun h => absurd h hph
  · intro ino hino hcl
    obtain ⟨he, hhigh⟩ := G.ready ino hino hcl
    refine ⟨he, fun k hk j => ?_⟩
    by_cases h : 16 * nr + k = dirIndex (slotBase nr + off) ∧ j = tableIndex (slotBase nr + off)
    · rw [h.1, h.2, C.here]
      exact hv
    · rw [C.rest _ _ h]
      exact hhigh k hk j
  · exact fun _ _ h => nomatch h
  · have := G.once
    simp only [Task.pages, Option.toList_none, List.map_nil, List.nil_append] at this ⊢
    rw [List.nodup_cons, List.mem_append, List.nodup_append] at this
    rw [List.nodup_cons]
    exact ⟨fun h => this.1 (Or.inr h), this.2.2.1⟩

/-- The pages that stay when a task stops loading. -/
theorem pages_loading {t : Task} {f : Nat} (h : f ∈ ({ t with loading := none } : Task).pages) :
    f ∈ t.pages := by
  simp only [Task.pages, Option.toList_none, List.map_nil, List.nil_append, List.mem_cons,
    List.mem_append] at h ⊢
  rcases h with h | h
  · exact Or.inl h
  · exact Or.inr (Or.inr h)

/-- A page appears or changes at offset `off` of slot `nr`; the task is not loading any more. -/
theorem Inv.cell (I : Inv file lo hi s) {nr off : Nat} {t : Task} {v : View}
    {held' : Nat → Bool} (h1 : 1 ≤ nr) (ht : s.task nr = some t) (hph : t.phase ≠ .zombie)
    (hoff : off < t.dataLimit) (S : Sound lo hi m' held')
    (C : Cell s.mem m' (dirIndex (slotBase nr + off)) (tableIndex (slotBase nr + off)) v)
    (hv : v ≠ .low) (hheld : ∀ f, s.held f = true → f ∉ t.pages → held' f = true)
    (hown : ∀ f ∈ ({ t with loading := none } : Task).pages, held' f = true) :
    Inv file lo hi (Sys.setTask ⟨m', held', s.task⟩ nr { t with loading := none }) ∧
      Local s (Sys.setTask ⟨m', held', s.task⟩ nr { t with loading := none }) nr := by
  have G := I.good h1 ht
  have hdir := (slot_dirs h1 G.slot (Nat.lt_of_lt_of_le hoff G.data)).2
  obtain ⟨hd, hvw⟩ := C.other hdir
  have L := Local.of (s := s) nr held' { t with loading := none } hd hvw
  refine ⟨I.local h1 S L (setTask_self _ _ _) ?_ ?_ ?_, L⟩
  · rw [pages_of ht]
    exact hheld
  · intro f hf
    rw [pages_of ht]
    exact Or.inl (pages_loading hf)
  · exact G.cell hph hoff C hv hown

/-- Writing a task back where it stands changes nothing. -/
theorem setTask_same {nr : Nat} {t : Task} (ht : s.task nr = some t) (m : Mem)
    (held : Nat → Bool) : Sys.setTask ⟨m, held, s.task⟩ nr t = ⟨m, held, s.task⟩ := by
  rw [Sys.setTask, ← ht, Function.update_eq_self]

/-- A task that loads nothing. -/
theorem loading_none {t : Task} (h : t.loading = none) : ({ t with loading := none } : Task) = t := by
  rw [← h]

/-- Everything is tame: no table, no task and no held page changes. -/
theorem Inv.tame (I : Inv file lo hi s) (S : Sound lo hi m' s.held)
    (hd : m'.dirv = s.mem.dirv)
    (hv : ∀ d i, Tame (cellView s.mem d i) (cellView m' d i)) :
    Inv file lo hi { s with mem := m' } := by
  refine ⟨S, I.zero, fun h1 ht => ?_, fun h1 h2 ht k hk => ?_, I.apart⟩
  · exact (I.good h1 ht).tame (fun k _ => by rw [hd]) (fun k _ i => hv _ i) (I.good h1 ht).owns
  · show present (m'.dirv _) = false
    rw [hd]
    exact I.free h1 h2 ht k hk

end Linux011.Mm

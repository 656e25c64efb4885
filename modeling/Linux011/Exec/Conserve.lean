import Linux011.Exec.Execve

/-!
# No page is lost in `do_execve` (`fs/exec.c`)

The exits of `do_execve` differ in what is held there: argument pages under some of the 32 indices, a
reference to the inode of the file or none, and pages that faults have brought while the strings were
read. `Gathering` says what is held at a place, and each function of the way is a step from one such
state to the next; an exit is right when it comes out with no reference and no page.

A fault is no part of this account. It may happen at any read, so what is to last over it is said
once (`Lasting`), and the functions that only read the memory of the task keep all of it.

Behind the point of no return the question is whether `put_page` can fail, which nobody looks at. It
can need one page, for the page table of the last four megabytes. The path came out of the memory of
the task, so the old region had a page table; `free_page_tables` has given that back, and nothing
sleeps in between.
-/

namespace Linux011.Exec.Execve

open Lib (Prog Triple Keeps sub32)
open Lib.Prog (read modify stop when)
open Mm (Sys Sound Grown Dead Empty slotBase present frame presentAt lowMem pagingPages)
open Script (Block)

variable {lo hi : Nat} {cur : Fin 64} {file : Nat → Mm.Program}
  {block : Inode.Dev → Fs.Block → Option Block} {watch : Empty → Bool} {P : State → Prop}

/-! ## Faults -/

/-- The task may take a fault. -/
structure Ready (lo hi : Nat) (cur : Fin 64) (s : State) : Prop where
  sound : Sound lo hi s.sys.mem s.sys.held
  task : ∃ t, s.sys.task cur = some t ∧ t.loading = none ∧ t.dataLimit ≤ 0x4000000

def State.withMem (s : State) (m : Mm.Mem) : State := { s with sys := { s.sys with mem := m } }

/-- No page table has been added behind the data segment of the task. -/
def Inside (cur : Fin 64) (sys : Sys) (m : Mm.Mem) : Prop :=
  ∀ t, sys.task cur = some t → ∀ k < 16, Mm.blocks t.dataLimit ≤ k →
    m.dirv (16 * cur + k) = sys.mem.dirv (16 * cur + k)

/-- What stays true when pages appear in the data segment of the task. -/
structure Lasting (lo hi : Nat) (cur : Fin 64) (P : State → Prop) : Prop where
  ready : ∀ {s}, P s → Ready lo hi cur s
  grow : ∀ {s m}, P s → Sound lo hi m s.sys.held → Grown s.sys.mem cur m → Inside cur s.sys m →
    P (s.withMem m)

theorem fetch_spec {α : Type} {f : State → Option α} :
    Triple watch P (fetch f) fun a s => f s = some a ∧ P s := by
  refine Triple.read.bind fun o => ?_
  cases o with
  | none => exact .stop
  | some a => exact .pure fun _ h => h

/-- Some page table of the task's region is there. -/
def There (cur : Fin 64) (s : State) : Prop :=
  ∃ k < 16, present (s.sys.mem.dirv (16 * cur + k)) = true

theorem There.of_present {s : State} {off : Nat} (hoff : off < 0x4000000) (h1 : 1 ≤ cur.val)
    (h : presentAt s.sys.mem (slotBase cur + off) = true) : There cur s := by
  have hd := Mm.slot_dirs h1 cur.isLt hoff
  rw [Mm.presentAt_eq hd.1] at h
  refine ⟨Mm.dirIndex (slotBase cur + off) % 16, Nat.mod_lt _ (by decide), ?_⟩
  rw [show 16 * cur.val + Mm.dirIndex (slotBase cur + off) % 16 = Mm.dirIndex (slotBase cur + off) by
    omega]
  exact (Mm.pte_dir h).1

theorem There.grow {s : State} {m : Mm.Mem} (h : There cur s) (G : Grown s.sys.mem cur m) :
    There cur (s.withMem m) := by
  obtain ⟨k, hk, hp⟩ := h
  refine ⟨k, hk, ?_⟩
  show present (m.dirv (16 * cur + k)) = true
  rw [G.dirv _ (Or.inr hp)]
  exact hp

theorem Lasting.there (L : Lasting lo hi cur P) : Lasting lo hi cur fun s => P s ∧ There cur s where
  ready h := L.ready h.1
  grow h S G I := ⟨L.grow h.1 S G I, h.2.grow G⟩

section

variable (h1 : 1 ≤ cur.val)

include h1

/-- THE FAULT STEP: it kills the task, or the page is there and what lasts is still true. -/
theorem doNoPage_spec (L : Lasting lo hi cur P) (off : Nat) :
    Triple watch (fun s => (presentAt s.sys.mem (slotBase cur + off) = false ∧
        ∀ t, s.sys.task cur = some t → off < t.dataLimit) ∧ P s)
      (doNoPage cur file off)
      fun _ s => P s ∧ presentAt s.sys.mem (slotBase cur + off) = true := by
  unfold doNoPage
  refine fetch_spec.bind fun sys => ?_
  refine Triple.bind (Q := fun _ s => Dead s.sys cur ∨
    (P s ∧ presentAt s.sys.mem (slotBase cur + off) = true)) (.modify ?_) fun _ => ?_
  · rintro s ⟨hserve, ⟨habs, hlt⟩, hP⟩
    obtain ⟨S, t, ht, hl, hd⟩ := L.ready hP
    have hoff := Nat.lt_of_lt_of_le (hlt t ht) hd
    refine (Mm.serveNoPage_spec S h1 cur.isLt ht hl hoff habs hserve).imp_right fun V => ?_
    have hsys : sys = { s.sys with mem := sys.mem } := by
      cases sys
      cases V.task
      cases V.held
      rfl
    have hsound := V.sound
    rw [V.held] at hsound
    have inside : Inside cur s.sys sys.mem := by
      intro u hu k hk hb
      refine V.dirv _ ?_
      have hu' := hlt u hu
      rw [Mm.dirIndex_slot cur.isLt hoff]
      simp only [Mm.blocks, Nat.shiftRight_eq_div_pow] at hb
      rw [ht] at hu
      cases hu
      omega
    refine ⟨by rw [hsys]; exact L.grow hP hsound V.grown inside, ?_⟩
    show presentAt sys.mem _ = true
    rw [Mm.presentAt_eq (Mm.slot_dirs h1 cur.isLt hoff).1]
    exact V.there
  · refine fetch_spec.bind fun t => .ite (fun _ => .stop) fun hz => .pure ?_
    rintro s ⟨ht, ⟨z, hz', hphase, -⟩ | h⟩
    · rw [ht] at hz'
      cases hz'
      exact absurd hphase hz
    · exact h

theorem touch_spec (L : Lasting lo hi cur P) (off : Nat) :
    Triple watch P (touch cur file off) fun _ s =>
      (P s ∧ presentAt s.sys.mem (slotBase cur + off) = true) ∧ off < 0x4000000 := by
  unfold touch
  refine fetch_spec.bind fun t => .ite (fun _ => .stop) fun hlt => ?_
  refine Triple.read.bind fun there => ?_
  have hlim : ∀ {s : State}, s.sys.task cur = some t →
      ∀ u, s.sys.task cur = some u → off < u.dataLimit := by
    intro s ht u hu
    rw [ht] at hu
    cases hu
    omega
  have hoff : ∀ {s : State}, s.sys.task cur = some t → P s → off < 0x4000000 := by
    intro s ht hP
    obtain ⟨-, u, hu, -, hd⟩ := L.ready hP
    exact Nat.lt_of_lt_of_le (hlim ht u hu) hd
  refine .when (fun habs => ?_) fun hp s h => ?_
  · refine ⟨fun {s a s'} h hr => ?_⟩
    have key := (doNoPage_spec h1 L off).ends ⟨⟨h.1.trans habs, hlim h.2.1⟩, h.2.2⟩ hr
    exact ⟨key, hoff h.2.1 h.2.2⟩
  · exact ⟨⟨h.2.2, h.1.trans (Bool.not_eq_false _ ▸ hp)⟩, hoff h.2.1 h.2.2⟩

theorem touch_keeps (off : Nat) : Keeps watch (Lasting lo hi cur) (touch cur file off) :=
  ⟨fun L => (touch_spec h1 L off).post fun _ _ h => h.1.1⟩

theorem getFsByte_keeps (off : Nat) : Keeps watch (Lasting lo hi cur) (getFsByte cur file off) :=
  (touch_keeps h1 off).bind fun _ => .read

theorem getFsLong_keeps (off : Nat) : Keeps watch (Lasting lo hi cur) (getFsLong cur file off) :=
  (getFsByte_keeps h1 off).bind fun _ => (getFsByte_keeps h1 (off + 1)).bind fun _ =>
    (getFsByte_keeps h1 (off + 2)).bind fun _ => (getFsByte_keeps h1 (off + 3)).bind fun _ => .pure

theorem readString_keeps (n off : Nat) :
    Keeps watch (Lasting lo hi cur) (readString cur file n off) := by
  induction n generalizing off with
  | zero => exact .stop
  | succ n ih =>
    exact (getFsByte_keeps h1 off).bind fun _ =>
      .ite (fun _ => .pure) fun _ => (ih (off + 1)).bind fun _ => .pure

/-- Who has read a string has a page table. -/
theorem readString_there (L : Lasting lo hi cur P) (n off : Nat) :
    Triple watch P (readString cur file n off) fun _ s => P s ∧ There cur s := by
  cases n with
  | zero => exact .stop
  | succ n =>
    have first : Triple watch P (getFsByte cur file off) fun _ s => P s ∧ There cur s := by
      refine (touch_spec h1 L off).bind fun _ => Triple.read.post ?_
      rintro b s ⟨-, ⟨hP, hp⟩, hoff⟩
      exact ⟨hP, .of_present hoff h1 hp⟩
    exact first.bind fun _ => .ite (fun _ => .pure fun _ h => h) fun _ =>
      ((readString_keeps h1 n (off + 1)).keeps L.there).bind fun _ => .pure fun _ h => h

theorem skipString_keeps (p : Nat) : Keeps watch (Lasting lo hi cur) (skipString cur file p) :=
  (readString_keeps h1 dataLimit p).bind fun _ => .pure

theorem countLoop_keeps (n tmp : Nat) :
    Keeps watch (Lasting lo hi cur) (countLoop cur file n tmp) := by
  induction n generalizing tmp with
  | zero => exact .stop
  | succ n ih =>
    exact (getFsLong_keeps h1 tmp).bind fun _ =>
      .ite (fun _ => .pure) fun _ => (ih (tmp + 4)).bind fun _ => .pure

theorem count_keeps (argv : Nat) : Keeps watch (Lasting lo hi cur) (count cur file argv) :=
  .ite (fun _ => .pure) fun _ => countLoop_keeps h1 dataLimit argv

theorem Text.len_keeps (text : Text) :
    Keeps watch (Lasting lo hi cur) (Text.len cur file text) := by
  cases text with
  | user tmp => exact (readString_keeps h1 dataLimit tmp).bind fun _ => .pure
  | kernel chars => exact .pure

theorem Text.byte_keeps (text : Text) (k : Nat) :
    Keeps watch (Lasting lo hi cur) (Text.byte cur file text k) := by
  cases text with
  | user tmp => exact getFsByte_keeps h1 (tmp + k)
  | kernel chars => exact .pure

end

/-! ## What is held on the way -/

/-- The pages of a list are held, each under an index of its own, beside what was held before. -/
structure Carries (lo hi : Nat) (before : Nat → Bool) (args : List (Nat × Nat)) (m : Mm.Mem)
    (held : Nat → Bool) : Prop where
  sound : Sound lo hi m held
  keys : (args.map Prod.fst).Nodup
  pages : (args.map Prod.snd).Nodup
  index : ∀ a ∈ args, a.1 < 32
  own : ∀ f ∈ args.map Prod.snd, held f = true ∧ before f = false
  others : ∀ f, f ∉ args.map Prod.snd → held f = before f

namespace Carries

variable {before held : Nat → Bool} {args : List (Nat × Nat)} {m : Mm.Mem}

theorem nil (S : Sound lo hi m held) : Carries lo hi held [] m held :=
  ⟨S, List.nodup_nil, List.nodup_nil, fun _ h => absurd h List.not_mem_nil,
    fun _ h => absurd h List.not_mem_nil, fun _ _ => rfl⟩

/-- A page from `get_free_page` is not one of those that are held. -/
theorem cons (C : Carries lo hi before args m held) {i f : Nat} {m' : Mm.Mem} (hlt : i < 32)
    (hnone : args.lookup i = none) (hg : Mm.getFreePage m = some (f, m')) :
    Carries lo hi before ((i, f) :: args) m' (Function.update held f true) := by
  have F := Mm.getFreePage_spec C.sound hg
  have hfree : held f = false := by
    by_contra h
    have hone := C.sound.acct.held_count (Bool.not_eq_false _ ▸ h)
    rw [F.zero] at hone
    cases hone
  have hnew : f ∉ args.map Prod.snd := fun h => by
    have hheld := (C.own f h).1
    rw [hfree] at hheld
    cases hheld
  have hkey : i ∉ args.map Prod.fst := by
    rw [List.mem_map]
    rintro ⟨a, ha, rfl⟩
    have hne := List.lookup_eq_none_iff.mp hnone a ha
    simp at hne
  refine ⟨F.sound, List.nodup_cons.mpr ⟨hkey, C.keys⟩, List.nodup_cons.mpr ⟨hnew, C.pages⟩,
    fun a ha => ?_, fun g hg' => ?_, fun g hg' => ?_⟩
  · rcases List.mem_cons.mp ha with rfl | ha
    · exact hlt
    · exact C.index a ha
  · rcases List.mem_cons.mp hg' with rfl | hg'
    · exact ⟨Function.update_self .., by rw [← C.others _ hnew]; exact hfree⟩
    · obtain ⟨hheld, hbefore⟩ := C.own g hg'
      have hne : g ≠ f := fun h => hnew (h ▸ hg')
      exact ⟨by rw [Function.update_of_ne hne]; exact hheld, hbefore⟩
  · rw [List.map_cons, List.mem_cons, not_or] at hg'
    rw [Function.update_of_ne hg'.1]
    exact C.others g hg'.2

end Carries

/-- A task that calls `do_execve`, in user mode up to then. -/
structure Caller (lo hi : Nat) (cur : Fin 64) (t : Mm.Task) (s : State) : Prop where
  slot : 1 ≤ cur.val
  sound : Sound lo hi s.sys.mem s.sys.held
  task : s.sys.task cur = some t
  user : t.InUser
  code : t.codeLimit ≤ 0x4000000
  data : t.dataLimit ≤ 0x4000000
  beyond : ∀ k < 16, Mm.blocks t.dataLimit ≤ k →
    present (s.sys.mem.dirv (16 * cur + k)) = false

/-- On the way to the point of no return: a reference to `hold` and the pages of `args` have been
taken, and pages have been brought. `seen` is whether a byte of the task has been read. -/
structure Gathering (lo hi : Nat) (cur : Fin 64) (t₀ : Mm.Task) (s₀ : State) (seen : Prop)
    (hold : Option Fs.Id) (args : List (Nat × Nat)) (s : State) : Prop where
  kernel : s.kernel = s₀.kernel.setFs s.kernel.vol.fs
  trade : Fs.Trade none hold s₀.kernel.vol.fs s.kernel.vol.fs
  handler : s.handler = s₀.handler
  endCode : s.endCode = s₀.endCode
  brk : s.brk = s₀.brk
  task : s.sys.task = Function.update s₀.sys.task cur (some { t₀ with args := args })
  carries : Carries lo hi s₀.sys.held args s.sys.mem s.sys.held
  grown : Grown s₀.sys.mem cur s.sys.mem
  beyond : ∀ k < 16, Mm.blocks t₀.dataLimit ≤ k → present (s.sys.mem.dirv (16 * cur + k)) = false
  there : seen → There cur s

variable {t₀ : Mm.Task} {s₀ s : State} {seen : Prop} {hold : Option Fs.Id} {args : List (Nat × Nat)}

theorem Caller.gathering (C : Caller lo hi cur t₀ s₀) :
    Gathering lo hi cur t₀ s₀ False none [] s₀ where
  kernel := rfl
  trade := .refl none _
  handler := rfl
  endCode := rfl
  brk := rfl
  task := by
    obtain ⟨-, -, hargs⟩ := C.user
    have hsame : { t₀ with args := [] } = t₀ := by rw [← hargs]
    rw [hsame, ← C.task, Function.update_eq_self]
  carries := .nil C.sound
  grown := .refl _ _
  beyond := C.beyond
  there := False.elim

namespace Gathering

theorem current (G : Gathering lo hi cur t₀ s₀ seen hold args s) :
    s.sys.task cur = some { t₀ with args := args } := by
  rw [G.task, Function.update_self]

theorem lasting (C : Caller lo hi cur t₀ s₀) :
    Lasting lo hi cur (Gathering lo hi cur t₀ s₀ seen hold args) where
  ready G := ⟨G.carries.sound, _, G.current, C.user.2.1, C.data⟩
  grow G S grown inside := { G with
    carries := { G.carries with sound := S }
    grown := G.grown.trans grown
    beyond := fun k hk hb => by
      have hsame := inside _ G.current k hk hb
      exact (congrArg present hsame).trans (G.beyond k hk hb)
    there := fun h => (G.there h).grow grown }

theorem see (G : Gathering lo hi cur t₀ s₀ seen hold args s) (h : There cur s) :
    Gathering lo hi cur t₀ s₀ True hold args s :=
  { G with there := fun _ => h }

/-- The references to inodes change, and nothing else. -/
theorem setFs (G : Gathering lo hi cur t₀ s₀ seen hold args s) {hold' : Option Fs.Id} {fs : Fs.State}
    (T : Fs.Trade hold hold' s.kernel.vol.fs fs) :
    Gathering lo hi cur t₀ s₀ seen hold' args { s with kernel := s.kernel.setFs fs } :=
  { G with
    kernel := by rw [G.kernel]; rfl
    trade := G.trade.trans T
    there := G.there }

/-- One more page of argument strings. -/
theorem take (G : Gathering lo hi cur t₀ s₀ seen hold args s) {i f : Nat} {m : Mm.Mem} (hlt : i < 32)
    (hnone : args.lookup i = none) (hg : Mm.getFreePage s.sys.mem = some (f, m)) :
    Gathering lo hi cur t₀ s₀ seen hold ((i, f) :: args) { s with
      sys := Sys.setTask ⟨m, Function.update s.sys.held f true, s.sys.task⟩ cur
        { t₀ with args := (i, f) :: args } } := by
  have F := Mm.getFreePage_spec G.carries.sound hg
  have grown : Grown s.sys.mem cur m := .of_same F.dirv F.pte
  exact { G with
    task := by
      show Function.update s.sys.task cur _ = _
      rw [G.task, Function.update_idem]
    carries := G.carries.cons hlt hnone hg
    grown := G.grown.trans grown
    beyond := fun k hk hb => by
      show present (m.dirv _) = false
      rw [F.dirv]
      exact G.beyond k hk hb
    there := fun h => (G.there h).grow grown }

/-- A store into one of the pages. -/
theorem store (G : Gathering lo hi cur t₀ s₀ seen hold args s) {f k : Nat} {w : Mm.Word}
    (hf : f ∈ args.map Prod.snd) :
    Gathering lo hi cur t₀ s₀ seen hold args (s.withMem (s.sys.mem.poke f k w)) := by
  have hheld := (G.carries.own f hf).1
  have S := (Mm.fill_view G.carries.sound hheld (Function.update (s.sys.mem.ram f) k w)).1
  obtain ⟨vd, vp⟩ := Mm.view_fill (p := Function.update (s.sys.mem.ram f) k w)
    (G.carries.sound.notTable (Or.inl hheld))
  have grown : Grown s.sys.mem cur (s.sys.mem.poke f k w) := .of_same vd vp
  exact { G with
    carries := { G.carries with sound := S }
    grown := G.grown.trans grown
    beyond := fun n hn hb => by
      show present ((s.sys.mem.fill f (Function.update (s.sys.mem.ram f) k w)).dirv _) = false
      rw [vd]
      exact G.beyond n hn hb
    there := fun h => (G.there h).grow grown }

/-- All pages are given back. -/
theorem drop (G : Gathering lo hi cur t₀ s₀ seen hold args s) :
    ∃ m held, Mm.freeArgs args (s.sys.mem, s.sys.held) = some (m, held) ∧
      Gathering lo hi cur t₀ s₀ seen hold [] { s with
        sys := Sys.setTask ⟨m, held, s.sys.task⟩ cur { t₀ with args := [] } } := by
  obtain ⟨m, held, hfree, S, vd, vp, -, gone, rest⟩ := Mm.freeArgs_held G.carries.sound
    (fun f hf => (G.carries.own f hf).1) G.carries.pages
  have grown : Grown s.sys.mem cur m := .of_same vd vp
  refine ⟨m, held, hfree, { G with
    task := ?_
    carries := ⟨S, List.nodup_nil, List.nodup_nil, fun _ h => absurd h List.not_mem_nil,
      fun _ h => absurd h List.not_mem_nil, fun f _ => ?_⟩
    grown := G.grown.trans grown
    beyond := fun n hn hb => by
      show present (m.dirv _) = false
      rw [vd]
      exact G.beyond n hn hb
    there := fun h => (G.there h).grow grown }⟩
  · show Function.update s.sys.task cur _ = _
    rw [G.task, Function.update_idem]
  · by_cases hf : f ∈ args.map Prod.snd
    · exact (gone f hf).trans (G.carries.own f hf).2.symm
    · exact (rest f hf).trans (G.carries.others f hf)

end Gathering

/-! ## The strings -/

/-- The page of a walk is one of the pages, unless it is about to be taken. -/
def Walk.Fits (w : Walk) (args : List (Nat × Nat)) : Prop := w.offset = 0 ∨ w.pag ∈ args.map Prod.snd

/-- What holds after a part of `copy_strings`, whether it has run out of pages or not. -/
def Copied (lo hi : Nat) (cur : Fin 64) (t₀ : Mm.Task) (s₀ : State) (hold : Option Fs.Id)
    (r : Option Walk) (s : State) : Prop :=
  ∃ args, Gathering lo hi cur t₀ s₀ True hold args s ∧ ∀ w, r = some w → w.Fits args

/-- Some pages have been taken. -/
def Collected (lo hi : Nat) (cur : Fin 64) (t₀ : Mm.Task) (s₀ : State) (hold : Option Fs.Id)
    (s : State) : Prop :=
  ∃ args, Gathering lo hi cur t₀ s₀ True hold args s

section

variable (C : Caller lo hi cur t₀ s₀)

theorem current_spec :
    Triple watch (Gathering lo hi cur t₀ s₀ seen hold args) (current cur) fun t s =>
      t = { t₀ with args := args } ∧ Gathering lo hi cur t₀ s₀ seen hold args s := by
  refine fetch_spec.post fun t s => ?_
  rintro ⟨ht, G⟩
  exact ⟨Option.some.inj (ht.symm.trans G.current), G⟩

theorem argPage_spec {i : Nat} (hlt : i < 32) :
    Triple watch (Gathering lo hi cur t₀ s₀ True hold args) (argPage cur i) fun r s =>
      ∃ args', Gathering lo hi cur t₀ s₀ True hold args' s ∧
        ∀ f, r = some f → f ∈ args'.map Prod.snd := by
  refine current_spec.bind fun t => .fact fun ht => ?_
  subst ht
  dsimp only
  cases hl : args.lookup i with
  | some f =>
    refine .pure fun s G => ⟨args, G, fun g hg => ?_⟩
    cases hg
    exact List.mem_map_of_mem (Mm.lookup_mem hl)
  | none =>
    refine Triple.read.bind fun r => ?_
    cases r with
    | none => exact .pure fun s h => ⟨args, h.2, nofun⟩
    | some r =>
      obtain ⟨f, m⟩ := r
      refine Triple.bind (Triple.modify (Q := fun _ s =>
        Gathering lo hi cur t₀ s₀ True hold ((i, f) :: args) s) ?_) fun _ => .pure fun s G => ?_
      · rintro s ⟨hg, G⟩
        exact G.take hlt hl hg
      · refine ⟨_, G, fun g hg => ?_⟩
        cases hg
        exact List.mem_cons_self

theorem stepDown_spec {w : Walk} (hw : w.Fits args) :
    Triple watch (Gathering lo hi cur t₀ s₀ True hold args) (stepDown cur w) fun r s =>
      ∃ args', Gathering lo hi cur t₀ s₀ True hold args' s ∧
        ∀ w', r = some w' → w'.pag ∈ args'.map Prod.snd := by
  unfold stepDown
  refine .ite (fun _ => .ite (fun _ => .stop) fun hlt => ?_) fun hoff => ?_
  · refine (argPage_spec (Nat.lt_of_not_le hlt)).bind fun r => ?_
    cases r with
    | none => exact .pure fun s ⟨args', G, _⟩ => ⟨args', G, nofun⟩
    | some pag =>
      refine .pure fun s ⟨args', G, hpag⟩ => ⟨args', G, fun w' hw' => ?_⟩
      rw [← Option.some.inj hw']
      exact hpag pag rfl
  · refine .pure fun s G => ⟨args, G, fun w' hw' => ?_⟩
    rw [← Option.some.inj hw']
    exact hw.resolve_left hoff

theorem putArg_spec {w : Walk} (hw : w.pag ∈ args.map Prod.snd) (b : Byte) :
    Triple watch (Gathering lo hi cur t₀ s₀ True hold args) (putArg w b) fun _ =>
      Gathering lo hi cur t₀ s₀ True hold args :=
  .modify fun _ G => G.store hw

include C

theorem copyDown_spec (text : Text) (len : Nat) {w : Walk} (hw : w.Fits args) :
    Triple watch (Gathering lo hi cur t₀ s₀ True hold args) (copyDown cur file text len w)
      (Copied lo hi cur t₀ s₀ hold) := by
  induction len generalizing w args with
  | zero =>
    refine .pure fun s G => ⟨args, G, fun w' hw' => ?_⟩
    cases hw'
    exact hw
  | succ len ih =>
    refine (stepDown_spec hw).bind fun r => .each fun args' => ?_
    cases r with
    | none => exact .pure fun s ⟨G, _⟩ => ⟨args', G, nofun⟩
    | some w' =>
      refine ⟨fun {s a s'} h hr => ?_⟩
      have hpag := h.2 w' rfl
      refine Triple.ends ?_ h.1 hr
      refine ((Text.byte_keeps C.slot text len).keeps (Gathering.lasting C)).bind fun b => ?_
      exact (putArg_spec hpag b).bind fun _ => ih (Or.inr hpag)

/-- A string, into pages that are there or taken for it. -/
theorem copyString_spec (text : Text) {w : Walk} (hw : w.Fits args) :
    Triple watch (Gathering lo hi cur t₀ s₀ True hold args) (copyString cur file text w)
      (Copied lo hi cur t₀ s₀ hold) := by
  unfold copyString
  split
  · exact .stop
  · exact ((Text.len_keeps C.slot text).keeps (Gathering.lasting C)).bind fun len =>
      copyDown_spec C text len hw

theorem copyEach_spec (argv argc : Nat) {w : Walk} (hw : w.Fits args) :
    Triple watch (Gathering lo hi cur t₀ s₀ True hold args) (copyEach cur file argv argc w)
      (Copied lo hi cur t₀ s₀ hold) := by
  induction argc generalizing w args with
  | zero =>
    refine .pure fun s G => ⟨args, G, fun w' hw' => ?_⟩
    cases hw'
    exact hw
  | succ argc ih =>
    refine ((getFsLong_keeps C.slot _).keeps (Gathering.lasting C)).bind fun tmp => ?_
    refine (copyString_spec C (.user tmp) hw).bind fun r => .each fun args' => ?_
    cases r with
    | none => exact .pure fun s ⟨G, _⟩ => ⟨args', G, nofun⟩
    | some w' =>
      refine ⟨fun {s a s'} h hr => ?_⟩
      exact (ih (h.2 w' rfl)).ends h.1 hr

theorem copyStrings_spec (argc : Int) (argv p : Nat) :
    Triple watch (Collected lo hi cur t₀ s₀ hold) (copyStrings cur file argc argv p) fun _ =>
      Collected lo hi cur t₀ s₀ hold := by
  refine .ite (fun _ => .pure fun _ h => h) fun _ => .each fun args => ?_
  refine (copyEach_spec C argv argc.toNat (Or.inl rfl)).bind fun r => .pure ?_
  rintro s ⟨args', G, -⟩
  exact ⟨args', G⟩

theorem copyOne_spec (text : Text) (p : Nat) :
    Triple watch (Collected lo hi cur t₀ s₀ hold) (copyOne cur file text p) fun _ =>
      Collected lo hi cur t₀ s₀ hold := by
  refine .ite (fun _ => .pure fun _ h => h) fun _ => .each fun args => ?_
  refine (copyString_spec C text (Or.inl rfl)).bind fun r => .pure ?_
  rintro s ⟨args', G, -⟩
  exact ⟨args', G⟩

/-- What a `#!` line adds to the strings. -/
theorem splice_spec (line : Script.Line) (filename argv envp : Nat) (argc envc : Int) (p : Nat) :
    Triple watch (Collected lo hi cur t₀ s₀ hold)
      (splice cur file filename argv envp line argc envc p) fun _ =>
        Collected lo hi cur t₀ s₀ hold := by
  unfold splice
  refine (copyStrings_spec C envc envp p).bind fun p => ?_
  refine (copyStrings_spec C (argc - 1) (argv + 4) p).bind fun p => ?_
  refine (copyOne_spec C (.user filename) p).bind fun p => ?_
  cases line.iArg with
  | none => exact (copyOne_spec C _ p).bind fun p => .pure fun _ h => h
  | some at' =>
    exact (copyOne_spec C _ p).bind fun p => (copyOne_spec C _ p).bind fun p => .pure fun _ h => h

end

/-! ## The exits -/

/-- A path has been walked: there is a reference to the inode that it leads to. -/
theorem namei_spec (path : List Byte) :
    Triple watch (Gathering lo hi cur t₀ s₀ seen none args) (namei cur path) fun r s =>
      Gathering lo hi cur t₀ s₀ seen r args s := by
  refine fetch_spec.bind fun me => fetch_spec.bind fun r => ?_
  refine Triple.bind (Triple.modify (Q := fun _ s => Gathering lo hi cur t₀ s₀ seen r.1 args s) ?_)
    fun _ => .pure fun _ h => h
  rintro s ⟨hr, -, G⟩
  exact G.setFs (Fs.namei_trade hr)

theorem iput_spec (i : Fs.Id) :
    Triple watch (Gathering lo hi cur t₀ s₀ seen (some i) args) (iput i) fun _ s =>
      Gathering lo hi cur t₀ s₀ seen none args s :=
  .modify fun _ G => G.setFs (.iput G.trade.pos_of_none)

theorem execError1_spec {α : Type} (e : Int) (he : 0 < e) :
    Triple watch (Gathering lo hi cur t₀ s₀ seen none args)
      (execError1 cur e : Call (Except Int α)) fun r s =>
        (∃ e, r = .error e ∧ 0 < e) ∧ Gathering lo hi cur t₀ s₀ seen none [] s := by
  refine current_spec.bind fun t => .fact fun ht => ?_
  subst ht
  refine fetch_spec.bind fun r => ?_
  refine Triple.bind (Triple.modify (Q := fun _ s => Gathering lo hi cur t₀ s₀ seen none [] s) ?_)
    fun _ => .pure fun _ h => ⟨⟨e, rfl, he⟩, h⟩
  rintro s ⟨hr, G⟩
  obtain ⟨m, held, hfree, G'⟩ := G.drop
  cases hfree.symm.trans hr
  exact G'

theorem execError2_spec {α : Type} (i : Fs.Id) (e : Int) (he : 0 < e) :
    Triple watch (Gathering lo hi cur t₀ s₀ seen (some i) args)
      (execError2 cur i e : Call (Except Int α)) fun r s =>
        (∃ e, r = .error e ∧ 0 < e) ∧ Gathering lo hi cur t₀ s₀ seen none [] s :=
  (iput_spec i).bind fun _ => execError1_spec e he

theorem execCheck_pos {t : Files.Task} {h : Fs.MInode} {e : Int} (he : Files.execCheck t h = some e) :
    0 < e := by
  unfold Files.execCheck at he
  split at he
  · cases he
    decide
  · rw [Option.ite_none_right_eq_some] at he
    cases he.2
    decide

/-- The first block is read into a buffer that is given back. -/
theorem firstBlock_spec (i : Fs.Id) :
    Triple watch (Gathering lo hi cur t₀ s₀ seen hold args) (firstBlock cur block i) fun r s =>
      (∀ e, r = .error e → 0 < e) ∧ Gathering lo hi cur t₀ s₀ seen hold args s := by
  refine fetch_spec.bind fun t => Triple.read.bind fun h => ?_
  cases he : Files.execCheck t h with
  | some e =>
    refine .pure fun s hs => ⟨fun e' he' => ?_, hs.2.2⟩
    cases he'
    exact execCheck_pos he
  | none =>
    cases block i.dev (h.zone 0) with
    | none =>
      refine .pure fun s hs => ⟨fun e' he' => ?_, hs.2.2⟩
      cases he'
      decide
    | some b =>
      refine Triple.bind (Triple.modify (Q := fun _ s => ∃ s',
        Gathering lo hi cur t₀ s₀ seen hold args s' ∧
          s = { s' with kernel := s'.kernel.setFs (s'.kernel.vol.fs.bread i.dev (h.zone 0)) }) ?_)
        fun _ => ?_
      · exact fun s hs => ⟨s, hs.2.2, rfl⟩
      · refine Triple.bind (Triple.modify (Q := fun _ s => Gathering lo hi cur t₀ s₀ seen hold args s) ?_)
          fun _ => .pure fun _ h => ⟨nofun, h⟩
        rintro _ ⟨s, G, rfl⟩
        have hback := Fs.brelse_bread s.kernel.vol.fs i.dev (h.zone 0)
        show Gathering lo hi cur t₀ s₀ seen hold args { s with
          kernel := s.kernel.setFs ((s.kernel.vol.fs.bread i.dev (h.zone 0)).brelse i.dev (h.zone 0)) }
        rw [hback]
        exact G

theorem accepted_spec (i : Fs.Id) (b : Block) :
    Triple watch P (accepted i b) fun _ => P :=
  Triple.read.bind fun _ => .pure fun _ h => h.2

/-! ## The way to the point of no return -/

/-- Either nothing is held any more, or the inode to run and the pages with the strings are. -/
def Decided (lo hi : Nat) (cur : Fin 64) (t₀ : Mm.Task) (s₀ : State) (r : Except Int Entry)
    (s : State) : Prop :=
  match r with
  | .error e => 0 < e ∧ Gathering lo hi cur t₀ s₀ True none [] s
  | .ok x => ∃ args, Gathering lo hi cur t₀ s₀ True (some x.inode) args s

/-- An exit through one of the labels. -/
theorem failed_spec {x : Call (Except Int Entry)}
    (h : Triple watch P x fun r s =>
      (∃ e, r = .error e ∧ 0 < e) ∧ Gathering lo hi cur t₀ s₀ True none [] s) :
    Triple watch P x (Decided lo hi cur t₀ s₀) := by
  refine h.post ?_
  rintro r s ⟨⟨e, rfl, he⟩, G⟩
  exact ⟨he, G⟩

theorem failed1_spec (e : Int) (he : 0 < e) :
    Triple watch (Collected lo hi cur t₀ s₀ none) (execError1 cur e) (Decided lo hi cur t₀ s₀) :=
  .each fun _ => failed_spec (execError1_spec e he)

theorem failed2_spec (i : Fs.Id) (e : Int) (he : 0 < e) :
    Triple watch (Collected lo hi cur t₀ s₀ (some i)) (execError2 cur i e)
      (Decided lo hi cur t₀ s₀) :=
  .each fun _ => failed_spec (execError2_spec i e he)

section

variable (C : Caller lo hi cur t₀ s₀)

include C

theorem prepareProgram_spec (i : Fs.Id) (b : Block) (argv envp : Nat) (argc envc : Int) (p : Nat) :
    Triple watch (Collected lo hi cur t₀ s₀ (some i))
      (prepareProgram cur file argv envp i b argc envc p) (Decided lo hi cur t₀ s₀) := by
  refine (accepted_spec i b).bind fun ok => .ite (fun _ => ?_) fun _ => ?_
  · refine (copyStrings_spec C envc envp p).bind fun p => ?_
    refine (copyStrings_spec C argc argv p).bind fun p => .ite (fun _ => ?_) fun _ => ?_
    · exact failed2_spec i Files.enomem (by decide)
    · exact .pure fun _ h => h
  · exact failed2_spec i Files.enoexec (by decide)

/-- The reference to the script is given back before the strings are copied, and the interpreter is
the inode from then on. -/
theorem prepareScript_spec (i : Fs.Id) (b : Block) (filename argv envp : Nat) (argc envc : Int)
    (p : Nat) :
    Triple watch (Collected lo hi cur t₀ s₀ (some i))
      (prepareScript cur file block filename argv envp i b argc envc p)
      (Decided lo hi cur t₀ s₀) := by
  refine Triple.bind (Q := fun _ => Collected lo hi cur t₀ s₀ none)
    (.each fun args => (iput_spec i).post fun _ s G => ⟨args, G⟩) fun _ => ?_
  cases Script.parseLine b with
  | none => exact failed1_spec Files.enoexec (by decide)
  | some line =>
    refine (splice_spec C line filename argv envp argc envc p).bind fun r => ?_
    refine .ite (fun _ => failed1_spec Files.enomem (by decide)) fun _ => .each fun args => ?_
    refine (namei_spec _).bind fun found => ?_
    cases found with
    | none => exact failed_spec (execError1_spec Files.enoent (by decide))
    | some i =>
      refine (firstBlock_spec i).bind fun first => .fact fun hpos => ?_
      cases first with
      | error e => exact failed_spec (execError2_spec i e (hpos e rfl))
      | ok b =>
        refine (accepted_spec i b).bind fun ok => .ite (fun _ => ?_) fun _ => ?_
        · exact .pure fun _ G => ⟨args, G⟩
        · exact failed_spec (execError2_spec i Files.enoexec (by decide))

/-- UP TO THE POINT OF NO RETURN: every error leaves through an exit that gives back what is held
there. -/
theorem prepare_spec (filename argv envp : Nat) :
    Triple watch (Gathering lo hi cur t₀ s₀ False none [])
      (prepare cur file block filename argv envp) (Decided lo hi cur t₀ s₀) := by
  have unread : Lasting lo hi cur (Gathering lo hi cur t₀ s₀ False none []) := Gathering.lasting C
  have path : Triple watch _ (readString cur file dataLimit filename) _ :=
    (readString_there C.slot unread dataLimit filename).post
      (Q := fun _ => Gathering lo hi cur t₀ s₀ True none []) fun _ _ h => h.1.see h.2
  refine path.bind fun path => (namei_spec path).bind fun found => ?_
  cases found with
  | none => exact .pure fun _ G => ⟨by decide, G⟩
  | some i =>
    refine ((count_keeps C.slot argv).keeps (Gathering.lasting C)).bind fun argc => ?_
    refine ((count_keeps C.slot envp).keeps (Gathering.lasting C)).bind fun envc => ?_
    refine (firstBlock_spec i).bind fun first => .fact fun hpos => ?_
    cases first with
    | error e => exact failed_spec (execError2_spec i e (hpos e rfl))
    | ok b =>
      refine .ite (fun _ => ?_) fun _ => ?_
      · exact (prepareScript_spec C i b filename argv envp argc envc _).pre fun _ G => ⟨[], G⟩
      · exact (prepareProgram_spec C i b argv envp argc envc _).pre fun _ G => ⟨[], G⟩

end

/-! ## The new address space -/

/-- The region is that of the new program: its own entries name pages above `LOW_MEM`, the argument
pages are mapped at its end, and what was held before is held. -/
structure Built (lo hi : Nat) (cur : Fin 64) (before : Nat → Bool) (args : List (Nat × Nat))
    (s : State) : Prop where
  sound : Sound lo hi s.sys.mem before
  held : s.sys.held = before
  high : ∀ d i : Nat, d / 16 = cur → present (s.sys.mem.pte d i) = true →
    lowMem ≤ frame (s.sys.mem.pte d i)
  mapped : ∀ a ∈ args, present (s.sys.mem.pte (16 * cur + 15) (992 + a.1)) = true ∧
    frame (s.sys.mem.pte (16 * cur + 15) (992 + a.1)) = a.2
  task : ∃ t, s.sys.task cur = some t ∧ t.loading = none ∧ t.args = [] ∧ t.dataLimit ≤ 0x4000000

variable {before : Nat → Bool}

namespace Built

theorem lasting : Lasting lo hi cur (Built lo hi cur before args) where
  ready B := by
    obtain ⟨t, ht, hl, -, hd⟩ := B.task
    exact ⟨by rw [B.held]; exact B.sound, t, ht, hl, hd⟩
  grow {s m} B S G _ :=
    { sound := by
        rw [B.held] at S
        exact S
      held := B.held
      high := fun d i hd hp => by
        cases hold : present (s.sys.mem.pte d i) with
        | true =>
          show lowMem ≤ frame (m.pte d i)
          rw [G.keeps d i hold hd]
          exact B.high d i hd hold
        | false => exact G.high d i hd hold hp
      mapped := fun a ha => by
        obtain ⟨hp, hf⟩ := B.mapped a ha
        exact ⟨G.present_of hp, (G.frame_of hp).trans hf⟩
      task := B.task }

/-- A store of the kernel through an entry of the task. -/
theorem store {off : Nat} {w : Mm.Word} (B : Built lo hi cur before args s) (h1 : 1 ≤ cur.val)
    (hoff : off < 0x4000000) (hp : presentAt s.sys.mem (slotBase cur + off) = true) :
    Built lo hi cur before args (s.withMem (s.sys.mem.storeAt (slotBase cur + off) w)) := by
  have hd := Mm.slot_dirs h1 cur.isLt hoff
  rw [Mm.presentAt_eq hd.1] at hp
  obtain ⟨S, -, vp, -⟩ := Mm.store_view (k := (slotBase cur + off) / 4 % 1024) (w := w) B.sound hp
    (B.high _ _ hd.2 hp)
  -- only the flags of the entry change
  have flags : ∀ d i, present ((s.sys.mem.storeAt (slotBase cur + off) w).pte d i)
        = present (s.sys.mem.pte d i) ∧
      frame ((s.sys.mem.storeAt (slotBase cur + off) w).pte d i) = frame (s.sys.mem.pte d i) := by
    intro d i
    rw [Mm.Mem.storeAt, vp]
    by_cases h : d = Mm.dirIndex (slotBase cur + off) ∧ i = Mm.tableIndex (slotBase cur + off)
    · rw [h.1, h.2, Mm.setPte_self, Mm.present_or_used, Mm.frame_or_used]
      exact ⟨rfl, rfl⟩
    · rw [Mm.setPte_other h]
      exact ⟨rfl, rfl⟩
  refine ⟨S, B.held, fun d i hd' hp' => ?_, fun a ha => ?_, B.task⟩
  · show lowMem ≤ frame ((s.sys.mem.storeAt (slotBase cur + off) w).pte d i)
    rw [(flags d i).2]
    exact B.high d i hd' ((flags d i).1.symm.trans hp')
  · obtain ⟨hpa, hfa⟩ := B.mapped a ha
    exact ⟨(flags _ _).1.trans hpa, (flags _ _).2.trans hfa⟩

/-- What is set beside the memory. -/
theorem setTask (B : Built lo hi cur before args s) {t : Mm.Task} (ht : s.sys.task cur = some t)
    (endData : Nat) :
    Built lo hi cur before args { s with sys := s.sys.setTask cur { t with endData := endData } } := by
  obtain ⟨u, hu, hl, ha, hd⟩ := B.task
  rw [ht] at hu
  cases hu
  exact ⟨B.sound, B.held, B.high, B.mapped, _, Function.update_self .., hl, ha, hd⟩

end Built

section

variable (h1 : 1 ≤ cur.val)

include h1

/-- `put_fs_byte` and `put_fs_long`. -/
theorem put_spec (off : Nat) (f : Mm.Mem → Mm.Word) :
    Triple watch (Built lo hi cur before args)
      (touch cur file off >>= fun _ => setMem fun m => m.storeAt (slotBase cur + off) (f m))
      fun _ => Built lo hi cur before args := by
  refine (touch_spec h1 Built.lasting off).bind fun _ => .modify ?_
  rintro s ⟨⟨B, hp⟩, hoff⟩
  exact B.store h1 hoff hp

theorem fillTable_spec (argc p argv : Nat) :
    Triple watch (Built lo hi cur before args) (fillTable cur file argc p argv) fun _ =>
      Built lo hi cur before args := by
  induction argc generalizing p argv with
  | zero => exact .pure fun _ h => h
  | succ argc ih =>
    refine (put_spec h1 argv _).bind fun _ => ?_
    exact ((skipString_keeps h1 p).keeps Built.lasting).bind fun p => ih p (argv + 4)

/-- `create_tables` writes into pages of the new region only. -/
theorem createTables_spec (p argc envc : Nat) :
    Triple watch (Built lo hi cur before args) (createTables cur file p argc envc) fun _ =>
      Built lo hi cur before args := by
  unfold createTables
  refine (put_spec h1 _ _).bind fun _ => (put_spec h1 _ _).bind fun _ => ?_
  refine (put_spec h1 _ _).bind fun _ => (fillTable_spec h1 _ _ _).bind fun r => ?_
  refine (put_spec h1 _ _).bind fun _ => (fillTable_spec h1 _ _ _).bind fun r => ?_
  exact (put_spec h1 _ _).bind fun _ => .pure fun _ h => h

theorem clearTail_spec (n i : Nat) :
    Triple watch (Built lo hi cur before args) (clearTail cur file n i) fun _ =>
      Built lo hi cur before args := by
  induction n generalizing i with
  | zero => exact .pure fun _ h => h
  | succ n ih =>
    exact .ite (fun _ => .pure fun _ h => h) fun _ => (put_spec h1 i _).bind fun _ => ih (i + 1)

end

/-! ## The point of no return -/

/-- The memory of a task with segments like `t₀` that holds the pages of `args`; its region is as it
was, or empty with a page free. -/
structure Leaving (lo hi : Nat) (cur : Fin 64) (t₀ : Mm.Task) (before : Nat → Bool)
    (args : List (Nat × Nat)) (s : State) : Prop where
  carries : Carries lo hi before args s.sys.mem s.sys.held
  task : ∃ t, s.sys.task cur = some t ∧ t.args = args ∧ t.loading = none ∧
    t.codeLimit = t₀.codeLimit ∧ t.dataLimit = t₀.dataLimit

theorem Gathering.leaving (C : Caller lo hi cur t₀ s₀)
    (G : Gathering lo hi cur t₀ s₀ seen hold args s) :
    Leaving lo hi cur t₀ s₀.sys.held args s :=
  ⟨G.carries, _, G.current, rfl, C.user.2.1, rfl, rfl⟩

/-- A function of the memory manager that does not fail. -/
theorem run_spec {α : Type} {f : Mm.Mem → Mm.Res α} {Q : α → State → Prop}
    (h : ∀ s a m, P s → f s.sys.mem = .ok a m → Q a (s.withMem m)) :
    Triple watch P (run f) Q := by
  refine Triple.read.bind fun r => ?_
  cases r with
  | ok a m =>
    refine Triple.bind (Triple.modify (Q := fun _ => Q a) ?_) fun _ => .pure fun _ h => h
    exact fun s hs => h s a m hs.2 hs.1
  | panic _ _ => exact .stop
  | oom _ => exact .stop

/-- The region has not been released yet, and has a page table. -/
def Full (lo hi : Nat) (cur : Fin 64) (t₀ : Mm.Task) (before : Nat → Bool)
    (args : List (Nat × Nat)) (s : State) : Prop :=
  Leaving lo hi cur t₀ before args s ∧ There cur s ∧
    ∀ k < 16, Mm.blocks t₀.dataLimit ≤ k → present (s.sys.mem.dirv (16 * cur + k)) = false

/-- The region is empty, and a page is free. -/
def Emptied (lo hi : Nat) (cur : Fin 64) (t₀ : Mm.Task) (before : Nat → Bool)
    (args : List (Nat × Nat)) (s : State) : Prop :=
  Leaving lo hi cur t₀ before args s ∧ Empty s.sys.mem cur ∧ Mm.getFreePage s.sys.mem ≠ none

/-- `free_page_tables` for both segments, and what comes behind it. -/
theorem freeRegion_triple (C : Caller lo hi cur t₀ s₀) {code data : Nat} (hc : code = t₀.codeLimit)
    (hd : data = t₀.dataLimit) {α : Type} {x : Call α} {Q : α → State → Prop}
    (hx : Triple watch (Emptied lo hi cur t₀ before args) x Q) :
    Triple watch (Full lo hi cur t₀ before args)
      (do
        run (Mm.freePageTables (slotBase cur) code)
        run (Mm.freePageTables (slotBase cur) data)
        x) Q := by
  subst hc hd
  refine Triple.bind (run_spec (Q := fun _ s => ∃ m₀, Full lo hi cur t₀ before args (s.withMem m₀) ∧
    Mm.freePageTables (slotBase cur) t₀.codeLimit m₀ = .ok () s.sys.mem) ?_) fun _ =>
      Triple.bind (run_spec (Q := fun _ => Emptied lo hi cur t₀ before args) ?_) fun _ => hx
  · exact fun s _ m hF hm => ⟨s.sys.mem, hF, hm⟩
  · rintro s _ m ⟨m₀, ⟨L, T, hb⟩, hm₀⟩ hm
    obtain ⟨m1, m2, e1, e2, S, hempty, hfree⟩ := Mm.freeRegion_spec L.carries.sound C.slot cur.isLt
      C.code C.data hb
    cases hm₀.symm.trans e1
    cases hm.symm.trans e2
    exact ⟨⟨{ L.carries with sound := S }, L.task⟩, hempty, hfree T⟩

theorem Carries.lookup {m : Mm.Mem} {held : Nat → Bool} (C : Carries lo hi before args m held)
    {a : Nat × Nat} (ha : a ∈ args) : args.lookup a.1 = some a.2 := by
  have hsome : ∃ f, args.lookup a.1 = some f := by
    by_contra hno
    push Not at hno
    have hne := List.lookup_eq_none_iff.mp (Option.eq_none_iff_forall_ne_some.mpr hno) a ha
    simp at hne
  obtain ⟨f, hf⟩ := hsome
  have hsame := List.inj_on_of_nodup_map C.keys (Mm.lookup_mem hf) ha rfl
  rw [hf, ← (Prod.ext_iff.mp hsame).2]

/-- EVERY ARGUMENT PAGE IS MAPPED: one page is free for the page table, and that is enough. -/
theorem changeLdt_spec (h1 : 1 ≤ cur.val) (text : BitVec 32) :
    Triple watch (Emptied lo hi cur t₀ before args) (changeLdt cur text) fun _ =>
      Built lo hi cur before args := by
  refine fetch_spec.bind fun t => ?_
  refine Triple.bind (Triple.modify (Q := fun _ => Built lo hi cur before args) ?_) fun _ =>
    .pure fun _ h => h
  rintro s ⟨ht, L, hempty, hfree⟩
  obtain ⟨u, hu, rfl, hl, -⟩ := L.task
  cases ht.symm.trans hu
  have habs : ∀ i, present (s.sys.mem.pte (16 * cur + 15) i) = false := fun i => by
    rw [Mm.pte_absent (hempty 15 (by decide))]
    rfl
  obtain ⟨S, G, hmap, hkeep⟩ := Mm.putArgs_mapped L.carries.sound h1 cur.isLt L.carries.pages
    (l := (List.range 32).reverse) (List.nodup_reverse.mpr List.nodup_range)
    (fun i hi' => List.mem_range.mp (List.mem_reverse.mp hi'))
    (fun i _ f hf => (L.carries.own f (List.mem_map_of_mem (Mm.lookup_mem hf))).1)
    (fun i _ => habs _) (Or.inr hfree)
  have hall : ∀ a ∈ t.args, a.1 ∈ (List.range 32).reverse := fun a ha =>
    List.mem_reverse.mpr (List.mem_range.mpr (L.carries.index a ha))
  have hheld : (Mm.putArgs (slotBase cur) t.args (List.range 32).reverse (s.sys.mem, s.sys.held)).2
      = before := by
    funext f
    by_cases hf : f ∈ t.args.map Prod.snd
    · obtain ⟨a, ha, rfl⟩ := List.mem_map.mp hf
      rw [(hmap a.1 (hall a ha) a.2 (L.carries.lookup ha)).2, (L.carries.own a.2 hf).2]
    · rw [hkeep f fun i _ hi' => hf (List.mem_map_of_mem (Mm.lookup_mem hi')), L.carries.others f hf]
  rw [hheld] at S
  refine ⟨S, hheld, fun d i hd hp => ?_, fun a ha => ?_,
    ⟨_, Function.update_self .., hl, rfl, Nat.le_refl _⟩⟩
  · refine G.high d i hd ?_ hp
    rw [show d = 16 * cur.val + d % 16 by omega, Mm.pte_absent (hempty _ (by omega))]
    rfl
  · have hr := L.carries.sound.acct.heldRange (L.carries.own a.2 (List.mem_map_of_mem ha)).1
    have hf := L.carries.sound.frame_range hr.1 hr.2
    obtain ⟨hpte, -⟩ := hmap a.1 (hall a ha) a.2 (L.carries.lookup ha)
    exact ⟨(congrArg present hpte).trans (Mm.present_userEntry a.2),
      (congrArg frame hpte).trans (Mm.frame_userEntry hf.1)⟩

/-- `executable` is set, in both views of the task. -/
theorem Full.setExecutable (F : Full lo hi cur t₀ before args s) {t : Mm.Task}
    (ht : s.sys.task cur = some t) (ino : Nat) :
    Full lo hi cur t₀ before args
      { s with sys := s.sys.setTask cur { t with executable := some ino } } := by
  obtain ⟨⟨C, u, hu, hrest⟩, T, hb⟩ := F
  cases ht.symm.trans hu
  exact ⟨⟨C, _, Function.update_self .., hrest⟩, T, hb⟩

theorem Full.limits (F : Full lo hi cur t₀ before args s) {t : Mm.Task}
    (ht : s.sys.task cur = some t) : t.codeLimit = t₀.codeLimit ∧ t.dataLimit = t₀.dataLimit := by
  obtain ⟨u, hu, -, -, hc, hd⟩ := F.1.task
  cases ht.symm.trans hu
  exact ⟨hc, hd⟩

/-- From `change_ldt` on no page of the region is lost. -/
theorem build_spec (h1 : 1 ≤ cur.val) (x : Entry) :
    Triple watch (Emptied lo hi cur t₀ before args) (build cur file x) fun r s =>
      r = 0 ∧ Built lo hi cur before args s := by
  refine (changeLdt_spec h1 x.ex.text).bind fun limit => ?_
  refine (createTables_spec h1 _ _ _).bind fun _ => fetch_spec.bind fun t => ?_
  refine Triple.bind (Triple.modify (Q := fun _ => Built lo hi cur before args) ?_) fun _ => ?_
  · exact fun s hs => hs.2.setTask hs.1 _
  refine Triple.bind (Triple.modify (Q := fun _ => Built lo hi cur before args) ?_) fun _ => ?_
  · exact fun s B => ⟨B.sound, B.held, B.high, B.mapped, B.task⟩
  exact (clearTail_spec h1 _ _).bind fun _ => .pure fun _ B => ⟨rfl, B⟩

/-- BEHIND THE POINT OF NO RETURN: the call ends in the new address space, with every page mapped. -/
theorem enter_spec (C : Caller lo hi cur t₀ s₀) (x : Entry) :
    Triple watch (Full lo hi cur t₀ before args) (enter cur file x) fun r s =>
      r = 0 ∧ Built lo hi cur before args s := by
  refine fetch_spec.bind fun t => fetch_spec.bind fun k => ?_
  refine Triple.bind (Triple.modify (Q := fun _ => Full lo hi cur t₀ before args) ?_) fun _ => ?_
  · rintro s ⟨-, -, L, T, hb⟩
    exact ⟨⟨L.carries, L.task⟩, T, hb⟩
  have now : Triple watch (Full lo hi cur t₀ before args) (current cur) fun t s =>
      (t.codeLimit = t₀.codeLimit ∧ t.dataLimit = t₀.dataLimit) ∧
        s.sys.task cur = some t ∧ Full lo hi cur t₀ before args s :=
    fetch_spec.post fun t s h => ⟨h.2.limits h.1, h⟩
  refine now.bind fun t => .fact fun hlim => ?_
  refine Triple.bind (Triple.modify (Q := fun _ => Full lo hi cur t₀ before args) ?_) fun _ => ?_
  · exact fun s hs => hs.2.setExecutable hs.1 _
  exact freeRegion_triple C hlim.1 hlim.2 (build_spec C.slot x)

/-! ## The call -/

/-- What a call that fails leaves of `s`. The entries that the task had are there, others may have
come while it was read; without these `mem_map` is as it was, and with them it counts them. -/
structure Untouched (lo hi : Nat) (cur : Fin 64) (s s' : State) : Prop where
  inodes : s'.kernel.vol.fs.count = s.kernel.vol.fs.count
  buffers : s'.kernel.vol.fs.bcount = s.kernel.vol.fs.bcount
  tasks : s'.kernel.task = s.kernel.task
  files : s'.kernel.file = s.kernel.file
  handler : s'.handler = s.handler
  endCode : s'.endCode = s.endCode
  brk : s'.brk = s.brk
  space : s'.sys.task = s.sys.task
  held : s'.sys.held = s.sys.held
  sound : Sound lo hi s'.sys.mem s.sys.held
  entries : Grown s.sys.mem cur s'.sys.mem
  memMap : (∀ d i, present (s'.sys.mem.pte d i) = true → present (s.sys.mem.pte d i) = true) →
    ∀ i < pagingPages, s'.sys.mem.memMap i = s.sys.mem.memMap i

theorem Gathering.untouched (C : Caller lo hi cur t₀ s₀)
    (G : Gathering lo hi cur t₀ s₀ seen none [] s) : Untouched lo hi cur s₀ s := by
  have hheld : s.sys.held = s₀.sys.held := funext fun f => G.carries.others f List.not_mem_nil
  have S := G.carries.sound
  rw [hheld] at S
  refine
    { inodes := DFinsupp.ext fun j => G.trade.count j
      buffers := G.trade.bcount
      tasks := by rw [G.kernel]; rfl
      files := by rw [G.kernel]; rfl
      handler := G.handler
      endCode := G.endCode
      brk := G.brk
      space := ?_
      held := hheld
      sound := S
      entries := G.grown
      memMap := fun hnone i hi' => G.grown.counts_same C.sound S hnone hi' }
  obtain ⟨-, -, hargs⟩ := C.user
  have hsame : { t₀ with args := [] } = t₀ := by rw [← hargs]
  rw [G.task, hsame, ← C.task, Function.update_eq_self]

/-- A frame that is counted has an owner: a directory entry, a page-table entry, or the kernel. -/
def Owned (m : Mm.Mem) (held : Nat → Bool) (f : Nat) : Prop :=
  (∃ d, Mm.Points (m.dirv d) f) ∨ (∃ d i, Mm.Points (m.pte d i) f) ∨ held f = true

theorem owned_of_counted {m : Mm.Mem} {held : Nat → Bool} (S : Sound lo hi m held) {f : Nat}
    (h1 : lo ≤ f) (h2 : f < hi) (hne : m.cnt f ≠ 0) : Owned m held f := by
  by_contra hno
  unfold Owned at hno
  push Not at hno
  obtain ⟨hd, hp, hh⟩ := hno
  refine hne ?_
  rw [S.acct.count h1 h2, Mm.dirRefs_zero.mpr fun d _ => hd d,
    Mm.pteRefs_zero.mpr fun d i _ _ => hp d i, Bool.eq_false_of_not_eq_true hh]
  rfl

/-- AN EXEC CONSERVES PAGES AND FAILS CLEANLY. Whatever the file, the header, the script and the
strings, and however many pages are free: a call that returns an error has left the inodes, the
buffers, the task with its files and credentials, the handlers and `brk` as they were, and every
entry of the page tables. A call that returns 0 has mapped every page that `copy_strings` took. In
both cases every count is the number of references, and no counted frame is without an owner. -/
theorem exec_conserves (C : Caller lo hi cur t₀ s₀) (filename argv envp : Nat) {r : Int}
    (h : (doExecve cur file block filename argv envp).exec s₀ = .ok (r, s)) :
    ((r < 0 ∧ Untouched lo hi cur s₀ s) ∨
      (r = 0 ∧ ∃ x s₁ t, (prepare cur file block filename argv envp).exec s₀ = .ok (.ok x, s₁) ∧
        s₁.sys.task cur = some t ∧ Built lo hi cur s₀.sys.held t.args s)) ∧
    ∀ f, lo ≤ f → f < hi → s.sys.mem.cnt f ≠ 0 → Owned s.sys.mem s₀.sys.held f := by
  rw [doExecve, Prog.exec_bind] at h
  cases hp : (prepare cur file block filename argv envp).exec s₀ with
  | error e =>
    rw [hp] at h
    cases h
  | ok q =>
    obtain ⟨res, s₁⟩ := q
    rw [hp] at h
    have D : Decided lo hi cur t₀ s₀ res s₁ := (prepare_spec C filename argv envp).ends C.gathering hp
    cases res with
    | error e =>
      cases h
      have U := D.2.untouched C
      exact ⟨.inl ⟨Int.neg_neg_of_pos D.1, U⟩, fun f => owned_of_counted U.sound⟩
    | ok x =>
      obtain ⟨args, G⟩ := D
      have F : Full lo hi cur t₀ s₀.sys.held args s₁ := ⟨G.leaving C, G.there trivial, G.beyond⟩
      obtain ⟨hr, B⟩ := (enter_spec C x).ends F h
      exact ⟨.inr ⟨hr, x, s₁, _, rfl, G.current, B⟩, fun f => owned_of_counted B.sound⟩

/-! ## A region of one page -/

/-- The last reference to a page is given back. -/
theorem freePage_last {m : Mm.Mem} {f : Nat} (h : lowMem ≤ f) (hhi : f < m.highMemory)
    (h1 : m.memMap (Mm.mapNr f) = 1) : Mm.freePage f m = .ok () (m.setCount (Mm.mapNr f) 0) := by
  have hcnt : m.cnt f = 1 := (if_neg (Nat.not_lt.mpr h)).trans h1
  rw [Mm.freePage_ok h hhi (by rw [hcnt]; decide), hcnt]

/-- The entries of a table that are absent are cleared at once. -/
theorem freeEntries_absent {t : Nat} (m : Mm.Mem) (a n : Nat)
    (h : ∀ i, a ≤ i → i < a + n → present (m.ram t i) = false) :
    Mm.forLoop (Mm.freeEntry t) (List.range' a n) m =
      .ok true (m.fill t fun i => if a ≤ i ∧ i < a + n then 0 else m.ram t i) := by
  induction n generalizing a m with
  | zero =>
    have hsame : (fun i => if a ≤ i ∧ i < a + 0 then 0 else m.ram t i) = m.ram t := by
      funext i
      exact if_neg (by omega)
    rw [hsame]
    unfold Mm.Mem.fill
    rw [Function.update_eq_self]
    rfl
  | succ n ih =>
    have hfirst : Mm.freeEntry t a m = .ok true (m.poke t a 0) := by
      unfold Mm.freeEntry
      rw [if_neg (by rw [h a (Nat.le_refl a) (by omega)]; exact Bool.false_ne_true)]
    have hrest := ih (m.poke t a 0) (a + 1) fun i h1 h2 => by
      rw [Mm.poke_ram_self, if_neg (by omega)]
      exact h i (by omega) (by omega)
    rw [List.range'_succ, Mm.forLoop, hfirst, Mm.Res.bind, if_pos rfl, hrest]
    unfold Mm.Mem.fill Mm.Mem.poke
    simp only [Function.update_self, Function.update_idem]
    congr 3
    funext i
    by_cases hi : i = a
    · subst hi
      rw [if_neg (by omega), Function.update_self, if_pos (by omega)]
    · rw [Function.update_of_ne hi]
      by_cases hin : a ≤ i ∧ i < a + (n + 1)
      · rw [if_pos hin, if_pos (by omega)]
      · rw [if_neg hin, if_neg (by omega)]

/-- The directory entry `d` is that of a page table `t` with one page, `f`, at its start. -/
structure OnePage (d t f : Nat) (m : Mm.Mem) : Prop where
  dir : m.ram 0 d = Mm.userEntry t
  entry : m.ram t 0 = Mm.userEntry f
  pages : lowMem ≤ f ∧ f < 2 ^ 20 ∧ f < m.highMemory ∧ lowMem ≤ t ∧ t < 2 ^ 20 ∧ t < m.highMemory
  apart : Mm.mapNr f ≠ Mm.mapNr t
  page : m.memMap (Mm.mapNr f) = 1
  table : m.memMap (Mm.mapNr t) = 1
  absent : ∀ i, 1 ≤ i → i < 1024 → present (m.ram t i) = false

instance (d t f : Nat) (m : Mm.Mem) : Decidable (OnePage d t f m) :=
  decidable_of_iff (m.ram 0 d = Mm.userEntry t ∧ m.ram t 0 = Mm.userEntry f ∧
      (lowMem ≤ f ∧ f < 2 ^ 20 ∧ f < m.highMemory ∧ lowMem ≤ t ∧ t < 2 ^ 20 ∧ t < m.highMemory) ∧
      Mm.mapNr f ≠ Mm.mapNr t ∧ m.memMap (Mm.mapNr f) = 1 ∧ m.memMap (Mm.mapNr t) = 1 ∧
      ∀ i, 1 ≤ i → i < 1024 → present (m.ram t i) = false)
    ⟨fun ⟨h1, h2, h3, h4, h5, h6, h7⟩ => ⟨h1, h2, h3, h4, h5, h6, h7⟩,
      fun O => ⟨O.dir, O.entry, O.pages, O.apart, O.page, O.table, O.absent⟩⟩

/-- The memory when the page and the table have been released. -/
def released (d t f : Nat) (m : Mm.Mem) : Mm.Mem :=
  (((m.setCount (Mm.mapNr f) 0).fill t fun i => if i < 1024 then 0 else m.ram t i).setCount
    (Mm.mapNr t) 0).poke 0 d 0

variable {cur : Fin 64} {d t f : Nat} {m : Mm.Mem}

theorem OnePage.entries (O : OnePage d t f m) : Mm.forLoop (Mm.freeEntry t) (List.range 1024) m =
    .ok true ((m.setCount (Mm.mapNr f) 0).fill t fun i => if i < 1024 then 0 else m.ram t i) := by
  obtain ⟨hf, hf2, hfhi, -⟩ := O.pages
  have hfirst : Mm.freeEntry t 0 m = .ok true ((m.setCount (Mm.mapNr f) 0).poke t 0 0) := by
    unfold Mm.freeEntry
    rw [O.entry, if_pos (Mm.present_userEntry f), Mm.frame_userEntry hf2,
      freePage_last hf hfhi O.page, Mm.Res.bind]
  have hram : ∀ i, ((m.setCount (Mm.mapNr f) 0).poke t 0 0).ram t i = if i = 0 then 0 else m.ram t i := by
    intro i
    rw [Mm.poke_ram_self, Mm.setCount_ram]
  have hrest := freeEntries_absent ((m.setCount (Mm.mapNr f) 0).poke t 0 0) 1 1023 fun i h1 h2 => by
    rw [hram, if_neg (by omega)]
    exact O.absent i h1 (by omega)
  have hpage : (fun i => if 1 ≤ i ∧ i < 1 + 1023 then 0 else
      ((m.setCount (Mm.mapNr f) 0).poke t 0 0).ram t i) = fun i => if i < 1024 then 0 else m.ram t i := by
    funext i
    rw [hram]
    by_cases hi : i = 0
    · rw [if_neg (by omega), if_pos hi, if_pos (by omega)]
    · by_cases hlt : i < 1024
      · rw [if_pos (by omega), if_pos hlt]
      · rw [if_neg (by omega), if_neg hi, if_neg hlt]
  rw [List.range_eq_range', List.range'_succ, Mm.forLoop, hfirst, Mm.Res.bind, if_pos rfl, hrest, hpage]
  unfold Mm.Mem.fill Mm.Mem.poke
  simp only [Function.update_idem]

theorem OnePage.freeDir (O : OnePage d t f m) (h0 : t ≠ 0) :
    Mm.freeDir d m = .ok true (released d t f m) := by
  obtain ⟨-, -, -, ht, ht2, hthi⟩ := O.pages
  have hframe : frame (m.ram 0 d) = t := by rw [O.dir, Mm.frame_userEntry ht2]
  unfold Mm.freeDir
  rw [if_pos (by rw [O.dir]; exact Mm.present_userEntry t), hframe, O.entries, Mm.Res.bind]
  have hroot : ∀ page, ((m.setCount (Mm.mapNr f) 0).fill t page).ram 0 = m.ram 0 := by
    intro page
    rw [Mm.fill_ram_other (Ne.symm h0), Mm.setCount_ram]
  have hcount : ∀ page, ((m.setCount (Mm.mapNr f) 0).fill t page).memMap (Mm.mapNr t) = 1 := by
    intro page
    unfold Mm.Mem.fill Mm.Mem.setCount
    dsimp only
    rw [Function.update_of_ne (Ne.symm O.apart), O.table]
  have hlast : ∀ page, Mm.freePage t ((m.setCount (Mm.mapNr f) 0).fill t page) =
      .ok () (((m.setCount (Mm.mapNr f) 0).fill t page).setCount (Mm.mapNr t) 0) := by
    intro page
    apply freePage_last ht _ (hcount page)
    unfold Mm.Mem.fill Mm.Mem.setCount
    exact hthi
  rw [hroot, hframe, hlast, Mm.Res.bind, released]

/-- The directory entries of a region that are absent are passed over. -/
theorem freeDirs_absent {m : Mm.Mem} {a n : Nat}
    (h : ∀ i, a ≤ i → i < a + n → present (m.ram 0 i) = false) :
    Mm.forLoop Mm.freeDir (List.range' a n) m = .ok true m := by
  induction n generalizing a with
  | zero => rfl
  | succ n ih =>
    have hfirst : Mm.freeDir a m = .ok true m := by
      unfold Mm.freeDir
      rw [if_neg (by rw [h a (Nat.le_refl a) (by omega)]; exact Bool.false_ne_true)]
    rw [List.range'_succ, Mm.forLoop, hfirst, Mm.Res.bind, if_pos rfl]
    exact ih fun i h1 h2 => h i (by omega) (by omega)

/-- The code segment of one block releases the page and its table, the data segment nothing more. -/
theorem OnePage.free (O : OnePage (16 * cur) t f m) (h0 : t ≠ 0) (hcur : cur ≠ 0)
    (habs : ∀ i : Nat, 16 * cur < i → i < 16 * cur + 16 → present (m.ram 0 i) = false) :
    Mm.freePageTables (slotBase cur) 0x1000 m = .ok () (released (16 * cur) t f m) ∧
    Mm.freePageTables (slotBase cur) 0x4000000 (released (16 * cur) t f m) =
      .ok () (released (16 * cur) t f m) := by
  have hal : slotBase cur % 0x400000 = 0 := by
    unfold slotBase
    omega
  have hne : slotBase cur ≠ 0 := by
    unfold slotBase
    omega
  unfold Mm.freePageTables
  rw [if_neg (by omega), if_neg hne, if_neg (by omega), if_neg hne, Mm.dirIndex_slotBase cur.2]
  have h1 : Mm.blocks 0x1000 = 1 := by decide
  have h16 : Mm.blocks 0x4000000 = 16 := by decide
  rw [h1, h16]
  refine ⟨?_, ?_⟩
  · rw [List.range'_succ, Mm.forLoop, O.freeDir h0, Mm.Res.bind, if_pos rfl, List.range'_zero,
      Mm.forLoop, Mm.Res.bind]
  · have hram : ∀ i, (released (16 * cur) t f m).ram 0 i = if i = 16 * cur then 0 else m.ram 0 i := by
      intro i
      rw [released, Mm.poke_ram_self, Mm.setCount_ram, Mm.fill_ram_other (Ne.symm h0), Mm.setCount_ram]
    rw [freeDirs_absent fun i h1 h2 => by
      rw [hram]
      by_cases hi : i = 16 * cur
      · rw [if_pos hi]
        rfl
      · rw [if_neg hi]
        exact habs i (by omega) (by omega), Mm.Res.bind]

/-- `do_execve` goes on with `change_ldt` when the region has been released. -/
theorem enter_exec {x : Entry} {t : Files.Task} {k : Int × Files.Kernel} {u : Mm.Task} {m₁ m₂ : Mm.Mem}
    (ht : s.kernel.task cur = some t) (hk : Files.startProgram s.kernel cur t x.inode = some k)
    (hu : s.sys.task cur = some u) (h₁ : Mm.freePageTables (slotBase cur) u.codeLimit s.sys.mem = .ok () m₁)
    (h₂ : Mm.freePageTables (slotBase cur) u.dataLimit m₁ = .ok () m₂) :
    (enter cur file x).exec s = (build cur file x).exec { s with
      kernel := k.2
      handler := fun i => if i < 32 then 0 else s.handler i
      sys := ⟨m₂, s.sys.held,
        Function.update s.sys.task cur (some { u with executable := some (number x.inode) })⟩ } := by
  have hfetch : ∀ {α : Type} {f : State → Option α} {a : α} {s : State}, f s = some a →
      (fetch f).exec s = .ok (a, s) := fun {α f a s} h => by
    unfold fetch
    rw [Prog.exec_bind]
    have hread : (read f : Call (Option α)).exec s = .ok (some a, s) := by
      rw [← h]
      rfl
    rw [hread]
    rfl
  have hrun : ∀ {f : Mm.Mem → Mm.Res Unit} {m : Mm.Mem} {s : State}, f s.sys.mem = .ok () m →
      (run f).exec s = .ok ((), s.withMem m) := fun {f m s} h => by
    unfold run
    rw [Prog.exec_bind]
    have hread : (read fun s => f s.sys.mem : Call (Mm.Res Unit)).exec s = .ok (.ok () m, s) := by
      rw [← h]
      rfl
    rw [hread]
    rfl
  unfold enter
  rw [Prog.exec_bind, hfetch ht]
  dsimp only
  rw [Prog.exec_bind, hfetch hk]
  dsimp only
  rw [Prog.exec_bind]
  have hmodify : ∀ (f : State → State) (s : State), (modify f : Call Unit).exec s = .ok ((), f s) :=
    fun _ _ => rfl
  rw [hmodify]
  dsimp only
  rw [Prog.exec_bind, current, hfetch (a := u) hu]
  dsimp only
  rw [Prog.exec_bind, setSys, hmodify]
  dsimp only
  have hfirst : ∀ s' : State, s'.sys.mem = s.sys.mem →
      (run (Mm.freePageTables (slotBase cur) u.codeLimit)).exec s' = .ok ((), s'.withMem m₁) := fun s' h =>
    hrun (by rw [h, h₁])
  rw [Prog.exec_bind, hfirst]
  swap
  · rfl
  dsimp only
  have hsecond : ∀ s' : State, s'.sys.mem = m₁ →
      (run (Mm.freePageTables (slotBase cur) u.dataLimit)).exec s' = .ok ((), s'.withMem m₂) := fun s' h =>
    hrun (by rw [h, h₂])
  rw [Prog.exec_bind, hsecond]
  · rfl
  · rfl

/-! ## Three calls -/

/-- The words of the caller's page: the paths "/p" and "/s", the string "a", and an array with that string. -/
def callerPage : Nat → Mm.Word
  | 1 => 0x702f
  | 2 => 0x732f
  | 3 => 0x61
  | 4 => 12
  | _ => 0

/-- A page has been taken for it. -/
def takenMem : Mm.Mem :=
  ((Mm.boot 4080 4096 ⟨fun _ _ => 0, fun _ => 0, 0⟩).setCount 3839 1).fill 4095 fun _ => 0

/-- The page is mapped at the start of the region of task 1; fourteen pages are free. -/
def callerMem : Mm.Mem := (Mm.putPage 4095 (slotBase 1) (takenMem.fill 4095 callerPage)).2

/-- The task runs a program of one page, and has a segment of 64 MB. -/
def callerTask : Mm.Task := ⟨some 0x3010003, 0x1000, 0x1000, 0x4000000, [], none, .running, 0⟩

/-- The root directory names a program, "p", and a script, "s". -/
def callerFs : Fs.State where
  inode i :=
    if i = ⟨0x301, 1⟩ then ⟨0o040755, 0, 0, 2, 32, fun b => if b = 0 then 10 else 0, false⟩
    else if i.dev = 0x301 ∧ i.num < 5 then
      ⟨0o100755, 0, 0, 1, 5120, fun b => if b = 0 then i.num + 10 else 0, false⟩
    else .zero
  count := DFinsupp.single ⟨0x301, 1⟩ 6 + DFinsupp.single ⟨0x301, 3⟩ 1
  superBlock k := if k = 0 then ⟨0x301, some ⟨0x301, 1⟩⟩ else ⟨0, none⟩
  dirBlock _ _ j := ⟨if j = 0 then 2 else 4, fun c => if c ≠ 0 then 0 else if j = 0 then 112 else 115⟩
  bcount _ _ := 0

def callerState : State where
  kernel :=
    { vol := ⟨callerFs, fun _ _ => 0⟩
      inodeSuper := fun _ => none
      file := fun _ => ⟨0, 0, 0, none, 0, none⟩
      task := fun nr =>
        if nr = 1 then some ⟨0, 0, 0, some ⟨0x301, 1⟩, some ⟨0x301, 1⟩, some ⟨0x301, 3⟩,
          fun _ => none, fun _ => false, false, -1, false⟩
        else none
      rootDev := 0x301 }
  sys := ⟨callerMem, fun _ => false, fun nr => if nr = 1 then some callerTask else none⟩
  handler _ := 0
  endCode := 0x1000
  brk := 0x1000

/-- The first blocks of the two files; there is no "/i". -/
def callerBlock (_ : Inode.Dev) (b : Fs.Block) : Option Block :=
  if b = 12 then some Script.tinyHeader else if b = 14 then some Script.tinyScript else none

/-- No page of a file has anything in it. -/
def emptyFile (_ : Nat) : Mm.Program := ⟨⟨0, 0, 0, 0, 0, 0, 0⟩, 0, fun _ _ => 0⟩

theorem callerMem_sound : Sound 4080 4096 callerMem fun _ => false := by
  have S := @Mm.boot_sound 4080 4096 ⟨fun _ _ => 0, fun _ => 0, 0⟩ (by decide) (by decide) (by decide)
  have F : Mm.Fresh 4080 4096 _ _ 4095 takenMem := Mm.getFreePage_spec S rfl
  have hnot : Mm.NotTable takenMem 4095 := by
    obtain ⟨h0, hd⟩ := (F.new S).1
    refine ⟨h0, fun d => ?_⟩
    rw [F.dirv]
    exact hd d
  have S₁ := F.sound.fill (p := callerPage) hnot (by decide)
  have hrun : present ((takenMem.fill 4095 callerPage).pte (Mm.dirIndex (slotBase 1))
        (Mm.tableIndex (slotBase 1))) = false ∧
      (Mm.putPage 4095 (slotBase 1) (takenMem.fill 4095 callerPage)).1 = true := by decide +kernel
  obtain ⟨hempty, hfull⟩ := hrun
  rcases Mm.putPage_spec S₁ (Mm.mem_dirs.mpr (by decide)) hempty (Function.update_self ..) with
    ⟨m', hput, S₂, -⟩ | hput
  · have hm : callerMem = m' := congrArg Prod.snd hput
    rw [F.back S] at S₂
    rwa [hm]
  · rw [hput] at hfull
    cases hfull

theorem callerState_caller : Caller 4080 4096 1 callerTask callerState where
  slot := by decide
  sound := callerMem_sound
  task := rfl
  user := by decide
  code := by decide
  data := by decide
  beyond k hk hb := by
    have h16 : Mm.blocks callerTask.dataLimit = 16 := by decide
    omega

/-- A run that ends with the given value ends. -/
theorem exec_of_map {α β : Type} {x : Call α} {s₀ : State} {f : α × State → β} {b : β}
    (h : (x.exec s₀).toOption.map f = some b) : ∃ r s', x.exec s₀ = .ok (r, s') ∧ f (r, s') = b := by
  cases hx : x.exec s₀ with
  | error e =>
    rw [hx] at h
    cases h
  | ok q =>
    rw [hx] at h
    exact ⟨q.1, q.2, rfl, Option.some.inj h⟩

/-- What `prepare` decides for "/p", and the state it leaves. -/
def ready : Entry × State :=
  match (prepare 1 emptyFile callerBlock 4 16 0).exec callerState with
  | .ok (.ok x, s) => (x, s)
  | _ => (⟨⟨0, 0⟩, ⟨0, 0, 0, 0, 0, 0, 0, 0⟩, 0, 0, 0⟩, callerState)

/-- The state in which the new program is built. -/
def entered : State :=
  let k := (ready.2.kernel.task 1).bind fun t => Files.startProgram ready.2.kernel 1 t ready.1.inode
  { ready.2 with
    kernel := (k.map Prod.snd).getD ready.2.kernel
    handler := fun i => if i < 32 then 0 else ready.2.handler i
    sys := ⟨released (16 * ((1 : Fin 64) : Nat)) 4094 4095 ready.2.sys.mem, ready.2.sys.held,
      Function.update ready.2.sys.task 1
        (some { (ready.2.sys.task 1).getD callerTask with executable := some (number ready.1.inode) })⟩ }

/-- What the run of "/p" comes to: `prepare`, the region it leaves, and the new program. -/
theorem ready_run :
    (match (prepare 1 emptyFile callerBlock 4 16 0).exec callerState with
      | .ok (.ok _, _) => true
      | _ => false) = true ∧
    OnePage (16 * ((1 : Fin 64) : Nat)) 4094 4095 ready.2.sys.mem ∧
    (∀ i < 15, present (ready.2.sys.mem.ram 0 (17 + i)) = false) ∧
    (ready.2.kernel.task 1).isSome = true ∧
    ((ready.2.kernel.task 1).bind fun t =>
      Files.startProgram ready.2.kernel 1 t ready.1.inode).isSome = true ∧
    (ready.2.sys.task 1).map (fun u => (u.codeLimit, u.dataLimit, u.args)) =
      some (0x1000, 0x4000000, [(31, 4093)]) ∧
    ((build 1 emptyFile ready.1).exec entered).toOption.map (fun r => (r.1, r.2.sys.mem.memMap 3837)) =
      some (0, 1) := by
  decide +kernel

theorem ready_exec : (prepare 1 emptyFile callerBlock 4 16 0).exec callerState = .ok (.ok ready.1, ready.2) := by
  have hrun := ready_run.1
  unfold ready
  generalize (prepare 1 emptyFile callerBlock 4 16 0).exec callerState = r at hrun ⊢
  match r, hrun with
  | .ok (.ok _, _), _ => rfl

theorem ready_enter : (enter 1 emptyFile ready.1).exec ready.2 = (build 1 emptyFile ready.1).exec entered := by
  obtain ⟨-, O, hrest, htask, hstart, hspace, -⟩ := ready_run
  obtain ⟨t, ht⟩ := Option.isSome_iff_exists.mp htask
  obtain ⟨k, hk⟩ := Option.isSome_iff_exists.mp hstart
  obtain ⟨u, hu, hlim⟩ := Option.map_eq_some_iff.mp hspace
  obtain ⟨hcode, hdata⟩ := Prod.mk.inj hlim
  rw [ht] at hk
  obtain ⟨h₁, h₂⟩ := O.free (by decide) (by decide) fun i h1 h2 => by
    have hi := hrest (i - 17) (by omega)
    rwa [show 17 + (i - 17) = i by omega] at hi
  rw [enter_exec ht hk hu (by rw [hcode]; exact h₁) (by rw [(Prod.mk.inj hdata).1]; exact h₂)]
  have hk' : (some t).bind (fun t => Files.startProgram ready.2.kernel 1 t ready.1.inode) = some k := hk
  rw [entered, ht, hk', hu]
  rfl

/-- "/p" is run with the argument "a": the page of `copy_strings` is the one page in use at the end. -/
theorem callerState_program : ∃ s', (doExecve 1 emptyFile callerBlock 4 16 0).exec callerState = .ok (0, s') ∧
    s'.sys.mem.memMap 3837 = 1 := by
  obtain ⟨-, -, -, -, -, -, hbuild⟩ := ready_run
  obtain ⟨r, s', hs, hr⟩ := exec_of_map hbuild
  obtain ⟨rfl, hm⟩ := Prod.mk.inj hr
  refine ⟨s', ?_, hm⟩
  rw [doExecve, Prog.exec_bind, ready_exec]
  exact ready_enter.trans hs

/-- "/s" names an interpreter that is not there, which `namei` finds out when the strings have been
copied. The path at 0x2000 is on a page that is not there, and empty. -/
theorem callerState_errors :
    ((doExecve 1 emptyFile callerBlock 8 16 0).exec callerState).toOption.map
      (fun r => (r.1, r.2.sys.mem.memMap 3837)) = some (-Files.enoent, 0) ∧
    ((doExecve 1 emptyFile callerBlock 0x2000 16 0).exec callerState).toOption.map
      (fun r => (r.1, r.2.sys.mem.memMap 3837)) = some (-Files.enoent, 1) ∧
    callerState.sys.mem.memMap 3837 = 0 := by
  decide +kernel

/-- The program keeps the page of its argument; the script that fails gives it back. -/
theorem exec_conserves_program :
    (∃ s', (doExecve 1 emptyFile callerBlock 4 16 0).exec callerState = .ok (0, s') ∧
      Built 4080 4096 1 (fun _ => false) [(31, 4093)] s' ∧ s'.sys.mem.memMap 3837 = 1) ∧
    ∃ s', (doExecve 1 emptyFile callerBlock 8 16 0).exec callerState = .ok (-Files.enoent, s') ∧
      Untouched 4080 4096 1 callerState s' ∧ s'.sys.mem.memMap 3837 = 0 := by
  constructor
  · obtain ⟨s', hs, hm⟩ := callerState_program
    obtain ⟨⟨hr, -⟩ | ⟨-, x, s₁, t, hp, ht, B⟩, -⟩ := exec_conserves callerState_caller 4 16 0 hs
    · exact absurd hr (by decide)
    · obtain ⟨-, -, -, -, -, hspace, -⟩ := ready_run
      rw [ready_exec] at hp
      cases hp
      rw [show ready.2.sys.task 1 = some t from ht] at hspace
      rw [(Prod.mk.inj (Prod.mk.inj (Option.some.inj hspace)).2).2] at B
      exact ⟨s', hs, B, hm⟩
  · obtain ⟨r, s', hs, hr⟩ := exec_of_map callerState_errors.1
    obtain ⟨rfl, hm⟩ := Prod.mk.inj hr
    obtain ⟨⟨-, U⟩ | ⟨hr, -⟩, -⟩ := exec_conserves callerState_caller 8 16 0 hs
    · exact ⟨s', hs, U, hm⟩
    · cases hr

/-- A call that fails may leave pages behind: the one of the path, here on a page that is not there,
and its page table if it is a new one. -/
theorem exec_error_loads_page : ∃ s',
    (doExecve 1 emptyFile callerBlock 0x2000 16 0).exec callerState = .ok (-Files.enoent, s') ∧
      Caller 4080 4096 1 callerTask callerState ∧
      callerState.sys.mem.memMap 3837 = 0 ∧ s'.sys.mem.memMap 3837 = 1 := by
  obtain ⟨-, hrun, hbefore⟩ := callerState_errors
  obtain ⟨r, s', hs, hr⟩ := exec_of_map hrun
  obtain ⟨rfl, hm⟩ := Prod.mk.inj hr
  exact ⟨s', hs, callerState_caller, hbefore, hm⟩

end Linux011.Exec.Execve

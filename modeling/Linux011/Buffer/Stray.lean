import Linux011.Buffer.WellFormed

/-!
# Calls of `getblk` on the queues (`fs/buffer.c`)

Calls of `getblk` run in turns: each goes on by itself from one place where it may sleep to the next.
In between, `brelse` and the device change `b_count`, `b_dirt` and `b_lock` of any buffer. A call that
`sync_dev` makes inside of another is a call of its own.

All pointers that are followed are buffer heads but one. `insert_into_queues` stores through `b_next`
of the buffer without asking whether there was a first buffer in its chain. So a call that takes a
buffer for a device writes just above address 0, where the page directory is, unless another buffer
has the hash value already. The queues themselves stay well formed.
-/

namespace Linux011.Buffer.Queues

open Lib (Prog Segment Returns)
open Lib.Segment (last)
open Lib.Prog (read modify stop alarm when)

/-! ## `getblk` -/

/-- `BADNESS`. -/
def Heads.badness (s : Heads) (bh : Nat) : Nat := 2 * (s.dirt bh).toNat + (s.lock bh).toNat

/-- `tmp` is not in use, and better than what has been found. -/
def Heads.better (s : Heads) (bh : Option Nat) (tmp : Nat) : Bool :=
  decide (s.count tmp = 0) && bh.all fun b => decide (s.badness tmp < s.badness b)

/-- The loop over the ring; `bh` is the best buffer so far. -/
def scan (bh : Option Nat) : Nat → Option Nat → Code (Option Nat)
  | 0, _ => stop .endless
  | _ + 1, none => do
    alarm .stray
    stop .endless
  | n + 1, some tmp => do
    deref (some tmp)
    let better ← read fun s => s.better bh tmp
    let good ← read fun s => decide (s.badness tmp = 0)
    if better && good then return some tmp
    else do
      let next ← field Heads.nextFree (some tmp)
      let free ← read Heads.freeList
      let best := if better then some tmp else bh
      if next = free then return best else scan best n next

/-- Where a call of `getblk` is, when another may run. -/
inductive Point where
  /-- No call, or it has returned. -/
  | idle
  /-- At `repeat`. -/
  | search (dev : Dev) (block : Block)
  /-- In `get_hash_table`, with `b_count` raised. -/
  | found (bh : Nat) (dev : Dev) (block : Block)
  /-- A buffer has been chosen; it may be locked or dirty. -/
  | chosen (bh : Nat) (dev : Dev) (block : Block)
  deriving DecidableEq

/-- From `repeat` on. When all buffers are in use, the call sleeps and begins again. -/
def getblkRepeat (dev : Dev) (block : Block) : Code Point := do
  match ← findBuffer dev block with
  | some bh =>
    modify fun s => { s with count := Function.update s.count bh ((s.count bh + 1) % 256) }
    return .found bh dev block
  | none =>
    let nr ← read Heads.nr
    match ← scan none nr (← read Heads.freeList) with
    | none => return .search dev block
    | some bh => return .chosen bh dev block

/-- The end of `get_hash_table`. -/
def getHashTableEnd (bh : Nat) (dev : Dev) (block : Block) : Code Point := do
  let locked ← read fun s => s.lock bh
  let is ← read fun s => decide (s.dev bh = dev ∧ s.blocknr bh = block)
  if locked then return .found bh dev block
  else if is then return .idle
  else do
    modify fun s => { s with count := Function.update s.count bh ((s.count bh + 255) % 256) }
    return .search dev block

/-- The end of `getblk`. A dirty buffer is written by `sync_dev` first. -/
def getblkEnd (bh : Nat) (dev : Dev) (block : Block) : Code Point := do
  let locked ← read fun s => s.lock bh
  let used ← read fun s => decide (s.count bh ≠ 0)
  let dirty ← read fun s => s.dirt bh
  if locked then return .chosen bh dev block
  else if used then return .search dev block
  else if dirty then return .chosen bh dev block
  else do
    match ← findBuffer dev block with
    | some _ => return .search dev block
    | none =>
      modify fun s => { s with count := Function.update s.count bh 1 }
      rename bh dev block
      return .idle

/-- A call goes on to the next place where another may run. -/
def Point.go : Point → Code Point
  | .idle => return .idle
  | .search dev block => getblkRepeat dev block
  | .found bh dev block => getHashTableEnd bh dev block
  | .chosen bh dev block => getblkEnd bh dev block

inductive Event where
  | call (c : Nat) (dev : Dev) (block : Block)
  | go (c : Nat)
  | touch (bh count : Nat) (dirt lock : Bool)

/-- Where the calls are; one that has not returned is not begun again. -/
abbrev Calls := Nat → Point

def step (calls : Calls) : Event → Code Calls
  | .call c dev block =>
    return if calls c = .idle then Function.update calls c (.search dev block) else calls
  | .go c => do return Function.update calls c (← (calls c).go)
  | .touch bh count dirt lock => do
    modify fun s =>
      { s with
        count := Function.update s.count bh (count % 256)
        dirt := Function.update s.dirt bh dirt
        lock := Function.update s.lock bh lock }
    return calls

def steps (calls : Calls) : List Event → Code Calls
  | [] => return calls
  | e :: es => do steps (← step calls e) es

def noCalls : Calls := fun _ => .idle

/-! ## What a call follows -/

variable {s s' : Heads} {order : List Nat} {chain : Nat → List Nat} {calls : Calls} {bh : Nat} {dev : Dev}
  {block : Block} {watch : Stray → Bool}

/-- The queues do not depend on the other fields. -/
theorem Represents.touched (R : Represents s order chain) (count : Nat → Nat) (dirt lock : Nat → Bool) :
    Represents { s with count := count, dirt := dirt, lock := lock } order chain :=
  ⟨R.ring, R.once, R.path, R.member⟩

/-- One round of the loop. -/
theorem scan_round {i n : Nat} {best : Option Nat} (hi : i < s.nr) :
    (scan best (n + 1) (some i)).run watch s =
      if s.better best i && decide (s.badness i = 0) then .ok (some i, s)
      else if s.nextFree i = s.freeList then .ok (if s.better best i then some i else best, s)
      else (scan (if s.better best i then some i else best) n (s.nextFree i)).run watch s := by
  refine (Prog.run_then (run_deref (fine_of_lt watch hi))).trans ?_
  refine (Prog.run_then (run_read _)).trans ((Prog.run_then (run_read _)).trans ?_)
  cases s.better best i && decide (s.badness i = 0) with
  | true => rfl
  | false =>
    refine (Prog.run_then (run_field (fine_of_lt watch hi))).trans ((Prog.run_then (run_read _)).trans ?_)
    by_cases hend : s.nextFree i = s.freeList
    · exact (congrArg (fun x : Code (Option Nat) => x.run watch s) (if_pos hend)).trans (if_pos hend).symm
    · exact (congrArg (fun x : Code (Option Nat) => x.run watch s) (if_neg hend)).trans (if_neg hend).symm

theorem picked_lt {i : Nat} {best : Option Nat} {c : Prop} [Decidable c] (hi : i < s.nr)
    (hbest : ∀ b, best = some b → b < s.nr) : ∀ b, (if c then some i else best) = some b → b < s.nr := by
  intro b hb
  split at hb
  · rw [← Option.some.inj hb]
    exact hi
  · exact hbest b hb

/-- The loop in the ring: it ends, at the latest where it has begun. -/
theorem run_scan {first i n : Nat} {back best : Option Nat} {l : List Nat}
    (h : Segment s.nextFree s.prevFree back (some i) (i :: l) (some first)) (hn : l.length < n)
    (hfree : s.freeList = some first) (hl : first ∉ l) (hlt : ∀ j ∈ i :: l, j < s.nr)
    (hbest : ∀ b, best = some b → b < s.nr) :
    ∃ r, (scan best n (some i)).run watch s = .ok (r, s) ∧ ∀ b, r = some b → b < s.nr := by
  have hself : ∀ j < s.nr, ∀ b, some j = some b → b < s.nr := fun j hj b hb =>
    Option.some.inj hb ▸ hj
  induction l generalizing i back best n with
  | nil =>
    obtain ⟨n, rfl⟩ : ∃ m, n = m + 1 := ⟨n - 1, by omega⟩
    have hnext : s.nextFree i = s.freeList := h.tail.2.start_nil.trans hfree.symm
    have hi := hlt i List.mem_cons_self
    rw [scan_round hi, if_pos hnext]
    split
    · exact ⟨_, rfl, hself i hi⟩
    · exact ⟨_, rfl, picked_lt hi hbest⟩
  | cons j l ih =>
    obtain ⟨n, rfl⟩ : ∃ m, n = m + 1 := ⟨n - 1, by omega⟩
    have hnext : s.nextFree i = some j := h.tail.2.start_cons
    have hgo : s.nextFree i ≠ s.freeList := by
      rw [hnext, hfree]
      exact fun he => hl (Option.some.inj he ▸ List.mem_cons_self)
    have hi := hlt i List.mem_cons_self
    rw [scan_round hi, if_neg hgo]
    split
    · exact ⟨_, rfl, hself i hi⟩
    · have hrest := h.tail.2
      rw [hnext] at hrest ⊢
      exact ih hrest (by simp at hn; omega) (fun hm => hl (List.mem_cons_of_mem _ hm))
        (fun k hk => hlt k (List.mem_cons_of_mem _ hk)) (picked_lt hi hbest)

namespace Represents

theorem run_ring (R : Represents s order chain) (hnr : 0 < s.nr) (watch : Stray → Bool) :
    ∃ r, (scan none s.nr s.freeList).run watch s = .ok (r, s) ∧ ∀ b, r = some b → b < s.nr := by
  have hlen : order.length = s.nr := by rw [R.once.length_eq, List.length_range]
  have hring : Segment s.nextFree s.prevFree (last none order) s.freeList order s.freeList := R.ring
  have hnd := R.ring_nodup
  have hlt : ∀ i ∈ order, i < s.nr := fun i hi => R.ring_mem.mp hi
  cases order with
  | nil => exact absurd hlen.symm hnr.ne'
  | cons a l =>
    have hfree : s.freeList = some a := hring.start_cons
    rw [hfree] at hring ⊢
    exact run_scan hring (by rw [← hlen]; exact Nat.lt_succ_self _) hfree (List.nodup_cons.mp hnd).1 hlt
      nofun

/-- The links of a buffer lead to buffers. -/
theorem links_lt (R : Represents s order chain) (C : Clean s) (hb : bh < s.nr) {j : Nat}
    (h : s.prev bh = some j ∨ s.next bh = some j) : j < s.nr := by
  have hd : s.dev bh ≠ 0 := by
    intro h0
    obtain ⟨hn, hp⟩ := C bh hb h0
    rw [hn, hp] at h
    exact h.elim nofun nofun
  have hmem := R.chain_bucket hb hd
  have hk := bucket_lt s bh
  exact ((R.member _ hk j).mp (h.elim (R.prev_mem hk hmem) (R.next_mem hk hmem))).1

theorem ring_lt (R : Represents s order chain) (hb : bh < s.nr) {j : Nat}
    (h : s.prevFree bh = some j ∨ s.nextFree bh = some j) : j < s.nr := by
  have hring : Segment s.nextFree s.prevFree (last none order) s.freeList order s.freeList := R.ring
  have hmem := R.ring_mem.mpr hb
  refine R.ring_mem.mp (h.elim (fun h => ?_) fun h => ?_)
  · exact (hring.next_of_prev (Or.inr ⟨rfl, rfl⟩) hmem h).1
  · exact (hring.prev_of_next (Or.inr ⟨rfl, rfl⟩) hmem h).1

theorem removable (R : Represents s order chain) (C : Clean s) (hb : bh < s.nr) (watch : Stray → Bool) :
    s.Removable watch bh where
  self := fine_of_lt watch hb
  next h := by
    obtain ⟨j, hj⟩ := Option.ne_none_iff_exists'.mp h
    rw [hj]
    exact fine_of_lt watch (R.links_lt C hb (Or.inr hj))
  prev h := by
    obtain ⟨j, hj⟩ := Option.ne_none_iff_exists'.mp h
    rw [hj]
    exact fine_of_lt watch (R.links_lt C hb (Or.inl hj))
  nextFree := by
    obtain ⟨j, hj⟩ := Option.ne_none_iff_exists'.mp (R.free_ne hb).2
    rw [hj]
    exact fine_of_lt watch (R.ring_lt hb (Or.inr hj))
  prevFree := by
    obtain ⟨j, hj⟩ := Option.ne_none_iff_exists'.mp (R.free_ne hb).1
    rw [hj]
    exact fine_of_lt watch (R.ring_lt hb (Or.inl hj))
  ring := R.free_ne hb

end Represents

/-- What is left of the ring ends in buffers. -/
theorem Taken.queueable (T : Taken s bh order chain) (hlt : ∀ i ∈ order, i < s.nr) (hb : bh < s.nr)
    (watch : Stray → Bool) : s.Queueable watch bh := by
  have hself := fine_of_lt watch hb
  have hring : Segment s.nextFree s.prevFree (last none (order.erase bh)) s.freeList (order.erase bh)
      s.freeList := T.ring
  cases hl : order.erase bh with
  | nil =>
    obtain ⟨hfree, hlast⟩ := T.alone hl
    exact ⟨hself, by rw [hfree]; exact hself, by rw [hlast]; exact hself⟩
  | cons a l =>
    have hmem : ∀ i ∈ a :: l, i < s.nr := fun i hi => hlt i (List.mem_of_mem_erase (hl ▸ hi))
    rw [hl] at hring
    have hfree : s.freeList = some a := hring.start_cons
    obtain ⟨z, hz, hlz⟩ := Segment.last_mem none a l
    have hlast : s.lastFree = some z := by
      rw [Heads.lastFree, hfree, ← hlz]
      exact hring.tail.1
    refine ⟨hself, ?_, ?_⟩
    · rw [hfree]
      exact fine_of_lt watch (hmem a List.mem_cons_self)
    · rw [hlast]
      exact fine_of_lt watch (hmem z hz)

/-! ## One step -/

/-- Another buffer with this hash value has a device. -/
def Heads.Shared (s : Heads) (bh : Nat) (dev : Dev) (block : Block) : Prop :=
  ∃ i < s.nr, i ≠ bh ∧ s.dev i ≠ 0 ∧ s.bucket i = hashfn dev block

theorem Represents.first (R : Represents s order chain) (C : Clean s) (hb : bh < s.nr) {t : Heads}
    (ht : t = { s.removed bh with
      dev := Function.update s.dev bh dev, blocknr := Function.update s.blocknr bh block }) :
    (∃ i < s.nr, t.hashTable (t.bucket bh) = some i) ∧ s.Shared bh dev block ∨
      t.hashTable (t.bucket bh) = none ∧ ¬ s.Shared bh dev block := by
  have T := R.removed C hb
  have hbucket : t.bucket bh = hashfn dev block := by
    rw [ht, Heads.bucket]
    dsimp only
    rw [Function.update_self, Function.update_self]
  have hk : hashfn dev block < 307 := Nat.mod_lt _ (by decide)
  have hpath := T.path _ hk
  have hhash : t.hashTable = (s.removed bh).hashTable := by rw [ht]
  have hmem : ∀ i, i ∈ (chain (hashfn dev block)).erase bh ↔
      i ≠ bh ∧ i < s.nr ∧ s.dev i ≠ 0 ∧ s.bucket i = hashfn dev block := fun i => by
    rw [(R.chain_nodup hk).mem_erase_iff, R.member _ hk]
  rw [hbucket, hhash]
  cases hl : (chain (hashfn dev block)).erase bh with
  | nil =>
    rw [hl] at hpath hmem
    refine Or.inr ⟨hpath.start_nil, ?_⟩
    rintro ⟨i, hi, hne, hd, hb⟩
    exact List.not_mem_nil ((hmem i).mpr ⟨hne, hi, hd, hb⟩)
  | cons a l =>
    rw [hl] at hpath hmem
    obtain ⟨hne, hlt, hd, hb⟩ := (hmem a).mp List.mem_cons_self
    exact Or.inl ⟨⟨a, hlt, hpath.start_cons⟩, a, hlt, hne, hd, hb⟩

/-- The last lines of `getblk`: what they follow is a buffer head, unless the chain is empty. -/
theorem quiet_rename (R : Represents s order chain) (C : Clean s) (hb : bh < s.nr) :
    (rename bh dev block).Quiet (fun _ => true) s ↔ (dev ≠ 0 → s.Shared bh dev block) := by
  have hremove := run_remove (R.removable C hb fun _ => true)
  have hrun : (rename bh dev block).run (fun _ => true) s = (insertIntoQueues bh).run (fun _ => true)
      { s.removed bh with
        dev := Function.update s.dev bh dev, blocknr := Function.update s.blocknr bh block } :=
    (Prog.run_then hremove).trans (Prog.run_then rfl)
  have hfirst := R.first C hb (t := { s.removed bh with
    dev := Function.update s.dev bh dev, blocknr := Function.update s.blocknr bh block }) rfl
  have T : Taken { s.removed bh with
      dev := Function.update s.dev bh dev, blocknr := Function.update s.blocknr bh block }
      bh order chain := ⟨(R.removed C hb).ring, (R.removed C hb).path, (R.removed C hb).alone⟩
  have Q := T.queueable (fun i hi => R.ring_mem.mp hi) hb fun _ => true
  have hself : Function.update s.dev bh dev bh = dev := Function.update_self ..
  by_cases hd : dev = 0
  · refine iff_of_true ?_ fun h => absurd hd h
    have hok := run_insert ⟨Q, fun h => absurd (hself.trans hd) h⟩
    exact Prog.quiet_of_ok (hrun.trans hok)
  rcases hfirst with ⟨⟨i, hi, hhead⟩, hshared⟩ | ⟨hhead, hshared⟩
  · refine iff_of_true ?_ fun _ => hshared
    have hok := run_insert ⟨Q, fun _ => by rw [hhead]; exact fine_of_lt _ hi⟩
    exact Prog.quiet_of_ok (hrun.trans hok)
  · refine iff_of_false (fun hq => hq .stray (hrun.trans ?_)) fun h => hshared (h hd)
    rw [run_insert_front Q, if_neg fun h => hd (hself.symm.trans h), hhead]
    rfl

/-- Well-formed queues, and calls that have chosen buffers. -/
structure Consistent (s : Heads) (calls : Calls) : Prop where
  queues : WellFormed s
  clean : Clean s
  some : 0 < s.nr
  chosen : ∀ c bh dev block, calls c = .chosen bh dev block → bh < s.nr

/-- A piece of a call is in order: it returns, the queues stay well formed, and what it follows is a
buffer head exactly if the condition holds. -/
def Sound (x : Code Point) (s : Heads) (P : Prop) : Prop :=
  ∃ p s', x.exec s = .ok (p, s') ∧ WellFormed s' ∧ Clean s' ∧ s'.nr = s.nr ∧
    (∀ bh dev block, p = .chosen bh dev block → bh < s.nr) ∧ (x.Quiet (fun _ => true) s ↔ P)

/-- A piece whose run is the same for every watch. -/
theorem Sound.of_run {x : Code Point} (p : Point) (s' : Heads)
    (h : ∀ watch, x.run watch s = .ok (p, s')) (W : WellFormed s') (C : Clean s') (hnr : s'.nr = s.nr)
    (hp : ∀ bh dev block, p = .chosen bh dev block → bh < s.nr) {P : Prop} (hP : P) : Sound x s P :=
  ⟨p, s', h _, W, C, hnr, hp, iff_of_true (Prog.quiet_of_ok (h _)) hP⟩

/-- `b_count` of a buffer. -/
def Heads.counted (s : Heads) (bh n : Nat) : Heads := { s with count := Function.update s.count bh n }

theorem WellFormed.counted (W : WellFormed s) (n : Nat) : WellFormed (s.counted bh n) :=
  let ⟨_, _, R⟩ := W
  ⟨_, _, R.touched _ s.dirt s.lock⟩

theorem getblkRepeat_sound (W : WellFormed s) (C : Clean s) (hnr : 0 < s.nr) :
    Sound (getblkRepeat dev block) s True := by
  obtain ⟨order, chain, R⟩ := W
  obtain ⟨r, hfind, -, -⟩ := R.find_iff dev block
  cases r with
  | some bh =>
    exact .of_run (s := s) (.found bh dev block) (s.counted bh ((s.count bh + 1) % 256))
      (fun watch => Prog.run_then (hfind watch)) (WellFormed.counted ⟨_, _, R⟩ _) C rfl nofun trivial
  | none =>
    have hscan := R.run_ring hnr
    obtain ⟨r, hr, hlt⟩ := hscan fun _ => false
    have hsame : ∀ watch, (scan none s.nr s.freeList).run watch s = .ok (r, s) := fun watch => by
      obtain ⟨r', hr', -⟩ := hscan watch
      exact (Prog.quiet_of_ok hr').run_eq.trans hr
    have front : ∀ {watch}, (getblkRepeat dev block).run watch s = _ := fun {watch} =>
      (Prog.run_then (hfind watch)).trans ((Prog.run_then (run_read _)).trans
        ((Prog.run_then (run_read _)).trans (Prog.run_then (hsame watch))))
    cases r with
    | none => exact .of_run (.search dev block) s (fun watch => front) ⟨_, _, R⟩ C rfl nofun trivial
    | some i =>
      refine .of_run (.chosen i dev block) s (fun watch => front) ⟨_, _, R⟩ C rfl (fun bh d b h => ?_)
        trivial
      cases h
      exact hlt _ rfl

theorem getHashTableEnd_sound (W : WellFormed s) (C : Clean s) :
    Sound (getHashTableEnd bh dev block) s True := by
  have front : ∀ {watch}, (getHashTableEnd bh dev block).run watch s = _ := fun {watch} =>
    (Prog.run_then (run_read _)).trans (Prog.run_then (run_read _))
  by_cases hlock : s.lock bh = true
  · refine .of_run (.found bh dev block) s (fun watch => front.trans ?_) W C rfl nofun trivial
    rw [if_pos hlock]
    rfl
  by_cases his : s.dev bh = dev ∧ s.blocknr bh = block
  · refine .of_run .idle s (fun watch => front.trans ?_) W C rfl nofun trivial
    rw [if_neg hlock, if_pos (decide_eq_true his)]
    rfl
  · refine .of_run (.search dev block) (s.counted bh ((s.count bh + 255) % 256))
      (fun watch => front.trans ?_) (W.counted _) C rfl nofun trivial
    rw [if_neg hlock, if_neg fun h => his (of_decide_eq_true h)]
    rfl

/-- A buffer is taken by the end of `getblk`. -/
def Heads.Takes (s : Heads) (bh : Nat) (dev : Dev) (block : Block) : Prop :=
  s.lock bh = false ∧ s.count bh = 0 ∧ s.dirt bh = false ∧ ∀ i < s.nr, s.Is i dev block → dev = 0

theorem getblkEnd_sound (W : WellFormed s) (C : Clean s) (hb : bh < s.nr) :
    Sound (getblkEnd bh dev block) s (s.Takes bh dev block → dev ≠ 0 → s.Shared bh dev block) := by
  have front : ∀ {watch}, (getblkEnd bh dev block).run watch s = _ := fun {watch} =>
    (Prog.run_then (run_read _)).trans ((Prog.run_then (run_read _)).trans (Prog.run_then (run_read _)))
  have hself : ∀ i d b, Point.chosen bh dev block = .chosen i d b → i < s.nr := fun i d b h => by
    cases h
    exact hb
  by_cases hlock : s.lock bh = true
  · refine .of_run (.chosen bh dev block) s (fun watch => front.trans ?_) W C rfl hself fun h => ?_
    · rw [if_pos hlock]
      rfl
    · exact absurd (h.1.symm.trans hlock) Bool.false_ne_true
  by_cases hcount : s.count bh ≠ 0
  · refine .of_run (.search dev block) s (fun watch => front.trans ?_) W C rfl nofun
      fun h => absurd h.2.1 hcount
    rw [if_neg hlock, if_pos (decide_eq_true hcount)]
    rfl
  by_cases hdirt : s.dirt bh = true
  · refine .of_run (.chosen bh dev block) s (fun watch => front.trans ?_) W C rfl hself fun h => ?_
    · rw [if_neg hlock, if_neg fun h => hcount (of_decide_eq_true h), if_pos hdirt]
      rfl
    · exact absurd (h.2.2.1.symm.trans hdirt) Bool.false_ne_true
  have next : ∀ {watch}, (getblkEnd bh dev block).run watch s = _ := fun {watch} =>
    front.trans (by rw [if_neg hlock, if_neg fun h => hcount (of_decide_eq_true h), if_neg hdirt])
  obtain ⟨order, chain, R⟩ := W
  obtain ⟨r, hfind, hfound, hsome⟩ := R.find_iff dev block
  have back : ∀ {watch}, (getblkEnd bh dev block).run watch s = _ := fun {watch} =>
    next.trans (Prog.run_then (hfind watch))
  cases r with
  | some i =>
    refine .of_run (.search dev block) s (fun watch => back) ⟨_, _, R⟩ C rfl nofun fun h hd => ?_
    obtain ⟨hi, his⟩ := hfound i rfl
    exact absurd (h.2.2.2 i hi his) hd
  | none =>
    have hno : ∀ i < s.nr, s.Is i dev block → dev = 0 := fun i hi his => by
      by_contra hd
      cases hsome.mpr ⟨hd, i, hi, his⟩
    have T : s.Takes bh dev block :=
      ⟨Bool.eq_false_of_not_eq_true hlock, not_not.mp hcount, Bool.eq_false_of_not_eq_true hdirt, hno⟩
    have R' : Represents (s.counted bh 1) order chain := R.touched _ s.dirt s.lock
    have last : ∀ {watch}, (getblkEnd bh dev block).run watch s
        = (rename bh dev block >>= fun _ => pure Point.idle).run watch (s.counted bh 1) := back
    obtain ⟨hnr, -⟩ := renamed_identity (s.counted bh 1) bh dev block
    obtain ⟨chain', W'⟩ := R'.renamed C hb dev block
    refine ⟨_, _, last.trans (Prog.run_then (exec_rename R' hb)), ⟨_, _, W'⟩, R'.renamed_clean C hb, hnr,
      nofun, ?_⟩
    have hquiet : (getblkEnd bh dev block).Quiet (fun _ => true) s
        ↔ (rename bh dev block).Quiet (fun _ => true) (s.counted bh 1) := by
      unfold Prog.Quiet
      simp only [last]
      refine Prog.quiet_bind.trans (and_iff_left fun _ _ _ => Prog.quiet_pure _ _ _)
    rw [hquiet, quiet_rename R' C hb]
    exact ⟨fun h _ hd => h hd, fun h hd => h T hd⟩

/-! ## Runs -/

/-- The step keeps the calls and the queues in order. -/
theorem Consistent.go {p : Point} (I : Consistent s calls) (c : Nat) (hp : calls c = p) :
    Sound p.go s (∀ bh dev block, p = .chosen bh dev block → s.Takes bh dev block → dev ≠ 0 →
      s.Shared bh dev block) := by
  cases p with
  | idle => exact .of_run .idle s (fun _ => rfl) I.queues I.clean rfl nofun nofun
  | search dev block =>
    obtain ⟨p, s', h, W, C, hnr, hp, hq⟩ := getblkRepeat_sound I.queues I.clean I.some
    exact ⟨p, s', h, W, C, hnr, hp, iff_of_true (hq.mpr trivial) nofun⟩
  | found bh dev block =>
    obtain ⟨p, s', h, W, C, hnr, hp, hq⟩ := getHashTableEnd_sound I.queues I.clean
    exact ⟨p, s', h, W, C, hnr, hp, iff_of_true (hq.mpr trivial) nofun⟩
  | chosen bh dev block =>
    obtain ⟨p, s', h, W, C, hnr, hp', hq⟩ :=
      getblkEnd_sound I.queues I.clean (I.chosen c bh dev block hp)
    refine ⟨p, s', h, W, C, hnr, hp', hq.trans ⟨fun h i d b he => ?_, fun h => h _ _ _ rfl⟩⟩
    cases he
    exact h

/-- A call that takes a buffer for a device finds another one with the hash value. -/
def Safe (s : Heads) (calls : Calls) : Event → Prop
  | .go c => ∀ bh dev block, calls c = .chosen bh dev block → s.Takes bh dev block → dev ≠ 0 →
    s.Shared bh dev block
  | _ => True

theorem Consistent.step (I : Consistent s calls) (e : Event) :
    ∃ calls' s', (step calls e).exec s = .ok (calls', s') ∧ Consistent s' calls' ∧
      ((step calls e).Quiet (fun _ => true) s ↔ Safe s calls e) := by
  cases e with
  | call c dev block =>
    refine ⟨_, s, rfl, ⟨I.queues, I.clean, I.some, fun c' bh d b h => ?_⟩,
      iff_of_true (Prog.quiet_pure _ _ _) trivial⟩
    split at h
    · by_cases hc : c' = c
      · rw [hc, Function.update_self] at h
        cases h
      · rw [Function.update_of_ne hc] at h
        exact I.chosen c' bh d b h
    · exact I.chosen c' bh d b h
  | go c =>
    obtain ⟨p, s', h, W, C, hnr, hp, hq⟩ := I.go c rfl
    refine ⟨_, s', (Prog.run_then h).trans rfl, ⟨W, C, by rw [hnr]; exact I.some, fun c' bh d b he => ?_⟩,
      (Prog.quiet_bind.trans (and_iff_left fun _ _ _ => Prog.quiet_pure _ _ _)).trans hq⟩
    rw [hnr]
    by_cases hc : c' = c
    · rw [hc, Function.update_self] at he
      exact hp bh d b he
    · rw [Function.update_of_ne hc] at he
      exact I.chosen c' bh d b he
  | touch bh count dirt lock =>
    obtain ⟨order, chain, R⟩ := I.queues
    exact ⟨calls, _, rfl, ⟨⟨_, _, R.touched ..⟩, I.clean, I.some, I.chosen⟩,
      iff_of_true (Prog.quiet_of_ok (r := (calls, _)) rfl) trivial⟩

/-- Every event of the run is safe where it happens. -/
def SafeRun (s : Heads) (calls : Calls) (es : List Event) : Prop :=
  ∀ es₁ e es₂, es = es₁ ++ e :: es₂ →
    ∀ calls' s', (steps calls es₁).exec s = .ok (calls', s') → Safe s' calls' e

theorem SafeRun.cons_iff {e : Event} {es : List Event} {calls' : Calls}
    (h : (step calls e).exec s = .ok (calls', s')) :
    SafeRun s calls (e :: es) ↔ Safe s calls e ∧ SafeRun s' calls' es := by
  have hfront : ∀ es₁, (steps calls (e :: es₁)).exec s = (steps calls' es₁).exec s' := fun es₁ =>
    Prog.run_then h
  constructor
  · intro hs
    refine ⟨hs [] e es rfl calls s rfl, fun es₁ f es₂ he c₁ s₁ h₁ => ?_⟩
    exact hs (e :: es₁) f es₂ (congrArg (e :: ·) he) c₁ s₁ ((hfront es₁).trans h₁)
  · rintro ⟨he, hs⟩ es₁ f es₂ heq c₁ s₁ h₁
    cases es₁ with
    | nil =>
      cases heq
      cases h₁
      exact he
    | cons g es₁ =>
      cases heq
      exact hs es₁ f es₂ rfl c₁ s₁ ((hfront es₁).symm.trans h₁)

theorem Consistent.steps (I : Consistent s calls) (es : List Event) :
    ∃ calls' s', (steps calls es).exec s = .ok (calls', s') ∧ Consistent s' calls' ∧
      ((Queues.steps calls es).Quiet (fun _ => true) s ↔ SafeRun s calls es) := by
  induction es generalizing s calls with
  | nil =>
    exact ⟨calls, s, rfl, I, iff_of_true (Prog.quiet_pure _ _ _) fun es₁ e es₂ he =>
      absurd he.symm (by simp)⟩
  | cons e es ih =>
    obtain ⟨calls₁, s₁, h, I₁, hq⟩ := I.step e
    obtain ⟨calls₂, s₂, h₂, I₂, hq₂⟩ := ih I₁
    refine ⟨calls₂, s₂, (Prog.run_then h).trans h₂, I₂, ?_⟩
    rw [SafeRun.cons_iff h, ← hq, ← hq₂]
    refine Prog.quiet_bind.trans (and_congr_right fun _ => ⟨fun hf => hf _ _ h, fun hf c t ht => ?_⟩)
    cases h.symm.trans ht
    exact hf

theorem bufferInit_consistent (blocknr : Nat → Block) {nr : Nat} (h : 0 < nr) :
    Consistent (bufferInit nr blocknr) noCalls where
  queues := ⟨_, _, bufferInit_represents blocknr nr h⟩
  clean := bufferInit_clean nr blocknr
  some := h
  chosen := nofun

/-- QUEUE UPDATES AND THE FIRST BUFFER OF A CHAIN. In every run of calls of `getblk` from `buffer_init`
on the calls return and the queues are well formed. The next step follows only pointers to buffer heads
exactly if, when it takes a buffer for a device, another one with the hash value has a device already;
and a run does if all of its steps do. -/
theorem getblk_stray (blocknr : Nat → Block) (nr : Nat) (h : 0 < nr) (es : List Event) :
    ∃ calls s, (steps noCalls es).exec (bufferInit nr blocknr) = .ok (calls, s) ∧ WellFormed s ∧
      (∀ e, (step calls e).Quiet (fun _ => true) s ↔ Safe s calls e) ∧
      ((steps noCalls es).Quiet (fun _ => true) (bufferInit nr blocknr) ↔
        SafeRun (bufferInit nr blocknr) noCalls es) := by
  obtain ⟨calls, s, hs, I, hq⟩ := (bufferInit_consistent blocknr h).steps es
  refine ⟨calls, s, hs, I.queues, fun e => ?_, hq⟩
  obtain ⟨-, -, -, -, hstep⟩ := I.step e
  exact hstep

/-- Block 1 of the first partition, on three buffers. -/
def firstCall : List Event := [.call 0 0x301 1, .go 0, .go 0]

/-- A block that has the hash value of block 1. -/
def secondCall : List Event := [.call 1 0x301 716, .go 1]

/-- The step that takes a buffer for the second block is in order. -/
theorem getblk_stray_second : ∃ calls s,
    (steps noCalls (firstCall ++ secondCall)).exec (bufferInit 3 fun _ => 0) = .ok (calls, s) ∧
      Safe s calls (.go 1) := by
  obtain ⟨calls, s, hs, -, hstep, -⟩ :=
    getblk_stray (fun _ => 0) 3 (by decide) (firstCall ++ secondCall)
  refine ⟨calls, s, hs, (hstep (.go 1)).mp ?_⟩
  cases hs.symm.trans (by rfl)
  decide +kernel

/-- The first block that is read, on three buffers. -/
theorem first_getblk_strays :
    ¬ (steps noCalls firstCall).Quiet (fun _ => true) (bufferInit 3 fun _ => 0) := by
  decide +kernel

end Linux011.Buffer.Queues

import Linux011.Buffer.Queues

/-!
# What the queues of buffer heads represent (`fs/buffer.c`)

`Represents` reads the pointers: the ring as the list of all buffers from `free_list` on, each hash
chain as the list of the buffers with its hash value. A pair of `remove_from_queues` and
`insert_into_queues` takes a buffer out of two lists and puts it into two lists. Between the two its
identity changes, and with it the chain.

A buffer with device 0 is on no chain. `find_buffer` does not find it, whatever its block number;
and `remove_from_queues` goes by its pointers all the same, so they have to be `NULL` (`Clean`). After
`insert_into_queues` they are.
-/

namespace Linux011.Buffer.Queues

open Lib (Prog Segment Returns)
open Lib.Segment (last skip)
open Lib.Prog (read modify stop alarm when)

variable {s s' : Heads} {bh k : Nat} {dev : Dev} {block : Block} {watch : Stray → Bool} {p v : Option Nat}

/-! ## The calls as functions of the state -/

/-- A store through a pointer, which may be `NULL`. -/
def redirect (f : Nat → Option Nat) (p v : Option Nat) : Nat → Option Nat :=
  fun i => if p = some i then v else f i

theorem redirect_none (f : Nat → Option Nat) (v : Option Nat) : redirect f none v = f := rfl

theorem redirect_some (f : Nat → Option Nat) (i : Nat) (v : Option Nat) :
    Function.update f i v = redirect f (some i) v := by
  funext j
  by_cases h : j = i
  · rw [h, Function.update_self, redirect, if_pos rfl]
  · rw [Function.update_of_ne h, redirect, if_neg fun he => h (Option.some.inj he).symm]

theorem redirect_self (f : Nat → Option Nat) (p : Option Nat) (i : Nat) :
    redirect f p (f i) i = f i := ite_self _

/-- What `remove_from_queues` leaves. -/
def Heads.removed (s : Heads) (bh : Nat) : Heads :=
  { s with
    next := redirect s.next (s.prev bh) (s.next bh)
    prev := redirect s.prev (s.next bh) (s.prev bh)
    hashTable := Function.update s.hashTable (s.bucket bh)
      (skip bh (s.next bh) (s.hashTable (s.bucket bh)))
    nextFree := redirect s.nextFree (s.prevFree bh) (s.nextFree bh)
    prevFree := redirect s.prevFree (s.nextFree bh) (s.prevFree bh)
    freeList := skip bh (s.nextFree bh) s.freeList }

/-- The last buffer of the ring. -/
def Heads.lastFree (s : Heads) : Option Nat := s.freeList.bind s.prevFree

/-- The ring with a buffer at its end, and no chain. -/
def Heads.queued (s : Heads) (bh : Nat) : Heads :=
  { s with
    next := redirect s.next (some bh) none
    prev := redirect s.prev (some bh) none
    nextFree := redirect (redirect s.nextFree (some bh) s.freeList) s.lastFree (some bh)
    prevFree := redirect (redirect s.prevFree (some bh) s.lastFree) s.freeList (some bh) }

/-- What `insert_into_queues` leaves. -/
def Heads.inserted (s : Heads) (bh : Nat) : Heads :=
  if s.dev bh = 0 then s.queued bh
  else
    { s.queued bh with
      next := redirect s.next (some bh) (s.hashTable (s.bucket bh))
      prev := redirect (redirect s.prev (some bh) none) (s.hashTable (s.bucket bh)) (some bh)
      hashTable := Function.update s.hashTable (s.bucket bh) (some bh) }

/-- Following the pointer raises no alarm that is heard. -/
def Fine (watch : Stray → Bool) (s : Heads) (p : Option Nat) : Prop :=
  watch .stray = false ∨ s.Valid p = true

theorem run_deref (h : Fine watch s p) : (deref p).run watch s = .ok ((), s) := by
  unfold deref
  refine (Prog.run_then (a := s.Valid p) (t := s) rfl).trans ?_
  unfold when
  split
  · next hv =>
    have hw : watch .stray = false := h.resolve_right (by rw [hv]; exact Bool.false_ne_true)
    show (if watch .stray then _ else _) = _
    rw [hw]
    rfl
  · rfl

theorem run_field {f : Heads → Nat → Option Nat} (h : Fine watch s p) :
    (field f p).run watch s = .ok (p.bind (f s), s) :=
  (Prog.run_then (run_deref h)).trans rfl

theorem run_setNext (h : Fine watch s p) :
    (setNext p v).run watch s = .ok ((), { s with next := redirect s.next p v }) := by
  refine (Prog.run_then (run_deref h)).trans ?_
  cases p with
  | none => rfl
  | some i => rw [← redirect_some]; rfl

theorem run_setPrev (h : Fine watch s p) :
    (setPrev p v).run watch s = .ok ((), { s with prev := redirect s.prev p v }) := by
  refine (Prog.run_then (run_deref h)).trans ?_
  cases p with
  | none => rfl
  | some i => rw [← redirect_some]; rfl

theorem run_setNextFree (h : Fine watch s p) :
    (setNextFree p v).run watch s = .ok ((), { s with nextFree := redirect s.nextFree p v }) := by
  refine (Prog.run_then (run_deref h)).trans ?_
  cases p with
  | none => rfl
  | some i => rw [← redirect_some]; rfl

theorem run_setPrevFree (h : Fine watch s p) :
    (setPrevFree p v).run watch s = .ok ((), { s with prevFree := redirect s.prevFree p v }) := by
  refine (Prog.run_then (run_deref h)).trans ?_
  cases p with
  | none => rfl
  | some i => rw [← redirect_some]; rfl

theorem run_read {α : Type} (f : Heads → α) :
    (read f : Code α).run watch s = .ok (f s, s) := rfl

theorem run_setHash :
    (setHash k v).run watch s = .ok ((), { s with hashTable := Function.update s.hashTable k v }) := rfl

theorem run_setFreeList :
    (setFreeList v).run watch s = .ok ((), { s with freeList := v }) := rfl

/-- A part of a call that is left out when the condition does not hold. -/
theorem run_when {c : Prop} [Decidable c] {x : Code Unit} {s t : Heads}
    (h : c → x.run watch s = .ok ((), t)) (h' : ¬ c → s = t) :
    (when c x).run watch s = .ok ((), t) := by
  unfold when
  split
  · next hc => exact h hc
  · next hc => rw [← h' hc]; rfl

/-- The pointers that `remove_from_queues` follows. -/
structure Heads.Removable (watch : Stray → Bool) (s : Heads) (bh : Nat) : Prop where
  self : Fine watch s (some bh)
  next : s.next bh ≠ none → Fine watch s (s.next bh)
  prev : s.prev bh ≠ none → Fine watch s (s.prev bh)
  nextFree : Fine watch s (s.nextFree bh)
  prevFree : Fine watch s (s.prevFree bh)
  ring : s.prevFree bh ≠ none ∧ s.nextFree bh ≠ none

theorem run_remove (F : s.Removable watch bh) :
    (removeFromQueues bh).run watch s = .ok ((), s.removed bh) := by
  unfold removeFromQueues
  -- the chain, store by store
  refine (Prog.run_then (run_field (by exact F.self))).trans ?_
  refine (Prog.run_then (run_when (t := { s with
    prev := redirect s.prev (s.next bh) (s.prev bh) }) (fun hne => ?_) fun hno => ?_)).trans ?_
  · exact (Prog.run_then (run_field (by exact F.self))).trans (run_setPrev (by exact F.next hne))
  · rw [show s.next bh = none from not_not.mp hno, redirect_none]
  refine (Prog.run_then (run_field (by exact F.self))).trans ?_
  simp only [Option.bind_some, redirect_self]
  refine (Prog.run_then (run_when (t := { s with
    prev := redirect s.prev (s.next bh) (s.prev bh)
    next := redirect s.next (s.prev bh) (s.next bh) }) (fun hne => ?_) fun hno => ?_)).trans ?_
  · exact (Prog.run_then (run_field (by exact F.self))).trans (run_setNext (by exact F.prev hne))
  · rw [not_not.mp hno, redirect_none]
  refine (Prog.run_then (run_read ..)).trans ((Prog.run_then (run_read ..)).trans ?_)
  refine (Prog.run_then (run_when (t := { s with
    prev := redirect s.prev (s.next bh) (s.prev bh)
    next := redirect s.next (s.prev bh) (s.next bh)
    hashTable := Function.update s.hashTable (s.bucket bh)
      (skip bh (s.next bh) (s.hashTable (s.bucket bh))) }) (fun h => ?_) fun hno => ?_)).trans ?_
  · refine (Prog.run_then (run_field (by exact F.self))).trans ?_
    have hhead : s.hashTable (s.bucket bh) = some bh := h
    dsimp only [Option.bind_some]
    rw [redirect_self, run_setHash, skip, if_pos hhead]
    rfl
  · have hhead : ¬ s.hashTable (s.bucket bh) = some bh := hno
    rw [skip, if_neg hhead, Function.update_eq_self]
  -- the ring
  refine (Prog.run_then (run_field (by exact F.self))).trans ?_
  refine (Prog.run_then (run_field (by exact F.self))).trans ?_
  dsimp only [Option.bind_some]
  rw [if_neg (not_or.mpr F.ring)]
  refine (Prog.run_then (run_setNextFree (by exact F.prevFree))).trans ?_
  refine (Prog.run_then (run_field (by exact F.self))).trans ?_
  refine (Prog.run_then (run_field (by exact F.self))).trans ?_
  dsimp only [Option.bind_some]
  rw [redirect_self]
  refine (Prog.run_then (run_setPrevFree (by exact F.nextFree))).trans ?_
  refine (Prog.run_then (run_read ..)).trans ?_
  refine run_when (fun h => ?_) fun hno => ?_
  · refine (Prog.run_then (run_field (by exact F.self))).trans ?_
    dsimp only [Option.bind_some] at h ⊢
    rw [redirect_self, run_setFreeList, Heads.removed, skip, skip, if_pos h]
  · dsimp only at hno ⊢
    rw [Heads.removed, skip, skip, if_neg hno]

theorem redirect_redirect (f : Nat → Option Nat) (p v w : Option Nat) :
    redirect (redirect f p v) p w = redirect f p w := by
  funext i
  unfold redirect
  split
  · rfl
  · rfl

/-- The last buffer is the same after the first of the stores. -/
theorem lastFree_redirect (s : Heads) (bh : Nat) :
    s.freeList.bind (redirect s.prevFree (some bh) s.lastFree) = s.lastFree := by
  unfold Heads.lastFree redirect
  cases s.freeList with
  | none => rfl
  | some i => exact ite_self _

/-- The pointers of the ring that `insert_into_queues` follows. -/
structure Heads.Queueable (watch : Stray → Bool) (s : Heads) (bh : Nat) : Prop where
  self : Fine watch s (some bh)
  freeList : Fine watch s s.freeList
  lastFree : Fine watch s s.lastFree

/-- The pointers that `insert_into_queues` follows. -/
structure Heads.Insertable (watch : Stray → Bool) (s : Heads) (bh : Nat) : Prop
    extends s.Queueable watch bh where
  head : s.dev bh ≠ 0 → Fine watch s (s.hashTable (s.bucket bh))

/-- All of `insert_into_queues` but the last store. -/
def Heads.linked (s : Heads) (bh : Nat) : Heads :=
  { s.queued bh with
    next := redirect s.next (some bh) (s.hashTable (s.bucket bh))
    hashTable := Function.update s.hashTable (s.bucket bh) (some bh) }

/-- The first part of `insert_into_queues`, which is all of it for a buffer without a device. -/
theorem run_insert_front (F : s.Queueable watch bh) :
    (insertIntoQueues bh).run watch s = if s.dev bh = 0 then .ok ((), s.queued bh)
      else (setPrev (s.hashTable (s.bucket bh)) (some bh)).run watch (s.linked bh) := by
  unfold insertIntoQueues
  -- the ring, store by store
  refine (Prog.run_then (run_read ..)).trans ?_
  refine (Prog.run_then (run_setNextFree (by exact F.self))).trans ?_
  refine (Prog.run_then (run_field (by exact F.freeList))).trans ?_
  refine (Prog.run_then (run_setPrevFree (by exact F.self))).trans ?_
  refine (Prog.run_then (run_field (by exact F.freeList))).trans ?_
  have hlast := lastFree_redirect s bh
  have hlast' : s.freeList.bind s.prevFree = s.lastFree := rfl
  simp only [hlast', hlast]
  refine (Prog.run_then (run_setNextFree (by exact F.lastFree))).trans ?_
  refine (Prog.run_then (run_setPrevFree (by exact F.freeList))).trans ?_
  refine (Prog.run_then (run_setPrev (by exact F.self))).trans ?_
  refine (Prog.run_then (run_setNext (by exact F.self))).trans ?_
  refine (Prog.run_then (run_read ..)).trans ?_
  dsimp only
  by_cases hdev : s.dev bh = 0
  · rw [if_pos hdev, if_pos hdev]
    rfl
  · -- the chain
    rw [if_neg hdev, if_neg hdev]
    refine (Prog.run_then (run_read ..)).trans ((Prog.run_then (run_read ..)).trans ?_)
    refine (Prog.run_then (run_setNext (by exact F.self))).trans ?_
    refine (Prog.run_then (run_setHash ..)).trans ?_
    simp only [redirect_redirect]
    have hself : redirect s.next (some bh) (s.hashTable (s.bucket bh)) bh
        = s.hashTable (s.bucket bh) := if_pos rfl
    refine (Prog.run_then (run_field (by exact F.self))).trans ?_
    exact congrArg (fun q => (setPrev q (some bh)).run watch (s.linked bh)) hself

theorem run_insert (F : s.Insertable watch bh) :
    (insertIntoQueues bh).run watch s = .ok ((), s.inserted bh) := by
  rw [run_insert_front F.toQueueable, Heads.inserted]
  by_cases hdev : s.dev bh = 0
  · rw [if_pos hdev, if_pos hdev]
  · rw [if_neg hdev, if_neg hdev]
    exact run_setPrev (by exact F.head hdev)

/-! ## What the pointers represent -/

/-- The pointers of the ring go through the buffers of a list. -/
def Ring (s : Heads) (l : List Nat) : Prop :=
  Segment s.nextFree s.prevFree (last none l) s.freeList l s.freeList

/-- The lists behind the pointers. -/
structure Represents (s : Heads) (order : List Nat) (chain : Nat → List Nat) : Prop where
  ring : Ring s order
  once : order.Perm (List.range s.nr)
  path : ∀ k < 307, Segment s.next s.prev none (s.hashTable k) (chain k) none
  member : ∀ k < 307, ∀ i, i ∈ chain k ↔ i < s.nr ∧ s.dev i ≠ 0 ∧ s.bucket i = k

/-- The ring has every buffer once; the chains end at both sides, and have the buffers with a device
according to their hash values. -/
def WellFormed (s : Heads) : Prop := ∃ order chain, Represents s order chain

/-- A buffer without a device points at no other buffer of a chain. -/
def Clean (s : Heads) : Prop := ∀ i < s.nr, s.dev i = 0 → s.next i = none ∧ s.prev i = none

/-- The buffer has this identity. -/
def Heads.Is (s : Heads) (i : Nat) (dev : Dev) (block : Block) : Prop :=
  s.dev i = dev ∧ s.blocknr i = block

theorem bucket_lt (s : Heads) (i : Nat) : s.bucket i < 307 := Nat.mod_lt _ (by decide)

variable {order : List Nat} {chain : Nat → List Nat} {i k : Nat}

namespace Represents

theorem ring_nodup (R : Represents s order chain) : order.Nodup := R.once.nodup_iff.mpr List.nodup_range

theorem ring_mem (R : Represents s order chain) : i ∈ order ↔ i < s.nr :=
  R.once.mem_iff.trans List.mem_range

theorem chain_nodup (R : Represents s order chain) (hk : k < 307) : (chain k).Nodup :=
  (R.path k hk).chain.nodup

theorem chain_bucket (R : Represents s order chain) (hi : i < s.nr) (hd : s.dev i ≠ 0) :
    i ∈ chain (s.bucket i) :=
  (R.member _ (bucket_lt s i) i).mpr ⟨hi, hd, rfl⟩

/-- The chain of a neighbour. -/
theorem prev_mem (R : Represents s order chain) (hk : k < 307) (hi : i ∈ chain k) {j : Nat}
    (h : s.prev i = some j) : j ∈ chain k :=
  ((R.path k hk).next_of_prev (Or.inl ⟨rfl, rfl⟩) hi h).1

theorem next_mem (R : Represents s order chain) (hk : k < 307) (hi : i ∈ chain k) {j : Nat}
    (h : s.next i = some j) : j ∈ chain k :=
  ((R.path k hk).prev_of_next (Or.inl ⟨rfl, rfl⟩) hi h).1

/-- The neighbours of a buffer are on its own chain; one without a device has none. -/
theorem neighbour (R : Represents s order chain) (C : Clean s) (hb : bh < s.nr) {j : Nat}
    (h : s.prev bh = some j ∨ s.next bh = some j) : s.dev j ≠ 0 ∧ s.bucket j = s.bucket bh := by
  have hd : s.dev bh ≠ 0 := by
    intro h0
    obtain ⟨hn, hp⟩ := C bh hb h0
    rw [hn, hp] at h
    exact h.elim nofun nofun
  have hj : j ∈ chain (s.bucket bh) := h.elim
    (R.prev_mem (bucket_lt s bh) (R.chain_bucket hb hd))
    (R.next_mem (bucket_lt s bh) (R.chain_bucket hb hd))
  exact ((R.member _ (bucket_lt s bh) j).mp hj).2

/-- A ring has no loose end. -/
theorem free_ne (R : Represents s order chain) (hb : bh < s.nr) :
    s.prevFree bh ≠ none ∧ s.nextFree bh ≠ none := by
  obtain ⟨l₁, l₂, rfl⟩ := List.append_of_mem (R.ring_mem.mpr hb)
  have hring : Segment s.nextFree s.prevFree _ s.freeList _ s.freeList := R.ring
  obtain ⟨h₁, hp, h₂⟩ := hring.at_cell
  have hsome : ∀ (b : Option Nat) (j : Nat) (l : List Nat), last b (j :: l) ≠ none := by
    intro b j l
    obtain ⟨x, -, hx⟩ := Segment.last_mem b j l
    rw [hx]
    exact nofun
  have hfree : s.freeList ≠ none := by
    cases l₁ with
    | nil => rw [h₁.start_nil]; exact nofun
    | cons j l₁ => rw [h₁.start_cons]; exact nofun
  constructor
  · rw [hp]
    cases l₁ with
    | nil => exact hsome none bh l₂
    | cons j l₁ => exact hsome _ j l₁
  · cases l₂ with
    | nil => rw [h₂.start_nil]; exact hfree
    | cons j l₂ => rw [h₂.start_cons]; exact nofun

end Represents

/-! ## A buffer changes its identity -/

/-- A buffer has been taken out of all lists. -/
structure Taken (s : Heads) (bh : Nat) (order : List Nat) (chain : Nat → List Nat) : Prop where
  ring : Ring s (order.erase bh)
  path : ∀ k < 307, Segment s.next s.prev none (s.hashTable k) ((chain k).erase bh) none
  alone : order.erase bh = [] → s.freeList = some bh ∧ s.lastFree = some bh

/-- THE STEP OF `remove_from_queues`. -/
theorem Represents.removed (R : Represents s order chain) (C : Clean s) (hb : bh < s.nr) :
    Taken (s.removed bh) bh order chain := by
  have hmem := R.ring_mem.mpr hb
  have hring : Segment s.nextFree s.prevFree (last none order) s.freeList order s.freeList := R.ring
  have hunlink : Ring (s.removed bh) (order.erase bh) :=
    hring.unlink_ring R.ring_nodup hmem (fun _ _ _ => rfl) fun _ _ _ => rfl
  refine ⟨hunlink, fun k hk => ?_, fun hnil => ?_⟩
  · by_cases hin : bh ∈ chain k
    · have hbucket := ((R.member k hk bh).mp hin).2.2
      have hhash : (s.removed bh).hashTable k = skip bh (s.next bh) (s.hashTable k) := by
        show Function.update _ _ _ k = _
        rw [hbucket, Function.update_self]
      rw [hhash]
      exact (R.path k hk).unlink_list (R.chain_nodup hk) hin (fun _ _ _ => rfl) fun _ _ _ => rfl
    · -- a chain without the buffer is not touched
      have hhash : (s.removed bh).hashTable k = s.hashTable k := by
        show Function.update _ _ _ k = _
        by_cases hkb : k = s.bucket bh
        · have hne : s.hashTable (s.bucket bh) ≠ some bh := by
            intro he
            have hp := R.path k hk
            rw [hkb, he] at hp
            cases hc : chain (s.bucket bh) with
            | nil =>
              rw [hc] at hp
              cases hp.start_nil
            | cons j l =>
              rw [hc] at hp
              cases hp.start_cons
              exact hin (by rw [hkb, hc]; exact List.mem_cons_self)
          rw [hkb, Function.update_self, skip, if_neg hne]
        · rw [Function.update_of_ne hkb]
      have hfar : ∀ j ∈ chain k, ¬ (s.prev bh = some j ∨ s.next bh = some j) := by
        intro j hj h
        obtain ⟨hjd, hjk⟩ := R.neighbour C hb h
        have hjk' := ((R.member k hk j).mp hj).2.2
        have hd : s.dev bh ≠ 0 := by
          intro h0
          obtain ⟨hn, hp⟩ := C bh hb h0
          rw [hn, hp] at h
          rcases h with h | h <;> cases h
        exact hin ((R.member k hk bh).mpr ⟨hb, hd, by rw [← hjk, hjk']⟩)
      rw [hhash, List.erase_of_not_mem hin]
      exact (R.path k hk).congr
        (fun j hj => if_neg fun he => hfar j hj (Or.inl he))
        fun j hj => if_neg fun he => hfar j hj (Or.inr he)
  · obtain ⟨l₁, l₂, hl⟩ := List.append_of_mem hmem
    have hx : bh ∉ l₁ := by
      have hnd := R.ring_nodup
      rw [hl] at hnd
      exact fun h => (List.nodup_cons.mp (List.nodup_middle.mp hnd)).1 (List.mem_append_left _ h)
    rw [hl, List.erase_append_right _ hx, List.erase_cons_head, List.append_eq_nil_iff] at hnil
    obtain ⟨rfl, rfl⟩ := hnil
    rw [hl] at hring
    have hfree : s.freeList = some bh := hring.start_cons
    have hnext : s.nextFree bh = some bh := hring.tail.2.start_nil.trans hfree
    have hprev : s.prevFree bh = some bh := hring.tail.1
    have hfree' : (s.removed bh).freeList = some bh := by
      show skip bh (s.nextFree bh) s.freeList = some bh
      rw [hfree, skip, if_pos rfl, hnext]
    refine ⟨hfree', ?_⟩
    rw [Heads.lastFree, hfree']
    show redirect s.prevFree (s.nextFree bh) (s.prevFree bh) bh = some bh
    rw [redirect_self, hprev]

theorem redirect_far {f : Nat → Option Nat} {p v : Option Nat} {i : Nat} (h : p ≠ some i) :
    redirect f p v i = f i := if_neg h

theorem redirect_at (f : Nat → Option Nat) (v : Option Nat) (i : Nat) :
    redirect f (some i) v i = v := if_pos rfl

theorem redirect_other {f : Nat → Option Nat} {v : Option Nat} {i j : Nat} (h : j ≠ i) :
    redirect f (some i) v j = f j := if_neg fun he => h (Option.some.inj he).symm

/-- The ring after the four stores of `insert_into_queues`. -/
theorem Taken.queued (T : Taken s bh order chain) (hnd : order.Nodup) :
    Segment (s.queued bh).nextFree (s.queued bh).prevFree (last none (order.erase bh ++ [bh]))
      s.freeList (order.erase bh ++ [bh]) s.freeList := by
  have hno : bh ∉ order.erase bh := hnd.not_mem_erase
  have hring : Segment s.nextFree s.prevFree (last none (order.erase bh)) s.freeList (order.erase bh)
      s.freeList := T.ring
  cases hl : order.erase bh with
  | nil =>
    obtain ⟨hfree, hlast⟩ := T.alone hl
    have hn : (s.queued bh).nextFree bh = some bh := by
      show redirect (redirect s.nextFree (some bh) s.freeList) s.lastFree (some bh) bh = some bh
      rw [hlast, redirect_at]
    have hp : (s.queued bh).prevFree bh = some bh := by
      show redirect (redirect s.prevFree (some bh) s.lastFree) s.freeList (some bh) bh = some bh
      rw [hfree, redirect_at]
    rw [hfree]
    refine .cons hp ?_
    rw [hn]
    exact .nil
  | cons a l =>
    rw [hl] at hring hno
    have hfree : s.freeList = some a := hring.start_cons
    have hlast : s.lastFree = last none (a :: l) := by
      rw [Heads.lastFree, hfree]
      exact hring.tail.1
    have hne : ∀ i ∈ a :: l, i ≠ bh := fun i hi he => hno (he ▸ hi)
    obtain ⟨z, hz, hlz⟩ := Segment.last_mem none a l
    refine hring.behind (hl ▸ hnd.erase bh) (List.cons_ne_nil a l) ⟨?_, fun i hi => ?_⟩
      ⟨?_, fun i hi => ?_⟩
    · show redirect (redirect s.nextFree (some bh) s.freeList) s.lastFree (some bh) bh = s.freeList
      rw [hlast, hlz, redirect_other (hne z hz).symm, redirect_at]
    · show redirect (redirect s.nextFree (some bh) s.freeList) s.lastFree (some bh) i = _
      rw [hlast]
      exact if_congr Iff.rfl rfl (redirect_other (hne i hi))
    · show redirect (redirect s.prevFree (some bh) s.lastFree) s.freeList (some bh) bh = _
      rw [hfree, redirect_other (hne a List.mem_cons_self).symm, redirect_at, hlast]
    · show redirect (redirect s.prevFree (some bh) s.lastFree) s.freeList (some bh) i = _
      exact if_congr Iff.rfl rfl (redirect_other (hne i hi))

/-- The chains after a buffer has been put in front of its own. -/
def chained (s : Heads) (bh : Nat) (chain : Nat → List Nat) (k : Nat) : List Nat :=
  if s.dev bh ≠ 0 ∧ s.bucket bh = k then bh :: (chain k).erase bh else (chain k).erase bh

/-- THE STEP OF `insert_into_queues`. -/
theorem Taken.inserted (T : Taken s bh order chain) (hnd : order.Nodup)
    (hch : ∀ k < 307, (chain k).Nodup)
    (hdis : ∀ j < 307, ∀ k < 307, ∀ i, i ∈ chain j → i ∈ chain k → j = k) :
    Ring (s.inserted bh) (order.erase bh ++ [bh]) ∧
      ∀ k < 307, Segment (s.inserted bh).next (s.inserted bh).prev none ((s.inserted bh).hashTable k)
        (chained s bh chain k) none := by
  have hring := T.queued hnd
  have hself : ∀ k < 307, bh ∉ (chain k).erase bh := fun k hk => (hch k hk).not_mem_erase
  have hne : ∀ k < 307, ∀ i ∈ (chain k).erase bh, i ≠ bh := fun k hk i hi he =>
    hself k hk (he ▸ hi)
  unfold Heads.inserted
  by_cases hdev : s.dev bh = 0
  · rw [if_pos hdev]
    refine ⟨hring, fun k hk => ?_⟩
    rw [chained, if_neg fun h => h.1 hdev]
    exact (T.path k hk).congr (fun i hi => redirect_other (hne k hk i hi))
      fun i hi => redirect_other (hne k hk i hi)
  · rw [if_neg hdev]
    refine ⟨hring, fun k hk => ?_⟩
    -- what the chain of the buffer has begun with
    have hhead : ∀ j < 307, ∀ i, s.hashTable j = some i → i ∈ (chain j).erase bh := by
      intro j hj i hi
      have hp := T.path j hj
      rw [hi] at hp
      cases hc : (chain j).erase bh with
      | nil =>
        rw [hc] at hp
        cases hp.start_nil
      | cons y l =>
        rw [hc] at hp
        cases hp.start_cons
        exact List.mem_cons_self
    have hb := bucket_lt s bh
    by_cases hk' : s.bucket bh = k
    · rw [chained, if_pos ⟨hdev, hk'⟩]
      show Segment _ _ none (Function.update s.hashTable (s.bucket bh) (some bh) k) _ none
      rw [hk', Function.update_self]
      refine (T.path k hk).front ((hch k hk).erase bh) ⟨redirect_at .., fun i hi => ?_⟩
        ⟨?_, fun i hi => ?_⟩
      · exact redirect_other (hne k hk i hi)
      · have hno : s.hashTable k ≠ some bh := fun h => hself k hk (hhead k hk bh h)
        show redirect (redirect s.prev (some bh) none) (s.hashTable k) (some bh) bh = none
        rw [redirect_far hno, redirect_at]
      · exact if_congr Iff.rfl rfl (redirect_other (hne k hk i hi))
    · rw [chained, if_neg fun h => hk' h.2]
      show Segment _ _ none (Function.update s.hashTable (s.bucket bh) (some bh) k) _ none
      rw [Function.update_of_ne (Ne.symm hk')]
      refine (T.path k hk).congr (fun i hi => redirect_other (hne k hk i hi)) fun i hi => ?_
      have hno : s.hashTable (s.bucket bh) ≠ some i := fun h =>
        hk' (hdis _ hb k hk i (List.mem_of_mem_erase (hhead _ hb i h)) (List.mem_of_mem_erase hi))
      show redirect (redirect s.prev (some bh) none) (s.hashTable (s.bucket bh)) (some bh) i = s.prev i
      rw [redirect_far hno, redirect_other (hne k hk i hi)]

/-- The state after `rename`. -/
def Heads.renamed (s : Heads) (bh : Nat) (dev : Dev) (block : Block) : Heads :=
  Heads.inserted { s.removed bh with
    dev := Function.update s.dev bh dev, blocknr := Function.update s.blocknr bh block } bh

theorem exec_rename (R : Represents s order chain) (hb : bh < s.nr) :
    (rename bh dev block).exec s = .ok ((), s.renamed bh dev block) := by
  have fine : ∀ (s : Heads) p, Fine (fun _ => false) s p := fun _ _ => Or.inl rfl
  refine (Prog.run_then (run_remove ⟨fine _ _, fun _ => fine _ _, fun _ => fine _ _, fine _ _, fine _ _,
    R.free_ne hb⟩)).trans ?_
  exact (Prog.run_then rfl).trans (run_insert ⟨⟨fine _ _, fine _ _, fine _ _⟩, fun _ => fine _ _⟩)

/-- The pointers and identities of all other buffers, and of the new one. -/
theorem renamed_identity (s : Heads) (bh : Nat) (dev : Dev) (block : Block) :
    (s.renamed bh dev block).nr = s.nr ∧
      (s.renamed bh dev block).dev = Function.update s.dev bh dev ∧
      (s.renamed bh dev block).blocknr = Function.update s.blocknr bh block := by
  unfold Heads.renamed Heads.inserted
  split
  · exact ⟨rfl, rfl, rfl⟩
  · exact ⟨rfl, rfl, rfl⟩

theorem Represents.disjoint (R : Represents s order chain) {j k : Nat} (hj : j < 307) (hk : k < 307)
    (h : i ∈ chain j) (h' : i ∈ chain k) : j = k :=
  ((R.member j hj i).mp h).2.2.symm.trans ((R.member k hk i).mp h').2.2

/-- A buffer gets another identity: the lists lose it and get it back at its new place. -/
theorem Represents.renamed (R : Represents s order chain) (C : Clean s) (hb : bh < s.nr)
    (dev : Dev) (block : Block) :
    ∃ chain', Represents (s.renamed bh dev block) (order.erase bh ++ [bh]) chain' := by
  obtain ⟨hnr, hdev, hblock⟩ := renamed_identity s bh dev block
  have T := R.removed C hb
  have T' : Taken { s.removed bh with
      dev := Function.update s.dev bh dev, blocknr := Function.update s.blocknr bh block }
      bh order chain := ⟨T.ring, T.path, T.alone⟩
  obtain ⟨hring, hpath⟩ := T'.inserted R.ring_nodup (fun k hk => R.chain_nodup hk)
    fun j hj k hk i => R.disjoint hj hk
  have hbucket : ∀ i, (s.renamed bh dev block).bucket i
      = hashfn (Function.update s.dev bh dev i) (Function.update s.blocknr bh block i) := by
    intro i
    rw [Heads.bucket, hdev, hblock]
  refine ⟨_, hring, ?_, hpath, fun k hk i => ?_⟩
  · have hperm := (List.perm_cons_erase (R.ring_mem.mpr hb)).symm.trans R.once
    rw [hnr]
    exact (List.perm_append_singleton bh _).trans hperm
  · rw [hnr, hdev, hbucket]
    have hself : bh ∉ (chain k).erase bh := (R.chain_nodup hk).not_mem_erase
    by_cases hi : i = bh
    · subst hi
      rw [Function.update_self, Function.update_self]
      unfold chained
      split
      · next h =>
        have hd : dev ≠ 0 := by simpa using h.1
        have hk' : hashfn dev block = k := by simpa [Heads.bucket] using h.2
        exact iff_of_true List.mem_cons_self ⟨hb, hd, hk'⟩
      · next h =>
        refine iff_of_false hself fun hmem => h ?_
        simpa [Heads.bucket] using hmem.2
    · rw [Function.update_of_ne hi, Function.update_of_ne hi]
      have hmem : i ∈ chained { s.removed bh with
          dev := Function.update s.dev bh dev, blocknr := Function.update s.blocknr bh block }
          bh chain k ↔ i ∈ chain k := by
        unfold chained
        split
        · rw [List.mem_cons, List.mem_erase_of_ne hi]
          exact or_iff_right hi
        · exact List.mem_erase_of_ne hi
      rw [hmem]
      exact R.member k hk i

/-- The pointers of buffers without a device stay `NULL`. -/
theorem Represents.renamed_clean (R : Represents s order chain) (C : Clean s) (hb : bh < s.nr) :
    Clean (s.renamed bh dev block) := by
  obtain ⟨hnr, hdev, -⟩ := renamed_identity s bh dev block
  have T := R.removed C hb
  intro i hi hd
  rw [hnr] at hi
  rw [hdev] at hd
  by_cases hib : i = bh
  · subst hib
    rw [Function.update_self] at hd
    unfold Heads.renamed Heads.inserted
    rw [if_pos (by simpa using hd)]
    exact ⟨redirect_at .., redirect_at ..⟩
  · rw [Function.update_of_ne hib] at hd
    obtain ⟨hn, hp⟩ := C i hi hd
    have hfar : ∀ p, (p = s.prev bh ∨ p = s.next bh) → p ≠ some i := by
      intro p hp' he
      refine (R.neighbour C hb (j := i) ?_).1 hd
      rcases hp' with h | h
      · exact Or.inl (h.symm.trans he)
      · exact Or.inr (h.symm.trans he)
    have hn' : (s.removed bh).next i = none := (redirect_far (hfar _ (Or.inl rfl))).trans hn
    have hp' : (s.removed bh).prev i = none := (redirect_far (hfar _ (Or.inr rfl))).trans hp
    unfold Heads.renamed Heads.inserted
    split
    · exact ⟨(redirect_other hib).trans hn', (redirect_other hib).trans hp'⟩
    · refine ⟨(redirect_other hib).trans hn', ?_⟩
      -- the first buffer of the chain has a device
      show redirect (redirect (s.removed bh).prev (some bh) none) ((s.removed bh).hashTable _) (some bh) i
        = none
      rw [redirect_far, redirect_other hib]
      · exact hp'
      · intro he
        have hk := bucket_lt { s.removed bh with
          dev := Function.update s.dev bh dev, blocknr := Function.update s.blocknr bh block } bh
        have hpath := T.path _ hk
        rw [he] at hpath
        cases hc : (chain _).erase bh with
        | nil =>
          rw [hc] at hpath
          cases hpath.start_nil
        | cons y l =>
          rw [hc] at hpath
          cases hpath.start_cons
          have hmem := List.mem_of_mem_erase (hc ▸ List.mem_cons_self : i ∈ (chain _).erase bh)
          exact ((R.member _ hk i).mp hmem).2.1 hd

/-! ## `buffer_init` and `find_buffer` -/

/-- The ring from buffer `a` on. -/
theorem bufferInit_from (blocknr : Nat → Block) (nr a m : Nat) (h : a + (m + 1) = nr) :
    Segment (bufferInit nr blocknr).nextFree (bufferInit nr blocknr).prevFree
      ((bufferInit nr blocknr).prevFree a) (some a) (List.range' a (m + 1)) (some 0) := by
  induction m generalizing a with
  | zero =>
    have hn : (bufferInit nr blocknr).nextFree a = some 0 := if_pos (by omega)
    refine .cons rfl ?_
    rw [hn]
    exact .nil
  | succ m ih =>
    have hn : (bufferInit nr blocknr).nextFree a = some (a + 1) := if_neg (by omega)
    have hp : (bufferInit nr blocknr).prevFree (a + 1) = some a := by
      show (if a + 1 = 0 then some (nr - 1) else some (a + 1 - 1)) = some a
      rw [if_neg (Nat.succ_ne_zero a), Nat.add_sub_cancel]
    have hrest := ih (a + 1) (by omega)
    rw [hp] at hrest
    rw [List.range'_succ]
    refine .cons rfl ?_
    rw [hn]
    exact hrest

theorem bufferInit_represents (blocknr : Nat → Block) (nr : Nat) (h : 0 < nr) :
    Represents (bufferInit nr blocknr) (List.range nr) fun _ => [] where
  ring := by
    obtain ⟨m, rfl⟩ : ∃ m, nr = m + 1 := ⟨nr - 1, by omega⟩
    have hlast : last none (List.range (m + 1)) = (bufferInit (m + 1) blocknr).prevFree 0 := by
      rw [List.range_succ, Segment.last_append]
      rfl
    have key := bufferInit_from blocknr (m + 1) 0 m (by omega)
    rw [← List.range_eq_range', ← hlast] at key
    exact key
  once := List.Perm.refl _
  path _ _ := .nil
  member k _ i := iff_of_false List.not_mem_nil fun h => h.2.1 rfl

theorem bufferInit_clean (nr : Nat) (blocknr : Nat → Block) : Clean (bufferInit nr blocknr) :=
  fun _ _ _ => ⟨rfl, rfl⟩

theorem run_findFrom {back p : Option Nat} {l : List Nat} {n : Nat}
    (h : Segment s.next s.prev back p l none) (hn : l.length ≤ n)
    (hf : ∀ i ∈ l, Fine watch s (some i)) :
    (findFrom dev block n p).run watch s
      = .ok (l.find? fun i => decide (s.dev i = dev ∧ s.blocknr i = block), s) := by
  induction l generalizing back p n with
  | nil =>
    cases h.start_nil
    cases n <;> rfl
  | cons i l ih =>
    cases h.start_cons
    have hi := hf i List.mem_cons_self
    cases n with
    | zero => exact absurd hn (Nat.not_succ_le_zero _)
    | succ n =>
      refine (Prog.run_then (run_deref hi)).trans ((Prog.run_then (run_read _)).trans ?_)
      rw [List.find?_cons]
      cases hd : decide (s.dev i = dev ∧ s.blocknr i = block) with
      | true => rfl
      | false =>
        refine (Prog.run_then (run_field hi)).trans ?_
        exact ih h.tail.2 (Nat.le_of_succ_le_succ hn) fun j hj => hf j (List.mem_cons_of_mem _ hj)

theorem fine_of_lt (watch : Stray → Bool) (h : i < s.nr) : Fine watch s (some i) :=
  Or.inr (decide_eq_true h)

theorem Represents.run_find (R : Represents s order chain) (watch : Stray → Bool) :
    (findBuffer dev block).run watch s = .ok ((chain (hashfn dev block)).find? fun i =>
      decide (s.dev i = dev ∧ s.blocknr i = block), s) := by
  have hk : hashfn dev block < 307 := Nat.mod_lt _ (by decide)
  have hlt : ∀ i ∈ chain (hashfn dev block), i < s.nr := fun i hi => ((R.member _ hk i).mp hi).1
  have hlen : (chain (hashfn dev block)).length ≤ s.nr := by
    have hsub : chain (hashfn dev block) ⊆ List.range s.nr := fun i hi =>
      List.mem_range.mpr (hlt i hi)
    have hle := (List.subperm_of_subset (R.chain_nodup hk) hsub).length_le
    rwa [List.length_range] at hle
  exact (Prog.run_then (run_read _)).trans ((Prog.run_then (run_read _)).trans
    (run_findFrom (R.path _ hk) hlen fun i hi => fine_of_lt watch (hlt i hi)))

/-- What `find_buffer` returns: a buffer with the identity, if there is one and it has a device. -/
theorem Represents.find_iff (R : Represents s order chain) (dev : Dev) (block : Block) :
    ∃ r, (∀ watch, (findBuffer dev block).run watch s = .ok (r, s)) ∧
      (∀ i, r = some i → i < s.nr ∧ s.Is i dev block) ∧
      (r.isSome = true ↔ dev ≠ 0 ∧ ∃ i < s.nr, s.Is i dev block) := by
  have hk : hashfn dev block < 307 := Nat.mod_lt _ (by decide)
  have hfound : ∀ i, (chain (hashfn dev block)).find? (fun i =>
      decide (s.dev i = dev ∧ s.blocknr i = block)) = some i →
        i ∈ chain (hashfn dev block) ∧ s.Is i dev block := fun i h => by
    have his := List.find?_some h
    exact ⟨List.mem_of_find?_eq_some h,
      (decide_eq_true_iff (p := s.dev i = dev ∧ s.blocknr i = block)).mp his⟩
  refine ⟨_, R.run_find, fun i h => ?_, ?_⟩
  · obtain ⟨hmem, his⟩ := hfound i h
    exact ⟨((R.member _ hk i).mp hmem).1, his⟩
  · constructor
    · intro h
      obtain ⟨i, hi⟩ := Option.isSome_iff_exists.mp h
      obtain ⟨hmem, his⟩ := hfound i hi
      obtain ⟨hlt, hd, -⟩ := (R.member _ hk i).mp hmem
      exact ⟨his.1 ▸ hd, i, hlt, his⟩
    · rintro ⟨hd, i, hlt, his⟩
      rw [List.find?_isSome]
      refine ⟨i, (R.member _ hk i).mpr ⟨hlt, by rw [his.1]; exact hd, ?_⟩, decide_eq_true his⟩
      rw [Heads.bucket, his.1, his.2]

/-- BUFFER QUEUES REPRESENT A MAP AND A RING. `buffer_init` makes the queues well formed. In every
well-formed state, giving any buffer any identity between `remove_from_queues` and
`insert_into_queues` leaves a well-formed state, in which the buffer is the last of the ring and the
others are in the order they had; and `find_buffer` returns a buffer of the identity it is asked for,
exactly if there is one and the device is not 0. -/
theorem buffer_queues (blocknr : Nat → Block) :
    (∀ nr, 0 < nr → WellFormed (bufferInit nr blocknr) ∧ Clean (bufferInit nr blocknr)) ∧
    (∀ s bh dev block, WellFormed s → Clean s → bh < s.nr →
      ∃ s', (rename bh dev block).exec s = .ok ((), s') ∧ WellFormed s' ∧ Clean s' ∧ s'.nr = s.nr ∧
        (∀ i d b, s'.Is i d b ↔ if i = bh then d = dev ∧ b = block else s.Is i d b) ∧
        ∃ order, Ring s order ∧ order.Perm (List.range s.nr) ∧ Ring s' (order.erase bh ++ [bh])) ∧
    ∀ s dev block, WellFormed s →
      ∃ r, (findBuffer dev block).exec s = .ok (r, s) ∧
        (∀ i, r = some i → i < s.nr ∧ s.Is i dev block) ∧
        (r.isSome = true ↔ dev ≠ 0 ∧ ∃ i < s.nr, s.Is i dev block) := by
  refine ⟨fun nr h => ?_, ?_, ?_⟩
  · exact ⟨⟨_, _, bufferInit_represents blocknr nr h⟩, bufferInit_clean nr blocknr⟩
  · rintro s bh dev block ⟨order, chain, R⟩ C hb
    obtain ⟨chain', R'⟩ := R.renamed C hb dev block
    obtain ⟨hnr, hdev, hblock⟩ := renamed_identity s bh dev block
    refine ⟨_, exec_rename R hb, ⟨_, _, R'⟩, R.renamed_clean C hb, hnr, fun i d b => ?_, order, R.ring,
      R.once, R'.ring⟩
    rw [Heads.Is, hdev, hblock]
    by_cases hi : i = bh
    · rw [if_pos hi, hi, Function.update_self, Function.update_self]
      exact and_congr eq_comm eq_comm
    · rw [if_neg hi, Function.update_of_ne hi, Function.update_of_ne hi]
      rfl
  · rintro s dev block ⟨order, chain, R⟩
    obtain ⟨r, hr, hfound⟩ := R.find_iff dev block
    exact ⟨r, hr _, hfound⟩

/-- Buffer 0 of three gets a block: it is the last of the ring then, and is found. -/
theorem buffer_queues_three : ∃ s s', WellFormed s ∧
    (rename 0 0x301 7).exec s = .ok ((), s') ∧ WellFormed s' ∧ Ring s' [1, 2, 0] ∧
      ∃ r, (findBuffer 0x301 7).exec s' = .ok (r, s') ∧ r.isSome = true := by
  obtain ⟨hinit, hrename, hfind⟩ := buffer_queues fun _ => 0
  obtain ⟨W, C⟩ := hinit 3 (by decide)
  obtain ⟨s', hs, W', -, hnr, his, -⟩ := hrename _ 0 0x301 7 W C (by decide)
  have R := bufferInit_represents (fun _ => 0) 3 (by decide)
  cases hs.symm.trans (exec_rename R (by decide))
  obtain ⟨_, R'⟩ := R.renamed C (by decide : 0 < _) 0x301 7
  obtain ⟨r, hr, -, hsome⟩ := hfind _ 0x301 7 W'
  exact ⟨_, _, W, hs, W', R'.ring, r, hr, hsome.mpr ⟨by decide, 0, by rw [hnr]; decide,
    (his 0 0x301 7).mpr (by rw [if_pos rfl]; exact ⟨rfl, rfl⟩)⟩⟩

/-- Two buffers; the second has no device, and pointers to the first. -/
def stalePointers : Heads :=
  { bufferInit 2 fun _ => 0 with
    next := fun i => if i = 1 then some 0 else none
    prev := fun i => if i = 1 then some 0 else none
    hashTable := fun k => if k = 1 then some 0 else none
    dev := fun i => if i = 0 then 1 else 0 }

theorem stalePointers_represents :
    Represents stalePointers [0, 1] fun k => if k = 1 then [0] else [] where
  ring := (bufferInit_represents (fun _ => 0) 2 (by decide)).ring
  once := List.Perm.refl _
  path k _ := by
    by_cases h : k = 1
    · subst h
      exact .cons rfl .nil
    · show Segment _ _ none (if k = 1 then some 0 else none) (if k = 1 then [0] else []) none
      rw [if_neg h, if_neg h]
      exact .nil
  member k _ i := by
    have hb : stalePointers.bucket 0 = 1 := by decide
    have hd : stalePointers.dev i ≠ 0 ↔ i = 0 := by
      show (if i = 0 then (1 : Dev) else 0) ≠ 0 ↔ i = 0
      by_cases h : i = 0
      · rw [if_pos h]
        exact iff_of_true (by decide) h
      · rw [if_neg h]
        exact iff_of_false (fun hne => hne rfl) h
    by_cases h : k = 1
    · rw [if_pos h, List.mem_singleton, hd]
      constructor
      · rintro rfl
        exact ⟨by decide, rfl, by rw [hb, h]⟩
      · exact fun hi => hi.2.1
    · rw [if_neg h, hd]
      refine iff_of_false List.not_mem_nil ?_
      rintro ⟨-, rfl, hk⟩
      exact h (hk.symm.trans hb)

/-- Device 0 is not looked up, so a buffer that has it is not found. And pointers that a buffer without
a device still has are followed when it is taken. -/
theorem queues_of_no_device :
    (WellFormed (bufferInit 1 fun _ => 0) ∧ (bufferInit 1 fun _ => 0).Is 0 0 0 ∧
      (findBuffer 0 0).exec (bufferInit 1 fun _ => 0) = .ok (none, bufferInit 1 fun _ => 0)) ∧
    WellFormed stalePointers ∧ ∃ s', (rename 1 0 0).exec stalePointers = .ok ((), s') ∧
      ¬ WellFormed s' := by
  have R := bufferInit_represents (fun _ => 0) 1 (by decide)
  refine ⟨⟨⟨_, _, R⟩, ⟨rfl, rfl⟩, R.run_find _⟩, ⟨_, _, stalePointers_represents⟩, _,
    exec_rename stalePointers_represents (by decide), ?_⟩
  rintro ⟨order, chain, R'⟩
  -- the first buffer of its chain points back to itself
  have hpath := R'.path 1 (by decide)
  have hhead : (stalePointers.renamed 1 0 0).hashTable 1 = some 0 := by decide
  have hprev : (stalePointers.renamed 1 0 0).prev 0 = some 0 := by decide
  rw [hhead] at hpath
  cases hc : chain 1 with
  | nil =>
    rw [hc] at hpath
    cases hpath.start_nil
  | cons i l =>
    rw [hc] at hpath
    cases hpath.start_cons
    have hback := hpath.tail.1
    rw [hprev] at hback
    cases hback

end Linux011.Buffer.Queues

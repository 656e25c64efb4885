import Mathlib.Data.Fintype.Card
import Linux011.Block.Request
import Linux011.Lib.Chain
import Linux011.Lib.Sweep
import Linux011.Lib.Slots

/-!
# Slots, queues and locks

Slots, queues and buffer locks are three views of one ownership. A busy slot is on one queue, once; a
locked buffer has one owner, a busy slot or a task asleep for a slot; a number is that of a busy slot
or has been ended. In between, a task holds a lock that nobody else knows of yet: `pending`.
-/

namespace Linux011.Block

variable {β κ : Type*} {s s' : State β κ} {request request' : Slot → Request β κ} {r p q : Slot}

/-! ## Invariant -/

inductive Owner (κ : Type*)
  | request (r : Slot)
  | task (t : κ)

/-- The owners of the lock of a buffer. -/
def Owns (s : State β κ) (b : β) : Owner κ → Prop
  | .request r => 0 ≤ (s.request r).dev ∧ (s.request r).bh = some b
  | .task t => ∃ major rw, s.phase t = .waiting major rw b

structure Queued (request : Slot → Request β κ) (current : Nat → Option Slot)
    (queue : Nat → List Slot) : Prop where
  chain : ∀ d, Lib.Chain (fun r => (request r).next) (current d) (queue d)
  apart : ∀ d e r, r ∈ queue d → r ∈ queue e → d = e
  busy : ∀ r, 0 ≤ (request r).dev ↔ ∃ d, r ∈ queue d

structure Locked (s : State β κ) (pending : Option β) : Prop where
  bh : ∀ r, 0 ≤ (s.request r).dev → ∃ b, (s.request r).bh = some b
  lock : ∀ b, (s.buffer b).lock = true ↔ (∃ o, Owns s b o) ∨ pending = some b
  unique : ∀ b o o', Owns s b o → Owns s b o' → o = o'
  pending : ∀ b, pending = some b → ∀ o, ¬ Owns s b o

structure Numbered (request : Slot → Request β κ) (number : Slot → Nat) (queued : Nat)
    (ended : List Nat) : Prop where
  lt : ∀ r, 0 ≤ (request r).dev → number r < queued ∧ number r ∉ ended
  inj : ∀ r q, 0 ≤ (request r).dev → 0 ≤ (request q).dev → number r = number q → r = q
  nodup : ended.Nodup
  bound : ∀ n ∈ ended, n < queued
  complete : ∀ n < queued, n ∉ ended → ∃ r, 0 ≤ (request r).dev ∧ number r = n

structure Inv (s : State β κ) (pending : Option β) : Prop where
  queue : ∃ queue, Queued s.request s.current queue
  locked : Locked s pending
  numbered : Numbered s.request s.number s.queued s.ended
  writes : ∀ r, 0 ≤ (s.request r).dev → (s.request r).cmd = .write → r.val < nrRequest * 2 / 3

/-! ## Queues -/

/-- The requests are the same but for their links. -/
def Relinked (request request' : Slot → Request β κ) : Prop :=
  ∀ r, ∃ n, request' r = { request r with next := n }

theorem link_relinked : Relinked request (link request r p) := by
  intro q
  unfold link
  dsimp only
  by_cases hq : q = p
  · subst hq
    rw [Function.update_self]
    by_cases hr : q = r
    · subst hr
      exact ⟨some q, by rw [Function.update_self]⟩
    · exact ⟨some r, by rw [Function.update_of_ne hr]⟩
  · rw [Function.update_of_ne hq]
    by_cases hr : q = r
    · subst hr
      exact ⟨_, Function.update_self _ _ _⟩
    · exact ⟨(request q).next, Function.update_of_ne hr _ _⟩

theorem link_next (hne : p ≠ r) : (fun q => (link request r p q).next) =
    Function.update (Function.update (fun q => (request q).next) r (request p).next) p (some r) := by
  funext q
  unfold link
  dsimp only
  by_cases hq : q = p
  · subst hq
    rw [Function.update_self, Function.update_self]
  · rw [Function.update_of_ne hq, Function.update_of_ne hq]
    by_cases hr : q = r
    · subst hr
      rw [Function.update_self, Function.update_self]
    · rw [Function.update_of_ne hr, Function.update_of_ne hr]

/-- `IN_ORDER` of the requests in two slots. -/
def slotOrder (request : Slot → Request β κ) (q r : Slot) : Bool := inOrder (request q) (request r)

/-- The loop of `add_request` ends at the request that `r` has to be behind. -/
theorem place_sweep {fuel : Nat} {tmp : Slot} {l : List Slot}
    (h : Lib.Chain (fun r => (request r).next) (some tmp) l) (hfuel : l.length ≤ fuel) :
    ∃ p l₁ l₂, l = l₁ ++ p :: l₂ ∧ place request r fuel tmp = some p ∧
      Lib.sweep (slotOrder request) r l = l₁ ++ p :: r :: l₂ := by
  induction fuel generalizing tmp l with
  | zero =>
    obtain ⟨l', rfl, -⟩ := h.head
    exact absurd hfuel (Nat.not_succ_le_zero _)
  | succ fuel ih =>
    obtain ⟨l', rfl, h'⟩ := h.head
    unfold place
    split
    · next hn =>
      rw [hn] at h'
      cases h'.eq_nil
      exact ⟨tmp, [], [], rfl, rfl, rfl⟩
    · next n hn =>
      rw [hn] at h'
      obtain ⟨l'', rfl, -⟩ := h'.head
      rw [Lib.sweep]
      by_cases hc : ((inOrder (request tmp) (request r) || !inOrder (request tmp) (request n)) &&
          inOrder (request r) (request n)) = true
      · rw [if_pos hc]
        exact ⟨tmp, [], n :: l'', rfl, rfl, if_pos hc⟩
      · rw [if_neg hc]
        obtain ⟨p, l₁, l₂, he, hplace, hs⟩ := ih h' (Nat.le_of_succ_le_succ hfuel)
        refine ⟨p, tmp :: l₁, l₂, by rw [he, List.cons_append], hplace, (if_neg hc).trans ?_⟩
        rw [hs, List.cons_append]

theorem length_le_nrRequest {l : List Slot} (h : l.Nodup) : l.length ≤ nrRequest := by
  have := h.length_le_card
  rwa [Fintype.card_fin] at this

/-- A free slot gets a request and is linked into the queue of a device. -/
theorem Queued.add {current : Nat → Option Slot} {queue : Nat → List Slot} {F : Request β κ}
    (Q : Queued request current queue) (major : Nat) (hfree : (request r).dev < 0) (hdev : 0 ≤ F.dev)
    (hnext : F.next = none) {queue' : Nat → List Slot}
    (hqueue : queue' = Function.update queue major
      (Lib.sweep (slotOrder (Function.update request r F)) r (queue major))) :
    (current major = none ∧ Queued (Function.update request r F)
      (Function.update current major (some r)) queue') ∨
    ∃ tmp p, current major = some tmp ∧
      place (Function.update request r F) r nrRequest tmp = some p ∧
      Queued (link (Function.update request r F) r p) current queue' := by
  subst hqueue
  have hnot : ∀ d, r ∉ queue d := by
    intro d hd
    have := (Q.busy r).mpr ⟨d, hd⟩
    omega
  -- the other queues do not notice
  have hchain : ∀ d, Lib.Chain (fun q => (Function.update request r F q).next) (current d) (queue d) := by
    intro d
    refine (Q.chain d).congr fun q hq => ?_
    have hne : q ≠ r := fun he => hnot d (he ▸ hq)
    rw [Function.update_of_ne hne]
  have hbusy : ∀ {queue' : Nat → List Slot},
      (∀ d q, q ∈ queue' d ↔ q ∈ queue d ∨ d = major ∧ q = r) →
      ∀ q, 0 ≤ (Function.update request r F q).dev ↔ ∃ d, q ∈ queue' d := by
    intro queue' hmem q
    by_cases hq : q = r
    · subst hq
      rw [Function.update_self]
      exact iff_of_true hdev ⟨major, (hmem major q).mpr (Or.inr ⟨rfl, rfl⟩)⟩
    · rw [Function.update_of_ne hq, Q.busy q]
      refine exists_congr fun d => ?_
      rw [hmem d q]
      exact ⟨Or.inl, fun h => h.resolve_right fun h => hq h.2⟩
  have hapart : ∀ {queue' : Nat → List Slot},
      (∀ d q, q ∈ queue' d ↔ q ∈ queue d ∨ d = major ∧ q = r) →
      ∀ d e q, q ∈ queue' d → q ∈ queue' e → d = e := by
    intro queue' hmem d e q hd he
    obtain hd | ⟨rfl, rfl⟩ := (hmem d q).mp hd
    · obtain he | ⟨rfl, rfl⟩ := (hmem e q).mp he
      · exact Q.apart d e q hd he
      · exact absurd hd (hnot d)
    · obtain he | ⟨he, -⟩ := (hmem e q).mp he
      · exact absurd he (hnot e)
      · exact he.symm
  cases hcur : current major with
  | none =>
    have hempty : queue major = [] := (hcur ▸ Q.chain major).eq_nil
    have hmem : ∀ d q, q ∈ Function.update queue major [r] d ↔ q ∈ queue d ∨ d = major ∧ q = r := by
      intro d q
      by_cases hd : d = major
      · subst hd
        rw [Function.update_self, hempty, List.mem_singleton]
        exact ⟨fun h => Or.inr ⟨rfl, h⟩, fun h => (h.resolve_left fun h => by cases h).2⟩
      · rw [Function.update_of_ne hd]
        exact ⟨Or.inl, fun h => h.resolve_right fun h => hd h.1⟩
    have hsweep : Lib.sweep (slotOrder (Function.update request r F)) r (queue major) = [r] := by
      rw [hempty]
      rfl
    rw [hsweep]
    refine Or.inl ⟨rfl, fun d => ?_, hapart hmem, hbusy hmem⟩
    by_cases hd : d = major
    · subst hd
      rw [Function.update_self, Function.update_self]
      refine .cons ?_
      rw [Function.update_self, hnext]
      exact .nil
    · rw [Function.update_of_ne hd, Function.update_of_ne hd]
      exact hchain d
  | some tmp =>
    have hc := hchain major
    rw [hcur] at hc
    obtain ⟨p, l₁, l₂, hsplit, hplace, hsweep⟩ := place_sweep (r := r) hc (length_le_nrRequest hc.nodup)
    have hp : p ∈ queue major := hsplit ▸ List.mem_append_right _ List.mem_cons_self
    have hne : p ≠ r := fun he => hnot major (he ▸ hp)
    have hmem : ∀ d q, q ∈ Function.update queue major (l₁ ++ p :: r :: l₂) d ↔
        q ∈ queue d ∨ d = major ∧ q = r := by
      intro d q
      by_cases hd : d = major
      · subst hd
        rw [Function.update_self, hsplit, List.mem_append, List.mem_append, List.mem_cons, List.mem_cons,
          List.mem_cons]
        tauto
      · rw [Function.update_of_ne hd]
        exact ⟨Or.inl, fun h => h.resolve_right fun h => hd h.1⟩
    rw [hsweep]
    refine Or.inr ⟨tmp, p, rfl, hplace, fun d => ?_, hapart hmem, fun q => ?_⟩
    · rw [link_next hne]
      by_cases hd : d = major
      · subst hd
        rw [Function.update_self, hcur]
        rw [hsplit] at hc
        exact hc.insert fun h => hnot d (hsplit ▸ h)
      · rw [Function.update_of_ne hd]
        refine (hchain d).congr fun q hq => ?_
        have hqp : q ≠ p := fun he => hd (Q.apart d major p (he ▸ hq) hp)
        have hqr : q ≠ r := fun he => hnot d (he ▸ hq)
        rw [Function.update_of_ne hqp, Function.update_of_ne hqr]
    · have hlink : Relinked (Function.update request r F) (link (Function.update request r F) r p) :=
        link_relinked
      obtain ⟨n, hn⟩ := hlink q
      rw [hn]
      exact hbusy hmem q

/-- The first request of a queue ends. -/
theorem Queued.pop {current : Nat → Option Slot} {queue : Nat → List Slot} {major : Nat}
    (Q : Queued request current queue) (hcur : current major = some r) :
    0 ≤ (request r).dev ∧ ∃ l, queue major = r :: l ∧
      Queued (Function.update request r { request r with dev := -1 })
        (Function.update current major (request r).next) (Function.update queue major l) := by
  have hc := Q.chain major
  rw [hcur] at hc
  obtain ⟨l, hl, hchain⟩ := hc.head
  have hnodup := hc.nodup
  rw [hl] at hnodup
  have hr : r ∈ queue major := hl ▸ List.mem_cons_self
  have hmem : ∀ d q, q ∈ Function.update queue major l d ↔ q ∈ queue d ∧ q ≠ r := by
    intro d q
    by_cases hd : d = major
    · subst hd
      rw [Function.update_self, hl, List.mem_cons]
      constructor
      · intro h
        exact ⟨Or.inr h, fun he => (List.nodup_cons.mp hnodup).1 (he ▸ h)⟩
      · rintro ⟨h, hne⟩
        exact h.resolve_left hne
    · rw [Function.update_of_ne hd]
      exact ⟨fun h => ⟨h, fun he => hd (Q.apart d major r (he ▸ h) hr)⟩, And.left⟩
  have hnext : (fun q => (Function.update request r { request r with dev := -1 } q).next) =
      fun q => (request q).next := by
    funext q
    by_cases hq : q = r
    · subst hq
      rw [Function.update_self]
    · rw [Function.update_of_ne hq]
  refine ⟨(Q.busy r).mpr ⟨major, hr⟩, l, hl, fun d => ?_, fun d e q hd he => ?_, fun q => ?_⟩
  · rw [hnext]
    by_cases hd : d = major
    · subst hd
      rw [Function.update_self, Function.update_self]
      exact hchain
    · rw [Function.update_of_ne hd, Function.update_of_ne hd]
      exact Q.chain d
  · exact Q.apart d e q ((hmem d q).mp hd).1 ((hmem e q).mp he).1
  · by_cases hq : q = r
    · subst hq
      rw [Function.update_self]
      refine iff_of_false (by dsimp only; omega) ?_
      rintro ⟨d, hd⟩
      exact ((hmem d q).mp hd).2 rfl
    · rw [Function.update_of_ne hq, Q.busy q]
      exact exists_congr fun d => ⟨fun h => (hmem d q).mpr ⟨h, hq⟩, fun h => ((hmem d q).mp h).1⟩

/-! ## Locks -/

variable {pending : Option β} {b bh : β} {t : κ} {f : Buffer → Buffer}

/-- A state with the same requests and phases has the same owners. -/
theorem owns_congr {o : Owner κ} (hrequest : ∀ r, (s'.request r).dev = (s.request r).dev ∧
    (s'.request r).bh = (s.request r).bh) (hphase : s'.phase = s.phase) : Owns s' b o ↔ Owns s b o := by
  cases o with
  | request r =>
    show 0 ≤ (s'.request r).dev ∧ (s'.request r).bh = some b ↔ _
    rw [(hrequest r).1, (hrequest r).2]
    rfl
  | task t =>
    show (∃ major rw, s'.phase t = .waiting major rw b) ↔ _
    rw [hphase]
    rfl

theorem freeSlot_spec {rw : Rw} (h : freeSlot request rw = some r) :
    r.val < limit rw ∧ (request r).dev < 0 := by
  have := List.find?_some h
  exact of_decide_eq_true this

/-- A new request gets the next number. -/
theorem Numbered.update {F : Request β κ} {number : Slot → Nat} {queued : Nat} {ended : List Nat}
    (N : Numbered request number queued ended) (hfree : (request r).dev < 0) (hdev : 0 ≤ F.dev) :
    Numbered (Function.update request r F) (Function.update number r queued) (queued + 1) ended := by
  have hold : ∀ {q}, 0 ≤ (Function.update request r F q).dev →
      (q = r ∧ Function.update number r queued q = queued) ∨
        (q ≠ r ∧ 0 ≤ (request q).dev ∧ Function.update number r queued q = number q) := by
    intro q hq
    by_cases hqr : q = r
    · subst hqr
      exact Or.inl ⟨rfl, Function.update_self _ _ _⟩
    · rw [Function.update_of_ne hqr] at hq
      exact Or.inr ⟨hqr, hq, Function.update_of_ne hqr _ _⟩
  refine ⟨fun q hq => ?_, fun q q' hq hq' he => ?_, N.nodup, fun n hn => Nat.lt_succ_of_lt (N.bound n hn),
    fun n hn hend => ?_⟩
  · obtain ⟨-, he⟩ | ⟨-, hq, he⟩ := hold hq
    · rw [he]
      exact ⟨Nat.lt_succ_self _, fun hmem => Nat.lt_irrefl _ (N.bound _ hmem)⟩
    · rw [he]
      exact ⟨Nat.lt_succ_of_lt (N.lt q hq).1, (N.lt q hq).2⟩
  · obtain ⟨hr, h⟩ | ⟨-, hq, h⟩ := hold hq
    · obtain ⟨hr', -⟩ | ⟨-, hq', h'⟩ := hold hq'
      · rw [hr, hr']
      · rw [h, h'] at he
        exact absurd (N.lt q' hq').1 (he ▸ Nat.lt_irrefl _)
    · obtain ⟨-, h'⟩ | ⟨-, hq', h'⟩ := hold hq'
      · rw [h, h'] at he
        exact absurd (N.lt q hq).1 (he ▸ Nat.lt_irrefl _)
      · rw [h, h'] at he
        exact N.inj q q' hq hq' he
  · obtain rfl | hlt := Nat.eq_or_lt_of_le (Nat.lt_succ_iff.mp hn)
    · refine ⟨r, ?_, Function.update_self _ _ _⟩
      rw [Function.update_self]
      exact hdev
    · obtain ⟨q, hq, he⟩ := N.complete n hlt hend
      have hqr : q ≠ r := by
        rintro rfl
        omega
      refine ⟨q, ?_, (Function.update_of_ne hqr _ _).trans he⟩
      rw [Function.update_of_ne hqr]
      exact hq

/-- Its number is among those that have ended. -/
theorem Numbered.release {number : Slot → Nat} {queued : Nat} {ended : List Nat}
    (N : Numbered request number queued ended) (hbusy : 0 ≤ (request r).dev) :
    Numbered (Function.update request r { request r with dev := -1 }) number queued
      (number r :: ended) := by
  have hold : ∀ {q}, 0 ≤ (Function.update request r { request r with dev := -1 } q).dev →
      q ≠ r ∧ 0 ≤ (request q).dev := by
    intro q hq
    by_cases hqr : q = r
    · subst hqr
      rw [Function.update_self] at hq
      dsimp only at hq
      omega
    · rw [Function.update_of_ne hqr] at hq
      exact ⟨hqr, hq⟩
  refine ⟨fun q hq => ?_, fun q q' hq hq' he => N.inj q q' (hold hq).2 (hold hq').2 he,
    List.nodup_cons.mpr ⟨(N.lt r hbusy).2, N.nodup⟩, fun n hn => ?_, fun n hn hend => ?_⟩
  · obtain ⟨hne, hq⟩ := hold hq
    refine ⟨(N.lt q hq).1, fun hmem => ?_⟩
    obtain he | hmem := List.mem_cons.mp hmem
    · exact hne (N.inj q r hq hbusy he)
    · exact (N.lt q hq).2 hmem
  · obtain rfl | hn := List.mem_cons.mp hn
    · exact (N.lt r hbusy).1
    · exact N.bound n hn
  · obtain ⟨q, hq, he⟩ := N.complete n hn fun hmem => hend (List.mem_cons_of_mem _ hmem)
    have hqr : q ≠ r := by
      rintro rfl
      exact hend (he ▸ List.mem_cons_self)
    refine ⟨q, ?_, he⟩
    rw [Function.update_of_ne hqr]
    exact hq

/-- Links are no matter to owners, numbers and slots. -/
theorem Inv.relink {current' : Nat → Option Slot} {queue : Nat → List Slot}
    (L : Locked s pending) (N : Numbered s.request s.number s.queued s.ended)
    (hwrites : ∀ r, 0 ≤ (s.request r).dev → (s.request r).cmd = .write → r.val < nrRequest * 2 / 3)
    (hlink : Relinked s.request request') (Q : Queued request' current' queue) :
    Inv { s with request := request', current := current' } pending := by
  have hdev : ∀ q, (request' q).dev = (s.request q).dev := by
    intro q
    obtain ⟨n, hn⟩ := hlink q
    rw [hn]
  have hbh : ∀ q, (request' q).bh = (s.request q).bh := by
    intro q
    obtain ⟨n, hn⟩ := hlink q
    rw [hn]
  have hcmd : ∀ q, (request' q).cmd = (s.request q).cmd := by
    intro q
    obtain ⟨n, hn⟩ := hlink q
    rw [hn]
  have howns : ∀ {b o}, Owns { s with request := request', current := current' } b o ↔ Owns s b o :=
    owns_congr (fun q => ⟨hdev q, hbh q⟩) rfl
  refine ⟨⟨queue, Q⟩, ⟨fun q hq => ?_, fun b => ?_, fun b o o' ho ho' => ?_, fun b hb o ho => ?_⟩,
    ⟨fun q hq => ?_, fun q q' hq hq' he => ?_, N.nodup, N.bound, fun n hn hend => ?_⟩, fun q hq hw => ?_⟩
  · dsimp only at hq ⊢
    rw [hdev q] at hq
    rw [hbh q]
    exact L.bh q hq
  · refine (L.lock b).trans (or_congr_left ?_)
    exact exists_congr fun o => howns.symm
  · exact L.unique b o o' (howns.mp ho) (howns.mp ho')
  · exact L.pending b hb o (howns.mp ho)
  · exact N.lt q (hdev q ▸ hq)
  · exact N.inj q q' (hdev q ▸ hq) (hdev q' ▸ hq') he
  · obtain ⟨q, hq, he⟩ := N.complete n hn hend
    exact ⟨q, (hdev q).symm ▸ hq, he⟩
  · exact hwrites q (hdev q ▸ hq) ((hcmd q).symm.trans hw)

/-- The phase holds a lock. -/
def Phase.Holds (p : Phase β) (b : β) : Prop := ∃ major rw, p = .waiting major rw b

theorem not_holds_idle : ¬ (Phase.idle : Phase β).Holds b := by
  rintro ⟨major, rw', h⟩
  cases h

theorem not_holds_locking {major : Nat} {rw : Rw} {ahead : Bool} :
    ¬ (Phase.locking major rw ahead bh).Holds b := by
  rintro ⟨major, rw', h⟩
  cases h

theorem holds_waiting {major : Nat} {rw : Rw} : (Phase.waiting major rw bh).Holds b ↔ bh = b := by
  constructor
  · rintro ⟨major', rw', h⟩
    cases h
    rfl
  · rintro rfl
    exact ⟨major, rw, rfl⟩

theorem start_inv (h : Start s) : Inv s none := by
  have hfree : ∀ r, ¬ 0 ≤ (s.request r).dev := by
    intro r hr
    rw [(h.request r).1] at hr
    omega
  have howns : ∀ b o, ¬ Owns s b o := by
    intro b o ho
    cases o with
    | request r => exact hfree r ho.1
    | task t =>
      obtain ⟨major, rw', ht⟩ := ho
      cases (h.phase t).symm.trans ht
  refine ⟨⟨fun _ => [], fun d => ?_, (fun d e r hr => by cases hr), fun r => ?_⟩, ⟨fun r hr => absurd hr (hfree r),
    fun b => ?_, fun b o o' ho => absurd ho (howns b o), fun b hb => by cases hb⟩,
    ⟨fun r hr => absurd hr (hfree r), fun r q hr => absurd hr (hfree r), ?_, ?_, fun n hn => ?_⟩,
    fun r hr => absurd hr (hfree r)⟩
  · rw [h.current d]
    exact .nil
  · refine iff_of_false (hfree r) ?_
    rintro ⟨d, hd⟩
    cases hd
  · rw [h.lock b]
    refine iff_of_false (fun hb => by cases hb) ?_
    rintro (⟨o, ho⟩ | hb)
    · exact howns b o ho
    · cases hb
  · rw [h.ended]
    exact List.nodup_nil
  · rw [h.ended]
    intro n hn
    cases hn
  · rw [h.queued] at hn
    exact absurd hn (Nat.not_lt_zero n)

section Buffers

variable [DecidableEq β]

/-- The lock of one buffer is set to whether it has an owner. -/
theorem Locked.modify {pending' : Option β} (L : Locked s pending)
    (hlock : (f (s.buffer bh)).lock = true ↔ (∃ o, Owns s bh o) ∨ pending' = some bh)
    (hpending : ∀ b, b ≠ bh → (pending = some b ↔ pending' = some b))
    (hnew : pending' = some bh → ∀ o, ¬ Owns s bh o) : Locked (s.modify bh f) pending' := by
  refine ⟨L.bh, fun b => ?_, L.unique, fun b hb => ?_⟩
  · show (Function.update s.buffer bh (f (s.buffer bh)) b).lock = true ↔
      (∃ o, Owns s b o) ∨ pending' = some b
    by_cases hb : b = bh
    · subst hb
      rw [Function.update_self]
      exact hlock
    · rw [Function.update_of_ne hb, L.lock b, hpending b hb]
  · by_cases hbh : b = bh
    · subst hbh
      exact hnew hb
    · exact L.pending b ((hpending b hbh).mpr hb)

/-- A buffer is changed, but not its lock. -/
theorem Inv.touch (I : Inv s pending) (hf : (f (s.buffer bh)).lock = (s.buffer bh).lock) :
    Inv (s.modify bh f) pending :=
  ⟨I.queue, I.locked.modify (by rw [hf]; exact I.locked.lock bh) (fun _ _ => Iff.rfl) (I.locked.pending bh),
    I.numbered, I.writes⟩

/-- A free buffer is locked. -/
theorem Inv.lock (I : Inv s none) (hfree : (s.buffer bh).lock = false) :
    Inv (s.modify bh fun b => { b with lock := true }) (some bh) := by
  have hnone : ∀ o, ¬ Owns s bh o := by
    intro o ho
    rw [(I.locked.lock bh).mpr (Or.inl ⟨o, ho⟩)] at hfree
    cases hfree
  refine ⟨I.queue, I.locked.modify (iff_of_true rfl (Or.inr rfl)) (fun b hb => ?_) fun _ => hnone,
    I.numbered, I.writes⟩
  exact iff_of_false (by simp) fun h => hb (Option.some.inj h).symm

/-- It is unlocked again. -/
theorem Inv.unlock (I : Inv s (some bh)) : Inv (unlockBuffer bh s) none := by
  have hnone := I.locked.pending bh rfl
  refine ⟨I.queue, I.locked.modify (iff_of_false (by simp) ?_) (fun b hb => ?_) (fun h => by cases h),
    I.numbered, I.writes⟩
  · rintro (⟨o, ho⟩ | h)
    · exact hnone o ho
    · cases h
  · exact iff_of_false (fun h => hb (Option.some.inj h).symm) (by simp)

/-- The owners when slot `r` has got a request for `bh`. -/
theorem owns_update {F : Request β κ} {o : Owner κ} (hrequest : s'.request = Function.update s.request r F)
    (hphase : s'.phase = s.phase) (hfree : (s.request r).dev < 0) (hdev : 0 ≤ F.dev) (hbh : F.bh = some bh) :
    Owns s' b o ↔ Owns s b o ∨ o = .request r ∧ bh = b := by
  cases o with
  | request q =>
    show 0 ≤ (s'.request q).dev ∧ (s'.request q).bh = some b ↔
      (0 ≤ (s.request q).dev ∧ (s.request q).bh = some b) ∨ _
    rw [hrequest]
    by_cases hq : q = r
    · subst hq
      rw [Function.update_self, hbh]
      constructor
      · rintro ⟨-, he⟩
        exact Or.inr ⟨rfl, Option.some.inj he⟩
      · rintro (⟨h, -⟩ | ⟨-, he⟩)
        · omega
        · exact ⟨hdev, congrArg some he⟩
    · rw [Function.update_of_ne hq]
      exact ⟨Or.inl, fun h => h.resolve_right fun h => hq (Owner.request.inj h.1)⟩
  | task t =>
    show (∃ major rw, s'.phase t = .waiting major rw b) ↔ (∃ major rw, s.phase t = .waiting major rw b) ∨ _
    rw [hphase]
    exact ⟨Or.inl, fun h => h.resolve_right fun h => by cases h.1⟩

/-- The pending lock goes to the request in slot `r`. -/
theorem Locked.update {F : Request β κ} (L : Locked s (some bh)) (hfree : (s.request r).dev < 0)
    (hdev : 0 ≤ F.dev) (hbh : F.bh = some bh) (hrequest : s'.request = Function.update s.request r F)
    (hphase : s'.phase = s.phase) (hbuffer : ∀ b, (s'.buffer b).lock = (s.buffer b).lock) :
    Locked s' none := by
  have howns : ∀ {b o}, Owns s' b o ↔ Owns s b o ∨ o = .request r ∧ bh = b :=
    owns_update hrequest hphase hfree hdev hbh
  refine ⟨fun q hq => ?_, fun b => ?_, fun b o o' ho ho' => ?_, fun b hb => by cases hb⟩
  · rw [hrequest] at hq ⊢
    by_cases hqr : q = r
    · subst hqr
      rw [Function.update_self]
      exact ⟨bh, hbh⟩
    · rw [Function.update_of_ne hqr] at hq ⊢
      exact L.bh q hq
  · rw [hbuffer b, L.lock b]
    constructor
    · rintro (⟨o, ho⟩ | hb)
      · exact Or.inl ⟨o, howns.mpr (Or.inl ho)⟩
      · exact Or.inl ⟨.request r, howns.mpr (Or.inr ⟨rfl, Option.some.inj hb⟩)⟩
    · rintro (⟨o, ho⟩ | hb)
      · obtain ho | ⟨-, rfl⟩ := howns.mp ho
        · exact Or.inl ⟨o, ho⟩
        · exact Or.inr rfl
      · cases hb
  · obtain ho | ⟨rfl, rfl⟩ := howns.mp ho
    · obtain ho' | ⟨-, rfl⟩ := howns.mp ho'
      · exact L.unique b o o' ho ho'
      · exact absurd ho (L.pending bh rfl o)
    · obtain ho' | ⟨rfl, -⟩ := howns.mp ho'
      · exact absurd ho' (L.pending bh rfl o')
      · rfl

/-- The pending lock goes to a new request, and `add_request` ends. -/
theorem Inv.submit {rw : Rw} {major : Nat} (I : Inv s (some bh)) (hfree : freeSlot s.request rw = some r) :
    ∃ s', addRequest major r
        { s with
          request := Function.update s.request r (fill rw bh (s.buffer bh))
          number := Function.update s.number r s.queued
          queued := s.queued + 1 } = some s' ∧ Inv s' none := by
  obtain ⟨⟨queue, Q⟩, L, N, hwrites⟩ := I
  obtain ⟨hlt, hdev⟩ := freeSlot_spec hfree
  generalize hF : fill rw bh (s.buffer bh) = F
  have hFdev : 0 ≤ F.dev := by
    rw [← hF]
    exact Int.natCast_nonneg _
  have hFbh : F.bh = some bh := by
    rw [← hF]
    rfl
  have hFnext : F.next = none := by
    rw [← hF]
    rfl
  have hFcmd : F.cmd = rw := by
    rw [← hF]
    rfl
  have hreset : Function.update (Function.update s.request r F) r
      { Function.update s.request r F r with next := none } = Function.update s.request r F := by
    rw [Function.update_self, Function.update_idem, ← hFnext]
  have hself : (Function.update s.request r F r).bh = some bh := by
    rw [Function.update_self, hFbh]
  have hwrites' : ∀ q, 0 ≤ (Function.update s.request r F q).dev →
      (Function.update s.request r F q).cmd = .write → q.val < nrRequest * 2 / 3 := by
    intro q hq hw
    by_cases hqr : q = r
    · subst hqr
      rw [Function.update_self, hFcmd] at hw
      rw [hw] at hlt
      exact hlt
    · rw [Function.update_of_ne hqr] at hq hw
      exact hwrites q hq hw
  have hlock : ∀ b, (Function.update s.buffer bh { s.buffer bh with dirt := false } b).lock =
      (s.buffer b).lock := by
    intro b
    by_cases hb : b = bh
    · subst hb
      rw [Function.update_self]
    · rw [Function.update_of_ne hb]
  unfold addRequest State.modify
  dsimp only
  rw [hreset, hself]
  dsimp only
  obtain ⟨hcur, Q'⟩ | ⟨tmp, p, hcur, hplace, Q'⟩ := Q.add major hdev hFdev hFnext rfl
  · rw [hcur]
    refine ⟨_, rfl, ⟨_, Q'⟩, ?_, N.update hdev hFdev, hwrites'⟩
    exact L.update hdev hFdev hFbh rfl rfl hlock
  · rw [hcur]
    dsimp only
    rw [hplace]
    refine ⟨_, rfl, ?_⟩
    exact Inv.relink (s := { s with
        buffer := Function.update s.buffer bh { s.buffer bh with dirt := false }
        request := Function.update s.request r F
        number := Function.update s.number r s.queued
        queued := s.queued + 1 }) (L.update hdev hFdev hFbh rfl rfl hlock) (N.update hdev hFdev) hwrites'
      link_relinked Q'

/-- What a slot owns is free when its request has ended. -/
theorem Locked.release {pending : Option β} (L : Locked s pending) (howner : Owns s bh (.request r))
    (hrequest : s'.request = Function.update s.request r { s.request r with dev := -1 })
    (hphase : s'.phase = s.phase) (hself : (s'.buffer bh).lock = false)
    (hother : ∀ b, b ≠ bh → (s'.buffer b).lock = (s.buffer b).lock) : Locked s' pending := by
  have howns : ∀ {b o}, Owns s' b o ↔ Owns s b o ∧ o ≠ .request r := by
    intro b o
    cases o with
    | request q =>
      show 0 ≤ (s'.request q).dev ∧ (s'.request q).bh = some b ↔ _
      rw [hrequest]
      by_cases hq : q = r
      · subst hq
        rw [Function.update_self]
        refine iff_of_false (fun h => ?_) fun h => h.2 rfl
        have := h.1
        dsimp only at this
        omega
      · rw [Function.update_of_ne hq]
        exact ⟨fun h => ⟨h, fun he => hq (Owner.request.inj he)⟩, And.left⟩
    | task t =>
      show (∃ major rw, s'.phase t = .waiting major rw b) ↔ _
      rw [hphase]
      exact ⟨fun h => ⟨h, fun he => by cases he⟩, And.left⟩
  refine ⟨fun q hq => ?_, fun b => ?_, fun b o o' ho ho' => ?_, fun b hb o ho => ?_⟩
  · rw [hrequest] at hq ⊢
    by_cases hqr : q = r
    · subst hqr
      rw [Function.update_self] at hq
      dsimp only at hq
      omega
    · rw [Function.update_of_ne hqr] at hq ⊢
      exact L.bh q hq
  · by_cases hb : b = bh
    · subst hb
      rw [hself]
      refine iff_of_false (fun h => by cases h) ?_
      rintro (⟨o, ho⟩ | hb)
      · obtain ⟨ho, hne⟩ := howns.mp ho
        exact hne (L.unique b o _ ho howner)
      · exact L.pending b hb _ howner
    · rw [hother b hb, L.lock b]
      refine or_congr_left (exists_congr fun o => ?_)
      refine ⟨fun ho => howns.mpr ⟨ho, ?_⟩, fun ho => (howns.mp ho).1⟩
      rintro rfl
      exact hb (Option.some.inj (ho.2.symm.trans howner.2))
  · exact L.unique b o o' (howns.mp ho).1 (howns.mp ho').1
  · exact L.pending b hb o (howns.mp ho).1

/-- A request ends: its buffer was locked, and is unlocked and up to date or not. -/
theorem endRequest_inv {major : Nat} {uptodate : Bool} (I : Inv s none) (hcur : s.current major = some r) :
    ∃ bh s', (s.request r).bh = some bh ∧ (s.buffer bh).lock = true ∧
      endRequest major uptodate s = some s' ∧
      s'.buffer = Function.update s.buffer bh { s.buffer bh with uptodate := uptodate, lock := false } ∧
      s'.ended = s.number r :: s.ended ∧ Inv s' none := by
  obtain ⟨⟨queue, Q⟩, L, N, hwrites⟩ := I
  obtain ⟨hbusy, l, -, Q'⟩ := Q.pop hcur
  obtain ⟨bh, hbh⟩ := L.bh r hbusy
  have howner : Owns s bh (.request r) := ⟨hbusy, hbh⟩
  have hend : endRequest major uptodate s = some
      { s with
        buffer := Function.update s.buffer bh { s.buffer bh with uptodate := uptodate, lock := false }
        request := Function.update s.request r { s.request r with dev := -1 }
        current := Function.update s.current major (s.request r).next
        ended := s.number r :: s.ended } := by
    unfold endRequest unlockBuffer State.modify
    rw [hcur, Option.map_some]
    dsimp only
    rw [hbh]
    dsimp only
    rw [Function.update_self, Function.update_idem, hbh]
  refine ⟨bh, _, hbh, (L.lock bh).mpr (Or.inl ⟨_, howner⟩), hend, rfl, rfl, ⟨_, Q'⟩, ?_,
    N.release hbusy, fun q hq hw => ?_⟩
  · refine L.release howner rfl rfl ?_ fun b hb => ?_
    · dsimp only
      rw [Function.update_self]
    · dsimp only
      rw [Function.update_of_ne hb]
  · dsimp only at hq hw
    by_cases hqr : q = r
    · subst hqr
      rw [Function.update_self] at hq
      dsimp only at hq
      omega
    · rw [Function.update_of_ne hqr] at hq hw
      exact hwrites q hq hw

end Buffers

section Phases

variable [DecidableEq κ]

theorem owns_at {p : Phase β} {o : Owner κ} (h : Owns (s.at t p) b o) :
    (o = .task t ∧ p.Holds b) ∨ (o ≠ .task t ∧ Owns s b o) := by
  cases o with
  | request r => exact Or.inr ⟨(fun he => by cases he), h⟩
  | task u =>
    obtain ⟨major, rw', h⟩ := h
    unfold State.at at h
    dsimp only at h
    by_cases hu : u = t
    · subst hu
      rw [Function.update_self] at h
      exact Or.inl ⟨rfl, major, rw', h⟩
    · rw [Function.update_of_ne hu] at h
      exact Or.inr ⟨fun he => hu (Owner.task.inj he), major, rw', h⟩

theorem owns_at_of {p : Phase β} {o : Owner κ} (hne : o ≠ .task t) (h : Owns s b o) : Owns (s.at t p) b o := by
  cases o with
  | request r => exact h
  | task u =>
    obtain ⟨major, rw', h⟩ := h
    have hu : u ≠ t := fun he => hne (he ▸ rfl)
    exact ⟨major, rw', (Function.update_of_ne hu _ _).trans h⟩

/-- A task moves and hands its lock over, or takes it. -/
theorem Inv.at {p : Phase β} {pending' : Option β} (I : Inv s pending)
    (h : ∀ b, ((s.phase t).Holds b ∨ pending = some b) ↔ (p.Holds b ∨ pending' = some b))
    (honly : ∀ b, p.Holds b → pending' ≠ some b) : Inv (s.at t p) pending' := by
  obtain ⟨hqueue, L, N, hwrites⟩ := I
  have hbefore : ∀ {b o}, Owns s b o → o = .task t → (s.phase t).Holds b := by
    rintro b o ho rfl
    exact ho
  refine ⟨hqueue, ⟨L.bh, fun b => ?_, fun b o o' ho ho' => ?_, fun b hb o ho => ?_⟩,
    N, hwrites⟩
  · refine (L.lock b).trans ?_
    constructor
    · rintro (⟨o, ho⟩ | hb)
      · by_cases hot : o = .task t
        · obtain hp | hb := (h b).mp (Or.inl (hbefore ho hot))
          · obtain ⟨major, rw', hp⟩ := hp
            exact Or.inl ⟨.task t, major, rw', (Function.update_self _ _ _).trans hp⟩
          · exact Or.inr hb
        · exact Or.inl ⟨o, owns_at_of hot ho⟩
      · obtain hp | hb := (h b).mp (Or.inr hb)
        · obtain ⟨major, rw', hp⟩ := hp
          exact Or.inl ⟨.task t, major, rw', (Function.update_self _ _ _).trans hp⟩
        · exact Or.inr hb
    · rintro (⟨o, ho⟩ | hb)
      · obtain ⟨-, hp⟩ | ⟨-, ho⟩ := owns_at ho
        · obtain hh | hb := (h b).mpr (Or.inl hp)
          · exact Or.inl ⟨.task t, hh⟩
          · exact Or.inr hb
        · exact Or.inl ⟨o, ho⟩
      · obtain hh | hb := (h b).mpr (Or.inr hb)
        · exact Or.inl ⟨.task t, hh⟩
        · exact Or.inr hb
  · have hold : ∀ {o}, o ≠ .task t → Owns s b o → ¬ p.Holds b := by
      intro o hot ho hp
      obtain ⟨major, rw', hh⟩ | hb := (h b).mpr (Or.inl hp)
      · exact hot (L.unique b o (.task t) ho ⟨major, rw', hh⟩)
      · exact L.pending b hb o ho
    obtain ⟨rfl, hp⟩ | ⟨hot, hs⟩ := owns_at ho
    · obtain ⟨rfl, -⟩ | ⟨hot', hs'⟩ := owns_at ho'
      · rfl
      · exact absurd hp (hold hot' hs')
    · obtain ⟨-, hp⟩ | ⟨-, hs'⟩ := owns_at ho'
      · exact absurd hp (hold hot hs)
      · exact L.unique b o o' hs hs'
  · obtain ⟨-, hp⟩ | ⟨hot, hs⟩ := owns_at ho
    · exact honly b hp hb
    · obtain ⟨major, rw', hh⟩ | hb := (h b).mpr (Or.inr hb)
      · exact hot (L.unique b o (.task t) hs ⟨major, rw', hh⟩)
      · exact L.pending b hb o hs

/-- A task that holds no lock moves to where it holds none. -/
theorem Inv.move {p : Phase β} (I : Inv s pending) (hbefore : ∀ b, ¬ (s.phase t).Holds b)
    (hafter : ∀ b, ¬ p.Holds b) : Inv (s.at t p) pending :=
  I.at (fun b => or_congr_left (iff_of_false (hbefore b) (hafter b))) fun b hb => absurd hb (hafter b)

end Phases

/-! ## Requests -/

section Requests

variable [DecidableEq β] [DecidableEq κ]

theorem findRequest_inv {major : Nat} {rw : Rw} {ahead : Bool} (I : Inv (s.at t .idle) (some bh)) :
    ∃ s', findRequest t major rw ahead bh s = some s' ∧ Inv s' none := by
  unfold findRequest
  split
  · split
    · exact ⟨_, rfl, I.unlock⟩
    · refine ⟨_, rfl, ?_⟩
      have hat : s.at t (.waiting major rw bh) = (s.at t .idle).at t (.waiting major rw bh) := by
        unfold State.at
        dsimp only
        rw [Function.update_idem]
      rw [hat]
      refine I.at (fun b => ?_) fun b _ h => by cases h
      have hidle : (s.at t .idle).phase t = .idle := Function.update_self _ _ _
      rw [hidle, holds_waiting]
      constructor
      · intro h
        exact Or.inl (Option.some.inj (h.resolve_left not_holds_idle))
      · intro h
        exact Or.inr (congrArg some (h.resolve_right fun h => by cases h))
  · next r hr => exact I.submit hr

theorem lockBuffer_inv {major : Nat} {rw : Rw} {ahead : Bool} (I : Inv s none)
    (hphase : ∀ b, ¬ (s.phase t).Holds b) :
    ∃ s', lockBuffer t major rw ahead bh s = some s' ∧ Inv s' none := by
  unfold lockBuffer
  split
  · exact ⟨_, rfl, I.move hphase fun _ => not_holds_locking⟩
  · next hfree =>
    have K := I.lock (Bool.eq_false_iff.mpr hfree)
    dsimp only
    split
    · exact ⟨_, rfl, K.unlock.move hphase fun _ => not_holds_idle⟩
    · exact findRequest_inv (K.move hphase fun _ => not_holds_idle)

theorem makeRequest_inv {major : Nat} {rw : Rw} (I : Inv s none) (hphase : ∀ b, ¬ (s.phase t).Holds b) :
    ∃ s', makeRequest t major rw bh s = some s' ∧ Inv s' none := by
  unfold makeRequest
  split
  · split
    · exact ⟨s, rfl, I⟩
    · exact lockBuffer_inv I hphase
  · split
    · exact ⟨s, rfl, I⟩
    · exact lockBuffer_inv I hphase
  · exact lockBuffer_inv I hphase
  · exact lockBuffer_inv I hphase

theorem resume_inv (I : Inv s none) (ht : s.phase t ≠ .idle) : ∃ s', resume s t = some s' ∧ Inv s' none := by
  unfold resume
  split
  · next h => exact absurd h ht
  · next major rw ahead bh h =>
    refine lockBuffer_inv I fun b => ?_
    rw [h]
    exact not_holds_locking
  · next major rw' bh h =>
    refine findRequest_inv (I.at (fun b => ?_) fun b hb => absurd hb not_holds_idle)
    rw [h, holds_waiting]
    constructor
    · intro he
      exact Or.inr (congrArg some (he.resolve_right fun h => by cases h))
    · intro he
      exact Or.inl (Option.some.inj (he.resolve_left not_holds_idle))

theorem call_inv {served : Nat → Bool} {rw : Rw} (I : Inv s none) (ht : s.phase t = .idle) :
    ∃ s', call served s t rw bh = some s' ∧ Inv s' none := by
  have hphase : ∀ b, ¬ (s.phase t).Holds b := by
    intro b
    rw [ht]
    exact not_holds_idle
  unfold call
  rw [ht]
  dsimp only
  unfold llRwBlock
  split
  · exact makeRequest_inv I hphase
  · exact ⟨s, rfl, I⟩

/-! ## Runs -/

theorem step_inv {served : Nat → Bool} {e : Event β κ} (I : Inv s none) (h : step served s e = some s') :
    Inv s' none := by
  cases e with
  | llRwBlock t rw bh =>
    have h : call served s t rw bh = some s' := h
    have ht : s.phase t = .idle := by
      unfold call at h
      split at h
      · assumption
      · cases h
    obtain ⟨u, hu, I'⟩ : ∃ u, call served s t rw bh = some u ∧ Inv u none := call_inv I ht
    cases hu.symm.trans h
    exact I'
  | wake t =>
    have h : resume s t = some s' := h
    have ht : s.phase t ≠ .idle := by
      intro ht
      unfold resume at h
      rw [ht] at h
      cases h
    obtain ⟨u, hu, I'⟩ := resume_inv I ht
    cases hu.symm.trans h
    exact I'
  | endRequest major uptodate =>
    have h : endRequest major uptodate s = some s' := h
    obtain ⟨r, hcur, -⟩ := Option.map_eq_some_iff.mp h
    obtain ⟨bh, u, -, -, hu, -, -, I'⟩ := endRequest_inv I hcur
    cases hu.symm.trans h
    exact I'
  | touch bh b =>
    cases h
    exact I.touch rfl

/-- In every reachable state: each queue is a list that ends, and a slot is busy if and only if it is on
exactly one of them; write requests are in the first two thirds of the slots; a buffer is locked if and
only if it has an owner, and it has no two; the numbers given are those of the busy slots and those
that were ended, each once. The first request of a queue can be ended: its buffer is locked, and is
unlocked and has the new `uptodate`. No task is caught in a loop. -/
theorem request_queue {served : Nat → Bool} (h : Lib.Reach (step served) (fun _ _ => True) Start s) :
    (∃ queue : Nat → List Slot,
      (∀ d, Lib.Chain (fun r => (s.request r).next) (s.current d) (queue d) ∧ (queue d).Nodup) ∧
        ∀ r, 0 ≤ (s.request r).dev ↔ ∃! d, r ∈ queue d) ∧
      (∀ r, 0 ≤ (s.request r).dev → (s.request r).cmd = .write → r.val < nrRequest * 2 / 3) ∧
      (∀ b, ((s.buffer b).lock = true ↔ ∃! o, Owns s b o) ∧ ∀ o o', Owns s b o → Owns s b o' → o = o') ∧
      (s.ended.Nodup ∧ (∀ n ∈ s.ended, n < s.queued) ∧
        ∀ n < s.queued, n ∉ s.ended ↔ ∃! r, 0 ≤ (s.request r).dev ∧ s.number r = n) ∧
      (∀ d r uptodate, s.current d = some r → ∃ bh s', (s.request r).bh = some bh ∧
        (s.buffer bh).lock = true ∧ step served s (.endRequest d uptodate) = some s' ∧
        s'.buffer = Function.update s.buffer bh
          { s.buffer bh with uptodate := uptodate, lock := false } ∧
        s'.ended = s.number r :: s.ended) ∧
      ∀ t, (s.phase t = .idle → ∀ rw bh, (step served s (.llRwBlock t rw bh)).isSome = true) ∧
        (s.phase t ≠ .idle → (step served s (.wake t)).isSome = true) := by
  have I : Inv s none := h.invariant (fun s hs => start_inv hs) fun s e s' I _ hstep => step_inv I hstep
  obtain ⟨⟨queue, Q⟩, L, N, hwrites⟩ := id I
  refine ⟨⟨queue, fun d => ⟨Q.chain d, (Q.chain d).nodup⟩, fun r => ?_⟩, hwrites, fun b => ⟨?_, L.unique b⟩,
    ⟨N.nodup, N.bound, fun n hn => ?_⟩, fun d r uptodate hcur => ?_, fun t => ⟨fun ht rw bh => ?_, fun ht => ?_⟩⟩
  · rw [Q.busy r]
    refine ⟨fun ⟨d, hd⟩ => ⟨d, hd, fun e he => Q.apart e d r he hd⟩, fun ⟨d, hd, _⟩ => ⟨d, hd⟩⟩
  · rw [L.lock b]
    constructor
    · rintro (⟨o, ho⟩ | hb)
      · exact ⟨o, ho, fun o' ho' => L.unique b o' o ho' ho⟩
      · cases hb
    · rintro ⟨o, ho, -⟩
      exact Or.inl ⟨o, ho⟩
  · constructor
    · intro hend
      obtain ⟨r, hr, he⟩ := N.complete n hn hend
      exact ⟨r, ⟨hr, he⟩, fun q hq => N.inj q r hq.1 hr (hq.2.trans he.symm)⟩
    · rintro ⟨r, ⟨hr, rfl⟩, -⟩
      exact (N.lt r hr).2
  · obtain ⟨bh, s', hbh, hlock, hend, hbuffer, hended, -⟩ := endRequest_inv I hcur
    exact ⟨bh, s', hbh, hlock, hend, hbuffer, hended⟩
  · obtain ⟨u, hu, -⟩ : ∃ u, call served s t rw bh = some u ∧ Inv u none := call_inv I ht
    show (call served s t rw bh).isSome = true
    rw [hu, Option.isSome_some]
  · obtain ⟨u, hu, -⟩ := resume_inv I ht
    show (resume s t).isSome = true
    rw [hu, Option.isSome_some]

end Requests

/-- Three blocks of the first hard disk, the last one changed. -/
def fresh : State (Fin 3) Bool where
  buffer b := ⟨0, 10 * b.val, 0x301, false, b = 2, false⟩
  request _ := ⟨-1, .read, 0, 0, 0, 0, none, none, none⟩
  current _ := none
  phase _ := .idle
  number _ := 0
  queued := 0
  ended := []

theorem fresh_start : Start fresh :=
  ⟨fun _ => ⟨rfl, rfl⟩, fun _ => rfl, fun _ => rfl, fun _ => rfl, rfl, rfl⟩

/-- A write is queued behind a read, and a read comes between them; the first read has ended. -/
theorem request_queue_three : ∃ s : State (Fin 3) Bool, s.current 3 = some 30 ∧
    (s.request 30).next = some 20 ∧ s.ended = [0] ∧
      ∀ r, 0 ≤ (s.request r).dev → (s.request r).cmd = .write → r.val < nrRequest * 2 / 3 := by
  obtain ⟨s, hs, hcur, hnext, hended⟩ : ∃ s, Lib.run (step fun d => d = 3) fresh
      [.llRwBlock true .read 0, .llRwBlock true .write 2, .llRwBlock false .readAhead 1,
        .endRequest 3 true] = some s ∧ s.current 3 = some 30 ∧ (s.request 30).next = some 20 ∧
          s.ended = [0] :=
    ⟨_, rfl, by decide +kernel, by decide +kernel, by decide +kernel⟩
  refine ⟨s, hcur, hnext, hended, ?_⟩
  exact (request_queue ((Lib.Reach.start fresh_start).ofRun (fun _ _ => trivial) hs)).2.1

end Linux011.Block

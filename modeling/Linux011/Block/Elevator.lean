import Linux011.Block.Queue

/-!
# The elevator (`kernel/blk_drv/ll_rw_blk.c`, `kernel/blk_drv/blk.h`)

The queue of a device is a list of sweeps (`Lib/Sweep.lean`): `add_request` never changes which request
is first, and puts a new one where it is in order, so there are at most two ascending runs. The order
is that of the command, the device and the sector; two requests of one queue that agree in all three
could be placed anywhere, and are left out.
-/

namespace Linux011.Block

variable {β κ : Type*} {s s' : State β κ}
  {request request' : Slot → Request β κ} {r : Slot} {F : Request β κ}

/-! ## The order -/

/-- What `IN_ORDER` compares. -/
def Request.key (F : Request β κ) : Rw × Int × Nat := (F.cmd, F.dev, F.sector)

theorem inOrder_iff (q r : Request β κ) : inOrder q r = true ↔ q.cmd.val < r.cmd.val ∨
    q.cmd = r.cmd ∧ (q.dev < r.dev ∨ q.dev = r.dev ∧ q.sector < r.sector) := decide_eq_true_iff

theorem val_inj {a b : Rw} (h : a.val = b.val) : a = b := by
  revert h
  cases a <;> cases b <;> decide

theorem slotOrder_strict (request : Slot → Request β κ) : Lib.Strict (slotOrder request) where
  trans {x y z} hxy hyz := by
    unfold slotOrder at *
    rw [inOrder_iff] at *
    rcases hxy with h | ⟨hc, h⟩
    · left
      rcases hyz with h' | ⟨hc', -⟩
      · omega
      · rw [← hc']
        exact h
    · rcases hyz with h' | ⟨hc', h'⟩
      · left
        rw [hc]
        exact h'
      · right
        refine ⟨hc.trans hc', ?_⟩
        omega
  asymm {x y} hxy := by
    unfold slotOrder at *
    rw [← Bool.not_eq_true, inOrder_iff] at *
    rintro (h | ⟨hc, h⟩)
    · rcases hxy with h' | ⟨hc', -⟩
      · omega
      · rw [hc'] at h
        exact Nat.lt_irrefl _ h
    · rcases hxy with h' | ⟨-, h'⟩
      · rw [hc] at h'
        exact Nat.lt_irrefl _ h'
      · omega

/-- Requests with different keys are in order one way or the other. -/
theorem inOrder_total {q r : Request β κ} (h : q.key ≠ r.key) :
    inOrder q r = true ∨ inOrder r q = true := by
  rw [inOrder_iff, inOrder_iff]
  rcases Nat.lt_trichotomy q.cmd.val r.cmd.val with hc | hc | hc
  · exact Or.inl (Or.inl hc)
  · have hcmd := val_inj hc
    have hne : ¬ (q.dev = r.dev ∧ q.sector = r.sector) := by
      rintro ⟨hd, hs⟩
      exact h (by rw [Request.key, Request.key, hcmd, hd, hs])
    have hlt : (q.dev < r.dev ∨ q.dev = r.dev ∧ q.sector < r.sector) ∨
        (r.dev < q.dev ∨ r.dev = q.dev ∧ r.sector < q.sector) := by omega
    exact hlt.imp (fun h => Or.inr ⟨hcmd, h⟩) fun h => Or.inr ⟨hcmd.symm, h⟩
  · exact Or.inr (Or.inl hc)

theorem inOrder_congr {q q' r r' : Request β κ} (hq : q'.key = q.key) (hr : r'.key = r.key) :
    inOrder q' r' = inOrder q r := by
  simp only [Request.key, Prod.mk.injEq] at hq hr
  obtain ⟨hqc, hqd, hqs⟩ := hq
  obtain ⟨hrc, hrd, hrs⟩ := hr
  unfold inOrder
  rw [hqc, hqd, hqs, hrc, hrd, hrs]

theorem Relinked.key (h : Relinked request request') (q : Slot) :
    (request' q).key = (request q).key := by
  obtain ⟨n, hn⟩ := h q
  rw [hn]
  rfl

/-! ## The queue of a device -/

variable [DecidableEq β]

inductive Turn (β κ : Type*)
  /-- A request is filled into a free slot and queued for a device. -/
  | add (major : Nat) (r : Slot) (F : Request β κ)
  | remove (major : Nat) (uptodate : Bool)

def turn (s : State β κ) : Turn β κ → Option (State β κ)
  | .add major r F =>
    if (s.request r).dev < 0 ∧ 0 ≤ F.dev then
      addRequest major r { s with request := Function.update s.request r F }
    else none
  | .remove major uptodate => endRequest major uptodate s

/-- The key of a new request is none of the keys in the queue. -/
def Distinct (s : State β κ) : Turn β κ → Prop
  | .add major _ F => ∀ l, Lib.Chain (fun r => (s.request r).next) (s.current major) l →
    ∀ q ∈ l, (s.request q).key ≠ F.key
  | .remove .. => True

/-- Every queue is at most two ascending runs. -/
structure Swept (s : State β κ) (queue : Nat → List Slot) : Prop where
  queued : Queued s.request s.current queue
  runs : ∀ d, Lib.TwoRuns (slotOrder s.request) (queue d)

omit [DecidableEq β] in
theorem Swept.not_mem {queue : Nat → List Slot} (W : Swept s queue) (hfree : (s.request r).dev < 0)
    (d : Nat) : r ∉ queue d := by
  intro hd
  have hbusy := (W.queued.busy r).mpr ⟨d, hd⟩
  omega

/-- `add_request`, but for the buffer. -/
theorem addRequest_eq (major : Nat) (r : Slot) (F : Request β κ) (s : State β κ) :
    ∃ buffer, addRequest major r { s with request := Function.update s.request r F } =
      match s.current major with
      | none => some { s with
          buffer := buffer
          request := Function.update s.request r { F with next := none }
          current := Function.update s.current major (some r) }
      | some tmp =>
        (place (Function.update s.request r { F with next := none }) r nrRequest tmp).map fun p =>
          { s with
            buffer := buffer
            request := link (Function.update s.request r { F with next := none }) r p } := by
  have hset : Function.update (Function.update s.request r F) r
      { Function.update s.request r F r with next := none } =
        Function.update s.request r { F with next := none } := by
    rw [Function.update_self, Function.update_idem]
  unfold addRequest
  dsimp only
  rw [hset, Function.update_self]
  cases F.bh with
  | none => exact ⟨s.buffer, rfl⟩
  | some bh => exact ⟨_, rfl⟩

/-- A queue with a new request. -/
def grown (s : State β κ) (queue : Nat → List Slot) (major : Nat) (r : Slot) (F : Request β κ) :
    Nat → List Slot :=
  Function.update queue major
    (Lib.sweep (slotOrder (Function.update s.request r { F with next := none })) r (queue major))

omit [DecidableEq β] in
/-- The new request is in order with the old ones, and they keep their order. -/
theorem Swept.grown_runs {queue : Nat → List Slot} (W : Swept s queue) (major : Nat)
    (hfree : (s.request r).dev < 0) (hdistinct : Distinct s (.add major r F)) (d : Nat) :
    Lib.TwoRuns (slotOrder (Function.update s.request r { F with next := none }))
      (grown s queue major r F d) := by
  have hold : ∀ d, Lib.TwoRuns (slotOrder (Function.update s.request r { F with next := none }))
      (queue d) := fun d => by
    refine (W.runs d).congr fun x hx y hy => ?_
    have hxr : x ≠ r := fun he => W.not_mem hfree d (he ▸ hx)
    have hyr : y ≠ r := fun he => W.not_mem hfree d (he ▸ hy)
    rw [slotOrder, slotOrder, Function.update_of_ne hxr, Function.update_of_ne hyr]
  unfold grown
  by_cases hd : d = major
  · subst hd
    rw [Function.update_self]
    refine (slotOrder_strict _).sweep_twoRuns (hold d) fun q hq => ?_
    have hqr : q ≠ r := fun he => W.not_mem hfree d (he ▸ hq)
    rw [slotOrder, slotOrder, Function.update_of_ne hqr, Function.update_self]
    exact inOrder_total (hdistinct _ (W.queued.chain d) q hq)
  · rw [Function.update_of_ne hd]
    exact hold d

theorem Swept.add {queue : Nat → List Slot} (W : Swept s queue) (major : Nat)
    (hfree : (s.request r).dev < 0) (hdev : 0 ≤ F.dev) (hdistinct : Distinct s (.add major r F)) :
    ∃ s', turn s (.add major r F) = some s' ∧ Swept s' (grown s queue major r F) ∧
      (∀ tmp, s.current major = some tmp → s'.current = s.current) ∧
      (s'.request r).key = F.key ∧ ∀ q, q ≠ r → (s'.request q).key = (s.request q).key := by
  have hruns := W.grown_runs (F := F) major hfree hdistinct
  have hself : (Function.update s.request r { F with next := none } r).key = F.key := by
    rw [Function.update_self]
    rfl
  have hother : ∀ q, q ≠ r →
      (Function.update s.request r { F with next := none } q).key = (s.request q).key := fun q hq => by
    rw [Function.update_of_ne hq]
  have hturn : turn s (.add major r F) =
      addRequest major r { s with request := Function.update s.request r F } := if_pos ⟨hfree, hdev⟩
  obtain ⟨buffer, heq⟩ := addRequest_eq major r F s
  rw [hturn, heq]
  obtain ⟨hcur, Q'⟩ | ⟨tmp, p, hcur, hplace, Q'⟩ :=
    W.queued.add (F := { F with next := none }) major hfree hdev rfl rfl
  · rw [hcur]
    exact ⟨_, rfl, ⟨Q', hruns⟩, nofun, hself, hother⟩
  · rw [hcur]
    dsimp only
    rw [hplace]
    have hlink : Relinked (Function.update s.request r { F with next := none })
        (link (Function.update s.request r { F with next := none }) r p) := link_relinked
    refine ⟨_, rfl, ⟨Q', fun d => (hruns d).congr fun x _ y _ => ?_⟩, fun _ _ => rfl, ?_, fun q hq => ?_⟩
    · exact inOrder_congr (hlink.key x) (hlink.key y)
    · exact (hlink.key r).trans hself
    · exact (hlink.key q).trans (hother q hq)

theorem Swept.remove {queue : Nat → List Slot} (W : Swept s queue) (major : Nat) (uptodate : Bool)
    (hcur : s.current major = some r) :
    ∃ s' l, turn s (.remove major uptodate) = some s' ∧ queue major = r :: l ∧
      Swept s' (Function.update queue major l) := by
  obtain ⟨-, l, hl, Q'⟩ := W.queued.pop hcur
  have hend : ∃ buffer ended, turn s (.remove major uptodate) = some { s with
      buffer := buffer
      request := Function.update s.request r { s.request r with dev := -1 }
      current := Function.update s.current major (s.request r).next
      ended := ended } := by
    have hturn : turn s (.remove major uptodate) = endRequest major uptodate s := rfl
    rw [hturn, endRequest, hcur, Option.map_some]
    split
    · exact ⟨_, _, rfl⟩
    · exact ⟨_, _, rfl⟩
  obtain ⟨buffer, ended, hend⟩ := hend
  refine ⟨_, l, hend, hl, Q', fun d => ?_⟩
  -- what is left of the queues does not have the request
  have hr : r ∈ queue major := hl ▸ List.mem_cons_self
  have hnd := (W.queued.chain major).nodup
  rw [hl] at hnd
  have hold : Lib.TwoRuns (slotOrder s.request) (Function.update queue major l d) ∧
      r ∉ Function.update queue major l d := by
    by_cases hd : d = major
    · subst hd
      rw [Function.update_self]
      have hruns := W.runs d
      rw [hl] at hruns
      exact ⟨hruns.tail, (List.nodup_cons.mp hnd).1⟩
    · rw [Function.update_of_ne hd]
      exact ⟨W.runs d, fun h => hd (W.queued.apart d major r h hr)⟩
  refine hold.1.congr fun x hx y hy => ?_
  have hxr : x ≠ r := fun he => hold.2 (he ▸ hx)
  have hyr : y ≠ r := fun he => hold.2 (he ▸ hy)
  rw [slotOrder, slotOrder]
  dsimp only
  rw [Function.update_of_ne hxr, Function.update_of_ne hyr]

/-! ## Runs -/

omit [DecidableEq β] in
theorem swept_start (h : Start s) : Swept s fun _ => [] where
  queued := {
    chain := fun d => by rw [h.current d]; exact .nil
    apart := fun _ _ _ hr => by cases hr
    busy := fun r => by
      refine iff_of_false ?_ fun ⟨_, hr⟩ => by cases hr
      rw [(h.request r).1]
      decide }
  runs _ := .nil

theorem swept (h : Lib.Reach turn Distinct Start s) : ∃ queue, Swept s queue := by
  refine h.invariant (I := fun s => ∃ queue, Swept s queue) (fun s hs => ⟨_, swept_start hs⟩)
    fun s e s' ⟨queue, W⟩ hg hstep => ?_
  cases e with
  | add major r F =>
    have hok : (s.request r).dev < 0 ∧ 0 ≤ F.dev := by
      by_contra hno
      rw [show turn s (.add major r F) = none from if_neg hno] at hstep
      cases hstep
    obtain ⟨u, hu, W', -⟩ := W.add major hok.1 hok.2 hg
    cases hu.symm.trans hstep
    exact ⟨_, W'⟩
  | remove major uptodate =>
    obtain ⟨r, hcur, -⟩ := Option.map_eq_some_iff.mp hstep
    obtain ⟨u, l, hu, -, W'⟩ := W.remove major uptodate hcur
    cases hu.symm.trans hstep
    exact ⟨_, W'⟩

/-- THE ELEVATOR. In every reachable state each queue is at most two ascending runs, with at most one
request that is out of order with the next. A new request is put into the queue of its device, where
the others keep their order, and the first one stays first; to end the first request takes it from
its queue. -/
theorem elevator (h : Lib.Reach turn Distinct Start s) : ∃ queue : Nat → List Slot,
    (∀ d, Lib.Chain (fun r => (s.request r).next) (s.current d) (queue d) ∧
      Lib.TwoRuns (slotOrder s.request) (queue d) ∧
      ∀ i j (hi : i + 1 < (queue d).length) (hj : j + 1 < (queue d).length),
        inOrder (s.request (queue d)[i]) (s.request (queue d)[i + 1]) = false →
        inOrder (s.request (queue d)[j]) (s.request (queue d)[j + 1]) = false → i = j) ∧
    (∀ d r F, (s.request r).dev < 0 → 0 ≤ F.dev → Distinct s (.add d r F) →
      ∃ s' l₁ l₂, turn s (.add d r F) = some s' ∧ queue d = l₁ ++ l₂ ∧
        Lib.Chain (fun r => (s'.request r).next) (s'.current d) (l₁ ++ r :: l₂) ∧
        (queue d ≠ [] → s'.current d = s.current d) ∧
        (∀ e, e ≠ d → Lib.Chain (fun r => (s'.request r).next) (s'.current e) (queue e)) ∧
        (s'.request r).key = F.key ∧ ∀ q, q ≠ r → (s'.request q).key = (s.request q).key) ∧
    ∀ d r uptodate, s.current d = some r →
      ∃ s' l, turn s (.remove d uptodate) = some s' ∧ queue d = r :: l ∧
        Lib.Chain (fun r => (s'.request r).next) (s'.current d) l ∧
        ∀ e, e ≠ d → Lib.Chain (fun r => (s'.request r).next) (s'.current e) (queue e) := by
  obtain ⟨queue, W⟩ := swept h
  refine ⟨queue, fun d => ⟨W.queued.chain d, W.runs d, fun i j hi hj hni hnj => ?_⟩,
    fun d r F hfree hdev hdistinct => ?_, fun d r uptodate hcur => ?_⟩
  · exact (W.runs d).turn hi hj hni hnj
  · obtain ⟨s', hs, W', hfirst, hkey, hkeys⟩ := W.add d hfree hdev hdistinct
    obtain ⟨l₁, l₂, hsplit, hsweep⟩ :=
      Lib.sweep_split (slotOrder (Function.update s.request r { F with next := none })) r (queue d)
    refine ⟨s', l₁, l₂, hs, hsplit, ?_, fun hne => ?_, fun e he => ?_, hkey, hkeys⟩
    · have hchain := W'.queued.chain d
      rw [grown, Function.update_self, hsweep] at hchain
      exact hchain
    · obtain ⟨tmp, l, hl⟩ := List.exists_cons_of_ne_nil hne
      have hchain := W.queued.chain d
      rw [hl] at hchain
      rw [hfirst tmp hchain.start]
    · have hchain := W'.queued.chain e
      rw [grown, Function.update_of_ne he] at hchain
      exact hchain
  · obtain ⟨s', l, hs, hl, W'⟩ := W.remove d uptodate hcur
    refine ⟨s', l, hs, hl, ?_, fun e he => ?_⟩
    · have hchain := W'.queued.chain d
      rw [Function.update_self] at hchain
      exact hchain
    · have hchain := W'.queued.chain e
      rw [Function.update_of_ne he] at hchain
      exact hchain

/-- A request of the first hard disk for a sector. -/
def readSector (sector : Nat) : Request (Fin 3) Bool :=
  ⟨0x301, .read, 0, sector, 2, 0, none, some 0, none⟩

/-- The key of a new request is compared with those of all busy slots. -/
def distinctCheck (s : State (Fin 3) Bool) : Turn (Fin 3) Bool → State (Fin 3) Bool → Bool
  | .add _ _ F, _ => decide (∀ q, (s.request q).key ≠ F.key)
  | .remove .., _ => true

theorem distinct_of_check (s : State (Fin 3) Bool) (e : Turn (Fin 3) Bool) (s' : State (Fin 3) Bool)
    (_ : turn s e = some s') (h : distinctCheck s e s' = true) : Distinct s e := by
  cases e with
  | add major r F => exact fun l _ q _ => of_decide_eq_true h q
  | remove major uptodate => trivial

/-- Sector 20 is served; 25 goes before 30, and 10 waits for the next sweep. -/
theorem elevator_four : ∃ s : State (Fin 3) Bool, s.current 3 = some 0 ∧
    (s.request 0).next = some 2 ∧ (s.request 2).next = some 1 ∧ (s.request 1).next = some 3 ∧
      ∃ queue : Nat → List Slot,
        Lib.Chain (fun r => (s.request r).next) (s.current 3) (queue 3) ∧
          Lib.TwoRuns (slotOrder s.request) (queue 3) := by
  obtain ⟨s, hs, hcur, h0, h2, h1⟩ : ∃ s, Lib.run (fun s e => (turn s e).filter (distinctCheck s e))
      fresh [.add 3 0 (readSector 20), .add 3 1 (readSector 30), .add 3 2 (readSector 25),
        .add 3 3 (readSector 10)] = some s ∧
        s.current 3 = some 0 ∧ (s.request 0).next = some 2 ∧ (s.request 2).next = some 1 ∧
          (s.request 1).next = some 3 :=
    ⟨_, rfl, by decide +kernel, by decide +kernel, by decide +kernel, by decide +kernel⟩
  obtain ⟨queue, hqueue, -⟩ := elevator (.ofChecked distinct_of_check (.start fresh_start) hs)
  exact ⟨s, hcur, h0, h2, h1, queue, (hqueue 3).1, (hqueue 3).2.1⟩

end Linux011.Block
